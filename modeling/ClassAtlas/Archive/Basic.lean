import ClassAtlas.Archive.Crc32
import ClassAtlas.Archive.Directory
import ClassAtlas.Archive.Inflate

/-!
# Zip archives

An archive is its bytes together with its central directory. Opening an entry requires that it is
not encrypted, that its local header is where the directory places it, and that its compression
method is supported; an entry that passes these tests and carries an AES field fails in a way of its
own. The content of an entry is its decompressed data, verified against the directory's checksum.
Specification: `SPEC_FULL.md` §10.6, lines 171–174; the archive format is the library's that reads
it.
-/

namespace ClassAtlas

/-- Archive with the entries of its central directory in order. -/
structure Archive where
  data : ByteArray
  entries : List Archive.Entry

namespace Archive

/-- Open the archive in a byte sequence. -/
def ofBytes? (data : ByteArray) : Option Archive := do
  let location ← Location.find? data
  let entries ← readEntries? data location.shift location.count location.start
  return { data, entries }

/-- Size of a local header without name and extra fields. -/
def localHeaderSize : Nat := 30

/-- Offset of an entry's data, computed from its local header. -/
def dataStart? (archive : Archive) (entry : Entry) : Option Nat := do
  if (← number? archive.data entry.headerOffset 4) ≠ localSignature then none
  let nameLength ← number? archive.data (entry.headerOffset + 26) 2
  let extraLength ← number? archive.data (entry.headerOffset + 28) 2
  return entry.headerOffset + localHeaderSize + nameLength + extraLength

/-- Compressed data of an entry, truncated at the end of the archive. -/
def compressed? (archive : Archive) (entry : Entry) : Option ByteArray := do
  let start ← archive.dataStart? entry
  let stop := min (start + entry.compressedSize) archive.data.size
  return archive.data.extract (min start archive.data.size) stop

/-- Supported compression methods. -/
inductive Method where
  | stored
  | deflated
  deriving DecidableEq, Repr

/-- Compression method by its number. -/
def Method.ofNumber? : Nat → Option Method
  | 0 => some .stored
  | 8 => some .deflated
  | _ => none

/-- Opened entry. -/
structure OpenEntry where
  name : String
  method : Method
  checksum : UInt32
  compressed : ByteArray

/-- Failure to open an entry: `refused` for an encrypted one, one without its local header, or an
unsupported method; `locked` for one with an AES field that is not flagged as encrypted. -/
inductive OpenFailure where
  | refused
  | locked
  deriving DecidableEq, Repr

/-- Open an unencrypted entry. -/
def plainEntry? (archive : Archive) (entry : Entry) : Option OpenEntry := do
  let compressed ← archive.compressed? entry
  let method ← Method.ofNumber? entry.method
  return { name := entry.name, method, checksum := entry.checksum, compressed }

/-- Open an entry. -/
def openEntry (archive : Archive) (entry : Entry) : Except OpenFailure OpenEntry :=
  if entry.encrypted then .error .refused
  else
    match archive.plainEntry? entry with
    | none => .error .refused
    | some plain => if entry.strong then .error .locked else .ok plain

/-- Directory entries are recognized by the last character of their name. -/
def OpenEntry.isDirectory (entry : OpenEntry) : Bool :=
  entry.name.toList.getLast? == some '/' || entry.name.toList.getLast? == some '\\'

/-- Decompressed data of an entry, not yet verified. -/
def OpenEntry.decompressed? (entry : OpenEntry) : Option ByteArray :=
  match entry.method with
  | .stored => some entry.compressed
  | .deflated => Inflate.inflate? entry.compressed

/-- Verified content of an entry. -/
def OpenEntry.content? (entry : OpenEntry) : Option ByteArray :=
  entry.decompressed?.filter fun content => Crc32.ofBytes content == entry.checksum

end Archive

end ClassAtlas
