import ClassAtlas.Bytes
import ClassAtlas.Text.CodePage437
import ClassAtlas.Text.Utf8

/-!
# Central directory

The end of central directory record is located by a backward search, because a comment may follow
it. Bytes in front of the archive shift all offsets by the difference between the recorded and the
actual end of the directory. The Zip64 record is reached through its locator. An archive with an
unreadable directory entry is rejected as a whole. Specification: `SPEC_FULL.md` §10.6, lines
171–174.
-/

namespace ClassAtlas.Archive

/-- Little-endian integer at an offset, within the bounds of the data. -/
def number? (data : ByteArray) (offset width : Nat) : Option Nat :=
  if offset + width ≤ data.size then
    some (Bytes.littleEndian (data.extract offset (offset + width)).data.toList)
  else none

/-- Bytes at an offset, within the bounds of the data. -/
def slice? (data : ByteArray) (offset count : Nat) : Option (List UInt8) :=
  if offset + count ≤ data.size then some (data.extract offset (offset + count)).data.toList
  else none

/-- Signature of the end of central directory record. -/
def endSignature : Nat := 0x06054b50

/-- Signature of the Zip64 end of central directory record. -/
def wideEndSignature : Nat := 0x06064b50

/-- Signature of the Zip64 locator. -/
def locatorSignature : Nat := 0x07064b50

/-- Signature of a central directory entry. -/
def entrySignature : Nat := 0x02014b50

/-- Signature of a local header. -/
def localSignature : Nat := 0x04034b50

/-- Sentinel of a two-byte field whose value is in the Zip64 record. -/
def max16 : Nat := 0xFFFF

/-- Sentinel of a four-byte field whose value is in the Zip64 record. -/
def max32 : Nat := 0xFFFFFFFF

/-- End of central directory record, with the position at which it was found. -/
structure EndRecord where
  position : Nat
  disk : Nat
  directoryDisk : Nat
  entriesHere : Nat
  entries : Nat
  directorySize : Nat
  directoryOffset : Nat
  commentLength : Nat

/-- Size of the end record without its comment. -/
def endRecordSize : Nat := 22

/-- Read the end record at a position; its comment has to be complete. -/
def EndRecord.read? (data : ByteArray) (position : Nat) : Option EndRecord := do
  let disk ← number? data (position + 4) 2
  let directoryDisk ← number? data (position + 6) 2
  let entriesHere ← number? data (position + 8) 2
  let entries ← number? data (position + 10) 2
  let directorySize ← number? data (position + 12) 4
  let directoryOffset ← number? data (position + 16) 4
  let commentLength ← number? data (position + 20) 2
  let _ ← slice? data (position + endRecordSize) commentLength
  return { position, disk, directoryDisk, entriesHere, entries, directorySize, directoryOffset,
           commentLength }

/-- Last occurrence of a signature among the `count` positions up to `highest`. -/
def lastSignature? (data : ByteArray) (signature highest : Nat) : (count : Nat) → Option Nat
  | 0 => none
  | count + 1 =>
    if number? data highest 4 = some signature then some highest
    else if highest = 0 then none
    else lastSignature? data signature (highest - 1) count

/-- First occurrence of a signature among the `count` positions from `lowest` on. -/
def firstSignature? (data : ByteArray) (signature lowest : Nat) : (count : Nat) → Option Nat
  | 0 => none
  | count + 1 =>
    if number? data lowest 4 = some signature then some lowest
    else firstSignature? data signature (lowest + 1) count

/-- Last end record within reach of a comment of maximal length. -/
def EndRecord.find? (data : ByteArray) : Option EndRecord := do
  if data.size < endRecordSize then none
  let position ← lastSignature? data endSignature (data.size - endRecordSize) (max16 + 1)
  EndRecord.read? data position

/-- Some field of the end record holds a sentinel. -/
def EndRecord.isTooSmall (record : EndRecord) : Bool :=
  record.disk = max16 || record.directoryDisk = max16 || record.entriesHere = max16 ||
    record.entries = max16 || record.directorySize = max32 || record.directoryOffset = max32

/-- Location of the central directory: the shift of all offsets, the shifted start, and the number
of entries. -/
structure Location where
  shift : Nat
  start : Nat
  count : Nat

/-- Location according to the end record. -/
def Location.ofEnd? (record : EndRecord) : Option Location :=
  let nominal := record.directorySize + record.directoryOffset
  if record.position < nominal then none
  else
    let shift := record.position - nominal
    some ⟨shift, record.directoryOffset + shift, record.entriesHere⟩

/-- Zip64 locator in front of the end record: disk and offset of the Zip64 record. -/
def locator? (data : ByteArray) (record : EndRecord) : Option (Nat × Nat) := do
  let back := 20 + endRecordSize + record.commentLength
  if data.size < back then none
  let position := data.size - back
  if (← number? data position 4) ≠ locatorSignature then none
  return (← number? data (position + 4) 4, ← number? data (position + 8) 8)

/-- Least distance between the Zip64 record and the end record. -/
def wideDistance : Nat := 60

/-- Exclusive bound of the eight-byte integers. -/
def offsetLimit : Nat := 0x10000000000000000

/-- Location according to the Zip64 record. -/
def Location.ofWideEnd? (data : ByteArray) (record : EndRecord) (locator : Nat × Nat) :
    Option Location := do
  if !record.isTooSmall && record.disk ≠ locator.1 then none
  if record.position < wideDistance then none
  let position ← firstSignature? data wideEndSignature locator.2
    (record.position - wideDistance + 1 - locator.2)
  let shift := position - locator.2
  if (← number? data (position + 16) 4) ≠ (← number? data (position + 20) 4) then none
  let count ← number? data (position + 32) 8
  let start := (← number? data (position + 48) 8) + shift
  if offsetLimit ≤ start then none
  return ⟨shift, start, count⟩

/-- Location of the central directory. -/
def Location.find? (data : ByteArray) : Option Location := do
  let record ← EndRecord.find? data
  if !record.isTooSmall && record.disk ≠ record.directoryDisk then none
  match locator? data record with
  | none => Location.ofEnd? record
  | some locator => Location.ofWideEnd? data record locator

/-- Central directory entry; `strong` records an AES field. -/
structure Entry where
  name : String
  encrypted : Bool
  strong : Bool
  method : Nat
  checksum : UInt32
  compressedSize : Nat
  size : Nat
  headerOffset : Nat

/-- Method number that stands for AES encryption. -/
def strongMethod : Nat := 99

/-- Entry name in the character set that the entry declares. -/
def entryName (utf8 : Bool) (bytes : List UInt8) : String :=
  if utf8 then String.ofList (Text.Utf8.decodeLossy bytes) else Text.CodePage437.decode bytes

/-- Result of an extra field: the updated entry with the offset of the next field, an incomplete
field, or a malformed one. -/
inductive FieldResult where
  | next (entry : Entry) (behind : Nat)
  | brokenOff (entry : Entry)
  | refused

/-- Replace a sentinel by the next Zip64 integer. -/
def widen (extra : ByteArray) (offset known : Nat) : Option (Nat × Nat) :=
  if known = max32 then (number? extra offset 8).map fun wide => (wide, offset + 8)
  else some (known, offset)

/-- Zip64 field: the sizes and the offset whose directory fields hold a sentinel, in fixed order. -/
def Entry.withWideSizes (entry : Entry) (extra : ByteArray) (start length : Nat) :
    FieldResult :=
  match widen extra start entry.size with
  | none => .brokenOff entry
  | some (size, offset) =>
    let entry := { entry with size }
    match widen extra offset entry.compressedSize with
    | none => .brokenOff entry
    | some (compressedSize, offset) =>
      let entry := { entry with compressedSize }
      match widen extra offset entry.headerOffset with
      | none => .brokenOff entry
      | some (headerOffset, offset) =>
        .next { entry with headerOffset } (max offset (start + length))

/-- AES field, which names the actual compression method. As many bytes again as the field has are
skipped behind it. -/
def Entry.withStrong (entry : Entry) (extra : ByteArray) (start length : Nat) : FieldResult :=
  if length ≠ 7 then .refused
  else
    match number? extra start 2, number? extra (start + 2) 2, number? extra (start + 4) 1,
      number? extra (start + 5) 2 with
    | some version, some vendor, some strength, some method =>
      if vendor ≠ 0x4541 || (version ≠ 1 && version ≠ 2) || strength < 1 || 3 < strength then
        .refused
      else .next { entry with strong := true, method } (start + 2 * length)
    | _, _, _, _ => .brokenOff entry

/-- Process the extra fields from an offset on. An incomplete field ends the list; `fuel` bounds the
number of fields. -/
def Entry.withFields (extra : ByteArray) : (fuel : Nat) → (offset : Nat) → Entry → Option Entry
  | 0, _, entry => some entry
  | fuel + 1, offset, entry =>
    match number? extra offset 2, number? extra (offset + 2) 2 with
    | some kind, some length =>
      let start := offset + 4
      let result :=
        if kind = 0x0001 then entry.withWideSizes extra start length
        else if kind = 0x9901 then entry.withStrong extra start length
        else .next entry (start + length)
      match result with
      | .refused => none
      | .brokenOff entry => some entry
      | .next entry behind => withFields extra fuel behind entry
    | _, _ => some entry

/-- Size of a directory entry without name, extra fields and comment. -/
def entryHeaderSize : Nat := 46

/-- Flag bit of an encrypted entry. -/
def encryptedFlag : Nat := 0

/-- Flag bit of a name in UTF-8. -/
def utf8Flag : Nat := 11

/-- Read the directory entry at an offset, with the offset behind it. -/
def Entry.read? (data : ByteArray) (shift offset : Nat) : Option (Entry × Nat) := do
  if (← number? data offset 4) ≠ entrySignature then none
  let flags ← number? data (offset + 8) 2
  let method ← number? data (offset + 10) 2
  let checksum ← number? data (offset + 16) 4
  let compressedSize ← number? data (offset + 20) 4
  let size ← number? data (offset + 24) 4
  let nameLength ← number? data (offset + 28) 2
  let extraLength ← number? data (offset + 30) 2
  let commentLength ← number? data (offset + 32) 2
  let headerOffset ← number? data (offset + 42) 4
  let nameBytes ← slice? data (offset + entryHeaderSize) nameLength
  let extra ← slice? data (offset + entryHeaderSize + nameLength) extraLength
  let _ ← slice? data (offset + entryHeaderSize + nameLength + extraLength) commentLength
  let entry : Entry :=
    { name := entryName (flags.testBit utf8Flag) nameBytes,
      encrypted := flags.testBit encryptedFlag,
      strong := false, method, checksum := UInt32.ofNat checksum, compressedSize, size,
      headerOffset }
  let entry ← entry.withFields extra.toByteArray (extra.length + 1) 0
  if entry.method = strongMethod && !entry.strong then none
  if offsetLimit ≤ entry.headerOffset + shift then none
  return ({ entry with headerOffset := entry.headerOffset + shift },
    offset + entryHeaderSize + nameLength + extraLength + commentLength)

/-- Read `count` consecutive directory entries. -/
def readEntries? (data : ByteArray) (shift : Nat) :
    (count : Nat) → (offset : Nat) → Option (List Entry)
  | 0, _ => some []
  | count + 1, offset => do
    let (entry, behind) ← Entry.read? data shift offset
    let rest ← readEntries? data shift count behind
    return entry :: rest

end ClassAtlas.Archive
