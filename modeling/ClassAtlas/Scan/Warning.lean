import ClassAtlas.ClassFile.Error
import ClassAtlas.Classpath.Root
import ClassAtlas.Number.Decimal

/-!
# Scan diagnostics

Recovered failures of a scan and the warnings that report them; none of them ends the scan.
Specification: `SPEC_FULL.md` §7, lines 78 and 81, §10.2, lines 126–127, and §10.3, line 139.

Texts stop at the failure of the operating system or of the archive library: the wording that these
attach behind `: ` is theirs and not modelled. The cause of an undecodable class file is modelled
and belongs to the text.
-/

namespace ClassAtlas

/-- Failure of an entry: unreadable content or directory, an archive entry that cannot be opened,
one with an AES field that aborts its worker, or an undecodable class file. -/
inductive EntryError where
  | unreadable (root entry : String)
  | unopenable (root : String) (index : Nat)
  | locked (root : String) (index : Nat)
  | undecodable (root entry : String) (cause : ClassFileError)
  deriving DecidableEq, Repr

/-- Text of an entry error, up to the wording of a foreign cause. The text of a locked entry and
that of an undecodable class file are complete. -/
def EntryError.message : EntryError → String
  | .unreadable root entry => "failed to read " ++ entry ++ " from " ++ root
  | .unopenable root index =>
    "failed to read archive entry #" ++ Number.decimal index ++ " from " ++ root
  | .locked root index =>
    "worker panicked on #" ++ Number.decimal index ++ " in " ++ root ++
      ": called `Result::unwrap()` on an `Err` value: InvalidPassword"
  | .undecodable root entry cause =>
    "undecodable classfile " ++ entry ++ " in " ++ root ++ ": " ++ cause.message

/-- Warning about an archive that cannot be catalogued, a root that cannot be opened, or a failed
entry. -/
inductive Warning where
  | uncataloged (root : String) (cause : ArchiveFailure)
  | unreadableRoot (root : String) (cause : ArchiveFailure)
  | unreadableEntry (cause : EntryError)
  deriving DecidableEq, Repr

namespace Warning

/-- Message of a warning. -/
def message : Warning → String
  | .uncataloged .. => "failed to catalog archive"
  | .unreadableRoot .. => "skipping unreadable classpath root"
  | .unreadableEntry _ => "skipping unreadable entry"

/-- `root` field of a warning; entry errors name the root in their own text. -/
def root? : Warning → Option String
  | .uncataloged root _ | .unreadableRoot root _ => some root
  | .unreadableEntry _ => none

/-- `error` field of a warning, up to the wording of a foreign cause. -/
def detail : Warning → String
  | .uncataloged _ cause | .unreadableRoot _ cause => cause.message
  | .unreadableEntry cause => cause.message

end Warning

end ClassAtlas
