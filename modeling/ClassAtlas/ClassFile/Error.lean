import ClassAtlas.Number.Hex

/-!
# Class file errors

One constructor for each way a class file is malformed, and its text. Specification: `SPEC_FULL.md`
§10.2, lines 128–129.
-/

namespace ClassAtlas

/-- Form of constant that an index is required to refer to. -/
inductive ConstantForm where
  | classRef
  | text
  deriving DecidableEq, Repr

/-- Name of a form in the class file format. -/
def ConstantForm.label : ConstantForm → String
  | .classRef => "Class"
  | .text => "Utf8"

/-- Class file error: a read of `needed` bytes at `offset` beyond the end of the input, a foreign
magic number, an index without a usable constant, a constant of another form than required, or a tag
outside of the format. -/
inductive ClassFileError where
  | truncated (offset needed : Nat)
  | badMagic (magic : UInt32)
  | badConstantIndex (index : UInt16)
  | unexpectedConstant (index : UInt16) (expected : ConstantForm)
  | unknownConstantTag (index : UInt16) (tag : UInt8)
  deriving DecidableEq, Repr

/-- Text of a class file error. -/
def ClassFileError.message : ClassFileError → String
  | .truncated offset needed =>
    s!"truncated classfile: needed {needed} bytes at offset {offset}"
  | .badMagic magic => "bad magic number 0x" ++ Number.hexPadded 8 magic.toNat
  | .badConstantIndex index => s!"constant pool index {index.toNat} out of range"
  | .unexpectedConstant index expected =>
    s!"constant pool entry {index.toNat} is not a {expected.label}"
  | .unknownConstantTag index tag =>
    s!"unknown constant pool tag {tag.toNat} at entry {index.toNat}"

end ClassAtlas
