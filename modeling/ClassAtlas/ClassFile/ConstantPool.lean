import ClassAtlas.ClassFile.Decoder
import ClassAtlas.ClassFile.ModifiedUtf8

/-!
# Constant pool

Constants are indexed from one. An eight-byte constant occupies two indices, of which the second is
unusable, as index zero is. Only texts and class references are retained; every other constant is
skipped by the length that its tag determines. Specification: `SPEC_FULL.md` §4.2, lines 40–46, and
§10.2, lines 128–129.
-/

namespace ClassAtlas

/-- Usable constant: a text, a class reference with the index of its name, or any other constant. -/
inductive Constant where
  | text (value : String)
  | classRef (nameIndex : UInt16)
  | other
  deriving DecidableEq, Repr

/-- Layout of the content behind a tag: a length-prefixed text, a name index, a skipped content of
fixed size, or the skipped eight bytes of a constant with two indices. -/
inductive ConstantLayout where
  | text
  | classRef
  | fixed (size : Nat)
  | wide
  deriving DecidableEq, Repr

/-- Layout determined by a tag; absent for tags outside of the format. -/
def ConstantLayout.ofTag? : UInt8 → Option ConstantLayout
  | 1 => some .text
  | 7 => some .classRef
  | 8 | 16 | 19 | 20 => some (.fixed 2)
  | 15 => some (.fixed 3)
  | 3 | 4 | 9 | 10 | 11 | 12 | 17 | 18 => some (.fixed 4)
  | 5 | 6 => some .wide
  | _ => none

/-- Constant pool by index; an unusable index holds `none`. -/
structure ConstantPool where
  slots : Array (Option Constant)
  deriving DecidableEq, Repr

namespace ConstantPool

/-- Decode the constants with indices from `index` to `count - 1`, appending to `slots`. -/
def decodeFrom (count index : UInt16) (slots : Array (Option Constant)) : Decoder ConstantPool :=
  if _inside : index < count then do
    let tag ← Decoder.u8
    match ConstantLayout.ofTag? tag with
    | none => .refuse (.unknownConstantTag index tag)
    | some .text => do
      let length ← Decoder.u16
      let bytes ← Decoder.bytes length.toNat
      decodeFrom count (index + 1) (slots.push (some (.text (ModifiedUtf8.decode bytes))))
    | some .classRef => do
      let nameIndex ← Decoder.u16
      decodeFrom count (index + 1) (slots.push (some (.classRef nameIndex)))
    | some (.fixed size) => do
      Decoder.skip size
      decodeFrom count (index + 1) (slots.push (some .other))
    | some .wide =>
      if _room : index + 1 < count then do
        Decoder.skip 8
        decodeFrom count (index + 2) ((slots.push (some .other)).push none)
      else .refuse (.badConstantIndex index)
  else .done ⟨slots⟩
termination_by count.toNat - index.toNat
decreasing_by
  all_goals
    have := count.toNat_lt
    have := index.toNat_lt
    simp only [UInt16.lt_iff_toNat_lt, UInt16.toNat_add, UInt16.reduceToNat] at *
    omega

/-- Decode a pool: its slot count, slot zero included, followed by its constants. -/
def decoder : Decoder ConstantPool := do
  let count ← Decoder.u16
  decodeFrom count 1 #[none]

/-- Constant at an index. -/
def get (pool : ConstantPool) (index : UInt16) : Except ClassFileError Constant :=
  match pool.slots[index.toNat]? with
  | some (some constant) => .ok constant
  | _ => .error (.badConstantIndex index)

/-- Text at an index. -/
def text (pool : ConstantPool) (index : UInt16) : Except ClassFileError String := do
  match ← pool.get index with
  | .text value => .ok value
  | _ => .error (.unexpectedConstant index .text)

/-- Name of the class reference at an index. -/
def className (pool : ConstantPool) (index : UInt16) : Except ClassFileError String := do
  match ← pool.get index with
  | .classRef nameIndex => pool.text nameIndex
  | _ => .error (.unexpectedConstant index .classRef)

/-- Decode an index and resolve it to a text. -/
def textDecoder (pool : ConstantPool) : Decoder String := do
  let index ← Decoder.u16
  Decoder.ofExcept (pool.text index)

/-- Decode an index and resolve it to a class name. -/
def classNameDecoder (pool : ConstantPool) : Decoder String := do
  let index ← Decoder.u16
  Decoder.ofExcept (pool.className index)

end ConstantPool

end ClassAtlas
