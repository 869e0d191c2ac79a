import ClassAtlas.ClassFile.ConstantPool

/-!
# Class file decoder

Structure of a class file as far as relationship extraction needs it: the class, its superclass and
interfaces, the field descriptors, and the records of its `InnerClasses` attributes. Methods and all
other attributes are skipped by their declared length. Names stay in internal form. Specification:
`SPEC_FULL.md` §4.2, lines 40–46.
-/

namespace ClassAtlas

/-- Resolved record of an `InnerClasses` attribute; `outer` is absent for a class that is not a
member. -/
structure InnerClass where
  inner : String
  outer : Option String
  deriving DecidableEq, Repr

/-- Decoded class file. Only the root of the class hierarchy has no superclass; interfaces, field
descriptors and nesting records keep the order of the file. -/
structure ClassFile where
  name : String
  superName : Option String
  interfaces : List String
  fieldDescriptors : List String
  innerClasses : List InnerClass
  deriving DecidableEq, Repr

namespace ClassFile

/-- Magic number of a class file. -/
def magic : UInt32 := 0xCAFEBABE

/-- Name of the attribute that holds nesting records. -/
def innerClassesAttribute : String := "InnerClasses"

/-- Skip an attribute table. -/
def skipAttributes : Decoder Unit := do
  let count ← Decoder.u16
  let _ ← Decoder.times count.toNat do
    Decoder.skip 2
    let length ← Decoder.u32
    Decoder.skip length.toNat

/-- Superclass reference, where index zero encodes its absence. -/
def superDecoder (pool : ConstantPool) : Decoder (Option String) := do
  let index ← Decoder.u16
  if index = 0 then return none
  some <$> Decoder.ofExcept (pool.className index)

/-- Interface table. -/
def interfacesDecoder (pool : ConstantPool) : Decoder (List String) := do
  let count ← Decoder.u16
  Decoder.times count.toNat pool.classNameDecoder

/-- Field table, reduced to the descriptors. -/
def fieldsDecoder (pool : ConstantPool) : Decoder (List String) := do
  let count ← Decoder.u16
  Decoder.times count.toNat do
    Decoder.skip 4
    let descriptor ← pool.textDecoder
    skipAttributes
    return descriptor

/-- Skip the method table. -/
def skipMethods : Decoder Unit := do
  let count ← Decoder.u16
  let _ ← Decoder.times count.toNat do
    Decoder.skip 6
    skipAttributes

/-- One nesting record; a record whose inner-class index is zero is dropped. -/
def innerClassDecoder (pool : ConstantPool) : Decoder (Option InnerClass) := do
  let innerIndex ← Decoder.u16
  let outerIndex ← Decoder.u16
  Decoder.skip 4
  if innerIndex = 0 then return none
  let outer ←
    if outerIndex = 0 then pure none else some <$> Decoder.ofExcept (pool.className outerIndex)
  let inner ← Decoder.ofExcept (pool.className innerIndex)
  return some ⟨inner, outer⟩

/-- Body of an `InnerClasses` attribute. -/
def innerClassesDecoder (pool : ConstantPool) : Decoder (List InnerClass) := do
  let count ← Decoder.u16
  let entries ← Decoder.times count.toNat (innerClassDecoder pool)
  return entries.filterMap id

/-- One class attribute, reduced to its nesting records. The body of an `InnerClasses` attribute is
decoded as a separate input, so that its reads are bounded by the declared length. -/
def attributeDecoder (pool : ConstantPool) : Decoder (List InnerClass) := do
  let name ← pool.textDecoder
  let length ← Decoder.u32
  let body ← Decoder.bytes length.toNat
  if name = innerClassesAttribute then
    Decoder.ofExcept ((innerClassesDecoder pool).decode body)
  else return []

/-- Class attribute table, reduced to all nesting records. -/
def attributesDecoder (pool : ConstantPool) : Decoder (List InnerClass) := do
  let count ← Decoder.u16
  let entries ← Decoder.times count.toNat (attributeDecoder pool)
  return entries.flatten

/-- Decoder of a whole class file. -/
def decoder : Decoder ClassFile := do
  let found ← Decoder.u32
  if found ≠ magic then Decoder.refuse (.badMagic found)
  else do
    Decoder.skip 4
    let pool ← ConstantPool.decoder
    Decoder.skip 2
    let name ← pool.classNameDecoder
    let superName ← superDecoder pool
    let interfaces ← interfacesDecoder pool
    let fieldDescriptors ← fieldsDecoder pool
    skipMethods
    let innerClasses ← attributesDecoder pool
    return { name, superName, interfaces, fieldDescriptors, innerClasses }

/-- Parse a class file; trailing bytes are ignored. -/
def parse (bytes : List UInt8) : Except ClassFileError ClassFile := decoder.decode bytes

end ClassFile

end ClassAtlas
