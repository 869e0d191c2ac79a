import ClassAtlas.ClassFile.Basic

/-!
# Class file grammar

A layout lists the parts of a class file in file order, and `encode` writes it. A layout is
well-formed if every part has its prescribed size and the constants fill the declared slots; its
content is what its indices resolve to. The decoder is specified against this grammar.
Specification: `SPEC_FULL.md` §4.2, lines 40–46.
-/

namespace ClassAtlas

/-- Constant as stored: a text, a class reference, an opaque constant of fixed size, or an opaque
constant that occupies two indices. -/
inductive StoredConstant where
  | text (bytes : List UInt8)
  | classRef (nameIndex : UInt16)
  | fixed (tag : UInt8) (content : List UInt8)
  | wide (tag : UInt8) (content : List UInt8)
  deriving DecidableEq, Repr

namespace StoredConstant

/-- Encoding of a constant. -/
def encode : StoredConstant → List UInt8
  | text bytes => 1 :: Bytes.word (UInt16.ofNat bytes.length) ++ bytes
  | classRef nameIndex => 7 :: Bytes.word nameIndex
  | fixed tag content | wide tag content => tag :: content

/-- Slots occupied by a constant. -/
def slots : StoredConstant → List (Option Constant)
  | text bytes => [some (.text (ModifiedUtf8.decode bytes))]
  | classRef nameIndex => [some (.classRef nameIndex)]
  | fixed .. => [some .other]
  | wide .. => [some .other, none]

/-- The content of a constant has the size determined by its tag. -/
def IsWellSized : StoredConstant → Prop
  | text bytes => bytes.length < Bytes.wordLimit
  | classRef _ => True
  | fixed tag content => ConstantLayout.ofTag? tag = some (.fixed content.length)
  | wide tag content => ConstantLayout.ofTag? tag = some .wide ∧ content.length = 8

end StoredConstant

/-- Table encoding: a two-byte count followed by the items. -/
def counted {α : Type} (items : List α) (write : α → List UInt8) : List UInt8 :=
  Bytes.word (UInt16.ofNat items.length) ++ items.flatMap write

/-- Stored nesting record. Index zero encodes an absent class; `tail` holds the simple name and the
access flags. -/
structure StoredNesting where
  inner : UInt16
  outer : UInt16
  tail : List UInt8
  deriving DecidableEq, Repr

/-- Encoding of a nesting record. -/
def StoredNesting.encode (record : StoredNesting) : List UInt8 :=
  Bytes.word record.inner ++ Bytes.word record.outer ++ record.tail

/-- Body of an attribute: opaque bytes, or nesting records followed by `slack` bytes that no record
covers. -/
inductive AttributeBody where
  | plain (bytes : List UInt8)
  | nesting (records : List StoredNesting) (slack : List UInt8)
  deriving DecidableEq, Repr

/-- Encoding of an attribute body. -/
def AttributeBody.encode : AttributeBody → List UInt8
  | plain bytes => bytes
  | nesting records slack => counted records StoredNesting.encode ++ slack

/-- Nesting records of an attribute body. -/
def AttributeBody.records : AttributeBody → List StoredNesting
  | plain _ => []
  | nesting records _ => records

/-- Stored attribute; `nameIndex` refers to its name. -/
structure StoredAttribute where
  nameIndex : UInt16
  body : AttributeBody
  deriving DecidableEq, Repr

/-- Encoding of an attribute: name index, body length, body. -/
def StoredAttribute.encode (stored : StoredAttribute) : List UInt8 :=
  Bytes.word stored.nameIndex ++ Bytes.ofNat 4 stored.body.encode.length ++
    stored.body.encode

/-- Stored field; `head` holds the access flags and the name index. -/
structure StoredField where
  head : List UInt8
  descriptorIndex : UInt16
  attributes : List StoredAttribute
  deriving DecidableEq, Repr

/-- Encoding of a field. -/
def StoredField.encode (field : StoredField) : List UInt8 :=
  field.head ++ Bytes.word field.descriptorIndex ++
    counted field.attributes StoredAttribute.encode

/-- Stored method; `head` holds the access flags and the indices of name and descriptor. -/
structure StoredMethod where
  head : List UInt8
  attributes : List StoredAttribute
  deriving DecidableEq, Repr

/-- Encoding of a method. -/
def StoredMethod.encode (method : StoredMethod) : List UInt8 :=
  method.head ++ counted method.attributes StoredAttribute.encode

/-- Parts of a class file in file order. `slotCount` counts slot zero; `superclass` zero encodes its
absence. -/
structure ClassFileLayout where
  version : List UInt8
  slotCount : UInt16
  constants : List StoredConstant
  access : List UInt8
  self : UInt16
  superclass : UInt16
  interfaces : List UInt16
  fields : List StoredField
  methods : List StoredMethod
  attributes : List StoredAttribute
  deriving DecidableEq, Repr

namespace ClassFileLayout

/-- Encoding of the parts in front of the pool's slots. -/
def header (version : List UInt8) (slotCount : UInt16) : List UInt8 :=
  Bytes.ofNat 4 ClassFile.magic.toNat ++ version ++ Bytes.word slotCount

/-- Encoding of the parts behind the pool. -/
def body (layout : ClassFileLayout) : List UInt8 :=
  layout.access ++ Bytes.word layout.self ++ Bytes.word layout.superclass ++
    counted layout.interfaces Bytes.word ++ counted layout.fields StoredField.encode ++
    counted layout.methods StoredMethod.encode ++ counted layout.attributes StoredAttribute.encode

/-- Encoding of a class file. -/
def encode (layout : ClassFileLayout) : List UInt8 :=
  header layout.version layout.slotCount ++ layout.constants.flatMap StoredConstant.encode ++
    layout.body

/-- Pool formed by the stored constants. -/
def pool (layout : ClassFileLayout) : ConstantPool :=
  ⟨(none :: layout.constants.flatMap StoredConstant.slots).toArray⟩

/-- Count and body lengths of an attribute table are representable. -/
def AttributesFit (attributes : List StoredAttribute) : Prop :=
  attributes.length < Bytes.wordLimit ∧
    ∀ stored ∈ attributes, stored.body.encode.length < Bytes.doubleWordLimit

/-- An attribute body is stored as nesting records exactly if its attribute has their name. -/
def BodyMatches (pool : ConstantPool) (stored : StoredAttribute) : Prop :=
  match stored.body with
  | .plain _ => pool.text stored.nameIndex ≠ .ok ClassFile.innerClassesAttribute
  | .nesting records _ =>
    pool.text stored.nameIndex = .ok ClassFile.innerClassesAttribute ∧
      records.length < Bytes.wordLimit ∧ ∀ record ∈ records, record.tail.length = 4

/-- Well-formed layout: fixed-width parts have their width, tables fit their counts, attribute
bodies have the form their names require, and the constants fill the slots behind slot zero. -/
structure IsWellFormed (layout : ClassFileLayout) : Prop where
  version : layout.version.length = 4
  constants : ∀ constant ∈ layout.constants, constant.IsWellSized
  slots : layout.pool.slots.size = max layout.slotCount.toNat 1
  access : layout.access.length = 2
  interfaces : layout.interfaces.length < Bytes.wordLimit
  fieldCount : layout.fields.length < Bytes.wordLimit
  fields : ∀ field ∈ layout.fields, field.head.length = 4 ∧ AttributesFit field.attributes
  methodCount : layout.methods.length < Bytes.wordLimit
  methods : ∀ method ∈ layout.methods, method.head.length = 6 ∧ AttributesFit method.attributes
  attributes : AttributesFit layout.attributes
  bodies : ∀ stored ∈ layout.attributes, BodyMatches layout.pool stored

/-- Class name at an index, where index zero encodes absence. -/
def optionalName? (pool : ConstantPool) (index : UInt16) : Option (Option String) :=
  if index = 0 then some none else (pool.className index).toOption.map some

/-- Resolved nesting record; a record without an inner class resolves to nothing. -/
def innerClass? (pool : ConstantPool) (record : StoredNesting) : Option (Option InnerClass) :=
  if record.inner = 0 then some none
  else do
    let inner ← (pool.className record.inner).toOption
    let outer ← optionalName? pool record.outer
    return some ⟨inner, outer⟩

/-- Resolved nesting records of a class attribute. The attribute's name has to resolve in any
case. -/
def attributeContent? (pool : ConstantPool) (stored : StoredAttribute) :
    Option (List InnerClass) := do
  let _ ← (pool.text stored.nameIndex).toOption
  let records ← stored.body.records.mapM (innerClass? pool)
  return records.filterMap id

/-- Resolved content of a layout, provided that every index refers to a constant of its form. -/
def content? (layout : ClassFileLayout) : Option ClassFile := do
  let pool := layout.pool
  let name ← (pool.className layout.self).toOption
  let superName ← optionalName? pool layout.superclass
  let interfaces ← layout.interfaces.mapM fun index => (pool.className index).toOption
  let fieldDescriptors ←
    layout.fields.mapM fun field => (pool.text field.descriptorIndex).toOption
  let innerClasses ← layout.attributes.mapM (attributeContent? pool)
  return { name, superName, interfaces, fieldDescriptors, innerClasses := innerClasses.flatten }

end ClassFileLayout

end ClassAtlas
