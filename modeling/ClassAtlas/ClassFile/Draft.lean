import ClassAtlas.ClassFile.Layout
import Std.Data.ExtTreeMap

/-!
# Class file assembler

Assembles the bytes of a small class file from its intended content. Constants are interned: each
text and each class reference is stored once, a reference behind its name, and the resulting indices
determine a layout. Specification: `SPEC_FULL.md` §10.8, lines 196–198.
-/

namespace ClassAtlas

/-- Content of a class file to be assembled, with names in internal form. Fields and methods are
pairs of name and descriptor; `longs` are eight-byte constants placed in front of all others. -/
structure ClassDraft where
  name : String
  superName : Option String
  interfaces : List String
  fields : List (String × String)
  methods : List (String × String)
  innerClasses : List InnerClass
  longs : List Int64

/-- Constant pool under construction: the constants so far, the next free index, and the indices of
the interned texts and class references. -/
structure PoolDraft where
  constants : Array StoredConstant := #[]
  next : UInt16 := 1
  texts : Std.ExtTreeMap String UInt16 := ∅
  classes : Std.ExtTreeMap String UInt16 := ∅

namespace PoolDraft

/-- Append a constant that occupies `slots` indices and return its index. -/
def append (constant : StoredConstant) (slots : UInt16) (pool : PoolDraft) : PoolDraft :=
  { pool with constants := pool.constants.push constant, next := pool.next + slots }

/-- Intern a text. -/
def text (value : String) : StateM PoolDraft UInt16 := fun pool =>
  match pool.texts[value]? with
  | some index => (index, pool)
  | none =>
    let extended := pool.append (.text (Text.Utf8.encode value)) 1
    (pool.next, { extended with texts := extended.texts.insert value pool.next })

/-- Intern a class reference behind its name. -/
def classRef (name : String) : StateM PoolDraft UInt16 := fun pool =>
  match pool.classes[name]? with
  | some index => (index, pool)
  | none =>
    let (nameIndex, named) := text name pool
    let extended := named.append (.classRef nameIndex) 1
    (named.next, { extended with classes := extended.classes.insert name named.next })

/-- Tag of an eight-byte integer constant. -/
def longTag : UInt8 := 5

/-- Append an eight-byte integer constant. -/
def long (value : Int64) (pool : PoolDraft) : PoolDraft :=
  pool.append (.wide longTag (Bytes.ofNat 8 value.toUInt64.toNat)) 2

/-- Intern the name and descriptor of a member. -/
def member (names : String × String) : StateM PoolDraft (UInt16 × UInt16) := do
  let name ← text names.1
  let descriptor ← text names.2
  return (name, descriptor)

/-- Intern both classes of a nesting record, where zero encodes an absent class. -/
def innerClass (entry : InnerClass) : StateM PoolDraft (UInt16 × UInt16) := do
  let inner ← classRef entry.inner
  let outer ← match entry.outer with
    | none => pure 0
    | some name => classRef name
  return (inner, outer)

end PoolDraft

namespace ClassDraft

/-- Constant pool indices of the parts of a draft, the names of the emitted attributes included. -/
structure Indices where
  self : UInt16
  superclass : UInt16
  interfaces : List UInt16
  fields : List (UInt16 × UInt16)
  code : UInt16
  methods : List (UInt16 × UInt16)
  sourceFile : UInt16
  sourceName : UInt16
  innerAttribute : UInt16
  innerClasses : List (UInt16 × UInt16)

/-- Intern all constants of a draft. -/
def collect (draft : ClassDraft) : StateM PoolDraft Indices := do
  modify fun pool => draft.longs.foldl (fun pool value => pool.long value) pool
  let self ← PoolDraft.classRef draft.name
  let superclass ← match draft.superName with
    | none => pure 0
    | some name => PoolDraft.classRef name
  let interfaces ← draft.interfaces.mapM PoolDraft.classRef
  let fields ← draft.fields.mapM PoolDraft.member
  let code ← PoolDraft.text "Code"
  let methods ← draft.methods.mapM PoolDraft.member
  let sourceFile ← PoolDraft.text "SourceFile"
  let sourceName ← PoolDraft.text "Fixture.java"
  let innerAttribute ← PoolDraft.text ClassFile.innerClassesAttribute
  let innerClasses ← draft.innerClasses.mapM PoolDraft.innerClass
  return { self, superclass, interfaces, fields, code, methods, sourceFile, sourceName,
           innerAttribute, innerClasses }

/-- Private field without attributes. -/
def storedField (member : UInt16 × UInt16) : StoredField where
  head := Bytes.word 0x0002 ++ Bytes.word member.1
  descriptorIndex := member.2
  attributes := []

/-- Method body consisting of a return instruction. -/
def returnBody : List UInt8 := [0, 1, 0, 1, 0, 0, 0, 1, 0xB1, 0, 0, 0, 0]

/-- Public method with the trivial body. -/
def storedMethod (code : UInt16) (member : UInt16 × UInt16) : StoredMethod where
  head := Bytes.word 0x0001 ++ Bytes.word member.1 ++ Bytes.word member.2
  attributes := [⟨code, .plain returnBody⟩]

/-- Nesting record without a simple name. -/
def storedNesting (entry : UInt16 × UInt16) : StoredNesting where
  inner := entry.1
  outer := entry.2
  tail := Bytes.word 0 ++ Bytes.word 0x0008

/-- Class attributes: the source file, and the nesting records unless there are none. -/
def storedAttributes (indices : Indices) : List StoredAttribute :=
  let sourceFile : StoredAttribute :=
    ⟨indices.sourceFile, .plain (Bytes.word indices.sourceName)⟩
  if indices.innerClasses.isEmpty then [sourceFile]
  else
    [sourceFile, ⟨indices.innerAttribute, .nesting (indices.innerClasses.map storedNesting) []⟩]

/-- Version emitted by the assembler. -/
def version : List UInt8 := Bytes.word 0 ++ Bytes.word 52

/-- Layout with the content of a draft. -/
def layout (draft : ClassDraft) : ClassFileLayout :=
  let (indices, pool) := draft.collect {}
  { version
    slotCount := pool.next
    constants := pool.constants.toList
    access := Bytes.word 0x0021
    self := indices.self
    superclass := indices.superclass
    interfaces := indices.interfaces
    fields := indices.fields.map storedField
    methods := indices.methods.map (storedMethod indices.code)
    attributes := storedAttributes indices }

/-- Bytes of a class file with the content of a draft. -/
def assemble (draft : ClassDraft) : List UInt8 := draft.layout.encode

/-- Tag of a four-byte integer constant. -/
def integerTag : UInt8 := 3

/-- Class file up to a pool of `slots` slots, in which four-byte constants fill all slots but the
last and the last holds an eight-byte constant whose second index exceeds the pool. -/
def trailingLongPool (slots : UInt16) : List UInt8 :=
  let constants :=
    List.replicate ((slots - 1).toNat - 1) (StoredConstant.fixed integerTag (Bytes.ofNat 4 0)) ++
      [.wide PoolDraft.longTag (Bytes.ofNat 8 0)]
  ClassFileLayout.header version slots ++ constants.flatMap StoredConstant.encode

end ClassDraft

end ClassAtlas
