import ClassAtlas.ClassFile.Facts
import ClassAtlas.Proofs.ClassFile.Grammar
import ClassAtlas.Proofs.ClassFile.Interning
import Mathlib

/-!
# Assembler round trip

A draft within the limits of the format is assembled into a class file with exactly its content. Its
layout is well-formed because the slots are within the index range, and its indices resolve to the
names of the draft because they did so when they were interned. Specification: `SPEC_FULL.md` §4.2,
lines 41–46, and §10.8, lines 196–198.
-/

namespace ClassAtlas

/-- A descriptor refers to a class if and only if it is an object type below any number of array
dimensions. -/
theorem referencedClass?_eq_some_iff {descriptor name : String} :
    referencedClass? descriptor = some name ↔ ∃ dimensions : Nat,
      descriptor.toList = List.replicate dimensions '[' ++ 'L' :: name.toList ++ [';'] := by
  unfold referencedClass?
  constructor
  · intro h
    split at h
    · next rest hrest =>
      obtain ⟨stem, hstem, rfl⟩ := Option.map_eq_some_iff.mp h
      obtain rfl := Text.dropEnding?_eq_some_iff.mp hstem
      have hbrackets : descriptor.toList.takeWhile (· = '[') =
          List.replicate (descriptor.toList.takeWhile (· = '[')).length '[' := by
        refine List.eq_replicate_of_mem fun c hc => ?_
        simpa using List.mem_takeWhile_imp hc
      refine ⟨(descriptor.toList.takeWhile (· = '[')).length, ?_⟩
      rw [← hbrackets]
      calc descriptor.toList = descriptor.toList.takeWhile (· = '[') ++
            descriptor.toList.dropWhile (· = '[') := List.takeWhile_append_dropWhile.symm
        _ = _ := by simp [hrest]
    · cases h
  · rintro ⟨dimensions, h⟩
    have hrest : descriptor.toList.dropWhile (· = '[') = 'L' :: (name.toList ++ [';']) := by
      rw [h, List.append_assoc, List.dropWhile_append_of_pos (by simp)]
      simp
    simp [hrest, Text.dropEnding?_eq_some_iff.mpr rfl]

namespace ConstantPool

variable {pool : ConstantPool} {index : UInt16}

/-- The index of a class is not zero. -/
theorem HasClass.ne_zero {name : String} (h : pool.HasClass index name)
    (hfits : pool.slots.size ≤ Bytes.wordLimit) (hzero : pool.slots[0]? = some none) :
    index ≠ 0 := by
  rintro rfl
  obtain ⟨nameIndex, hslot, -⟩ := className_eq_ok_iff.mp (h.className hfits)
  exact absurd (hzero.symm.trans hslot) (by simp)

private theorem HasOptionalClass.optionalName? {name? : Option String}
    (h : pool.HasOptionalClass index name?) (hfits : pool.slots.size ≤ Bytes.wordLimit)
    (hzero : pool.slots[0]? = some none) :
    ClassFileLayout.optionalName? pool index = some name? := by
  cases name? with
  | none => exact if_pos h
  | some name =>
    rw [ClassFileLayout.optionalName?, if_neg (HasClass.ne_zero h hfits hzero),
      HasClass.className h hfits]
    rfl

end ConstantPool

namespace ClassDraft

open ClassFileLayout

/-! ### Limits of the format -/

/-- Slots occupied by the constants of a draft, slot zero excluded. -/
def slotCount (draft : ClassDraft) : Nat :=
  2 * draft.longs.length + draft.texts.toFinset.card + draft.classNames.toFinset.card

/-- A draft is within the limits of the format: its texts, its constant pool and its tables have
representable sizes. -/
structure IsWithinLimits (draft : ClassDraft) : Prop where
  texts : ∀ text ∈ draft.texts, text.utf8ByteSize < Bytes.wordLimit
  slots : draft.slotCount + 1 < Bytes.wordLimit
  interfaces : draft.interfaces.length < Bytes.wordLimit
  fields : draft.fields.length < Bytes.wordLimit
  methods : draft.methods.length < Bytes.wordLimit
  innerClasses : draft.innerClasses.length < Bytes.wordLimit

/-- The limits of a draft are decidable. -/
instance (draft : ClassDraft) : Decidable draft.IsWithinLimits :=
  decidable_of_iff
    ((∀ text ∈ draft.texts, text.utf8ByteSize < Bytes.wordLimit) ∧
      draft.slotCount + 1 < Bytes.wordLimit ∧ draft.interfaces.length < Bytes.wordLimit ∧
      draft.fields.length < Bytes.wordLimit ∧ draft.methods.length < Bytes.wordLimit ∧
      draft.innerClasses.length < Bytes.wordLimit)
    ⟨fun ⟨texts, slots, interfaces, fields, methods, innerClasses⟩ =>
      ⟨texts, slots, interfaces, fields, methods, innerClasses⟩,
      fun h => ⟨h.texts, h.slots, h.interfaces, h.fields, h.methods, h.innerClasses⟩⟩

/-- Decoded content of a draft. -/
def content (draft : ClassDraft) : ClassFile where
  name := draft.name
  superName := draft.superName
  interfaces := draft.interfaces
  fieldDescriptors := draft.fields.map Prod.snd
  innerClasses := draft.innerClasses

/-! ### The layout of a draft -/

variable {draft : ClassDraft} {indices : Indices} {pool : PoolDraft}

private theorem exists_collect (draft : ClassDraft) :
    ∃ indices pool, draft.collect {} = (indices, pool) ∧
      pool.Holds draft.longs.length draft.texts draft.classNames ∧
      draft.Refers pool.stored indices := by
  obtain ⟨indices, pool, hcollect, hpool, -, hrefers⟩ :=
    draft.collects_collect _ _ _ _ PoolDraft.holds_empty
  rw [Nat.zero_add] at hpool
  exact ⟨indices, pool, hcollect, hpool, hrefers _ ConstantPool.IsPartOf.rfl⟩

private theorem size_stored (hpool : pool.Holds draft.longs.length draft.texts draft.classNames) :
    pool.stored.slots.size = draft.slotCount + 1 := by
  rw [hpool.size, slotCount]
  omega

private theorem stored_zero : pool.stored.slots[0]? = some none := by
  simp [PoolDraft.stored]

private theorem length_nestings (entries : List (UInt16 × UInt16)) :
    ((entries.map storedNesting).flatMap StoredNesting.encode).length = 8 * entries.length := by
  induction entries with
  | nil => rfl
  | cons entry entries ih =>
    simp only [List.map_cons, List.flatMap_cons, List.length_append, ih, List.length_cons]
    simp only [storedNesting, StoredNesting.encode, List.length_append, Bytes.length_word]
    omega

private theorem attributesFit_storedAttributes (h : indices.innerClasses.length < Bytes.wordLimit) :
    AttributesFit (storedAttributes indices) := by
  have hsource : (Bytes.word indices.sourceName).length < Bytes.doubleWordLimit := by
    simp [Bytes.length_word, Bytes.doubleWordLimit]
  have hnesting :
      (AttributeBody.nesting (indices.innerClasses.map storedNesting) []).encode.length <
        Bytes.doubleWordLimit := by
    simp only [AttributeBody.encode, counted, List.length_append, Bytes.length_word,
      length_nestings, List.length_nil]
    simp only [Bytes.wordLimit, Bytes.doubleWordLimit] at h ⊢
    omega
  unfold storedAttributes
  split
  · exact ⟨(by decide : 1 < Bytes.wordLimit), List.forall_mem_singleton.mpr hsource⟩
  · exact ⟨(by decide : 2 < Bytes.wordLimit),
      List.forall_mem_cons.mpr ⟨hsource, List.forall_mem_singleton.mpr hnesting⟩⟩

private theorem bodyMatches_storedAttributes (hrefers : draft.Refers pool.stored indices)
    (hfits : pool.stored.slots.size ≤ Bytes.wordLimit)
    (h : indices.innerClasses.length < Bytes.wordLimit) :
    ∀ stored ∈ storedAttributes indices, BodyMatches pool.stored stored := by
  have hsource : BodyMatches pool.stored
      ⟨indices.sourceFile, .plain (Bytes.word indices.sourceName)⟩ := by
    show pool.stored.text indices.sourceFile ≠ _
    rw [hrefers.sourceFile.text hfits]
    decide
  have hnesting : BodyMatches pool.stored
      ⟨indices.innerAttribute, .nesting (indices.innerClasses.map storedNesting) []⟩ := by
    refine ⟨hrefers.innerAttribute.text hfits, by simpa using h, ?_⟩
    intro record hrecord
    obtain ⟨entry, -, rfl⟩ := List.mem_map.mp hrecord
    rfl
  unfold storedAttributes
  split
  · exact List.forall_mem_singleton.mpr hsource
  · exact List.forall_mem_cons.mpr ⟨hsource, List.forall_mem_singleton.mpr hnesting⟩

/-- The layout of a draft within the limits is well-formed. -/
theorem isWellFormed_layout (h : draft.IsWithinLimits) : draft.layout.IsWellFormed := by
  obtain ⟨indices, pool, hcollect, hpool, hrefers⟩ := draft.exists_collect
  have hsize := size_stored hpool
  have hslots := h.slots
  have hfits : pool.stored.slots.size ≤ Bytes.wordLimit := by omega
  have hinner : indices.innerClasses.length < Bytes.wordLimit := by
    rw [← hrefers.innerClasses.length_eq]
    exact h.innerClasses
  rw [layout, hcollect]
  constructor
  case version => rfl
  case constants => simpa using hpool.sized h.texts
  case slots =>
    show pool.stored.slots.size = max pool.next.toNat 1
    -- Within the limits, the index of the next constant does not wrap around.
    rw [hpool.next, UInt16.toNat_ofNat_of_lt' (by rw [hsize]; exact hslots)]
    omega
  case access => rfl
  case interfaces =>
    show indices.interfaces.length < _
    rw [← hrefers.interfaces.length_eq]
    exact h.interfaces
  case fieldCount =>
    show (indices.fields.map storedField).length < _
    rw [List.length_map, ← hrefers.fields.length_eq]
    exact h.fields
  case fields =>
    intro field hfield
    obtain ⟨member, -, rfl⟩ := List.mem_map.mp hfield
    exact ⟨rfl, (by decide : 0 < Bytes.wordLimit), List.forall_mem_nil _⟩
  case methodCount =>
    show (indices.methods.map (storedMethod indices.code)).length < _
    rw [List.length_map, ← hrefers.methods.length_eq]
    exact h.methods
  case methods =>
    intro method hmethod
    obtain ⟨member, -, rfl⟩ := List.mem_map.mp hmethod
    exact ⟨rfl, (by decide : 1 < Bytes.wordLimit),
      List.forall_mem_singleton.mpr (by decide : returnBody.length < Bytes.doubleWordLimit)⟩
  case attributes => exact attributesFit_storedAttributes hinner
  case bodies => exact bodyMatches_storedAttributes hrefers hfits hinner

/-- The record of a nesting entry resolves to the entry. -/
private theorem innerClass?_storedNesting {entry : InnerClass} {record : UInt16 × UInt16}
    (hinner : pool.stored.HasClass record.1 entry.inner)
    (houter : pool.stored.HasOptionalClass record.2 entry.outer)
    (hfits : pool.stored.slots.size ≤ Bytes.wordLimit) :
    innerClass? pool.stored (storedNesting record) = some (some entry) := by
  have hname : (pool.stored.className record.1).toOption = some entry.inner := by
    rw [hinner.className hfits]
    rfl
  rw [innerClass?, storedNesting, if_neg (hinner.ne_zero hfits stored_zero)]
  simp [hname, houter.optionalName? hfits stored_zero]

/-- The class attributes resolve to the nesting entries in order. -/
private theorem content_storedAttributes (hrefers : draft.Refers pool.stored indices)
    (hfits : pool.stored.slots.size ≤ Bytes.wordLimit) :
    ((storedAttributes indices).mapM (attributeContent? pool.stored)).map List.flatten =
      some draft.innerClasses := by
  have hsource : attributeContent? pool.stored
      ⟨indices.sourceFile, .plain (Bytes.word indices.sourceName)⟩ = some [] := by
    rw [attributeContent?, hrefers.sourceFile.text hfits]
    rfl
  have hrecords : (indices.innerClasses.map storedNesting).mapM (innerClass? pool.stored) =
      some (draft.innerClasses.map some) := by
    rw [mapM_eq_some_iff, List.forall₂_map_left_iff, List.forall₂_map_right_iff]
    refine hrefers.innerClasses.flip.imp fun record entry hentry => ?_
    exact innerClass?_storedNesting hentry.1 hentry.2 hfits
  have hnesting : attributeContent? pool.stored
      ⟨indices.innerAttribute, .nesting (indices.innerClasses.map storedNesting) []⟩ =
        some draft.innerClasses := by
    rw [attributeContent?, hrefers.innerAttribute.text hfits]
    simp [Except.toOption, AttributeBody.records, hrecords, List.filterMap_map]
  unfold storedAttributes
  split
  · next hempty =>
    have hnone : draft.innerClasses = [] := by
      have hlength := hrefers.innerClasses.length_eq
      rw [List.isEmpty_iff.mp hempty] at hlength
      exact List.length_eq_zero_iff.mp hlength
    simp [hsource, hnone]
  · simp [hsource, hnesting]

/-- The layout of a draft within the limits resolves to its content. -/
theorem content?_layout (h : draft.IsWithinLimits) :
    draft.layout.content? = some draft.content := by
  obtain ⟨indices, pool, hcollect, hpool, hrefers⟩ := draft.exists_collect
  have hslots := h.slots
  have hsize := size_stored hpool
  have hfits : pool.stored.slots.size ≤ Bytes.wordLimit := by omega
  rw [layout, hcollect, ClassFile.content?_eq_some_iff]
  refine ⟨?_, ?_, ?_, ?_, ?_⟩
  · show (pool.stored.className indices.self).toOption = some draft.name
    rw [hrefers.self.className hfits]
    rfl
  · exact hrefers.superclass.optionalName? hfits stored_zero
  · rw [mapM_eq_some_iff]
    refine hrefers.interfaces.flip.imp fun index name hclass => ?_
    exact ClassFile.toOption_eq_some_iff.mpr (ConstantPool.HasClass.className hclass hfits)
  · rw [mapM_eq_some_iff]
    show List.Forall₂ _ (indices.fields.map storedField) (draft.fields.map Prod.snd)
    rw [List.forall₂_map_left_iff, List.forall₂_map_right_iff]
    refine hrefers.fields.flip.imp fun member names htext => ?_
    exact ClassFile.toOption_eq_some_iff.mpr (ConstantPool.HasText.text htext hfits)
  · exact content_storedAttributes hrefers hfits

/-- The assembled bytes of a draft within the limits parse to its content without remainder, and the
extracted facts are, in order and with repetitions, those of the superclass, the interfaces, the
fields of object type below any number of array dimensions, and the nesting entries with an outer
class. -/
theorem parse_assemble (draft : ClassDraft) (h : draft.IsWithinLimits) :
    ClassFile.decoder.run (Decoder.Cursor.start draft.assemble) =
        .done draft.content ⟨draft.assemble.length, []⟩ ∧
      ClassFile.parse draft.assemble = .ok
        { name := draft.name
          superName := draft.superName
          interfaces := draft.interfaces
          fieldDescriptors := draft.fields.map Prod.snd
          innerClasses := draft.innerClasses } ∧
      ∃ fieldClasses : List (Option String),
        List.Forall₂ (fun field class? => ∀ name, class? = some name ↔ ∃ dimensions : Nat,
          field.2.toList = List.replicate dimensions '[' ++ 'L' :: name.toList ++ [';'])
          draft.fields fieldClasses ∧
        ClassFile.extractFacts draft.assemble = .ok
          (draft.superName.toList.map (fun name =>
              ⟨ClassName.ofInternal draft.name, ClassName.ofInternal name, .inheritance⟩) ++
            draft.interfaces.map (fun name =>
              ⟨ClassName.ofInternal draft.name, ClassName.ofInternal name,
                .interfaceImplementation⟩) ++
            fieldClasses.reduceOption.map (fun name =>
              ⟨ClassName.ofInternal draft.name, ClassName.ofInternal name, .fieldContainment⟩) ++
            draft.innerClasses.filterMap fun entry => entry.outer.map fun outer =>
              ⟨ClassName.ofInternal outer, ClassName.ofInternal entry.inner,
                .innerClassNesting⟩) := by
  have hrun := ClassFile.run_encode (isWellFormed_layout h) (content?_layout h) []
  rw [List.append_nil] at hrun
  have hparse : ClassFile.parse draft.assemble = .ok draft.content := by
    rw [ClassFile.parse, Decoder.decode, assemble, hrun]
    rfl
  refine ⟨hrun, hparse, draft.fields.map fun field => referencedClass? field.2, ?_, ?_⟩
  · rw [List.forall₂_map_right_iff, List.forall₂_same]
    intro field _ name
    exact referencedClass?_eq_some_iff
  · rw [ClassFile.extractFacts, hparse, List.reduceOption, List.filterMap_map]
    show Except.ok draft.content.facts = _
    simp [content, ClassFile.facts, ClassFile.declaredFacts, ClassFile.externalName,
      List.filterMap_map]
    rfl

/-- Draft whose names recur as texts, as classes and in descriptors, behind two eight-byte
constants. -/
def recurring : ClassDraft where
  name := "a/Outer$Inner"
  superName := some "a/Outer"
  interfaces := ["a/Outer", "Code"]
  fields := [("Code", "[[La/Outer;"), ("a/Outer", "I"), ("Code", "[[La/Outer;")]
  methods := [("Code", "I")]
  innerClasses := [⟨"a/Outer$Inner", some "a/Outer"⟩, ⟨"a/Outer$1", none⟩]
  longs := [7, -1]

/-- The draft `recurring` is within the limits, and its assembled bytes parse to its content. -/
theorem parse_assemble_recurring :
    recurring.IsWithinLimits ∧ ClassFile.parse recurring.assemble = .ok
      { name := "a/Outer$Inner"
        superName := some "a/Outer"
        interfaces := ["a/Outer", "Code"]
        fieldDescriptors := ["[[La/Outer;", "I", "[[La/Outer;"]
        innerClasses := [⟨"a/Outer$Inner", some "a/Outer"⟩, ⟨"a/Outer$1", none⟩] } := by
  have hlimits : recurring.IsWithinLimits := by decide
  exact ⟨hlimits, (parse_assemble recurring hlimits).2.1⟩

end ClassDraft

end ClassAtlas
