import ClassAtlas.ClassFile.Layout
import ClassAtlas.Proofs.ClassFile.Constants
import Mathlib

/-!
# Class file grammar

The decoder accepts exactly the byte sequences that begin with a well-formed layout with resolvable
content, and returns that content. Each component decoder accepts one syntactic category, and the
categories compose like the decoders. Specification: `SPEC_FULL.md` §4.2, lines 40–46.
-/

namespace ClassAtlas

/-- A traversal in `Option` succeeds if and only if it does on every item. -/
theorem mapM_eq_some_iff {α β : Type} {f : α → Option β} {items : List α} {values : List β} :
    items.mapM f = some values ↔
      List.Forall₂ (fun item value => f item = some value) items values := by
  induction items generalizing values with
  | nil => simp [eq_comm]
  | cons item items ih =>
    simp only [List.mapM_cons, Option.bind_eq_bind, Option.pure_def, Option.bind_eq_some_iff,
      Option.some.injEq, List.forall₂_cons_left_iff, ih]
    constructor
    · rintro ⟨value, hvalue, rest, hrest, rfl⟩
      exact ⟨value, rest, hvalue, hrest, rfl⟩
    · rintro ⟨value, rest, hvalue, hrest, rfl⟩
      exact ⟨value, hvalue, rest, hrest, rfl⟩

namespace Decoder

variable {α β γ : Type}

/-- A decoder accepts a syntactic category: it succeeds on exactly the encodings of its items with
content, and returns the content. -/
def Accepts (plan : Decoder β) (IsForm : α → Prop) (write : α → List UInt8)
    (content? : α → Option β) : Prop :=
  ∀ bytes value, plan.Ends bytes (.ok value) ↔
    ∃ item, IsForm item ∧ bytes = write item ∧ content? item = some value

variable {plan : Decoder β} {IsForm : α → Prop} {write : α → List UInt8} {content? : α → Option β}

/-- Acceptance is preserved by mapping the content. -/
theorem Accepts.map (h : plan.Accepts IsForm write content?) (f : β → γ) :
    (plan >>= fun value => pure (f value)).Accepts IsForm write
      fun item => (content? item).map f := by
  intro bytes value
  simp only [ends_bind_ok, ends_pure, h _ _]
  constructor
  · rintro ⟨_, _, first, rfl, ⟨item, hform, rfl, hcontent⟩, rfl, hvalue⟩
    refine ⟨item, hform, List.append_nil _, ?_⟩
    rw [hcontent, Option.map_some, Except.ok.inj hvalue]
  · rintro ⟨item, hform, rfl, hcontent⟩
    obtain ⟨first, hfirst, rfl⟩ := Option.map_eq_some_iff.mp hcontent
    exact ⟨_, [], first, (List.append_nil _).symm, ⟨item, hform, rfl, hfirst⟩, rfl, rfl⟩

/-- Acceptance depends on the category and its contents only. -/
theorem Accepts.congr (h : plan.Accepts IsForm write content?) {IsForm' : α → Prop}
    {content?' : α → Option β} (hform : ∀ item, IsForm item ↔ IsForm' item)
    (hcontent : ∀ item, content? item = content?' item) :
    plan.Accepts IsForm' write content?' := by
  intro bytes value
  simp only [h bytes value, hform, hcontent]

private theorem forall₂_ends_iff {parts : List (List UInt8)} {values : List β}
    (h : plan.Accepts IsForm write content?) :
    List.Forall₂ (fun part value => plan.Ends part (.ok value)) parts values ↔
      ∃ items : List α, (∀ item ∈ items, IsForm item) ∧ parts = items.map write ∧
        items.mapM content? = some values := by
  simp only [mapM_eq_some_iff]
  constructor
  · intro hparts
    induction hparts with
    | nil => exact ⟨[], by simp, rfl, .nil⟩
    | cons hends _ ih =>
      obtain ⟨item, hform, rfl, hcontent⟩ := (h _ _).mp hends
      obtain ⟨items, hall, rfl, hvalues⟩ := ih
      exact ⟨item :: items, List.forall_mem_cons.mpr ⟨hform, hall⟩, rfl, .cons hcontent hvalues⟩
  · rintro ⟨items, hall, rfl, hvalues⟩
    induction hvalues with
    | nil => exact .nil
    | @cons item value items values hcontent _ ih =>
      obtain ⟨hform, hall⟩ := List.forall_mem_cons.mp hall
      exact .cons ((h _ _).mpr ⟨item, hform, rfl, hcontent⟩) (ih hall)

/-- A decoder repeated by a word count accepts tables. -/
theorem Accepts.counted (h : plan.Accepts IsForm write content?) :
    (u16 >>= fun count => times count.toNat plan).Accepts
      (fun items => items.length < Bytes.wordLimit ∧ ∀ item ∈ items, IsForm item)
      (ClassAtlas.counted · write) (·.mapM content?) := by
  intro bytes values
  simp only [ends_bind_ok, ends_u16, ends_times, forall₂_ends_iff h]
  constructor
  · rintro ⟨_, _, count, rfl, rfl, hcount, _, rfl, items, hall, rfl, hvalues⟩
    rw [← (mapM_eq_some_iff.mp hvalues).length_eq] at hcount
    refine ⟨items, ⟨hcount ▸ count.toNat_lt, hall⟩, ?_, hvalues⟩
    rw [ClassAtlas.counted, hcount, UInt16.ofNat_toNat, List.flatMap_def]
  · rintro ⟨items, ⟨hlt, hall⟩, rfl, hvalues⟩
    refine ⟨_, _, _, rfl, rfl, ?_, _, List.flatMap_def, items, hall, rfl, hvalues⟩
    rw [← (mapM_eq_some_iff.mp hvalues).length_eq, UInt16.toNat_ofNat_of_lt' hlt]

/-- Skipping by a word count accepts tables without content. -/
theorem Accepts.skipCounted {plan : Decoder Unit} (h : plan.Accepts IsForm write fun _ => some ()) :
    (u16 >>= fun count => times count.toNat plan >>= fun _ => pure ()).Accepts
      (fun items => items.length < Bytes.wordLimit ∧ ∀ item ∈ items, IsForm item)
      (ClassAtlas.counted · write) fun _ => some () := by
  have hmap := h.counted.map fun _ => ()
  rw [bind_assoc] at hmap
  refine hmap.congr (fun _ => Iff.rfl) fun items => ?_
  have hall : items.mapM (fun _ => some ()) = some (items.map fun _ => ()) := List.mapM_pure
  rw [hall, Option.map_some]

end Decoder

namespace ClassFile

open Decoder ClassFileLayout

variable {pool : ConstantPool}

/-! ### Constant pool indices -/

/-- A result is the value of its option. -/
theorem toOption_eq_some_iff {α : Type} {outcome : Except ClassFileError α} {value : α} :
    outcome.toOption = some value ↔ outcome = .ok value := by
  cases outcome <;> simp [Except.toOption]

private theorem ends_ofExcept_ok {α : Type} {outcome : Except ClassFileError α} {bytes : List UInt8}
    {value : α} :
    (ofExcept outcome).Ends bytes (.ok value) ↔ bytes = [] ∧ outcome.toOption = some value := by
  rw [ends_ofExcept, toOption_eq_some_iff, eq_comm (a := outcome)]

/-- Decoding and resolving an index accepts indices. -/
private theorem accepts_number {α : Type} {lookup : UInt16 → Decoder α} {f : UInt16 → Option α}
    (h : ∀ index bytes value,
      (lookup index).Ends bytes (.ok value) ↔ bytes = [] ∧ f index = some value) :
    (u16 >>= lookup).Accepts (fun _ => True) Bytes.word f := by
  intro bytes value
  simp only [ends_bind_ok, ends_u16, h]
  constructor
  · rintro ⟨_, _, index, rfl, rfl, rfl, hvalue⟩
    exact ⟨index, trivial, List.append_nil _, hvalue⟩
  · rintro ⟨index, -, rfl, hvalue⟩
    exact ⟨_, [], index, (List.append_nil _).symm, rfl, rfl, hvalue⟩

private theorem accepts_classNameDecoder (pool : ConstantPool) :
    pool.classNameDecoder.Accepts (fun _ => True) Bytes.word
      fun index => (pool.className index).toOption :=
  accepts_number fun _ _ _ => ends_ofExcept_ok

private theorem accepts_textDecoder (pool : ConstantPool) :
    pool.textDecoder.Accepts (fun _ => True) Bytes.word fun index => (pool.text index).toOption :=
  accepts_number fun _ _ _ => ends_ofExcept_ok

private theorem ends_optionalName {index : UInt16} {bytes : List UInt8} {name : Option String} :
    (if index = 0 then pure none else some <$> ofExcept (pool.className index)).Ends bytes
      (.ok name) ↔ bytes = [] ∧ optionalName? pool index = some name := by
  unfold optionalName?
  split
  · simp [eq_comm]
  · show (ofExcept (pool.className index) >>= fun name => pure (some name)).Ends _ _ ↔ _
    simp only [ends_bind_ok, ends_ofExcept_ok, ends_pure, Except.ok.injEq, Option.map_eq_some_iff]
    constructor
    · rintro ⟨_, _, value, rfl, ⟨rfl, hvalue⟩, rfl, rfl⟩
      exact ⟨rfl, value, hvalue, rfl⟩
    · rintro ⟨rfl, value, hvalue, rfl⟩
      exact ⟨[], [], value, rfl, ⟨rfl, hvalue⟩, rfl, rfl⟩

private theorem accepts_superDecoder (pool : ConstantPool) :
    (superDecoder pool).Accepts (fun _ => True) Bytes.word (optionalName? pool) :=
  accepts_number fun _ _ _ => ends_optionalName

private theorem accepts_interfacesDecoder (pool : ConstantPool) :
    (interfacesDecoder pool).Accepts (fun indices => indices.length < Bytes.wordLimit)
      (counted · Bytes.word) (·.mapM fun index => (pool.className index).toOption) :=
  (accepts_classNameDecoder pool).counted.congr (fun _ => by simp) fun _ => rfl

/-! ### Fields and methods -/

private theorem accepts_skipAttribute :
    (skip 2 >>= fun _ => u32 >>= fun length => skip length.toNat).Accepts
      (fun stored : StoredAttribute => stored.body.encode.length < Bytes.doubleWordLimit)
      StoredAttribute.encode fun _ => some () := by
  intro bytes value
  simp only [ends_bind_ok, ends_u32, ends_skip, exists_const]
  constructor
  · rintro ⟨head, _, rfl, hhead, _, body, length, rfl, rfl, hbody⟩
    obtain ⟨nameIndex, rfl⟩ := Bytes.exists_eq_word hhead
    refine ⟨⟨nameIndex, .plain body⟩, ?_, ?_, trivial⟩
    · exact (congrArg (· < Bytes.doubleWordLimit) hbody).mpr length.toNat_lt
    · rw [StoredAttribute.encode, AttributeBody.encode, hbody, List.append_assoc]
  · rintro ⟨stored, hfits, rfl, -⟩
    refine ⟨_, _, List.append_assoc _ _ _, Bytes.length_word _, _, _,
      UInt32.ofNat stored.body.encode.length, rfl, ?_, ?_⟩
    · rw [UInt32.toNat_ofNat_of_lt' hfits]
    · rw [UInt32.toNat_ofNat_of_lt' hfits]

private theorem accepts_skipAttributes :
    skipAttributes.Accepts AttributesFit (counted · StoredAttribute.encode) fun _ => some () :=
  accepts_skipAttribute.skipCounted

private theorem accepts_fieldDecoder (pool : ConstantPool) :
    (skip 4 >>= fun _ => pool.textDecoder >>= fun descriptor =>
        skipAttributes >>= fun _ => pure descriptor).Accepts
      (fun field : StoredField => field.head.length = 4 ∧ AttributesFit field.attributes)
      StoredField.encode fun field => (pool.text field.descriptorIndex).toOption := by
  intro bytes value
  simp only [ends_bind_ok, ends_skip, accepts_textDecoder pool _ _, accepts_skipAttributes _ _,
    ends_pure, exists_const, true_and, and_true, Except.ok.injEq]
  constructor
  · rintro ⟨head, _, rfl, hhead, _, _, descriptor, rfl, ⟨index, rfl, htext⟩, _, _, rfl,
      ⟨attributes, hfit, rfl⟩, rfl, rfl⟩
    exact ⟨⟨head, index, attributes⟩, ⟨hhead, hfit⟩, by simp [StoredField.encode], htext⟩
  · rintro ⟨⟨head, index, attributes⟩, ⟨hhead, hfit⟩, rfl, htext⟩
    exact ⟨head, _, List.append_assoc _ _ _, hhead, _, _, value, rfl, ⟨index, rfl, htext⟩, _, [],
      (List.append_nil _).symm, ⟨attributes, hfit, rfl⟩, rfl, rfl⟩

private theorem accepts_fieldsDecoder (pool : ConstantPool) :
    (fieldsDecoder pool).Accepts
      (fun fields => fields.length < Bytes.wordLimit ∧
        ∀ field ∈ fields, field.head.length = 4 ∧ AttributesFit field.attributes)
      (counted · StoredField.encode)
      (·.mapM fun field => (pool.text field.descriptorIndex).toOption) :=
  (accepts_fieldDecoder pool).counted

private theorem accepts_skipMethod :
    (skip 6 >>= fun _ => skipAttributes).Accepts
      (fun method : StoredMethod => method.head.length = 6 ∧ AttributesFit method.attributes)
      StoredMethod.encode fun _ => some () := by
  intro bytes value
  simp only [ends_bind_ok, ends_skip, accepts_skipAttributes _ _, exists_const, and_true]
  constructor
  · rintro ⟨head, _, rfl, hhead, attributes, hfit, rfl⟩
    exact ⟨⟨head, attributes⟩, ⟨hhead, hfit⟩, rfl⟩
  · rintro ⟨⟨head, attributes⟩, ⟨hhead, hfit⟩, rfl⟩
    exact ⟨head, _, rfl, hhead, attributes, hfit, rfl⟩

private theorem accepts_skipMethods :
    skipMethods.Accepts
      (fun methods => methods.length < Bytes.wordLimit ∧
        ∀ method ∈ methods, method.head.length = 6 ∧ AttributesFit method.attributes)
      (counted · StoredMethod.encode) fun _ => some () :=
  accepts_skipMethod.skipCounted

/-! ### Nesting records -/

private theorem ends_innerClass {inner outer : UInt16} {bytes : List UInt8}
    {value : Option InnerClass} :
    (if inner = 0 then pure none
      else
        (if outer = 0 then pure none else some <$> ofExcept (pool.className outer)) >>= fun outer =>
          ofExcept (pool.className inner) >>= fun inner =>
            pure (some (⟨inner, outer⟩ : InnerClass))).Ends bytes (.ok value) ↔
      bytes = [] ∧ innerClass? pool ⟨inner, outer, []⟩ = some value := by
  unfold innerClass?
  by_cases hinner : inner = 0
  · simp [hinner, eq_comm]
  · simp only [if_neg hinner, ends_bind_ok, ends_optionalName, ends_ofExcept_ok, ends_pure,
      Except.ok.injEq, Option.bind_eq_bind, Option.pure_def, Option.bind_eq_some_iff,
      Option.some.injEq]
    constructor
    · rintro ⟨_, _, outer', rfl, ⟨rfl, houter⟩, _, _, inner', rfl, ⟨rfl, hinner'⟩, rfl, rfl⟩
      exact ⟨rfl, inner', hinner', outer', houter, rfl⟩
    · rintro ⟨rfl, inner', hinner', outer', houter, rfl⟩
      exact ⟨[], [], outer', rfl, ⟨rfl, houter⟩, [], [], inner', rfl, ⟨rfl, hinner'⟩, rfl, rfl⟩

private theorem accepts_innerClassDecoder (pool : ConstantPool) :
    (innerClassDecoder pool).Accepts (fun record => record.tail.length = 4) StoredNesting.encode
      (innerClass? pool) := by
  -- The outer class is resolved before the inner class, whether or not its index is zero.
  have hplan : innerClassDecoder pool = u16 >>= fun inner => u16 >>= fun outer =>
      skip 4 >>= fun _ => if inner = 0 then pure none
      else
        (if outer = 0 then pure none else some <$> ofExcept (pool.className outer)) >>= fun outer =>
          ofExcept (pool.className inner) >>= fun inner => pure (some ⟨inner, outer⟩) := by
    unfold innerClassDecoder
    congr 1; funext inner
    congr 1; funext outer
    congr 1; funext _
    split_ifs <;> rfl
  intro bytes value
  simp only [hplan, ends_bind_ok, ends_u16, ends_skip, ends_innerClass]
  constructor
  · rintro ⟨_, _, inner, rfl, rfl, _, _, outer, rfl, rfl, tail, _, -, rfl, htail, rfl, hvalue⟩
    refine ⟨⟨inner, outer, tail⟩, htail, ?_, hvalue⟩
    simp [StoredNesting.encode]
  · rintro ⟨⟨inner, outer, tail⟩, htail, rfl, hvalue⟩
    exact ⟨_, _, inner, List.append_assoc _ _ _, rfl, _, _, outer, rfl, rfl, tail, [], (),
      (List.append_nil _).symm, htail, rfl, hvalue⟩

private theorem accepts_innerClassesDecoder (pool : ConstantPool) :
    (innerClassesDecoder pool).Accepts
      (fun records => records.length < Bytes.wordLimit ∧
        ∀ record ∈ records, record.tail.length = 4)
      (counted · StoredNesting.encode)
      fun records => (records.mapM (innerClass? pool)).map (·.filterMap id) := by
  have h := (accepts_innerClassDecoder pool).counted.map (·.filterMap id)
  rwa [bind_assoc] at h

/-! ### Class attributes -/

private theorem ends_attributeBody {nameIndex : UInt16} {name : String} {body bytes : List UInt8}
    {value : List InnerClass} (hname : pool.text nameIndex = .ok name) :
    (if name = innerClassesAttribute then ofExcept ((innerClassesDecoder pool).decode body)
      else pure []).Ends bytes (.ok value) ↔
      bytes = [] ∧ ∃ form : AttributeBody, body = form.encode ∧ BodyMatches pool ⟨nameIndex, form⟩ ∧
        attributeContent? pool ⟨nameIndex, form⟩ = some value := by
  have hcontent : ∀ form : AttributeBody, attributeContent? pool ⟨nameIndex, form⟩ =
      (form.records.mapM (innerClass? pool)).map (·.filterMap id) := by
    intro form
    rw [attributeContent?, hname]
    simp [Except.toOption, Option.map_eq_bind]
  simp only [hcontent]
  by_cases hinner : name = innerClassesAttribute
  · rw [if_pos hinner, ends_ofExcept_ok, toOption_eq_some_iff, decode_eq_ok_iff]
    simp only [accepts_innerClassesDecoder pool _ _]
    subst hinner
    refine and_congr_right fun _ => ⟨?_, ?_⟩
    · rintro ⟨_, slack, rfl, records, ⟨hcount, htails⟩, rfl, hvalue⟩
      exact ⟨.nesting records slack, rfl, ⟨hname, hcount, htails⟩, hvalue⟩
    · rintro ⟨form, rfl, hmatches, hvalue⟩
      cases form with
      | plain bytes => exact absurd hname hmatches
      | nesting records slack => exact ⟨_, slack, rfl, records, hmatches.2, rfl, hvalue⟩
  · rw [if_neg hinner, ends_pure, Except.ok.injEq]
    refine and_congr_right fun _ => ⟨?_, ?_⟩
    · rintro rfl
      refine ⟨.plain body, rfl, ?_, rfl⟩
      exact fun h => hinner (Except.ok.inj (hname.symm.trans h))
    · rintro ⟨form, rfl, hmatches, hvalue⟩
      cases form with
      | plain bytes => exact (Option.some.inj hvalue).symm
      | nesting records slack =>
        exact absurd (Except.ok.inj (hname.symm.trans hmatches.1)) hinner

private theorem accepts_attributeDecoder (pool : ConstantPool) :
    (attributeDecoder pool).Accepts
      (fun stored => stored.body.encode.length < Bytes.doubleWordLimit ∧ BodyMatches pool stored)
      StoredAttribute.encode (attributeContent? pool) := by
  intro bytes value
  simp only [attributeDecoder, ends_bind_ok, accepts_textDecoder pool _ _, ends_u32, ends_bytes,
    true_and]
  constructor
  · rintro ⟨_, _, name, rfl, ⟨nameIndex, rfl, hname⟩, _, _, length, rfl, rfl, body, rest, _, rfl,
      ⟨hbody, rfl⟩, hends⟩
    obtain ⟨rfl, form, rfl, hmatches, hvalue⟩ :=
      (ends_attributeBody (toOption_eq_some_iff.mp hname)).mp hends
    refine ⟨⟨nameIndex, form⟩, ⟨?_, hmatches⟩, ?_, hvalue⟩
    · exact (congrArg (· < Bytes.doubleWordLimit) hbody).mpr length.toNat_lt
    · simp [StoredAttribute.encode, hbody]
  · rintro ⟨⟨nameIndex, form⟩, ⟨hfits, hmatches⟩, rfl, hvalue⟩
    obtain ⟨name, hname⟩ : ∃ name, (pool.text nameIndex).toOption = some name := by
      obtain ⟨name, hname, -⟩ := Option.bind_eq_some_iff.mp hvalue
      exact ⟨name, hname⟩
    have hlength : (UInt32.ofNat form.encode.length).toNat = form.encode.length :=
      UInt32.toNat_ofNat_of_lt' hfits
    refine ⟨_, _, name, List.append_assoc _ _ _, ⟨nameIndex, rfl, hname⟩, _, _, _, rfl,
      hlength.symm ▸ rfl, form.encode, [], form.encode, (List.append_nil _).symm,
      ⟨hlength.symm, rfl⟩, ?_⟩
    exact (ends_attributeBody (toOption_eq_some_iff.mp hname)).mpr
      ⟨rfl, form, rfl, hmatches, hvalue⟩

private theorem accepts_attributesDecoder (pool : ConstantPool) :
    (attributesDecoder pool).Accepts
      (fun attributes => attributes.length < Bytes.wordLimit ∧ ∀ stored ∈ attributes,
        stored.body.encode.length < Bytes.doubleWordLimit ∧ BodyMatches pool stored)
      (counted · StoredAttribute.encode)
      fun attributes => (attributes.mapM (attributeContent? pool)).map List.flatten := by
  have h := (accepts_attributeDecoder pool).counted.map List.flatten
  rwa [bind_assoc] at h

/-! ### Class files -/

/-- The content of a layout is assembled from the contents of its parts. -/
theorem content?_eq_some_iff {layout : ClassFileLayout} {file : ClassFile} :
    layout.content? = some file ↔
      (layout.pool.className layout.self).toOption = some file.name ∧
      optionalName? layout.pool layout.superclass = some file.superName ∧
      layout.interfaces.mapM (fun index => (layout.pool.className index).toOption) =
        some file.interfaces ∧
      layout.fields.mapM (fun field => (layout.pool.text field.descriptorIndex).toOption) =
        some file.fieldDescriptors ∧
      (layout.attributes.mapM (attributeContent? layout.pool)).map List.flatten =
        some file.innerClasses := by
  simp only [content?, Option.bind_eq_bind, Option.pure_def, Option.bind_eq_some_iff,
    Option.some.injEq, Option.map_eq_some_iff]
  constructor
  · rintro ⟨_, hname, _, hsuper, _, hinterfaces, _, hfields, inner, hinner, rfl⟩
    exact ⟨hname, hsuper, hinterfaces, hfields, inner, hinner, rfl⟩
  · rintro ⟨hname, hsuper, hinterfaces, hfields, inner, hinner, hflat⟩
    exact ⟨_, hname, _, hsuper, _, hinterfaces, _, hfields, inner, hinner, hflat ▸ rfl⟩

/-- The class file decoder accepts the well-formed layouts. -/
theorem accepts_decoder : decoder.Accepts ClassFileLayout.IsWellFormed encode content? := by
  intro bytes file
  simp only [content?_eq_some_iff]
  rw [decoder, ends_bind_ok]
  simp only [ends_u32]
  constructor
  · rintro ⟨_, _, found, rfl, rfl, hends⟩
    split at hends
    · exact absurd (ends_refuse.mp hends).2 (by simp)
    · next hmagic =>
      obtain rfl : found = magic := not_not.mp hmagic
      simp only [ends_bind_ok, ends_skip, ConstantPool.ends_decoder, accepts_classNameDecoder _ _ _,
        accepts_superDecoder _ _ _, accepts_interfacesDecoder _ _ _, accepts_fieldsDecoder _ _ _,
        accepts_skipMethods _ _, accepts_attributesDecoder _ _ _, ends_pure, exists_const,
        true_and, and_true, Except.ok.injEq] at hends
      obtain ⟨version, _, rfl, hversion, _, _, _, rfl,
        ⟨slotCount, constants, hsized, hslots, rfl, rfl⟩, access, _, rfl, haccess, _, _, name, rfl,
        ⟨self, rfl, hself⟩, _, _, superName, rfl, ⟨superclass, rfl, hsuper⟩, _, _, interfaces, rfl,
        ⟨interfaceIndices, hcount, rfl, hinterfaces⟩, _, _, descriptors, rfl,
        ⟨fields, ⟨hfieldCount, hfields⟩, rfl, hdescriptors⟩, _, _, rfl,
        ⟨methods, ⟨hmethodCount, hmethods⟩, rfl⟩, _, _, innerClasses, rfl,
        ⟨attributes, ⟨hattributeCount, hattributes⟩, rfl, hinner⟩, rfl, rfl⟩ := hends
      refine ⟨⟨version, slotCount, constants, access, self, superclass, interfaceIndices, fields,
        methods, attributes⟩, ?_, ?_, hself, hsuper, hinterfaces, hdescriptors, hinner⟩
      · exact {
          version := hversion
          constants := hsized
          slots := hslots
          access := haccess
          interfaces := hcount
          fieldCount := hfieldCount
          fields := hfields
          methodCount := hmethodCount
          methods := hmethods
          attributes := ⟨hattributeCount, fun stored hstored => (hattributes stored hstored).1⟩
          bodies := fun stored hstored => (hattributes stored hstored).2 }
      · simp [encode, header, body]
  · rintro ⟨layout, hlayout, rfl, hself, hsuper, hinterfaces, hdescriptors, hinner⟩
    refine ⟨_, layout.version ++ (Bytes.word layout.slotCount ++
      layout.constants.flatMap StoredConstant.encode ++ layout.body), magic, ?_, rfl, ?_⟩
    · simp [encode, header]
    rw [if_neg (not_not.mpr rfl)]
    simp only [ends_bind_ok, ends_skip, ConstantPool.ends_decoder, accepts_classNameDecoder _ _ _,
      accepts_superDecoder _ _ _, accepts_interfacesDecoder _ _ _, accepts_fieldsDecoder _ _ _,
      accepts_skipMethods _ _, accepts_attributesDecoder _ _ _, ends_pure, exists_const,
      true_and, and_true, Except.ok.injEq]
    exact ⟨layout.version, _, rfl, hlayout.version, _, layout.body, layout.pool, rfl,
      ⟨layout.slotCount, layout.constants, hlayout.constants, hlayout.slots, rfl, rfl⟩,
      layout.access, _, by simp only [body, List.append_assoc], hlayout.access,
      _, _, file.name, rfl, ⟨layout.self, rfl, hself⟩,
      _, _, file.superName, rfl, ⟨layout.superclass, rfl, hsuper⟩,
      _, _, file.interfaces, rfl, ⟨layout.interfaces, hlayout.interfaces, rfl, hinterfaces⟩,
      _, _, file.fieldDescriptors, rfl,
      ⟨layout.fields, ⟨hlayout.fieldCount, hlayout.fields⟩, rfl, hdescriptors⟩,
      _, _, rfl, ⟨layout.methods, ⟨hlayout.methodCount, hlayout.methods⟩, rfl⟩,
      _, [], file.innerClasses, (List.append_nil _).symm,
      ⟨layout.attributes, ⟨hlayout.attributes.1, fun stored hstored =>
        ⟨hlayout.attributes.2 stored hstored, hlayout.bodies stored hstored⟩⟩, rfl, hinner⟩,
      rfl, rfl⟩

/-- A run over an encoded layout stops behind it. -/
theorem run_encode {layout : ClassFileLayout} {file : ClassFile} (hlayout : layout.IsWellFormed)
    (hfile : layout.content? = some file) (rest : List UInt8) :
    decoder.run (Cursor.start (layout.encode ++ rest)) =
      .done file ⟨layout.encode.length, rest⟩ := by
  have hends : decoder.Ends layout.encode (.ok file) :=
    (accepts_decoder _ _).mpr ⟨layout, hlayout, rfl, hfile⟩
  have hrun := hends.run 0 rest
  rw [Nat.zero_add] at hrun
  exact hrun

/-- A byte sequence parses if and only if it begins with the encoding of a well-formed layout with
resolvable content, and the class file is that content. The decoder stops behind the encoding, so
that all such layouts have the same encoding, and the remaining bytes are ignored. -/
theorem parse_eq_ok_iff_layout (bytes : List UInt8) (file : ClassFile) :
    (parse bytes = .ok file ↔ ∃ (layout : ClassFileLayout) (rest : List UInt8),
      layout.IsWellFormed ∧ layout.content? = some file ∧ bytes = layout.encode ++ rest) ∧
    ∀ (layout : ClassFileLayout) (rest : List UInt8), layout.IsWellFormed →
      layout.content? = some file → bytes = layout.encode ++ rest →
        decoder.run (Cursor.start bytes) = .done file ⟨layout.encode.length, rest⟩ ∧
        ∀ (other : ClassFileLayout) (rest' : List UInt8), other.IsWellFormed →
          other.content?.isSome → bytes = other.encode ++ rest' →
            other.encode = layout.encode ∧ other.content? = layout.content? := by
  refine ⟨⟨?_, ?_⟩, ?_⟩
  · intro h
    obtain ⟨front, rest, rfl, hends⟩ := decode_eq_ok_iff.mp h
    obtain ⟨layout, hlayout, rfl, hfile⟩ := (accepts_decoder _ _).mp hends
    exact ⟨layout, rest, hlayout, hfile, rfl⟩
  · rintro ⟨layout, rest, hlayout, hfile, rfl⟩
    rw [parse, decode, run_encode hlayout hfile]
    rfl
  · rintro layout rest hlayout hfile rfl
    refine ⟨run_encode hlayout hfile rest, ?_⟩
    intro other rest' hother hsome hbytes
    obtain ⟨file', hfile'⟩ := Option.isSome_iff_exists.mp hsome
    have hrun := run_encode hother hfile' rest'
    rw [← hbytes, run_encode hlayout hfile] at hrun
    obtain ⟨rfl, hcursor⟩ := Outcome.done.inj hrun
    obtain ⟨-, rfl⟩ := Cursor.mk.inj hcursor
    exact ⟨(List.append_cancel_right hbytes).symm, hfile'.trans hfile.symm⟩

end ClassFile

end ClassAtlas
