import ClassAtlas.ClassFile.Draft
import ClassAtlas.Proofs.ClassFile.Constants
import ClassAtlas.Proofs.ClassFile.ModifiedUtf8
import Mathlib

/-!
# Constant interning

The assembler stores each text and each class reference once and returns the index of the first
occurrence. The effect of a collecting action is therefore determined by the set of texts and
classes it mentions, and its indices remain valid in every extension of the pool. Specification:
`SPEC_FULL.md` §10.8, lines 196–198.
-/

namespace ClassAtlas

namespace ConstantPool

variable {pool later : ConstantPool} {index : UInt16} {value name : String}

/-- A pool is a part of another if the latter agrees on its slots. -/
def IsPartOf (pool later : ConstantPool) : Prop :=
  ∀ (slot : Nat) constant, pool.slots[slot]? = some constant → later.slots[slot]? = some constant

/-- Every pool is a part of itself. -/
theorem IsPartOf.rfl : pool.IsPartOf pool := fun _ _ h => h

private theorem IsPartOf.trans {middle : ConstantPool} (h : pool.IsPartOf middle)
    (h' : middle.IsPartOf later) : pool.IsPartOf later :=
  fun slot constant hslot => h' slot constant (h slot constant hslot)

/-- An index denotes a slot with this text. Slots beyond the index range share indices. -/
def HasText (pool : ConstantPool) (index : UInt16) (value : String) : Prop :=
  ∃ slot : Nat, index = UInt16.ofNat slot ∧ pool.slots[slot]? = some (some (.text value))

/-- An index denotes a slot with a reference to this class. -/
def HasClass (pool : ConstantPool) (index : UInt16) (name : String) : Prop :=
  ∃ (slot : Nat) (nameIndex : UInt16), index = UInt16.ofNat slot ∧
    pool.slots[slot]? = some (some (.classRef nameIndex)) ∧ pool.HasText nameIndex name

/-- An index denotes an optional class, zero its absence. -/
def HasOptionalClass (pool : ConstantPool) (index : UInt16) : Option String → Prop
  | none => index = 0
  | some name => pool.HasClass index name

private theorem HasText.mono (h : pool.HasText index value) (hpart : pool.IsPartOf later) :
    later.HasText index value := by
  obtain ⟨slot, hindex, hslot⟩ := h
  exact ⟨slot, hindex, hpart slot _ hslot⟩

private theorem HasClass.mono (h : pool.HasClass index name) (hpart : pool.IsPartOf later) :
    later.HasClass index name := by
  obtain ⟨slot, nameIndex, hindex, hslot, htext⟩ := h
  exact ⟨slot, nameIndex, hindex, hpart slot _ hslot, htext.mono hpart⟩

private theorem toNat_ofNat_slot {slot : Nat} {constant : Option Constant}
    (hfits : pool.slots.size ≤ Bytes.wordLimit) (hslot : pool.slots[slot]? = some constant) :
    (UInt16.ofNat slot).toNat = slot := by
  have hlt : slot < pool.slots.size := (Array.getElem?_eq_some_iff.mp hslot).1
  exact UInt16.toNat_ofNat_of_lt' (lt_of_lt_of_le hlt hfits)

/-- In a pool within the index range, a denoted text is looked up. -/
theorem HasText.text (h : pool.HasText index value) (hfits : pool.slots.size ≤ Bytes.wordLimit) :
    pool.text index = .ok value := by
  obtain ⟨slot, rfl, hslot⟩ := h
  rw [text_eq_ok_iff, toNat_ofNat_slot hfits hslot, hslot]

/-- In a pool within the index range, a denoted class is looked up. -/
theorem HasClass.className (h : pool.HasClass index name)
    (hfits : pool.slots.size ≤ Bytes.wordLimit) : pool.className index = .ok name := by
  obtain ⟨slot, nameIndex, rfl, hslot, htext⟩ := h
  have hname := text_eq_ok_iff.mp (htext.text hfits)
  rw [className_eq_ok_iff, toNat_ofNat_slot hfits hslot]
  exact ⟨nameIndex, hslot, hname⟩

end ConstantPool

namespace PoolDraft

/-! ### Intern tables -/

/-- An intern table has exactly the listed names as keys, each with an index that denotes it. -/
structure Knows (table : Std.ExtTreeMap String UInt16) (names : List String)
    (Has : UInt16 → String → Prop) : Prop where
  of_mem : ∀ name ∈ names, ∃ index, table[name]? = some index ∧ Has index name
  of_not_mem : ∀ name ∉ names, table[name]? = none

section Knows

variable {table : Std.ExtTreeMap String UInt16} {names : List String}
  {Has : UInt16 → String → Prop}

private theorem Knows.congr (h : Knows table names Has) {names' : List String}
    (hnames : ∀ name, name ∈ names' ↔ name ∈ names) : Knows table names' Has where
  of_mem := by simpa only [hnames] using h.of_mem
  of_not_mem := by simpa only [hnames] using h.of_not_mem

private theorem Knows.mono (h : Knows table names Has) {Has' : UInt16 → String → Prop}
    (hhas : ∀ index name, Has index name → Has' index name) : Knows table names Has' where
  of_mem := fun name hname => by
    obtain ⟨index, hindex, hbelongs⟩ := h.of_mem name hname
    exact ⟨index, hindex, hhas index name hbelongs⟩
  of_not_mem := h.of_not_mem

private theorem Knows.insert (h : Knows table names Has) {name : String} {index : UInt16}
    (hbelongs : Has index name) : Knows (table.insert name index) (names ++ [name]) Has where
  of_mem := by
    intro other hother
    by_cases heq : name = other
    · subst heq
      exact ⟨index, by simp, hbelongs⟩
    · have hold : other ∈ names := by simpa [Ne.symm heq] using hother
      rw [Std.ExtTreeMap.getElem?_insert, if_neg (by simpa using heq)]
      exact h.of_mem other hold
  of_not_mem := by
    intro other hother
    simp only [List.mem_append, List.mem_singleton, not_or] at hother
    rw [Std.ExtTreeMap.getElem?_insert, if_neg (by simpa using Ne.symm hother.2)]
    exact h.of_not_mem other hother.1

end Knows

/-- A new name increments the number of names. -/
private theorem card_concat {names : List String} {name : String} (h : name ∉ names) :
    (names ++ [name]).toFinset.card = names.toFinset.card + 1 := by
  rw [List.toFinset_append, List.toFinset_cons, List.toFinset_nil, insert_empty_eq,
    Finset.union_singleton, Finset.card_insert_of_notMem (by simpa using h)]

/-! ### Pools under construction -/

variable {pool : PoolDraft} {longs : Nat} {texts classes : List String}

/-- Pool formed by the constants so far. -/
def stored (pool : PoolDraft) : ConstantPool :=
  ⟨(none :: pool.constants.toList.flatMap StoredConstant.slots).toArray⟩

/-- Invariant of the assembler: besides `longs` eight-byte constants, the pool holds each of the
listed texts and classes once, at its interned index; the name of every class is among the texts. -/
structure Holds (pool : PoolDraft) (longs : Nat) (texts classes : List String) : Prop where
  next : pool.next = UInt16.ofNat pool.stored.slots.size
  size : pool.stored.slots.size = 1 + 2 * longs + texts.toFinset.card + classes.toFinset.card
  text : Knows pool.texts texts pool.stored.HasText
  classRef : Knows pool.classes classes pool.stored.HasClass
  named : ∀ name ∈ classes, name ∈ texts
  sized : (∀ value ∈ texts, value.utf8ByteSize < Bytes.wordLimit) →
    ∀ constant ∈ pool.constants, constant.IsWellSized

/-- The empty pool satisfies the invariant. -/
theorem holds_empty : ({} : PoolDraft).Holds 0 [] [] where
  next := rfl
  size := rfl
  text := ⟨by simp, by simp⟩
  classRef := ⟨by simp, by simp⟩
  named := by simp
  sized := by simp

/-- The invariant depends on the sets of names only. -/
theorem Holds.congr (h : pool.Holds longs texts classes) {texts' classes' : List String}
    (htexts : ∀ value, value ∈ texts' ↔ value ∈ texts)
    (hclasses : ∀ name, name ∈ classes' ↔ name ∈ classes) :
    pool.Holds longs texts' classes' where
  next := h.next
  size := by
    have htexts' : texts'.toFinset = texts.toFinset := by ext; simp [htexts]
    have hclasses' : classes'.toFinset = classes.toFinset := by ext; simp [hclasses]
    rw [htexts', hclasses', h.size]
  text := h.text.congr htexts
  classRef := h.classRef.congr hclasses
  named := by simpa only [htexts, hclasses] using h.named
  sized := by simpa only [htexts] using h.sized

/-! ### Appending constants -/

section Append

variable {constant : StoredConstant} {slots : UInt16}

private theorem slots_stored_append :
    (pool.append constant slots).stored.slots = pool.stored.slots ++ constant.slots.toArray := by
  simp [stored, append]

private theorem size_stored_append (slots : UInt16) :
    (pool.append constant slots).stored.slots.size =
      pool.stored.slots.size + constant.slots.length := by
  simp [slots_stored_append]

private theorem isPartOf_append (slots : UInt16) :
    pool.stored.IsPartOf (pool.append constant slots).stored := by
  intro slot constant hslot
  obtain ⟨hlt, -⟩ := Array.getElem?_eq_some_iff.mp hslot
  rw [slots_stored_append, Array.getElem?_append_left hlt, hslot]

/-- The first slot of an appended constant is at the returned index. -/
theorem getElem?_size_append (slots : UInt16) :
    (pool.append constant slots).stored.slots[pool.stored.slots.size]? = constant.slots[0]? := by
  rw [slots_stored_append, Array.getElem?_append_right le_rfl, Nat.sub_self,
    List.getElem?_toArray]

private theorem next_append (hnext : pool.next = UInt16.ofNat pool.stored.slots.size)
    (hslots : slots = UInt16.ofNat constant.slots.length) :
    (pool.append constant slots).next =
      UInt16.ofNat (pool.append constant slots).stored.slots.size := by
  rw [size_stored_append, UInt16.ofNat_add, ← hslots, ← hnext]
  rfl

private theorem Holds.sized_append (h : pool.Holds longs texts classes) (slots : UInt16)
    (hsized : (∀ value ∈ texts, value.utf8ByteSize < Bytes.wordLimit) → constant.IsWellSized) :
    (∀ value ∈ texts, value.utf8ByteSize < Bytes.wordLimit) →
      ∀ other ∈ (pool.append constant slots).constants, other.IsWellSized := by
  intro htexts other hother
  obtain hold | rfl := Array.mem_push.mp hother
  · exact h.sized htexts other hold
  · exact hsized htexts

end Append

/-- An eight-byte constant occupies two slots. -/
theorem Holds.long (h : pool.Holds longs texts classes) (value : Int64) :
    (pool.long value).Holds (longs + 1) texts classes where
  next := next_append h.next rfl
  size := by
    have hsize := h.size
    rw [PoolDraft.long, size_stored_append]
    simp only [StoredConstant.slots, List.length_cons, List.length_nil]
    omega
  text := h.text.mono fun _ _ htext => htext.mono (isPartOf_append 2)
  classRef := h.classRef.mono fun _ _ hclass => hclass.mono (isPartOf_append 2)
  named := h.named
  sized := h.sized_append 2 fun _ => ⟨rfl, Bytes.length_ofNat 8 _⟩

/-- Pool with an appended text. -/
private def withText (pool : PoolDraft) (value : String) : PoolDraft :=
  { pool.append (.text (Text.Utf8.encode value)) 1 with
    texts := pool.texts.insert value pool.next }

private theorem Holds.withText (h : pool.Holds longs texts classes) {value : String}
    (hnew : value ∉ texts) :
    (pool.withText value).Holds longs (texts ++ [value]) classes ∧
      (pool.withText value).stored.HasText pool.next value := by
  have hstored : (pool.withText value).stored.HasText pool.next value := by
    refine ⟨pool.stored.slots.size, h.next, ?_⟩
    -- The slot holds the decoding of the encoded text.
    show (pool.append _ 1).stored.slots[_]? = _
    rw [getElem?_size_append, StoredConstant.slots, ModifiedUtf8.decode_encode]
    rfl
  refine ⟨?_, hstored⟩
  constructor
  case next => exact next_append h.next rfl
  case size =>
    have hsize : (pool.withText value).stored.slots.size = pool.stored.slots.size + 1 :=
      size_stored_append 1
    have := h.size
    rw [card_concat hnew]
    omega
  case text => exact (h.text.mono fun _ _ htext => htext.mono (isPartOf_append 1)).insert hstored
  case classRef => exact h.classRef.mono fun _ _ hclass => hclass.mono (isPartOf_append 1)
  case named => exact fun name hname => List.mem_append_left _ (h.named name hname)
  case sized =>
    intro htexts
    refine h.sized_append 1 (fun _ => ?_) fun other hother =>
      htexts other (List.mem_append_left _ hother)
    show (Text.Utf8.encode value).length < _
    rw [Text.Utf8.length_encode]
    exact htexts value (by simp)

/-- Pool with an appended class reference. -/
private def withClass (pool : PoolDraft) (name : String) (nameIndex : UInt16) : PoolDraft :=
  { pool.append (.classRef nameIndex) 1 with
    classes := pool.classes.insert name pool.next }

private theorem Holds.withClass (h : pool.Holds longs texts classes) {name : String}
    {nameIndex : UInt16} (hnew : name ∉ classes) (hmem : name ∈ texts)
    (hname : pool.stored.HasText nameIndex name) :
    (pool.withClass name nameIndex).Holds longs texts (classes ++ [name]) ∧
      (pool.withClass name nameIndex).stored.HasClass pool.next name := by
  have hstored : (pool.withClass name nameIndex).stored.HasClass pool.next name :=
    ⟨pool.stored.slots.size, nameIndex, h.next, getElem?_size_append 1,
      hname.mono (isPartOf_append 1)⟩
  refine ⟨?_, hstored⟩
  constructor
  case next => exact next_append h.next rfl
  case size =>
    have hsize : (pool.withClass name nameIndex).stored.slots.size =
        pool.stored.slots.size + 1 := size_stored_append 1
    have := h.size
    rw [card_concat hnew]
    omega
  case text => exact h.text.mono fun _ _ htext => htext.mono (isPartOf_append 1)
  case classRef =>
    exact (h.classRef.mono fun _ _ hclass => hclass.mono (isPartOf_append 1)).insert hstored
  case named =>
    intro other hother
    obtain hold | rfl := List.mem_append.mp hother |>.imp_right List.mem_singleton.mp
    · exact h.named other hold
    · exact hmem
  case sized => exact h.sized_append 1 fun _ => trivial

/-! ### Collecting actions -/

variable {α β : Type} {longs' : Nat} {texts' classes' : List String}

/-- An action adds the given constants to every pool with the invariant, and its result refers to
them in every extension. -/
def Collects (act : StateM PoolDraft α) (longs : Nat) (texts classes : List String)
    (Refers : ConstantPool → α → Prop) : Prop :=
  ∀ (pool : PoolDraft) (longsBefore : Nat) (textsBefore classesBefore : List String),
    pool.Holds longsBefore textsBefore classesBefore →
      ∃ result later, act pool = (result, later) ∧
        later.Holds (longsBefore + longs) (textsBefore ++ texts) (classesBefore ++ classes) ∧
        pool.stored.IsPartOf later.stored ∧
        ∀ final : ConstantPool, later.stored.IsPartOf final → Refers final result

variable {act : StateM PoolDraft α} {Refers : ConstantPool → α → Prop}

private theorem Collects.congr (h : Collects act longs texts classes Refers)
    {Refers' : ConstantPool → α → Prop} (htexts : ∀ value, value ∈ texts' ↔ value ∈ texts)
    (hclasses : ∀ name, name ∈ classes' ↔ name ∈ classes)
    (hrefers : ∀ pool result, Refers pool result → Refers' pool result) :
    Collects act longs texts' classes' Refers' := by
  intro pool longsBefore textsBefore classesBefore hpool
  obtain ⟨result, later, hact, hlater, hpart, hrefs⟩ := h _ _ _ _ hpool
  refine ⟨result, later, hact, ?_, hpart, fun final hfinal => hrefers _ _ (hrefs final hfinal)⟩
  exact hlater.congr (by simp [htexts]) (by simp [hclasses])

private theorem collects_pure (value : α) :
    Collects (pure value) 0 [] [] fun _ result => result = value := by
  intro pool longsBefore textsBefore classesBefore hpool
  refine ⟨value, pool, rfl, ?_, ConstantPool.IsPartOf.rfl, fun _ _ => rfl⟩
  simpa using hpool

/-- Sequential composition collects the constants of both actions. -/
theorem Collects.bind {next : α → StateM PoolDraft β} {Refers' : α → ConstantPool → β → Prop}
    (h : Collects act longs texts classes Refers)
    (hnext : ∀ result, Collects (next result) longs' texts' classes' (Refers' result)) :
    Collects (act >>= next) (longs + longs') (texts ++ texts') (classes ++ classes')
      fun pool result' => ∃ result, Refers pool result ∧ Refers' result pool result' := by
  intro pool longsBefore textsBefore classesBefore hpool
  obtain ⟨result, middle, hact, hmiddle, hpart, hrefs⟩ := h _ _ _ _ hpool
  obtain ⟨result', later, hact', hlater, hpart', hrefs'⟩ := hnext result _ _ _ _ hmiddle
  refine ⟨result', later, ?_, ?_, hpart.trans hpart', ?_⟩
  · calc (act >>= next) pool = next (act pool).1 (act pool).2 := rfl
      _ = (result', later) := by rw [hact, hact']
  · simpa only [← Nat.add_assoc, ← List.append_assoc] using hlater
  · -- The second action only adds to the pool, so the first result still refers to the same.
    intro final hfinal
    exact ⟨result, hrefs final (hpart'.trans hfinal), hrefs' final hfinal⟩

/-- A traversal collects the constants of all items. -/
theorem collects_mapM {act : α → StateM PoolDraft β} {textsOf classesOf : α → List String}
    {Refers : α → ConstantPool → β → Prop}
    (h : ∀ item, Collects (act item) 0 (textsOf item) (classesOf item) (Refers item))
    (items : List α) :
    Collects (items.mapM act) 0 (items.flatMap textsOf) (items.flatMap classesOf)
      fun pool results =>
        List.Forall₂ (fun item result => Refers item pool result) items results := by
  induction items with
  | nil =>
    refine (collects_pure []).congr (by simp) (by simp) ?_
    rintro pool _ rfl
    exact .nil
  | cons item items ih =>
    rw [List.mapM_cons]
    refine ((h item).bind fun result => ih.bind fun results =>
      collects_pure (result :: results)).congr (by simp) (by simp) ?_
    rintro pool _ ⟨result, hresult, results, hresults, rfl⟩
    exact .cons hresult hresults

private theorem collects_longs (values : List Int64) :
    Collects (modify fun pool => values.foldl (fun pool value => pool.long value) pool)
      values.length [] [] fun _ _ => True := by
  intro pool longs texts classes hpool
  have hlongs : (values.foldl (fun pool value => pool.long value) pool).Holds
        (longs + values.length) texts classes ∧
      pool.stored.IsPartOf (values.foldl (fun pool value => pool.long value) pool).stored := by
    induction values generalizing pool longs with
    | nil => exact ⟨hpool, ConstantPool.IsPartOf.rfl⟩
    | cons value values ih =>
      obtain ⟨hholds, hpart⟩ := ih _ _ (hpool.long value)
      refine ⟨?_, (isPartOf_append 2).trans hpart⟩
      rw [List.length_cons, Nat.add_comm values.length, ← Nat.add_assoc]
      exact hholds
  refine ⟨(), _, rfl, ?_, hlongs.2, fun _ _ => trivial⟩
  rw [List.append_nil, List.append_nil]
  exact hlongs.1

/-- Interning a text returns an index that denotes it. -/
theorem collects_text (value : String) :
    Collects (text value) 0 [value] [] fun pool index => pool.HasText index value := by
  intro pool longs texts classes hpool
  rw [Nat.add_zero, List.append_nil]
  by_cases hmem : value ∈ texts
  · obtain ⟨index, hindex, htext⟩ := hpool.text.of_mem value hmem
    refine ⟨index, pool, ?_, ?_, ConstantPool.IsPartOf.rfl, fun _ => htext.mono⟩
    · simp only [text, hindex]
    · exact hpool.congr (by simp [hmem]) (by simp)
  · obtain ⟨hholds, htext⟩ := hpool.withText hmem
    refine ⟨pool.next, pool.withText value, ?_, hholds, isPartOf_append 1, fun _ => htext.mono⟩
    simp only [text, hpool.text.of_not_mem value hmem]
    rfl

/-- Interning a class returns an index that denotes it, and collects its name. -/
theorem collects_classRef (name : String) :
    Collects (classRef name) 0 [name] [name] fun pool index => pool.HasClass index name := by
  intro pool longs texts classes hpool
  by_cases hmem : name ∈ classes
  · obtain ⟨index, hindex, hclass⟩ := hpool.classRef.of_mem name hmem
    refine ⟨index, pool, ?_, ?_, ConstantPool.IsPartOf.rfl, fun _ => hclass.mono⟩
    · simp only [classRef, hindex]
    · exact hpool.congr (by simp [hpool.named name hmem]) (by simp [hmem])
  · -- The name may be a text already, but the class stands behind it in either case.
    obtain ⟨nameIndex, named, hact, hnamed, hpart, hname⟩ := collects_text name _ _ _ _ hpool
    rw [List.append_nil] at hnamed
    obtain ⟨hholds, hclass⟩ :=
      hnamed.withClass hmem (by simp) (hname _ ConstantPool.IsPartOf.rfl)
    refine ⟨named.next, named.withClass name nameIndex, ?_, hholds, hpart.trans (isPartOf_append 1),
      fun _ => hclass.mono⟩
    simp only [classRef, hpool.classRef.of_not_mem name hmem, hact]
    rfl

/-- An optional class is interned before the continuation. -/
theorem collects_optionalClass (name? : Option String) {next : UInt16 → StateM PoolDraft β}
    {Refers : UInt16 → ConstantPool → β → Prop}
    (hnext : ∀ index, Collects (next index) longs texts classes (Refers index)) :
    Collects (match name? with | none => pure 0 >>= next | some name => classRef name >>= next)
      (0 + longs) (name?.toList ++ texts) (name?.toList ++ classes) fun pool result =>
        ∃ index, pool.HasOptionalClass index name? ∧ Refers index pool result := by
  cases name? with
  | none => exact (collects_pure 0).bind hnext
  | some name => exact (collects_classRef name).bind hnext

/-- Interning a member collects its name and descriptor. -/
theorem collects_member (names : String × String) :
    Collects (member names) 0 [names.1, names.2] []
      fun pool indices => pool.HasText indices.2 names.2 := by
  refine ((collects_text names.1).bind fun name => (collects_text names.2).bind fun descriptor =>
    collects_pure (name, descriptor)).congr (by simp) (by simp) ?_
  rintro pool _ ⟨_, -, _, hdescriptor, rfl⟩
  exact hdescriptor

private theorem collects_innerClass (entry : InnerClass) :
    Collects (innerClass entry) 0 (entry.inner :: entry.outer.toList)
      (entry.inner :: entry.outer.toList) fun pool indices =>
        pool.HasClass indices.1 entry.inner ∧ pool.HasOptionalClass indices.2 entry.outer := by
  have h := (collects_classRef entry.inner).bind fun inner =>
    collects_optionalClass entry.outer fun outer => collects_pure (inner, outer)
  refine h.congr (by simp) (by simp) ?_
  rintro pool _ ⟨_, hinner, _, houter, rfl⟩
  exact ⟨hinner, houter⟩

end PoolDraft

/-! ### Drafts -/

namespace ClassDraft

/-- Classes named by a draft. -/
def classNames (draft : ClassDraft) : List String :=
  draft.name :: draft.superName.toList ++ draft.interfaces ++
    draft.innerClasses.flatMap fun entry => entry.inner :: entry.outer.toList

/-- Texts emitted for every draft. -/
def fixedTexts : List String :=
  ["Code", "SourceFile", "Fixture.java", ClassFile.innerClassesAttribute]

/-- Texts of the class file of a draft. -/
def texts (draft : ClassDraft) : List String :=
  draft.classNames ++ draft.fields.flatMap (fun names => [names.1, names.2]) ++
    draft.methods.flatMap (fun names => [names.1, names.2]) ++ fixedTexts

/-- The indices of a draft denote its names and descriptors, and the names of the emitted
attributes. -/
structure Refers (draft : ClassDraft) (pool : ConstantPool) (indices : Indices) : Prop where
  self : pool.HasClass indices.self draft.name
  superclass : pool.HasOptionalClass indices.superclass draft.superName
  interfaces : List.Forall₂ (fun name index => pool.HasClass index name) draft.interfaces
    indices.interfaces
  fields : List.Forall₂ (fun names member => pool.HasText member.2 names.2) draft.fields
    indices.fields
  methods : List.Forall₂ (fun names member => pool.HasText member.2 names.2) draft.methods
    indices.methods
  sourceFile : pool.HasText indices.sourceFile "SourceFile"
  innerAttribute : pool.HasText indices.innerAttribute ClassFile.innerClassesAttribute
  innerClasses : List.Forall₂
    (fun entry record => pool.HasClass record.1 entry.inner ∧
      pool.HasOptionalClass record.2 entry.outer) draft.innerClasses indices.innerClasses

open PoolDraft in
/-- Collecting a draft adds its eight-byte constants, texts and classes. -/
theorem collects_collect (draft : ClassDraft) :
    Collects draft.collect draft.longs.length draft.texts draft.classNames draft.Refers := by
  refine ((collects_longs draft.longs).bind fun _ => (collects_classRef draft.name).bind fun self =>
    collects_optionalClass draft.superName fun superclass =>
    (collects_mapM collects_classRef draft.interfaces).bind fun interfaces =>
    (collects_mapM collects_member draft.fields).bind fun fields =>
    (collects_text "Code").bind fun code =>
    (collects_mapM collects_member draft.methods).bind fun methods =>
    (collects_text "SourceFile").bind fun sourceFile =>
    (collects_text "Fixture.java").bind fun sourceName =>
    (collects_text ClassFile.innerClassesAttribute).bind fun innerAttribute =>
    (collects_mapM collects_innerClass draft.innerClasses).bind fun innerClasses =>
    collects_pure (Indices.mk self superclass interfaces fields code methods sourceFile sourceName
      innerAttribute innerClasses)).congr ?_ ?_ ?_
  · intro value
    simp only [texts, classNames, fixedTexts, List.mem_append, List.mem_cons, List.mem_flatMap]
    aesop
  · intro name
    simp only [classNames, List.mem_append, List.mem_cons, List.mem_flatMap]
    aesop
  · rintro pool _ ⟨_, -, self, hself, superclass, hsuper, interfaces, hinterfaces, fields, hfields,
      code, -, methods, hmethods, sourceFile, hsourceFile, sourceName, -, innerAttribute, hinner,
      innerClasses, hinnerClasses, rfl⟩
    exact ⟨hself, hsuper, hinterfaces, hfields, hmethods, hsourceFile, hinner,
      hinnerClasses⟩

end ClassDraft

end ClassAtlas
