import ClassAtlas.ClassFile.Layout
import ClassAtlas.Proofs.ClassFile.Reading
import Mathlib

/-!
# Constant pool grammar

The pool decoder accepts exactly the encodings of constant lists that fill the declared slots. One
law describes a single pass of its loop; the law of the loop follows by induction. Specification:
`SPEC_FULL.md` §4.2, lines 40–46.
-/

namespace ClassAtlas

private theorem ConstantLayout.ofTag?_eq_text {tag : UInt8} :
    ofTag? tag = some .text ↔ tag = 1 := by
  constructor
  · intro h
    unfold ofTag? at h
    split at h <;> simp_all
  · rintro rfl
    rfl

private theorem ConstantLayout.ofTag?_eq_classRef {tag : UInt8} :
    ofTag? tag = some .classRef ↔ tag = 7 := by
  constructor
  · intro h
    unfold ofTag? at h
    split at h <;> simp_all
  · rintro rfl
    rfl

/-- The tags of the constants with two slots. -/
theorem ConstantLayout.ofTag?_eq_wide {tag : UInt8} :
    ofTag? tag = some .wide ↔ tag = 5 ∨ tag = 6 := by
  constructor
  · intro h
    unfold ofTag? at h
    split at h <;> simp_all
  · rintro (rfl | rfl) <;> rfl

/-- Every constant occupies a slot. -/
theorem StoredConstant.length_slots_pos (constant : StoredConstant) :
    0 < constant.slots.length := by
  cases constant <;> simp [slots]

namespace ConstantPool

/-! ### Lookup -/

section Lookup

variable {pool : ConstantPool} {index : UInt16} {error : ClassFileError}

/-- `get` returns the constant in the slot of its index. -/
theorem get_eq_ok_iff {constant : Constant} :
    pool.get index = .ok constant ↔ pool.slots[index.toNat]? = some (some constant) := by
  unfold get
  split
  · next h => simp [h]
  · next h => simpa using h constant

/-- `text` succeeds if and only if the slot holds that text. -/
theorem text_eq_ok_iff {value : String} :
    pool.text index = .ok value ↔ pool.slots[index.toNat]? = some (some (.text value)) := by
  rw [← get_eq_ok_iff, text]
  cases pool.get index with
  | error error => simp [bind, Except.bind]
  | ok constant => cases constant <;> simp [bind, Except.bind]

/-- `className` succeeds if and only if the slot refers to a slot with that text. -/
theorem className_eq_ok_iff {name : String} :
    pool.className index = .ok name ↔ ∃ nameIndex : UInt16,
      pool.slots[index.toNat]? = some (some (.classRef nameIndex)) ∧
        pool.slots[nameIndex.toNat]? = some (some (.text name)) := by
  have htext : ∀ nameIndex, pool.text nameIndex = .ok name ↔
      pool.get nameIndex = .ok (.text name) := fun _ => text_eq_ok_iff.trans get_eq_ok_iff.symm
  simp only [← get_eq_ok_iff, className]
  cases pool.get index with
  | error error => simp [bind, Except.bind]
  | ok constant => cases constant <;> simp [bind, Except.bind, htext]

/-- `get` fails with `badConstantIndex` only. -/
theorem get_eq_error (h : pool.get index = .error error) : error = .badConstantIndex index := by
  unfold get at h
  split at h
  · cases h
  · exact (Except.error.inj h).symm

/-- `text` fails on an unusable index or on another form of constant. -/
theorem text_eq_error (h : pool.text index = .error error) :
    error = .badConstantIndex index ∨ error = .unexpectedConstant index .text := by
  rw [text] at h
  cases hget : pool.get index with
  | error other =>
    rw [hget] at h
    cases h
    exact Or.inl (get_eq_error hget)
  | ok constant =>
    rw [hget] at h
    cases constant with
    | text value => cases h
    | classRef nameIndex => exact Or.inr (Except.error.inj h).symm
    | other => exact Or.inr (Except.error.inj h).symm

/-- `className` fails if either of the two indices is unusable or of another form. -/
theorem className_eq_error (h : pool.className index = .error error) :
    ∃ slot form, error = .badConstantIndex slot ∨ error = .unexpectedConstant slot form := by
  rw [className] at h
  cases hget : pool.get index with
  | error other =>
    rw [hget] at h
    cases h
    exact ⟨index, .classRef, Or.inl (get_eq_error hget)⟩
  | ok constant =>
    rw [hget] at h
    cases constant with
    | classRef nameIndex => exact ⟨nameIndex, .text, text_eq_error h⟩
    | text value => exact ⟨index, .classRef, Or.inr (Except.error.inj h).symm⟩
    | other => exact ⟨index, .classRef, Or.inr (Except.error.inj h).symm⟩

end Lookup

/-! ### The decoding loop -/

open Decoder

/-- State of the loop: the next index and the slots so far. -/
structure Filling where
  index : UInt16
  slots : Array (Option Constant)

namespace Filling

/-- Store a constant with one slot. -/
def store (constant : Constant) (filling : Filling) : Filling :=
  ⟨filling.index + 1, filling.slots.push (some constant)⟩

/-- Store an opaque constant with two slots. -/
def storeWide (filling : Filling) : Filling :=
  ⟨filling.index + 2, (filling.slots.push (some .other)).push none⟩

/-- Body of the loop: decode one constant and store it. -/
def pass (count : UInt16) (filling : Filling) : Decoder Filling := do
  let tag ← u8
  match ConstantLayout.ofTag? tag with
  | none => refuse (.unknownConstantTag filling.index tag)
  | some .text => do
    let length ← u16
    let bytes ← Decoder.bytes length.toNat
    return filling.store (.text (ModifiedUtf8.decode bytes))
  | some .classRef => do
    let nameIndex ← u16
    return filling.store (.classRef nameIndex)
  | some (.fixed size) => do
    skip size
    return filling.store .other
  | some .wide =>
    if filling.index + 1 < count then do
      skip 8
      return filling.storeWide
    else refuse (.badConstantIndex filling.index)

/-- Append the slots of a constant. -/
def extend (constant : StoredConstant) (filling : Filling) : Filling :=
  ⟨filling.index + UInt16.ofNat constant.slots.length,
    filling.slots ++ constant.slots.toArray⟩

end Filling

variable {count index : UInt16} {slots : Array (Option Constant)} {bytes : List UInt8}
  {pool : ConstantPool} {filling next : Filling}

/-- The loop runs its body while an index remains. -/
theorem decodeFrom_of_lt (h : index < count) :
    decodeFrom count index slots = (Filling.mk index slots).pass count >>= fun next =>
      decodeFrom count next.index next.slots := by
  rw [decodeFrom, dif_pos h, Filling.pass, bind_assoc]
  congr 1
  funext tag
  cases htag : ConstantLayout.ofTag? tag with
  | none => rfl
  | some layout =>
    cases layout with
    | wide =>
      by_cases hroom : index + 1 < count
      · simp only [dif_pos hroom, if_pos hroom]
        rfl
      · simp only [dif_neg hroom, if_neg hroom]
        rfl
    | _ => rfl

/-- The loop ends when no index remains. -/
theorem decodeFrom_of_not_lt (h : ¬ index < count) :
    decodeFrom count index slots = .done ⟨slots⟩ := by
  rw [decodeFrom, dif_neg h]

/-- The two slots of a constant fit if and only if its second index is in range. -/
theorem wide_room (h : index < count) :
    index.toNat + 2 ≤ count.toNat ↔ index + 1 < count := by
  have hcount := count.toNat_lt
  simp only [UInt16.lt_iff_toNat_lt, UInt16.toNat_add, UInt16.reduceToNat] at h ⊢
  omega

/-- The next index does not wrap as long as the slots fit. -/
theorem Filling.toNat_index_extend (filling : Filling) {constant : StoredConstant}
    (h : filling.index.toNat + constant.slots.length ≤ count.toNat) :
    (filling.extend constant).index.toNat = filling.index.toNat + constant.slots.length := by
  have hcount := count.toNat_lt
  rw [extend, UInt16.toNat_add, UInt16.toNat_ofNat_of_lt' (by simp only [UInt16.size]; omega),
    Nat.mod_eq_of_lt (by omega)]

private theorem Filling.storeWide_eq (filling : Filling) (tag : UInt8) (content : List UInt8) :
    filling.storeWide = filling.extend (.wide tag content) := by
  rw [storeWide, extend, Filling.mk.injEq]
  exact ⟨rfl, Array.toList_inj.mp (by simp [StoredConstant.slots])⟩

/-- A pass succeeds on the encoding of a well-sized constant that fits, and appends its slots. -/
theorem Filling.ends_pass (h : filling.index < count) :
    (filling.pass count).Ends bytes (.ok next) ↔
      ∃ constant : StoredConstant, constant.IsWellSized ∧
        filling.index.toNat + constant.slots.length ≤ count.toNat ∧
        bytes = constant.encode ∧ next = filling.extend constant := by
  have hlt : filling.index.toNat < count.toNat := UInt16.lt_iff_toNat_lt.mp h
  rw [pass, ends_bind_ok]
  simp only [ends_u8]
  constructor
  · rintro ⟨_, _, tag, rfl, rfl, hends⟩
    split at hends
    · exact absurd (ends_refuse.mp hends).2 (by simp)
    · next htag =>
      obtain rfl := ConstantLayout.ofTag?_eq_text.mp htag
      simp only [ends_bind_ok, ends_u16, ends_bytes, ends_pure, Except.ok.injEq] at hends
      obtain ⟨_, _, length, rfl, rfl, content, _, _, rfl, ⟨hlength, rfl⟩, rfl, rfl⟩ := hends
      refine ⟨.text _, ?_, hlt, ?_, rfl⟩
      · exact (congrArg (· < Bytes.wordLimit) hlength).mpr length.toNat_lt
      · simp [StoredConstant.encode, hlength]
    · next htag =>
      obtain rfl := ConstantLayout.ofTag?_eq_classRef.mp htag
      simp only [ends_bind_ok, ends_u16, ends_pure, Except.ok.injEq] at hends
      obtain ⟨_, _, nameIndex, rfl, rfl, rfl, rfl⟩ := hends
      exact ⟨.classRef nameIndex, trivial, hlt, by simp [StoredConstant.encode], rfl⟩
    · next size htag =>
      simp only [ends_bind_ok, ends_skip, ends_pure, Except.ok.injEq] at hends
      obtain ⟨content, _, -, rfl, rfl, rfl, rfl⟩ := hends
      exact ⟨.fixed tag content, htag, hlt, by simp [StoredConstant.encode], rfl⟩
    · next htag =>
      split at hends
      · next hroom =>
        simp only [ends_bind_ok, ends_skip, ends_pure, Except.ok.injEq] at hends
        obtain ⟨content, _, -, rfl, hsize, rfl, rfl⟩ := hends
        exact ⟨.wide tag content, ⟨htag, hsize⟩, (wide_room h).mpr hroom,
          by simp [StoredConstant.encode], filling.storeWide_eq tag content⟩
      · exact absurd (ends_refuse.mp hends).2 (by simp)
  · rintro ⟨constant, hsized, hroom, rfl, rfl⟩
    cases constant with
    | text content =>
      have hlength : (UInt16.ofNat content.length).toNat = content.length :=
        UInt16.toNat_ofNat_of_lt' hsized
      refine ⟨[1], Bytes.word (UInt16.ofNat content.length) ++ content, 1, rfl, rfl,
        ends_bind_ok.mpr ?_⟩
      refine ⟨_, content, UInt16.ofNat content.length, rfl, ends_u16.mpr rfl, ends_bind_ok.mpr ?_⟩
      exact ⟨content, [], content, (List.append_nil _).symm, ends_bytes.mpr ⟨hlength.symm, rfl⟩,
        rfl, rfl⟩
    | classRef nameIndex =>
      refine ⟨[7], Bytes.word nameIndex, 7, rfl, rfl, ends_bind_ok.mpr ?_⟩
      exact ⟨_, [], nameIndex, (List.append_nil _).symm, ends_u16.mpr rfl, rfl, rfl⟩
    | fixed tag content =>
      refine ⟨[tag], content, tag, rfl, rfl, ?_⟩
      rw [show ConstantLayout.ofTag? tag = _ from hsized]
      exact ends_bind_ok.mpr
        ⟨content, [], (), (List.append_nil _).symm, ends_skip.mpr rfl, rfl, rfl⟩
    | wide tag content =>
      refine ⟨[tag], content, tag, rfl, rfl, ?_⟩
      rw [hsized.1]
      simp only [if_pos ((wide_room h).mp hroom), filling.storeWide_eq tag content]
      exact ends_bind_ok.mpr
        ⟨content, [], (), (List.append_nil _).symm, ends_skip.mpr hsized.2, rfl, rfl⟩

/-- One unfolding of the loop on its accepted bytes. -/
theorem ends_decodeFrom_of_lt (h : index < count) :
    (decodeFrom count index slots).Ends bytes (.ok pool) ↔
      ∃ constant : StoredConstant, ∃ rest, constant.IsWellSized ∧
        index.toNat + constant.slots.length ≤ count.toNat ∧ bytes = constant.encode ++ rest ∧
        (decodeFrom count (index + UInt16.ofNat constant.slots.length)
          (slots ++ constant.slots.toArray)).Ends rest (.ok pool) := by
  rw [decodeFrom_of_lt h, ends_bind_ok]
  constructor
  · rintro ⟨_, rest, next, rfl, hpass, hends⟩
    obtain ⟨constant, hsized, hroom, rfl, rfl⟩ := (Filling.ends_pass h).mp hpass
    exact ⟨constant, rest, hsized, hroom, rfl, hends⟩
  · rintro ⟨constant, rest, hsized, hroom, rfl, hends⟩
    exact ⟨_, rest, _, rfl, (Filling.ends_pass h).mpr ⟨constant, hsized, hroom, rfl, rfl⟩, hends⟩

/-- The loop consumes nothing when no index remains. -/
theorem ends_decodeFrom_of_ge (h : ¬ index < count) :
    (decodeFrom count index slots).Ends bytes (.ok pool) ↔ bytes = [] ∧ pool = ⟨slots⟩ := by
  rw [decodeFrom_of_not_lt h]
  show bytes = [] ∧ Except.ok pool = .ok ⟨slots⟩ ↔ _
  rw [Except.ok.injEq]

/-- The loop accepts the encodings of constants that fill the remaining slots. -/
theorem ends_decodeFrom :
    (decodeFrom count index slots).Ends bytes (.ok pool) ↔
      ∃ constants : List StoredConstant, (∀ constant ∈ constants, constant.IsWellSized) ∧
        index.toNat + (constants.flatMap StoredConstant.slots).length =
          max count.toNat index.toNat ∧
        bytes = constants.flatMap StoredConstant.encode ∧
        pool = ⟨slots ++ (constants.flatMap StoredConstant.slots).toArray⟩ := by
  -- Induction on the number of remaining slots, which every constant decreases.
  induction hleft : count.toNat - index.toNat using Nat.strongRecOn
    generalizing index slots bytes with
  | ind left ih =>
    by_cases h : index < count
    · have hlt : index.toNat < count.toNat := UInt16.lt_iff_toNat_lt.mp h
      have hnext : ∀ constant : StoredConstant, index.toNat + constant.slots.length ≤ count.toNat →
          (index + UInt16.ofNat constant.slots.length).toNat =
            index.toNat + constant.slots.length :=
        fun _ hroom => Filling.toNat_index_extend ⟨index, slots⟩ hroom
      rw [ends_decodeFrom_of_lt h]
      constructor
      · rintro ⟨constant, rest, hsized, hroom, rfl, hends⟩
        have hpos := constant.length_slots_pos
        obtain ⟨constants, hall, hfill, rfl, rfl⟩ :=
          (ih _ (by rw [hnext constant hroom]; omega) rfl).mp hends
        rw [hnext constant hroom] at hfill
        refine ⟨constant :: constants, ?_, ?_, rfl, ?_⟩
        · exact List.forall_mem_cons.mpr ⟨hsized, hall⟩
        · rw [List.flatMap_cons, List.length_append]
          omega
        · simp
      · rintro ⟨constants, hall, hfill, rfl, rfl⟩
        cases constants with
        | nil =>
          simp at hfill
          omega
        | cons constant constants =>
          obtain ⟨hsized, hall⟩ := List.forall_mem_cons.mp hall
          have hpos := constant.length_slots_pos
          rw [List.flatMap_cons, List.length_append] at hfill
          have hroom : index.toNat + constant.slots.length ≤ count.toNat := by omega
          refine ⟨constant, _, hsized, hroom, rfl, ?_⟩
          refine (ih _ (by rw [hnext constant hroom]; omega) rfl).mpr
            ⟨constants, hall, ?_, rfl, ?_⟩
          · rw [hnext constant hroom]
            omega
          · simp
    · have hge : count.toNat ≤ index.toNat :=
        not_lt.mp fun hlt => h (UInt16.lt_iff_toNat_lt.mpr hlt)
      rw [ends_decodeFrom_of_ge h, max_eq_right hge]
      constructor
      · rintro ⟨rfl, rfl⟩
        exact ⟨[], by simp, rfl, rfl, by simp⟩
      · rintro ⟨constants, -, hfill, rfl, rfl⟩
        cases constants with
        | nil => simp
        | cons constant constants =>
          have hpos := constant.length_slots_pos
          rw [List.flatMap_cons, List.length_append] at hfill
          omega

/-- The pool decoder accepts a slot count followed by constants that fill it. -/
theorem ends_decoder :
    ConstantPool.decoder.Ends bytes (.ok pool) ↔
      ∃ (count : UInt16) (constants : List StoredConstant),
        (∀ constant ∈ constants, constant.IsWellSized) ∧
        (constants.flatMap StoredConstant.slots).length + 1 = max count.toNat 1 ∧
        bytes = Bytes.word count ++ constants.flatMap StoredConstant.encode ∧
        pool = ⟨(none :: constants.flatMap StoredConstant.slots).toArray⟩ := by
  rw [ConstantPool.decoder, ends_bind_ok]
  simp only [ends_u16, ends_decodeFrom]
  constructor
  · rintro ⟨_, _, count, rfl, rfl, constants, hall, hfill, rfl, rfl⟩
    exact ⟨count, constants, hall, (Nat.add_comm _ _).trans hfill, rfl, by simp⟩
  · rintro ⟨count, constants, hall, hfill, rfl, rfl⟩
    exact ⟨_, _, count, rfl, rfl, constants, hall, (Nat.add_comm _ _).trans hfill, rfl, by simp⟩

end ConstantPool

end ClassAtlas
