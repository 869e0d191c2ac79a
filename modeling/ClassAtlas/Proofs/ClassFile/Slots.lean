import ClassAtlas.Proofs.ClassFile.Constants
import Mathlib

/-!
# Constant pool slots

The slot of a constant is determined by the constants in front of it; an eight-byte constant makes
the following slot unusable. In the pool of a list of constants, lookup succeeds exactly at the
indices of constants. Specification: `SPEC_FULL.md` §4.2, lines 40–46, and §10.2, lines 128–129.
-/

namespace ClassAtlas

/-- Constant retained for a stored one. -/
def StoredConstant.content : StoredConstant → Constant
  | text bytes => .text (ModifiedUtf8.decode bytes)
  | classRef nameIndex => .classRef nameIndex
  | fixed .. | wide .. => .other

namespace ConstantPool

/-- A constant stands at an index: the constants in front of it occupy the indices below. -/
def StandsAt (constants : List StoredConstant) (index : Nat) (constant : StoredConstant) : Prop :=
  ∃ before after, constants = before ++ constant :: after ∧
    index = (before.flatMap StoredConstant.slots).length + 1

/-- A pool of `count` slots is filled by a list of constants: each is in the slot of its index, the
slot behind an eight-byte constant is unusable like slot zero, there are no other slots, and lookup
succeeds exactly at the indices of constants. -/
structure IsFilledBy (pool : ConstantPool) (count : UInt16) (constants : List StoredConstant) :
    Prop where
  size_eq : pool.slots.size = max count.toNat 1
  zero : pool.slots[0]? = some none
  own {index : Nat} {constant : StoredConstant} : StandsAt constants index constant →
    pool.slots[index]? = some (some constant.content)
  second {index : Nat} {tag : UInt8} {content : List UInt8} :
    StandsAt constants index (.wide tag content) → pool.slots[index + 1]? = some none
  slot_cases {index : Nat} : index < pool.slots.size →
    index = 0 ∨ (∃ constant, StandsAt constants index constant) ∨
      ∃ first tag content, index = first + 1 ∧ StandsAt constants first (.wide tag content)
  get_eq_ok_iff {index : UInt16} {value : Constant} : pool.get index = .ok value ↔
    ∃ constant, StandsAt constants index.toNat constant ∧ value = constant.content
  get_eq_error_iff {index : UInt16} {error : ClassFileError} : pool.get index = .error error ↔
    (¬ ∃ constant, StandsAt constants index.toNat constant) ∧ error = .badConstantIndex index

/-- Pool of a list of constants. -/
def ofConstants (constants : List StoredConstant) : ConstantPool :=
  ⟨(none :: constants.flatMap StoredConstant.slots).toArray⟩

variable {constants : List StoredConstant} {constant : StoredConstant} {index : Nat}

/-! ### Contents of slots -/

private theorem slots_eq_cons (constant : StoredConstant) :
    ∃ more, constant.slots = some constant.content :: more := by
  cases constant <;> exact ⟨_, rfl⟩

/-- The pool of a list of constants has one slot more than the constants occupy. -/
theorem size_ofConstants (constants : List StoredConstant) :
    (ofConstants constants).slots.size =
      (constants.flatMap StoredConstant.slots).length + 1 := by
  rw [ofConstants, List.size_toArray, List.length_cons]

/-- The slots of a pool split at a constant. -/
theorem StandsAt.split (h : StandsAt constants index constant) : ∃ front back,
    none :: constants.flatMap StoredConstant.slots = front ++ constant.slots ++ back ∧
      front.length = index := by
  obtain ⟨before, after, rfl, rfl⟩ := h
  refine ⟨none :: before.flatMap StoredConstant.slots, after.flatMap StoredConstant.slots, ?_, rfl⟩
  simp

private theorem StandsAt.own (h : StandsAt constants index constant) :
    (ofConstants constants).slots[index]? = some (some constant.content) := by
  obtain ⟨front, back, hsplit, rfl⟩ := h.split
  obtain ⟨more, hslots⟩ := slots_eq_cons constant
  rw [ofConstants, List.getElem?_toArray, hsplit, hslots]
  simp

private theorem StandsAt.second {tag : UInt8} {content : List UInt8}
    (h : StandsAt constants index (.wide tag content)) :
    (ofConstants constants).slots[index + 1]? = some none := by
  obtain ⟨front, back, hsplit, rfl⟩ := h.split
  rw [ofConstants, List.getElem?_toArray, hsplit]
  simp [StoredConstant.slots]

/-- Every slot belongs to a constant or follows an eight-byte one. -/
theorem exists_standsAt {position : Nat}
    (h : position < (constants.flatMap StoredConstant.slots).length) :
    (∃ constant, StandsAt constants (position + 1) constant) ∨
      ∃ tag content, StandsAt constants position (.wide tag content) := by
  induction constants generalizing position with
  | nil => exact absurd h (Nat.not_lt_zero _)
  | cons head tail ih =>
    rw [List.flatMap_cons, List.length_append] at h
    have hbehind : ∀ {index constant}, StandsAt tail index constant →
        StandsAt (head :: tail) (index + head.slots.length) constant := by
      rintro _ constant ⟨before, after, rfl, rfl⟩
      refine ⟨head :: before, after, rfl, ?_⟩
      rw [List.flatMap_cons, List.length_append]
      omega
    by_cases hfirst : position = 0
    · exact Or.inl ⟨head, [], tail, rfl, by rw [hfirst]; rfl⟩
    · by_cases hhead : position < head.slots.length
      · -- Only a constant of eight bytes has a slot behind its first one.
        cases head with
        | wide tag content =>
          have hone : position = 1 := by
            change position < 2 at hhead
            omega
          exact Or.inr ⟨tag, content, [], tail, rfl, hone⟩
        | _ => exact absurd (Nat.lt_one_iff.mp hhead) hfirst
      · obtain ⟨later, rfl⟩ := Nat.exists_eq_add_of_le (not_lt.mp hhead)
        have hlater : later < (tail.flatMap StoredConstant.slots).length := by omega
        rcases ih hlater with ⟨constant, hplace⟩ | ⟨tag, content, hplace⟩
        · refine Or.inl ⟨constant, ?_⟩
          convert hbehind hplace using 1
          omega
        · refine Or.inr ⟨tag, content, ?_⟩
          convert hbehind hplace using 1
          omega

private theorem slot_cases (h : index < (ofConstants constants).slots.size) :
    index = 0 ∨ (∃ constant, StandsAt constants index constant) ∨
      ∃ first tag content, index = first + 1 ∧ StandsAt constants first (.wide tag content) := by
  rw [size_ofConstants] at h
  cases index with
  | zero => exact Or.inl rfl
  | succ position =>
    rcases exists_standsAt (Nat.lt_of_succ_lt_succ h) with hplace | ⟨tag, content, hplace⟩
    · exact Or.inr (Or.inl hplace)
    · exact Or.inr (Or.inr ⟨position, tag, content, rfl, hplace⟩)

/-! ### Lookup -/

/-- Lookup succeeds exactly at the indices of constants. -/
theorem get_ofConstants_eq_ok_iff {index : UInt16} {value : Constant} :
    (ofConstants constants).get index = .ok value ↔
      ∃ constant, StandsAt constants index.toNat constant ∧ value = constant.content := by
  rw [get_eq_ok_iff]
  constructor
  · intro h
    obtain ⟨hlt, -⟩ := Array.getElem?_eq_some_iff.mp h
    rcases slot_cases hlt with hzero | ⟨constant, hplace⟩ | ⟨first, tag, content, hindex, hplace⟩
    · rw [hzero] at h
      cases h
    · rw [hplace.own] at h
      exact ⟨constant, hplace, (Option.some.inj (Option.some.inj h)).symm⟩
    · rw [hindex, hplace.second] at h
      cases h
  · rintro ⟨constant, hplace, rfl⟩
    exact hplace.own

/-- Lookup fails with `badConstantIndex` at every other index. -/
theorem get_ofConstants_eq_error_iff {index : UInt16} {error : ClassFileError} :
    (ofConstants constants).get index = .error error ↔
      (¬ ∃ constant, StandsAt constants index.toNat constant) ∧
        error = .badConstantIndex index := by
  constructor
  · intro h
    refine ⟨?_, get_eq_error h⟩
    rintro ⟨constant, hplace⟩
    rw [get_ofConstants_eq_ok_iff.mpr ⟨constant, hplace, rfl⟩] at h
    cases h
  · rintro ⟨hnone, rfl⟩
    cases hget : (ofConstants constants).get index with
    | ok value =>
      obtain ⟨constant, hplace, -⟩ := get_ofConstants_eq_ok_iff.mp hget
      exact absurd ⟨constant, hplace⟩ hnone
    | error error => rw [get_eq_error hget]

/-- A pool is filled by the constants that form it. -/
theorem isFilledBy_ofConstants {count : UInt16}
    (h : (constants.flatMap StoredConstant.slots).length + 1 = max count.toNat 1) :
    (ofConstants constants).IsFilledBy count constants where
  size_eq := (size_ofConstants constants).trans h
  zero := rfl
  own := StandsAt.own
  second := StandsAt.second
  slot_cases := slot_cases
  get_eq_ok_iff := get_ofConstants_eq_ok_iff
  get_eq_error_iff := get_ofConstants_eq_error_iff

end ConstantPool

end ClassAtlas
