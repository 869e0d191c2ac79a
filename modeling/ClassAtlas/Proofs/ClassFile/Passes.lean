import ClassAtlas.ClassFile.Draft
import ClassAtlas.Proofs.ClassFile.Slots
import Mathlib

/-!
# Constant pool decoding passes

Loop invariant of the pool decoder: before each pass, the number of stored slots equals the next
index, which does not exceed the slot count and does not wrap. Hence the loop terminates, every
constant is stored at its index, and a pool whose last slot would hold an eight-byte constant is
rejected with that index. Specification: `SPEC_FULL.md` §4.2, lines 40–46, and §10.2, lines 128–129.
-/

namespace ClassAtlas

open Decoder

namespace ConstantPool

/-- Reachable states of the loop, with the number of passes so far and the bytes they consumed. -/
inductive Passes (count : UInt16) : Nat → List UInt8 → Filling → Prop
  | start : Passes count 0 [] ⟨1, #[none]⟩
  | pass {passes : Nat} {front taken : List UInt8} {filling next : Filling} :
      Passes count passes front filling → filling.index < count →
      (filling.pass count).Ends taken (.ok next) →
      Passes count (passes + 1) (front ++ taken) next

/-- Loop invariant: the slots are as many as the next index, which stays within the slot count and
exceeds the number of passes; a further pass advances the index by the slots of its constant without
wrapping. -/
structure Filling.IsInStep (count : UInt16) (passes : Nat) (filling : Filling) : Prop where
  size_eq : filling.slots.size = filling.index.toNat
  index_le : filling.index.toNat ≤ max count.toNat 1
  passes_lt : passes < filling.index.toNat
  toNat_succ : filling.index < count → (filling.index + 1).toNat = filling.index.toNat + 1
  pass_eq {taken : List UInt8} {next : Filling} : filling.index < count →
    (filling.pass count).Ends taken (.ok next) → ∃ constant : StoredConstant,
      constant.IsWellSized ∧ taken = constant.encode ∧
      next.slots = filling.slots ++ constant.slots.toArray ∧
      next.index.toNat = filling.index.toNat + constant.slots.length ∧
      next.index.toNat ≤ count.toNat

/-- The bytes encode constants for all slots but the last, followed by the tag of an eight-byte
constant. -/
def LacksRoom (count : UInt16) (bytes : List UInt8) : Prop :=
  ∃ (constants : List StoredConstant) (tag : UInt8) (rest : List UInt8),
    (∀ constant ∈ constants, constant.IsWellSized) ∧
    (constants.flatMap StoredConstant.slots).length + 2 = count.toNat ∧
    (tag = 5 ∨ tag = 6) ∧ bytes = constants.flatMap StoredConstant.encode ++ tag :: rest

/-- Laws of decoding a pool of `count` slots from the bytes behind the count: every reachable state
satisfies the invariant and is passed by the run, the loop terminates, a decoded pool is filled by
the encoded constants, and an index is rejected if and only if an eight-byte constant lacks room, in
which case the class file is rejected with the same error. The last clause covers the assembled
pools without room. -/
structure KeepsSlots (count : UInt16) (bytes : List UInt8) : Prop where
  isInStep {passes : Nat} {front : List UInt8} {filling : Filling} :
    Passes count passes front filling → filling.IsInStep count passes
  run_eq {passes : Nat} {front back : List UInt8} {filling : Filling} :
    Passes count passes front filling → bytes = front ++ back →
    ConstantPool.decoder.run (.start (Bytes.word count ++ bytes)) =
      (decodeFrom count filling.index filling.slots).run ⟨2 + front.length, back⟩
  ends : ∃ passes front back filling, bytes = front ++ back ∧
    Passes count passes front filling ∧
    (filling.index.toNat = max count.toNat 1 ∧
        ConstantPool.decoder.decode (Bytes.word count ++ bytes) = .ok ⟨filling.slots⟩ ∨
      filling.index < count ∧ ∃ error,
        ((filling.pass count).run ⟨2 + front.length, back⟩).toExcept = .error error ∧
        ConstantPool.decoder.decode (Bytes.word count ++ bytes) = .error error)
  isFilledBy {pool : ConstantPool} :
    ConstantPool.decoder.decode (Bytes.word count ++ bytes) = .ok pool →
    ∃ constants rest, (∀ constant ∈ constants, constant.IsWellSized) ∧
      bytes = constants.flatMap StoredConstant.encode ++ rest ∧ pool.IsFilledBy count constants
  badConstantIndex_iff {index : UInt16} :
    ConstantPool.decoder.decode (Bytes.word count ++ bytes) = .error (.badConstantIndex index) ↔
      LacksRoom count bytes ∧ index = count - 1
  parse_eq {version : List UInt8} : version.length = 4 → LacksRoom count bytes →
    ClassFile.parse (ClassFileLayout.header version count ++ bytes) =
      .error (.badConstantIndex (count - 1))
  trailingLongPool : 2 ≤ count.toNat → ∃ tail,
    ClassDraft.trailingLongPool count = ClassFileLayout.header ClassDraft.version count ++ tail ∧
    LacksRoom count (tail ++ bytes) ∧
    ClassFile.parse (ClassDraft.trailingLongPool count ++ bytes) =
      .error (.badConstantIndex (count - 1))

/-! ### Reachable states -/

section Reader

variable {count : UInt16} {bytes : List UInt8} {filling next : Filling} {passes : Nat}
  {front back : List UInt8}

/-- State of the loop behind a list of constants. -/
def Filling.ofConstants (constants : List StoredConstant) : Filling :=
  ⟨UInt16.ofNat ((constants.flatMap StoredConstant.slots).length + 1),
    (ConstantPool.ofConstants constants).slots⟩

private theorem Filling.toNat_index_ofConstants {constants : List StoredConstant}
    (h : (constants.flatMap StoredConstant.slots).length + 1 ≤ max count.toNat 1) :
    (ofConstants constants).index.toNat =
      (constants.flatMap StoredConstant.slots).length + 1 := by
  have hcount := count.toNat_lt
  exact UInt16.toNat_ofNat_of_lt' (by simp only [UInt16.size]; omega)

private theorem Filling.extend_ofConstants (constants : List StoredConstant)
    (constant : StoredConstant) :
    (ofConstants constants).extend constant = ofConstants (constants ++ [constant]) := by
  rw [extend, ofConstants, ofConstants, Filling.mk.injEq]
  constructor
  · rw [← UInt16.ofNat_add, List.flatMap_append, List.length_append, List.flatMap_singleton]
    congr 1
    omega
  · simp [ConstantPool.ofConstants]

/-- A pass refuses a tag outside of the format, and an eight-byte constant in the last slot. -/
theorem Filling.ends_pass_error {error : ClassFileError} :
    (filling.pass count).Ends bytes (.error error) ↔ ∃ tag, bytes = [tag] ∧
      (ConstantLayout.ofTag? tag = none ∧ error = .unknownConstantTag filling.index tag ∨
        ConstantLayout.ofTag? tag = some .wide ∧ ¬ filling.index + 1 < count ∧
          error = .badConstantIndex filling.index) := by
  rw [pass, ends_bind]
  constructor
  · rintro (⟨_, -, htag⟩ | ⟨_, _, tag, rfl, htag, hends⟩)
    · cases (ends_take_done.mp htag).2
    obtain rfl := ends_u8.mp htag
    split at hends
    · next hlayout =>
      obtain ⟨rfl, herror⟩ := ends_refuse.mp hends
      exact ⟨tag, rfl, Or.inl ⟨hlayout, Except.error.inj herror⟩⟩
    -- A known tag is followed by reads only.
    · obtain ⟨_, _, hends⟩ := exists_ends_of_read hends
      obtain ⟨_, _, hends⟩ := exists_ends_of_read hends
      cases hends.2
    · obtain ⟨_, _, hends⟩ := exists_ends_of_read hends
      cases hends.2
    · obtain ⟨_, _, hends⟩ := exists_ends_of_read hends
      cases hends.2
    · next hlayout =>
      split at hends
      · obtain ⟨_, _, hends⟩ := exists_ends_of_read hends
        cases hends.2
      · next hroom =>
        obtain ⟨rfl, herror⟩ := ends_refuse.mp hends
        exact ⟨tag, rfl, Or.inr ⟨hlayout, hroom, Except.error.inj herror⟩⟩
  · rintro ⟨tag, rfl, ⟨hlayout, rfl⟩ | ⟨hlayout, hroom, rfl⟩⟩
    · refine Or.inr ⟨[tag], [], tag, rfl, ends_u8.mpr rfl, ?_⟩
      simp only [hlayout]
      exact ⟨rfl, rfl⟩
    · refine Or.inr ⟨[tag], [], tag, rfl, ends_u8.mpr rfl, ?_⟩
      simp only [hlayout, if_neg hroom]
      exact ⟨rfl, rfl⟩

private theorem length_slots_concat (constants : List StoredConstant) (constant : StoredConstant) :
    ((constants ++ [constant]).flatMap StoredConstant.slots).length =
      (constants.flatMap StoredConstant.slots).length + constant.slots.length := by
  rw [List.flatMap_append, List.length_append, List.flatMap_singleton]

/-- Every reachable state is that of the constants consumed so far. -/
theorem Passes.exists_constants (h : Passes count passes front filling) :
    ∃ constants : List StoredConstant, (∀ constant ∈ constants, constant.IsWellSized) ∧
      (constants.flatMap StoredConstant.slots).length + 1 ≤ max count.toNat 1 ∧
      passes = constants.length ∧ front = constants.flatMap StoredConstant.encode ∧
      filling = .ofConstants constants := by
  induction h with
  | start => exact ⟨[], by simp, le_max_right _ _, rfl, rfl, rfl⟩
  | pass _ hlt hpass ih =>
    obtain ⟨constants, hall, hfits, rfl, rfl, rfl⟩ := ih
    obtain ⟨constant, hsized, hroom, rfl, rfl⟩ := (Filling.ends_pass hlt).mp hpass
    rw [Filling.toNat_index_ofConstants hfits] at hroom
    refine ⟨constants ++ [constant], ?_, ?_, ?_, ?_, Filling.extend_ofConstants _ _⟩
    · exact List.forall_mem_append.mpr ⟨hall, List.forall_mem_singleton.mpr hsized⟩
    · rw [length_slots_concat]
      omega
    · rw [List.length_append, List.length_singleton]
    · rw [List.flatMap_append, List.flatMap_singleton]

/-- Constants that fit are consumed in one pass each. -/
theorem passes_ofConstants {constants : List StoredConstant}
    (hall : ∀ constant ∈ constants, constant.IsWellSized)
    (hfits : (constants.flatMap StoredConstant.slots).length + 1 ≤ max count.toNat 1) :
    Passes count constants.length (constants.flatMap StoredConstant.encode)
      (.ofConstants constants) := by
  induction constants using List.reverseRecOn with
  | nil => exact .start
  | append_singleton constants constant ih =>
    obtain ⟨hall, hsized⟩ := List.forall_mem_append.mp hall
    have hpos := constant.length_slots_pos
    rw [length_slots_concat] at hfits
    have hbefore : (constants.flatMap StoredConstant.slots).length + 1 ≤ max count.toNat 1 := by
      omega
    have hindex := Filling.toNat_index_ofConstants hbefore
    have hlt : (Filling.ofConstants constants).index < count := by
      rw [UInt16.lt_iff_toNat_lt, hindex]
      omega
    rw [List.length_append, List.flatMap_append, List.flatMap_singleton]
    refine .pass (ih hall hbefore) hlt ((Filling.ends_pass hlt).mpr ?_)
    refine ⟨constant, List.forall_mem_singleton.mp hsized, ?_, rfl, ?_⟩
    · rw [hindex]
      omega
    · exact (Filling.extend_ofConstants constants constant).symm

private theorem length_le_length_slots (constants : List StoredConstant) :
    constants.length ≤ (constants.flatMap StoredConstant.slots).length := by
  induction constants with
  | nil => exact le_rfl
  | cons constant constants ih =>
    have hpos := constant.length_slots_pos
    rw [List.length_cons, List.flatMap_cons, List.length_append]
    omega

private theorem Passes.isInStep (h : Passes count passes front filling) :
    filling.IsInStep count passes := by
  obtain ⟨constants, -, hfits, rfl, -, rfl⟩ := h.exists_constants
  have hindex := Filling.toNat_index_ofConstants hfits
  have hcount := count.toNat_lt
  have hmany := length_le_length_slots constants
  exact {
    size_eq := by rw [hindex, Filling.ofConstants, size_ofConstants]
    index_le := by rwa [hindex]
    passes_lt := by omega
    toNat_succ := by
      intro hlt
      rw [UInt16.lt_iff_toNat_lt] at hlt
      rw [UInt16.toNat_add, UInt16.toNat_one, Nat.mod_eq_of_lt (by omega)]
    pass_eq := by
      intro taken next hlt hpass
      obtain ⟨constant, hsized, hroom, rfl, rfl⟩ := (Filling.ends_pass hlt).mp hpass
      have hnext := Filling.toNat_index_extend _ hroom
      exact ⟨constant, hsized, rfl, rfl, hnext, hnext ▸ hroom⟩ }

/-- The run of the pool decoder passes every reachable state. -/
theorem Passes.run_decoder (h : Passes count passes front filling) (start : Nat) :
    ConstantPool.decoder.run ⟨start, Bytes.word count ++ (front ++ back)⟩ =
      (decodeFrom count filling.index filling.slots).run ⟨start + 2 + front.length, back⟩ := by
  induction h generalizing back with
  | start =>
    rw [ConstantPool.decoder, (ends_u16.mpr rfl).run_bind, Bytes.length_word]
    rfl
  | pass _ hlt hpass ih =>
    rw [List.append_assoc, ih, decodeFrom_of_lt hlt, hpass.run_bind, List.length_append,
      Nat.add_assoc]

/-- Some reachable state has no successor: all slots are filled, or the next pass fails. -/
theorem Passes.exists_last (h : Passes count passes front filling) (back : List UInt8) :
    ∃ passes more rest last, back = more ++ rest ∧ Passes count passes (front ++ more) last ∧
      (last.index < count → ∀ taken untaken next, rest = taken ++ untaken →
        ¬ (last.pass count).Ends taken (.ok next)) := by
  -- Induction on the distance of the next index from the count, which every pass decreases.
  induction hleft : count.toNat - filling.index.toNat using Nat.strongRecOn
    generalizing passes front filling back with
  | ind left ih =>
    by_cases hmore : filling.index < count ∧ ∃ taken untaken next, back = taken ++ untaken ∧
        (filling.pass count).Ends taken (.ok next)
    · obtain ⟨hlt, taken, untaken, next, rfl, hpass⟩ := hmore
      obtain ⟨constant, -, -, -, hnext, hle⟩ := h.isInStep.pass_eq hlt hpass
      have hpos := constant.length_slots_pos
      obtain ⟨passes, more, rest, last, rfl, hlast, hend⟩ :=
        ih _ (by omega) (h.pass hlt hpass) untaken rfl
      rw [List.append_assoc] at hlast
      exact ⟨passes, taken ++ more, rest, last, (List.append_assoc _ _ _).symm, hlast, hend⟩
    · refine ⟨passes, [], back, filling, rfl, by rwa [List.append_nil], ?_⟩
      intro hlt taken untaken next hback hpass
      exact hmore ⟨hlt, taken, untaken, next, hback, hpass⟩

/-- The loop ends with all slots filled or with the error of a pass. -/
theorem exists_end (count : UInt16) (bytes : List UInt8) :
    ∃ passes front back filling, bytes = front ++ back ∧ Passes count passes front filling ∧
      (filling.index.toNat = max count.toNat 1 ∧
          ConstantPool.decoder.decode (Bytes.word count ++ bytes) = .ok ⟨filling.slots⟩ ∨
        filling.index < count ∧ ∃ error,
          ((filling.pass count).run ⟨2 + front.length, back⟩).toExcept = .error error ∧
          ConstantPool.decoder.decode (Bytes.word count ++ bytes) = .error error) := by
  have hstart : Passes count 0 [] ⟨1, #[none]⟩ := .start
  obtain ⟨passes, front, back, filling, rfl, hpasses, hlast⟩ := hstart.exists_last bytes
  rw [List.nil_append] at hpasses
  refine ⟨passes, front, back, filling, rfl, hpasses, ?_⟩
  rw [decode, Cursor.start, hpasses.run_decoder, Nat.zero_add]
  by_cases hlt : filling.index < count
  · rw [decodeFrom_of_lt hlt]
    exact Or.inr ⟨hlt, exists_error_of_not_ends (hlast hlt) _ _⟩
  · have hstep := hpasses.isInStep
    have hindex := hstep.index_le
    have hpos := hstep.passes_lt
    rw [decodeFrom_of_not_lt hlt]
    rw [UInt16.lt_iff_toNat_lt] at hlt
    exact Or.inl ⟨by omega, rfl⟩

private theorem toNat_sub_one (h : 0 < count.toNat) : (count - 1).toNat = count.toNat - 1 := by
  have hle : (1 : UInt16) ≤ count := UInt16.le_iff_toNat_le.mpr h
  rw [UInt16.toNat_sub_of_le _ _ hle, UInt16.toNat_one]

/-- An index is the last one if and only if its successor is out of range. -/
theorem last_iff {index : UInt16} (h : index < count) :
    ¬ index + 1 < count ↔ index = count - 1 := by
  rw [← wide_room h, ← UInt16.toNat_inj]
  rw [UInt16.lt_iff_toNat_lt] at h
  rw [toNat_sub_one (by omega)]
  omega

/-- A pool that lacks room for its last constant is rejected in front of any further bytes. -/
theorem LacksRoom.run_decoder (h : LacksRoom count bytes) (start : Nat) :
    ConstantPool.decoder.run ⟨start, Bytes.word count ++ bytes⟩ =
      .refused (.badConstantIndex (count - 1)) := by
  obtain ⟨constants, tag, rest, hall, hfill, htag, rfl⟩ := h
  have hfits : (constants.flatMap StoredConstant.slots).length + 1 ≤ max count.toNat 1 := by omega
  have hpasses := passes_ofConstants hall hfits
  have hindex := Filling.toNat_index_ofConstants hfits
  have hlt : (Filling.ofConstants constants).index < count := by
    rw [UInt16.lt_iff_toNat_lt, hindex]
    omega
  have hlast : (Filling.ofConstants constants).index = count - 1 := by
    rw [← UInt16.toNat_inj, hindex, toNat_sub_one (by omega)]
    omega
  have hrefused : ((Filling.ofConstants constants).pass count).Ends [tag]
      (.error (.badConstantIndex (count - 1))) := by
    rw [← hlast]
    exact Filling.ends_pass_error.mpr
      ⟨tag, rfl, Or.inr ⟨ConstantLayout.ofTag?_eq_wide.mpr htag, (last_iff hlt).mpr hlast, rfl⟩⟩
  have hrun := hrefused.run (start + 2 + (constants.flatMap StoredConstant.encode).length) rest
  rw [hpasses.run_decoder, decodeFrom_of_lt hlt, Decoder.run_bind]
  exact congrArg (Outcome.bind · _) hrun

/-- A run that reaches the last slot with an eight-byte constant lacks room. -/
theorem Passes.lacksRoom (h : Passes count passes front filling) (hlt : filling.index < count)
    (hlast : filling.index = count - 1) {tag : UInt8} (htag : tag = 5 ∨ tag = 6)
    (rest : List UInt8) : LacksRoom count (front ++ tag :: rest) := by
  obtain ⟨constants, hall, hfits, -, rfl, rfl⟩ := h.exists_constants
  have hindex := Filling.toNat_index_ofConstants hfits
  rw [UInt16.lt_iff_toNat_lt] at hlt
  rw [hlast, toNat_sub_one (by omega)] at hindex
  exact ⟨constants, tag, rest, hall, by omega, htag, rfl⟩

/-- The decoder rejects an index if and only if the pool lacks room for its last constant. -/
theorem decode_eq_badConstantIndex_iff {index : UInt16} :
    ConstantPool.decoder.decode (Bytes.word count ++ bytes) = .error (.badConstantIndex index) ↔
      LacksRoom count bytes ∧ index = count - 1 := by
  constructor
  · intro h
    obtain ⟨passes, front, rest, filling, rfl, hpasses, ⟨-, hok⟩ | ⟨hlt, error, hpass, herror⟩⟩ :=
      exists_end count bytes
    · rw [hok] at h
      cases h
    · rw [h, Except.error.injEq] at herror
      subst herror
      obtain ⟨_, back, rfl, hends⟩ := exists_ends_of_toExcept hpass (by simp)
      obtain ⟨tag, rfl, ⟨-, herror⟩ | ⟨htag, hroom, herror⟩⟩ := Filling.ends_pass_error.mp hends
      · cases herror
      · obtain rfl := ClassFileError.badConstantIndex.inj herror
        have hlast := (last_iff hlt).mp hroom
        exact ⟨hpasses.lacksRoom hlt hlast (ConstantLayout.ofTag?_eq_wide.mp htag) back, hlast⟩
  · rintro ⟨hlacks, rfl⟩
    rw [decode, Cursor.start, hlacks.run_decoder]
    rfl

/-- A decoded pool is filled by the encoded constants. -/
theorem exists_isFilledBy {pool : ConstantPool}
    (h : ConstantPool.decoder.decode (Bytes.word count ++ bytes) = .ok pool) :
    ∃ constants rest, (∀ constant ∈ constants, constant.IsWellSized) ∧
      bytes = constants.flatMap StoredConstant.encode ++ rest ∧
      pool.IsFilledBy count constants := by
  obtain ⟨passes, front, rest, filling, rfl, hpasses, ⟨hindex, hok⟩ | ⟨-, error, -, herror⟩⟩ :=
    exists_end count bytes
  · rw [h, Except.ok.injEq] at hok
    obtain ⟨constants, hall, hfits, -, rfl, rfl⟩ := hpasses.exists_constants
    rw [Filling.toNat_index_ofConstants hfits] at hindex
    exact ⟨constants, rest, hall, rfl, hok ▸ isFilledBy_ofConstants hindex⟩
  · rw [h] at herror
    cases herror

/-- A class file whose pool lacks room is rejected. -/
theorem LacksRoom.parse_eq (h : LacksRoom count bytes) {version : List UInt8}
    (hversion : version.length = 4) :
    ClassFile.parse (ClassFileLayout.header version count ++ bytes) =
      .error (.badConstantIndex (count - 1)) := by
  have hmagic : u32.Ends (Bytes.ofNat 4 ClassFile.magic.toNat) (.ok ClassFile.magic) :=
    ends_u32.mpr rfl
  have hskip : (skip 4).Ends version (.ok ()) := ends_skip.mpr hversion
  rw [ClassFile.parse, decode, Cursor.start, ClassFileLayout.header, List.append_assoc,
    List.append_assoc, ClassFile.decoder, hmagic.run_bind, if_neg (not_not.mpr rfl),
    hskip.run_bind, Decoder.run_bind, h.run_decoder]
  rfl

end Reader

/-- The assembled pools without room satisfy `LacksRoom`. -/
theorem exists_trailingLongPool {count : UInt16} (h : 2 ≤ count.toNat) : ∃ tail,
    ClassDraft.trailingLongPool count = ClassFileLayout.header ClassDraft.version count ++ tail ∧
      ∀ more, LacksRoom count (tail ++ more) := by
  have hsized : ∀ constant ∈ List.replicate ((count - 1).toNat - 1)
      (StoredConstant.fixed ClassDraft.integerTag (Bytes.ofNat 4 0)), constant.IsWellSized := by
    intro constant hconstant
    obtain rfl := List.eq_of_mem_replicate hconstant
    rfl
  have hslots : ∀ number content, ((List.replicate number
      (StoredConstant.fixed ClassDraft.integerTag content)).flatMap
        StoredConstant.slots).length = number := by
    intro number content
    simp [StoredConstant.slots]
  refine ⟨_, rfl, fun more => ⟨_, PoolDraft.longTag, Bytes.ofNat 8 0 ++ more, hsized, ?_,
    Or.inl rfl, ?_⟩⟩
  · rw [hslots, toNat_sub_one (by omega)]
    omega
  · rw [List.flatMap_append, List.flatMap_singleton, List.append_assoc]
    rfl

/-- The laws of `KeepsSlots` hold for every slot count and every byte sequence behind it. -/
theorem keepsSlots (count : UInt16) (bytes : List UInt8) : KeepsSlots count bytes where
  isInStep := Passes.isInStep
  run_eq := by
    rintro passes front back filling hpasses rfl
    rw [Cursor.start, hpasses.run_decoder, Nat.zero_add]
  ends := exists_end count bytes
  isFilledBy := exists_isFilledBy
  badConstantIndex_iff := decode_eq_badConstantIndex_iff
  parse_eq hversion hlacks := hlacks.parse_eq hversion
  trailingLongPool := by
    intro htwo
    obtain ⟨tail, htail, hlacks⟩ := exists_trailingLongPool htwo
    refine ⟨tail, htail, hlacks bytes, ?_⟩
    rw [htail, List.append_assoc]
    exact (hlacks bytes).parse_eq rfl

end ConstantPool

end ClassAtlas
