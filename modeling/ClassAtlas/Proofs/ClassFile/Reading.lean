import ClassAtlas.ClassFile.Decoder
import Mathlib

/-!
# Denotation of decoders

`Ends` relates a decoder to the exact bytes it consumes and to its result. Runs are characterized by
it: a decoder ends on a prefix of the input, or the input is exhausted by one of its reads. The laws
of the primitive decoders and of the combinators are stated in terms of `Ends`. Specification:
`SPEC_FULL.md` §4.2, line 46, and §9, line 95.
-/

namespace ClassAtlas

namespace Bytes

variable {bytes : List UInt8}

/-- Encoding inverts decoding at the width of the input. -/
theorem ofNat_bigEndian (bytes : List UInt8) : ofNat bytes.length (bigEndian bytes) = bytes := by
  induction bytes using List.reverseRecOn with
  | nil => rfl
  | append_singleton bytes byte ih =>
    have hbyte := byte.toNat_lt
    have hquotient : (bigEndian bytes * 256 + byte.toNat) / 256 = bigEndian bytes := by omega
    have hdigit : UInt8.ofNat (bigEndian bytes * 256 + byte.toNat) = byte := by
      apply UInt8.toNat.inj
      rw [UInt8.toNat_ofNat']
      omega
    rw [List.length_append, List.length_singleton, ofNat, bigEndian_concat, hquotient, hdigit, ih]

private theorem bigEndian_lt (bytes : List UInt8) : bigEndian bytes < 256 ^ bytes.length := by
  induction bytes using List.reverseRecOn with
  | nil => exact Nat.one_pos
  | append_singleton bytes byte ih =>
    have hbyte := byte.toNat_lt
    rw [bigEndian_concat, List.length_append, List.length_singleton, Nat.pow_succ]
    omega

/-- A word has two bytes. -/
theorem length_word (value : UInt16) : (word value).length = 2 := length_ofNat 2 _

/-- Two bytes decode to a word if and only if they encode it. -/
theorem eq_word_iff {value : UInt16} :
    (bytes.length = 2 ∧ UInt16.ofNat (bigEndian bytes) = value) ↔ bytes = word value := by
  constructor
  · rintro ⟨hlength, rfl⟩
    have hlt : bigEndian bytes < 256 ^ 2 := hlength ▸ bigEndian_lt bytes
    rw [word, UInt16.toNat_ofNat_of_lt' hlt, ← hlength, ofNat_bigEndian]
  · rintro rfl
    refine ⟨length_word value, ?_⟩
    have hvalue : value.toNat % Nat.pow 256 2 = value.toNat := Nat.mod_eq_of_lt value.toNat_lt
    rw [word, bigEndian_ofNat, hvalue, UInt16.ofNat_toNat]

/-- Every pair of bytes encodes a word. -/
theorem exists_eq_word (h : bytes.length = 2) : ∃ value, bytes = word value :=
  ⟨_, eq_word_iff.mp ⟨h, rfl⟩⟩

/-- Four bytes decode to a double word if and only if they encode it. -/
theorem eq_doubleWord_iff {value : UInt32} :
    (bytes.length = 4 ∧ UInt32.ofNat (bigEndian bytes) = value) ↔
      bytes = ofNat 4 value.toNat := by
  constructor
  · rintro ⟨hlength, rfl⟩
    have hlt : bigEndian bytes < 256 ^ 4 := hlength ▸ bigEndian_lt bytes
    rw [UInt32.toNat_ofNat_of_lt' hlt, ← hlength, ofNat_bigEndian]
  · rintro rfl
    refine ⟨length_ofNat 4 _, ?_⟩
    have hvalue : value.toNat % Nat.pow 256 4 = value.toNat := Nat.mod_eq_of_lt value.toNat_lt
    rw [bigEndian_ofNat, hvalue, UInt32.ofNat_toNat]

/-- A single byte decodes to its value. -/
theorem eq_singleton_iff {value : UInt8} :
    (bytes.length = 1 ∧ UInt8.ofNat (bigEndian bytes) = value) ↔ bytes = [value] := by
  constructor
  · rintro ⟨hlength, rfl⟩
    obtain ⟨byte, rfl⟩ := List.length_eq_one_iff.mp hlength
    simp [bigEndian]
  · rintro rfl
    simp [bigEndian]

end Bytes

namespace Decoder

variable {α β : Type}

/-- A decoder consumes exactly these bytes and then has this result. -/
def Ends : Decoder α → List UInt8 → Except ClassFileError α → Prop
  | done value, bytes, result => bytes = [] ∧ result = .ok value
  | refuse error, bytes, result => bytes = [] ∧ result = .error error
  | take count next, bytes, result =>
    count ≤ bytes.length ∧ (next (bytes.take count)).Ends (bytes.drop count) result

/-- The monad laws hold for decoders. -/
instance : LawfulMonad Decoder := .mk' Decoder
  (fun plan => by
    induction plan with
    | done value => rfl
    | refuse error => rfl
    | take count next ih => exact congrArg (take count) (funext ih))
  (fun _ _ => rfl)
  (fun plan _ _ => by
    induction plan with
    | done value => rfl
    | refuse error => rfl
    | take count next ih => exact congrArg (take count) (funext ih))

/-- Outcome of a result at a position. -/
def Outcome.ofResult (cursor : Cursor) : Except ClassFileError α → Outcome α
  | .ok value => .done value cursor
  | .error error => .refused error

/-- Continuation of an outcome with a value. -/
def Outcome.bind (outcome : Outcome α) (next : α → Cursor → Outcome β) : Outcome β :=
  match outcome with
  | .done value rest => next value rest
  | .refused error => .refused error
  | .starved offset needed => .starved offset needed

/-- The run of a composition continues the run of its first part. -/
theorem run_bind (plan : Decoder α) (next : α → Decoder β) (cursor : Cursor) :
    (plan >>= next).run cursor =
      (plan.run cursor).bind fun value rest => (next value).run rest := by
  change (plan.bind next).run cursor = _
  induction plan generalizing cursor with
  | done value => rfl
  | refuse error => rfl
  | take count first ih =>
    rw [Decoder.bind, Decoder.run, Decoder.run]
    cases cursor.take? count with
    | none => rfl
    | some read => exact ih read.1 read.2

/-! ### Runs -/

section Run

variable {plan : Decoder α} {bytes front back : List UInt8} {result : Except ClassFileError α}
  {start offset needed : Nat}

private theorem Cursor.take?_of_le {count : Nat} (h : count ≤ bytes.length) :
    (⟨start, bytes⟩ : Cursor).take? count =
      some (bytes.take count, ⟨start + count, bytes.drop count⟩) :=
  if_pos (List.length_take_of_le h)

private theorem Cursor.take?_of_lt {count : Nat} (h : bytes.length < count) :
    (⟨start, bytes⟩ : Cursor).take? count = none := by
  refine if_neg ?_
  rw [List.take_of_length_le h.le]
  exact h.ne

/-- A run over the consumed bytes has the decoder's result, independently of what follows. -/
theorem Ends.run (h : plan.Ends front result) (start : Nat) (back : List UInt8) :
    plan.run ⟨start, front ++ back⟩ = .ofResult ⟨start + front.length, back⟩ result := by
  induction plan generalizing start front with
  | done value =>
    obtain ⟨rfl, rfl⟩ := h
    rfl
  | refuse error =>
    obtain ⟨rfl, rfl⟩ := h
    rfl
  | take count next ih =>
    obtain ⟨hle, hnext⟩ := h
    have hall : count ≤ (front ++ back).length := by
      rw [List.length_append]
      omega
    have hlength : start + count + (front.drop count).length = start + front.length := by
      rw [List.length_drop]
      omega
    rw [Decoder.run, Cursor.take?_of_le hall]
    simp only
    rw [List.take_append_of_le_length hle, List.drop_append_of_le_length hle, ih _ hnext, hlength]

/-- A decoder that ends on a prefix of the input returns its result. -/
theorem Ends.toExcept_run (h : plan.Ends front result) (start : Nat) (back : List UInt8) :
    (plan.run ⟨start, front ++ back⟩).toExcept = result := by
  rw [h.run]
  cases result <;> rfl

/-- A composition continues behind the bytes that its first part consumes. -/
theorem Ends.run_bind {value : α} (h : plan.Ends front (.ok value)) (next : α → Decoder β)
    (start : Nat) (back : List UInt8) :
    (plan >>= next).run ⟨start, front ++ back⟩ = (next value).run ⟨start + front.length, back⟩ := by
  rw [Decoder.run_bind, h.run]
  rfl

/-- Every input has a prefix on which the decoder ends, or it exhausts the input. -/
theorem ends_or_starved (plan : Decoder α) (start : Nat) (bytes : List UInt8) :
    (∃ front back result, bytes = front ++ back ∧ plan.Ends front result) ∨
      ∃ offset needed, plan.run ⟨start, bytes⟩ = .starved offset needed := by
  induction plan generalizing start bytes with
  | done value => exact Or.inl ⟨[], bytes, _, rfl, rfl, rfl⟩
  | refuse error => exact Or.inl ⟨[], bytes, _, rfl, rfl, rfl⟩
  | take count next ih =>
    by_cases hle : count ≤ bytes.length
    · rcases ih (bytes.take count) (start + count) (bytes.drop count) with
        ⟨front, back, result, hsplit, hends⟩ | ⟨offset, needed, hstarved⟩
      · have htaken := List.length_take_of_le hle
        refine Or.inl ⟨bytes.take count ++ front, back, result, ?_, ?_, ?_⟩
        · rw [List.append_assoc, ← hsplit, List.take_append_drop]
        · rw [List.length_append]
          omega
        · rw [List.take_left' htaken, List.drop_left' htaken]
          exact hends
      · refine Or.inr ⟨offset, needed, ?_⟩
        rw [Decoder.run, Cursor.take?_of_le hle]
        exact hstarved
    · refine Or.inr ⟨start, count, ?_⟩
      rw [Decoder.run, Cursor.take?_of_lt (not_le.mp hle)]

/-- An exhausting read starts within the input and exceeds it. -/
theorem starved_bounds (h : plan.run ⟨start, bytes⟩ = .starved offset needed) :
    offset ≤ start + bytes.length ∧ start + bytes.length < offset + needed := by
  induction plan generalizing start bytes with
  | done value => cases h
  | refuse error => cases h
  | take count next ih =>
    by_cases hle : count ≤ bytes.length
    · rw [Decoder.run, Cursor.take?_of_le hle] at h
      obtain ⟨hin, hout⟩ := ih _ h
      rw [List.length_drop] at hin hout
      omega
    · rw [Decoder.run, Cursor.take?_of_lt (not_le.mp hle)] at h
      obtain ⟨rfl, rfl⟩ := Outcome.starved.inj h
      exact ⟨Nat.le_add_right _ _, Nat.add_lt_add_left (not_le.mp hle) _⟩

/-- Exhaustion persists under extensions that do not complete the failing read. -/
theorem starved_append (h : plan.run ⟨start, bytes⟩ = .starved offset needed) {more : List UInt8}
    (hmore : start + (bytes ++ more).length < offset + needed) :
    plan.run ⟨start, bytes ++ more⟩ = .starved offset needed := by
  induction plan generalizing start bytes with
  | done value => cases h
  | refuse error => cases h
  | take count next ih =>
    by_cases hle : count ≤ bytes.length
    · have hall : count ≤ (bytes ++ more).length := by
        rw [List.length_append]
        omega
      rw [Decoder.run, Cursor.take?_of_le hle] at h
      rw [Decoder.run, Cursor.take?_of_le hall]
      simp only at h ⊢
      rw [List.take_append_of_le_length hle, List.drop_append_of_le_length hle]
      refine ih _ h ?_
      rw [List.length_append, List.length_drop]
      rw [List.length_append] at hmore
      omega
    · rw [Decoder.run, Cursor.take?_of_lt (not_le.mp hle)] at h
      obtain ⟨rfl, rfl⟩ := Outcome.starved.inj h
      rw [Decoder.run, Cursor.take?_of_lt (Nat.lt_of_add_lt_add_left hmore)]

/-- A proper prefix of the consumed bytes is exhausted. -/
theorem Ends.starved (h : plan.Ends front result) (start : Nat) (hbytes : bytes <+: front)
    (hlt : bytes.length < front.length) :
    ∃ offset needed, plan.run ⟨start, bytes⟩ = .starved offset needed := by
  induction plan generalizing start bytes front with
  | done value =>
    rw [h.1] at hlt
    exact absurd hlt (Nat.not_lt_zero _)
  | refuse error =>
    rw [h.1] at hlt
    exact absurd hlt (Nat.not_lt_zero _)
  | take count next ih =>
    by_cases hle : count ≤ bytes.length
    · have htake : front.take count = bytes.take count := by
        obtain ⟨tail, rfl⟩ := hbytes
        rw [List.take_append_of_le_length hle]
      rw [Decoder.run, Cursor.take?_of_le hle]
      refine ih _ (htake ▸ h.2) _ (hbytes.drop count) ?_
      rw [List.length_drop, List.length_drop]
      omega
    · rw [Decoder.run, Cursor.take?_of_lt (not_le.mp hle)]
      exact ⟨start, count, rfl⟩

/-- A decoder that does not succeed on any prefix fails, and so does every composition it begins. -/
theorem exists_error_of_not_ends
    (h : ∀ taken untaken value, bytes = taken ++ untaken → ¬ plan.Ends taken (.ok value))
    (next : α → Decoder β) (start : Nat) :
    ∃ error, (plan.run ⟨start, bytes⟩).toExcept = .error error ∧
      ((plan >>= next).run ⟨start, bytes⟩).toExcept = .error error := by
  rw [Decoder.run_bind]
  rcases ends_or_starved plan start bytes with
    ⟨front, back, result, rfl, hends⟩ | ⟨offset, needed, hstarved⟩
  · rw [hends.run]
    cases result with
    | ok value => exact absurd hends (h front back value rfl)
    | error error => exact ⟨error, rfl, rfl⟩
  · rw [hstarved]
    exact ⟨_, rfl, rfl⟩

/-- A failure other than exhaustion is a refusal by the decoder on a prefix of the input. -/
theorem exists_ends_of_toExcept {error : ClassFileError}
    (h : (plan.run ⟨start, bytes⟩).toExcept = .error error)
    (herror : ∀ offset needed, error ≠ .truncated offset needed) :
    ∃ front back, bytes = front ++ back ∧ plan.Ends front (.error error) := by
  rcases ends_or_starved plan start bytes with
    ⟨front, back, result, rfl, hends⟩ | ⟨offset, needed, hstarved⟩
  · rw [hends.toExcept_run] at h
    subst h
    exact ⟨front, back, rfl, hends⟩
  · rw [hstarved] at h
    cases h
    exact absurd rfl (herror offset needed)

end Run

/-! ### Primitive decoders and combinators -/

section Laws

variable {bytes : List UInt8}

/-- `pure` consumes nothing and succeeds. -/
@[simp]
theorem ends_pure {value : α} {result : Except ClassFileError α} :
    (pure value : Decoder α).Ends bytes result ↔ bytes = [] ∧ result = .ok value := Iff.rfl

/-- `refuse` consumes nothing and fails. -/
@[simp]
theorem ends_refuse {error : ClassFileError} {result : Except ClassFileError α} :
    (refuse error : Decoder α).Ends bytes result ↔ bytes = [] ∧ result = .error error := Iff.rfl

/-- `ofExcept` consumes nothing and has the given result. -/
theorem ends_ofExcept {outcome result : Except ClassFileError α} :
    (ofExcept outcome).Ends bytes result ↔ bytes = [] ∧ result = outcome := by
  cases outcome <;> exact Iff.rfl

/-- A primitive read ends on as many bytes as it demands. -/
theorem ends_take_done {count : Nat} {f : List UInt8 → α} {result : Except ClassFileError α} :
    (take count fun taken => done (f taken)).Ends bytes result ↔
      bytes.length = count ∧ result = .ok (f bytes) := by
  constructor
  · rintro ⟨hle, hrest, hresult⟩
    have hlength : bytes.length = count := by
      rw [List.drop_eq_nil_iff] at hrest
      omega
    refine ⟨hlength, ?_⟩
    rw [hresult, List.take_of_length_le hlength.le]
  · rintro ⟨rfl, rfl⟩
    refine ⟨le_refl _, List.drop_length, ?_⟩
    rw [List.take_length]

/-- `bytes` returns the bytes it consumes. -/
theorem ends_bytes {count : Nat} {value : List UInt8} :
    (Decoder.bytes count).Ends bytes (.ok value) ↔ bytes.length = count ∧ value = bytes :=
  (ends_take_done (f := id)).trans (by simp)

/-- `skip` consumes the given number of bytes. -/
theorem ends_skip {count : Nat} {value : Unit} :
    (skip count).Ends bytes (.ok value) ↔ bytes.length = count := by
  simp [skip, ends_take_done (f := fun _ => ())]

/-- `u8` consumes the byte it returns. -/
theorem ends_u8 {value : UInt8} : u8.Ends bytes (.ok value) ↔ bytes = [value] := by
  rw [u8, ends_take_done (f := fun taken => UInt8.ofNat (Bytes.bigEndian taken)),
    ← Bytes.eq_singleton_iff, Except.ok.injEq, eq_comm (a := value)]

/-- `u16` consumes the encoding of the word it returns. -/
theorem ends_u16 {value : UInt16} : u16.Ends bytes (.ok value) ↔ bytes = Bytes.word value := by
  rw [u16, ends_take_done (f := fun taken => UInt16.ofNat (Bytes.bigEndian taken)),
    ← Bytes.eq_word_iff, Except.ok.injEq, eq_comm (a := value)]

/-- `u32` consumes the encoding of the double word it returns. -/
theorem ends_u32 {value : UInt32} :
    u32.Ends bytes (.ok value) ↔ bytes = Bytes.ofNat 4 value.toNat := by
  rw [u32, ends_take_done (f := fun taken => UInt32.ofNat (Bytes.bigEndian taken)),
    ← Bytes.eq_doubleWord_iff, Except.ok.injEq, eq_comm (a := value)]

/-- A composition ends where its first part fails, or behind both parts. -/
theorem ends_bind {plan : Decoder α} {next : α → Decoder β} {result : Except ClassFileError β} :
    (plan >>= next).Ends bytes result ↔
      (∃ error, result = .error error ∧ plan.Ends bytes (.error error)) ∨
        ∃ front back value, bytes = front ++ back ∧ plan.Ends front (.ok value) ∧
          (next value).Ends back result := by
  show (plan.bind next).Ends bytes result ↔ _
  induction plan generalizing bytes with
  | done value =>
    constructor
    · intro h
      exact Or.inr ⟨[], bytes, value, rfl, ⟨rfl, rfl⟩, h⟩
    · rintro (⟨error, -, -, herror⟩ | ⟨front, back, other, rfl, ⟨rfl, hother⟩, h⟩)
      · cases herror
      · cases hother
        exact h
  | refuse error =>
    constructor
    · rintro ⟨rfl, rfl⟩
      exact Or.inl ⟨error, rfl, rfl, rfl⟩
    · rintro (⟨other, rfl, rfl, hother⟩ | ⟨front, back, value, -, ⟨-, hvalue⟩, -⟩)
      · cases hother
        exact ⟨rfl, rfl⟩
      · cases hvalue
  | take count first ih =>
    constructor
    · rintro ⟨hle, h⟩
      rcases (ih _).mp h with ⟨error, rfl, herror⟩ | ⟨front, back, value, hsplit, hvalue, hback⟩
      · exact Or.inl ⟨error, rfl, hle, herror⟩
      · have htaken := List.length_take_of_le hle
        refine Or.inr ⟨bytes.take count ++ front, back, value, ?_, ⟨?_, ?_⟩, hback⟩
        · rw [List.append_assoc, ← hsplit, List.take_append_drop]
        · rw [List.length_append]
          omega
        · rw [List.take_left' htaken, List.drop_left' htaken]
          exact hvalue
    · rintro (⟨error, rfl, hle, herror⟩ | ⟨front, back, value, rfl, ⟨hle, hvalue⟩, hback⟩)
      · exact ⟨hle, (ih _).mpr (Or.inl ⟨error, rfl, herror⟩)⟩
      · refine ⟨?_, (ih _).mpr (Or.inr ⟨front.drop count, back, value, ?_, ?_, hback⟩)⟩
        · rw [List.length_append]
          omega
        · rw [List.drop_append_of_le_length hle]
        · rw [List.take_append_of_le_length hle]
          exact hvalue

/-- A composition succeeds on the concatenation of what its parts consume. -/
theorem ends_bind_ok {plan : Decoder α} {next : α → Decoder β} {value : β} :
    (plan >>= next).Ends bytes (.ok value) ↔
      ∃ front back first, bytes = front ++ back ∧ plan.Ends front (.ok first) ∧
        (next first).Ends back (.ok value) := by
  simp [ends_bind]

/-- A primitive read does not refuse, so a failure behind it is its continuation's. -/
theorem exists_ends_of_read {count : Nat} {f : List UInt8 → α} {next : α → Decoder β}
    {error : ClassFileError}
    (h : ((take count fun taken => done (f taken)) >>= next).Ends bytes (.error error)) :
    ∃ value rest, (next value).Ends rest (.error error) := by
  rcases ends_bind.mp h with ⟨_, -, hread⟩ | ⟨_, rest, value, -, -, hrest⟩
  · cases (ends_take_done.mp hread).2
  · exact ⟨value, rest, hrest⟩

private theorem ends_repeatOnto {plan : Decoder α} {count : Nat} {seen values : List α} :
    (plan.repeatOnto count seen).Ends bytes (.ok values) ↔
      ∃ parts more, bytes = parts.flatten ∧ values = seen.reverse ++ more ∧ more.length = count ∧
        List.Forall₂ (fun part value => plan.Ends part (.ok value)) parts more := by
  induction count generalizing seen bytes with
  | zero =>
    show bytes = [] ∧ Except.ok values = .ok seen.reverse ↔ _
    constructor
    · rintro ⟨rfl, hvalues⟩
      exact ⟨[], [], rfl, by rw [List.append_nil, Except.ok.inj hvalues], rfl, .nil⟩
    · rintro ⟨parts, more, rfl, rfl, hmore, hparts⟩
      obtain rfl := List.eq_nil_of_length_eq_zero hmore
      cases hparts
      exact ⟨rfl, by rw [List.append_nil]⟩
  | succ count ih =>
    show (plan >>= fun value => plan.repeatOnto count (value :: seen)).Ends bytes _ ↔ _
    simp only [ends_bind_ok, ih]
    constructor
    · rintro ⟨front, _, value, rfl, hvalue, parts, more, rfl, rfl, rfl, hparts⟩
      exact ⟨front :: parts, value :: more, rfl, by simp, rfl, .cons hvalue hparts⟩
    · rintro ⟨parts, more, rfl, rfl, hmore, hparts⟩
      cases hparts with
      | nil => cases hmore
      | @cons part value parts more hvalue hparts =>
        exact ⟨part, parts.flatten, value, rfl, hvalue, parts, more, rfl, by simp,
          Nat.succ.inj hmore, hparts⟩

/-- `times` succeeds on a concatenation of parts, one for each repetition. -/
theorem ends_times {plan : Decoder α} {count : Nat} {values : List α} :
    (times count plan).Ends bytes (.ok values) ↔
      values.length = count ∧ ∃ parts, bytes = parts.flatten ∧
        List.Forall₂ (fun part value => plan.Ends part (.ok value)) parts values := by
  rw [times, ends_repeatOnto]
  constructor
  · rintro ⟨parts, more, rfl, rfl, rfl, hparts⟩
    exact ⟨rfl, parts, rfl, hparts⟩
  · rintro ⟨rfl, parts, rfl, hparts⟩
    exact ⟨parts, values, rfl, rfl, rfl, hparts⟩

end Laws

/-- Decoding succeeds if and only if the decoder succeeds on a prefix of the input. -/
theorem decode_eq_ok_iff {plan : Decoder α} {bytes : List UInt8} {value : α} :
    plan.decode bytes = .ok value ↔
      ∃ front back, bytes = front ++ back ∧ plan.Ends front (.ok value) := by
  constructor
  · intro h
    rw [decode, Cursor.start] at h
    rcases ends_or_starved plan 0 bytes with ⟨front, back, result, rfl, hends⟩ | ⟨_, _, hstarved⟩
    · rw [hends.toExcept_run] at h
      subst h
      exact ⟨front, back, rfl, hends⟩
    · rw [hstarved] at h
      cases h
  · rintro ⟨front, back, rfl, hends⟩
    rw [decode, Cursor.start, hends.toExcept_run]

end Decoder

end ClassAtlas
