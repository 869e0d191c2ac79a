import ClassAtlas.ClassFile.Basic
import ClassAtlas.Proofs.ClassFile.Constants
import Mathlib

/-!
# Truncation and decision points

Every input is either truncated or has a decision point: a prefix that determines the result and all
of whose proper prefixes are truncated. A decided result is not a truncation of the file, except for
one within the body of an `InnerClasses` attribute, which is decoded as a separate input.
Specification: `SPEC_FULL.md` §4.2, line 46, and §10.2, lines 128–129.
-/

namespace ClassAtlas

namespace Decoder

variable {α β : Type}

/-- Condition on refusals that is stable under consumption of further bytes in front. -/
structure Reason where
  Explains : List UInt8 → ClassFileError → Prop
  lasting : ∀ front back error, Explains back error → Explains (front ++ back) error

/-- Every refusal of a decoder satisfies a condition. -/
def RefusesOnly (plan : Decoder α) (reason : Reason) : Prop :=
  ∀ bytes error, plan.Ends bytes (.error error) → reason.Explains bytes error

section RefusesOnly

variable {reason : Reason} {plan : Decoder α}

private theorem refusesOnly_pure (value : α) : (pure value : Decoder α).RefusesOnly reason :=
  fun _ _ h => nomatch h.2

private theorem refusesOnly_refuse {error : ClassFileError} (h : reason.Explains [] error) :
    (refuse error : Decoder α).RefusesOnly reason := by
  rintro _ _ ⟨rfl, herror⟩
  cases herror
  exact h

private theorem refusesOnly_ofExcept {outcome : Except ClassFileError α}
    (h : ∀ error, outcome = .error error → reason.Explains [] error) :
    (ofExcept outcome).RefusesOnly reason := by
  intro bytes error hends
  obtain ⟨rfl, rfl⟩ := ends_ofExcept.mp hends
  exact h error rfl

private theorem refusesOnly_take_done {count : Nat} {f : List UInt8 → α} :
    (take count fun taken => done (f taken)).RefusesOnly reason :=
  fun _ _ h => nomatch (ends_take_done.mp h).2

private theorem RefusesOnly.bind {next : α → Decoder β} (h : plan.RefusesOnly reason)
    (hnext : ∀ value, (next value).RefusesOnly reason) : (plan >>= next).RefusesOnly reason := by
  intro bytes error hends
  rcases ends_bind.mp hends with ⟨other, herror, hplan⟩ | ⟨front, back, value, rfl, -, hback⟩
  · cases herror
    exact h bytes error hplan
  · exact reason.lasting front back error (hnext value back error hback)

private theorem refusesOnly_read {count : Nat} {f : List UInt8 → α} {next : α → Decoder β}
    (hnext : ∀ value, (next value).RefusesOnly reason) :
    ((take count fun taken => done (f taken)) >>= next).RefusesOnly reason :=
  refusesOnly_take_done.bind hnext

private theorem RefusesOnly.times (h : plan.RefusesOnly reason) (count : Nat) :
    (times count plan).RefusesOnly reason := by
  have hrepeat : ∀ seen, (plan.repeatOnto count seen).RefusesOnly reason := by
    induction count with
    | zero => exact fun seen => refusesOnly_pure seen.reverse
    | succ count ih => exact fun seen => h.bind fun value => ih (value :: seen)
  exact hrepeat []

end RefusesOnly

end Decoder

open Decoder

/-! ### Refusals other than truncation -/

/-- The error is a truncation. -/
def ClassFileError.IsTruncated (error : ClassFileError) : Prop :=
  ∃ offset needed, error = .truncated offset needed

/-- The refusals that are no truncation. -/
def Decoder.Reason.notTruncated : Reason where
  Explains _ error := ¬ error.IsTruncated
  lasting _ _ _ h := h

open Reason

namespace ConstantPool

variable {pool : ConstantPool}

private theorem refusesOnly_text (index : UInt16) :
    (ofExcept (pool.text index)).RefusesOnly notTruncated := by
  apply refusesOnly_ofExcept
  rintro _ h ⟨offset, needed, rfl⟩
  rcases text_eq_error h with h | h <;> cases h

private theorem refusesOnly_className (index : UInt16) :
    (ofExcept (pool.className index)).RefusesOnly notTruncated := by
  apply refusesOnly_ofExcept
  rintro _ h ⟨offset, needed, rfl⟩
  obtain ⟨slot, form, h | h⟩ := className_eq_error h <;> cases h

private theorem refusesOnly_decodeFrom (count index : UInt16) (slots : Array (Option Constant)) :
    (decodeFrom count index slots).RefusesOnly notTruncated := by
  induction hleft : count.toNat - index.toNat using Nat.strongRecOn generalizing index slots with
  | ind left ih =>
    rw [decodeFrom]
    split
    · next hlt =>
      have hcount := count.toNat_lt
      simp only [UInt16.lt_iff_toNat_lt] at hlt
      have hone : count.toNat - (index + 1).toNat < left := by
        simp only [UInt16.toNat_add, UInt16.reduceToNat]
        omega
      refine refusesOnly_read fun tag => ?_
      split
      · exact refusesOnly_refuse nofun
      · exact refusesOnly_read fun length => refusesOnly_read fun bytes => ih _ hone _ _ rfl
      · exact refusesOnly_read fun nameIndex => ih _ hone _ _ rfl
      · exact refusesOnly_read fun _ => ih _ hone _ _ rfl
      · split
        · next hroom =>
          have htwo : count.toNat - (index + 2).toNat < left := by
            simp only [UInt16.lt_iff_toNat_lt, UInt16.toNat_add, UInt16.reduceToNat] at hroom ⊢
            omega
          exact refusesOnly_read fun _ => ih _ htwo _ _ rfl
        · exact refusesOnly_refuse nofun
    · exact refusesOnly_pure _

private theorem refusesOnly_decoder : ConstantPool.decoder.RefusesOnly notTruncated :=
  refusesOnly_read fun count => refusesOnly_decodeFrom count 1 _

end ConstantPool

namespace ClassFile

open ConstantPool

variable {pool : ConstantPool}

private theorem refusesOnly_skipAttributes : skipAttributes.RefusesOnly notTruncated := by
  refine refusesOnly_read fun count => .bind (.times ?_ count.toNat) fun _ => refusesOnly_pure ()
  exact refusesOnly_read fun _ => refusesOnly_read fun _ => refusesOnly_take_done

private theorem refusesOnly_superDecoder : (superDecoder pool).RefusesOnly notTruncated := by
  refine refusesOnly_read fun index => ?_
  split
  · exact refusesOnly_pure none
  · exact (refusesOnly_className index).bind fun _ => refusesOnly_pure _

private theorem refusesOnly_interfacesDecoder : (interfacesDecoder pool).RefusesOnly notTruncated :=
  refusesOnly_read fun count => .times (refusesOnly_read refusesOnly_className) count.toNat

private theorem refusesOnly_fieldsDecoder : (fieldsDecoder pool).RefusesOnly notTruncated := by
  refine refusesOnly_read fun count => .times (refusesOnly_read fun _ => ?_) count.toNat
  refine .bind (refusesOnly_read refusesOnly_text) fun descriptor => ?_
  exact refusesOnly_skipAttributes.bind fun _ => refusesOnly_pure descriptor

private theorem refusesOnly_skipMethods : skipMethods.RefusesOnly notTruncated := by
  refine refusesOnly_read fun count => .bind (.times ?_ count.toNat) fun _ => refusesOnly_pure ()
  exact refusesOnly_read fun _ => refusesOnly_skipAttributes

private theorem refusesOnly_innerClassDecoder :
    (innerClassDecoder pool).RefusesOnly notTruncated := by
  refine refusesOnly_read fun inner => refusesOnly_read fun outer => refusesOnly_read fun _ => ?_
  have hinner : ∀ outer : Option String, (ofExcept (pool.className inner) >>= fun inner =>
      pure (some (⟨inner, outer⟩ : InnerClass))).RefusesOnly notTruncated :=
    fun _ => (refusesOnly_className inner).bind fun _ => refusesOnly_pure _
  split
  · exact refusesOnly_pure none
  · split
    · exact (refusesOnly_pure none).bind hinner
    · exact ((refusesOnly_className outer).bind fun _ => refusesOnly_pure _).bind hinner

private theorem refusesOnly_innerClassesDecoder :
    (innerClassesDecoder pool).RefusesOnly notTruncated :=
  refusesOnly_read fun count =>
    (refusesOnly_innerClassDecoder.times count.toNat).bind fun _ => refusesOnly_pure _

/-! ### Truncation of a nested body -/

/-- The consumed bytes end with an `InnerClasses` attribute in whose body a read of `needed` bytes
at `offset` exceeds the end. -/
def EndsInShortBody (pool : ConstantPool) (bytes : List UInt8) (offset needed : Nat) : Prop :=
  ∃ front nameIndex body,
    bytes = front ++ Bytes.word nameIndex ++ Bytes.ofNat 4 body.length ++ body ∧
      body.length < Bytes.doubleWordLimit ∧
      pool.text nameIndex = .ok innerClassesAttribute ∧
      (innerClassesDecoder pool).run (Cursor.start body) = .starved offset needed

/-- The refusals that are no truncation, or the truncation of such a body. -/
def shortBodyOnly (pool : ConstantPool) : Reason where
  Explains bytes error :=
    ∀ offset needed, error = .truncated offset needed → EndsInShortBody pool bytes offset needed
  lasting := by
    intro more back error h offset needed herror
    obtain ⟨front, nameIndex, body, rfl, hbody⟩ := h offset needed herror
    exact ⟨more ++ front, nameIndex, body, by simp, hbody⟩

private theorem refusesOnly_shortBodyOnly {α : Type} {plan : Decoder α}
    (h : plan.RefusesOnly notTruncated) : plan.RefusesOnly (shortBodyOnly pool) :=
  fun bytes error hends offset needed herror =>
    absurd ⟨offset, needed, herror⟩ (h bytes error hends)

private theorem run_of_decode {α : Type} {plan : Decoder α} (h : plan.RefusesOnly notTruncated)
    {bytes : List UInt8} {offset needed : Nat}
    (hdecode : plan.decode bytes = .error (.truncated offset needed)) :
    plan.run (Cursor.start bytes) = .starved offset needed := by
  rw [decode, Cursor.start] at hdecode
  rcases ends_or_starved plan 0 bytes with ⟨front, back, result, rfl, hends⟩ | ⟨_, _, hstarved⟩
  · rw [hends.toExcept_run] at hdecode
    subst hdecode
    exact absurd ⟨offset, needed, rfl⟩ (h _ _ hends)
  · rw [hstarved] at hdecode
    cases hdecode
    exact hstarved

private theorem refusesOnly_attributeDecoder :
    (attributeDecoder pool).RefusesOnly (shortBodyOnly pool) := by
  rintro bytes _ hends offset needed rfl
  rw [attributeDecoder] at hends
  rcases ends_bind.mp hends with ⟨_, herror, hname⟩ | ⟨_, _, name, rfl, hname, hattribute⟩
  · cases herror
    exact absurd ⟨offset, needed, rfl⟩ (refusesOnly_read refusesOnly_text _ _ hname)
  rcases ends_bind.mp hattribute with ⟨_, -, hlength⟩ | ⟨_, _, length, rfl, hlength, hcontent⟩
  · cases (ends_take_done.mp hlength).2
  rcases ends_bind.mp hcontent with ⟨_, -, hbody⟩ | ⟨_, rest, body, rfl, hbody, hresult⟩
  · cases (ends_take_done (f := id).mp hbody).2
  simp only [textDecoder, ends_bind_ok, ends_u16, ends_ofExcept] at hname
  obtain ⟨_, _, nameIndex, rfl, rfl, rfl, hname⟩ := hname
  obtain rfl := ends_u32.mp hlength
  obtain ⟨hlength, rfl⟩ := ends_bytes.mp hbody
  split at hresult
  · next hinner =>
    obtain ⟨rfl, hdecode⟩ := ends_ofExcept.mp hresult
    refine ⟨[], nameIndex, body, ?_, ?_, ?_, ?_⟩
    · simp [hlength]
    · exact (congrArg (· < Bytes.doubleWordLimit) hlength).mpr length.toNat_lt
    · rw [← hname, hinner]
    · exact run_of_decode refusesOnly_innerClassesDecoder hdecode.symm
  · cases hresult.2

private theorem refusesOnly_attributesDecoder :
    (attributesDecoder pool).RefusesOnly (shortBodyOnly pool) :=
  refusesOnly_read fun count =>
    (refusesOnly_attributeDecoder.times count.toNat).bind fun _ => refusesOnly_pure _

/-- Behind the pool, a refusal with a truncation stems from the body of an `InnerClasses`
attribute. -/
theorem ends_decoder_truncated {bytes : List UInt8} {offset needed : Nat}
    (h : decoder.Ends bytes (.error (.truncated offset needed))) :
    ∃ head poolBytes rest pool, bytes = head ++ poolBytes ++ rest ∧ head.length = 8 ∧
      ConstantPool.decoder.Ends poolBytes (.ok pool) ∧ EndsInShortBody pool rest offset needed := by
  rw [decoder] at h
  rcases ends_bind.mp h with ⟨_, -, hmagic⟩ | ⟨magicBytes, _, found, rfl, hmagic, h⟩
  · cases (ends_take_done.mp hmagic).2
  split at h
  · cases h.2
  rcases ends_bind.mp h with ⟨_, -, hversion⟩ | ⟨version, _, _, rfl, hversion, h⟩
  · cases (ends_take_done.mp hversion).2
  rcases ends_bind.mp h with ⟨_, herror, hpool⟩ | ⟨poolBytes, rest, pool, rfl, hpool, h⟩
  · cases herror
    exact absurd ⟨offset, needed, rfl⟩ (ConstantPool.refusesOnly_decoder _ _ hpool)
  refine ⟨magicBytes ++ version, poolBytes, rest, pool, ?_, ?_, hpool, ?_⟩
  · simp
  · rw [List.length_append, (ends_take_done.mp hmagic).1, ends_skip.mp hversion]
  · have hrest : (do
        Decoder.skip 2
        let name ← pool.classNameDecoder
        let superName ← superDecoder pool
        let interfaces ← interfacesDecoder pool
        let fieldDescriptors ← fieldsDecoder pool
        skipMethods
        let innerClasses ← attributesDecoder pool
        return { name, superName, interfaces, fieldDescriptors, innerClasses : ClassFile
          }).RefusesOnly (shortBodyOnly pool) := by
      refine refusesOnly_read fun _ => ?_
      refine .bind (refusesOnly_shortBodyOnly (refusesOnly_read refusesOnly_className)) fun _ => ?_
      refine .bind (refusesOnly_shortBodyOnly refusesOnly_superDecoder) fun _ => ?_
      refine .bind (refusesOnly_shortBodyOnly refusesOnly_interfacesDecoder) fun _ => ?_
      refine .bind (refusesOnly_shortBodyOnly refusesOnly_fieldsDecoder) fun _ => ?_
      refine .bind (refusesOnly_shortBodyOnly refusesOnly_skipMethods) fun _ => ?_
      exact refusesOnly_attributesDecoder.bind fun _ => refusesOnly_pure _
    exact hrest rest _ h offset needed rfl

/-! ### The dichotomy -/

/-- A truncated input: the file decoder exhausts it at `offset`, the error reports exactly this
read, and the result is the same for every extension that does not complete the read. -/
structure IsShort (bytes : List UInt8) (offset needed : Nat) : Prop where
  starved : decoder.run (Cursor.start bytes) = .starved offset needed
  parse_eq : parse bytes = .error (.truncated offset needed)
  offset_le : offset ≤ bytes.length
  length_lt : bytes.length < offset + needed
  extend (more : List UInt8) : (bytes ++ more).length < offset + needed →
    decoder.run (Cursor.start (bytes ++ more)) = .starved offset needed ∧
      parse (bytes ++ more) = .error (.truncated offset needed)

/-- The first `point` bytes of an input are its decision point: they determine the result, which is
no truncation of the file, all of their proper prefixes are truncated, and a class file is read up
to this point. A reported truncation is that of an `InnerClasses` body which ends there. -/
structure IsDecidedAt (bytes : List UInt8) (point : Nat) : Prop where
  point_le : point ≤ bytes.length
  same (other : List UInt8) : other.take point = bytes.take point →
    parse other = parse bytes ∧
      ∀ offset needed, decoder.run (Cursor.start other) ≠ .starved offset needed
  short (other : List UInt8) : other <+: bytes.take point → other.length < point →
    ∃ offset needed, IsShort other offset needed
  stops {file : ClassFile} : parse bytes = .ok file →
    decoder.run (Cursor.start bytes) = .done file ⟨point, bytes.drop point⟩
  body {offset needed : Nat} : parse bytes = .error (.truncated offset needed) →
    ∃ (head poolBytes middle body : List UInt8) (pool : ConstantPool) (nameIndex : UInt16),
      bytes.take point = head ++ poolBytes ++ middle ++ Bytes.word nameIndex ++
        Bytes.ofNat 4 body.length ++ body ∧
      head.length = 8 ∧ ConstantPool.decoder.Ends poolBytes (.ok pool) ∧
      body.length < Bytes.doubleWordLimit ∧ pool.text nameIndex = .ok innerClassesAttribute ∧
      (innerClassesDecoder pool).run (Cursor.start body) = .starved offset needed ∧
      offset ≤ body.length ∧ body.length < offset + needed

private theorem isShort_of_starved {bytes : List UInt8} {offset needed : Nat}
    (h : decoder.run (Cursor.start bytes) = .starved offset needed) :
    IsShort bytes offset needed := by
  have hparse : ∀ {bytes : List UInt8}, decoder.run (Cursor.start bytes) = .starved offset needed →
      parse bytes = .error (.truncated offset needed) := by
    intro bytes h
    rw [parse, decode, h]
    rfl
  obtain ⟨hin, hout⟩ := starved_bounds h
  rw [Nat.zero_add] at hin hout
  refine ⟨h, hparse h, hin, hout, fun more hmore => ?_⟩
  have hagain : decoder.run (Cursor.start (bytes ++ more)) = .starved offset needed :=
    starved_append h (by rwa [Nat.zero_add])
  exact ⟨hagain, hparse hagain⟩

private theorem isDecidedAt_of_ends {front back : List UInt8}
    {result : Except ClassFileError ClassFile}
    (h : decoder.Ends front result) : IsDecidedAt (front ++ back) front.length := by
  have hrun : ∀ back, decoder.run (Cursor.start (front ++ back)) =
      .ofResult ⟨front.length, back⟩ result := by
    intro back
    have := h.run 0 back
    rwa [Nat.zero_add] at this
  have hparse : ∀ back, parse (front ++ back) = result := by
    intro back
    rw [parse, decode, Cursor.start, h.toExcept_run]
  have htake : (front ++ back).take front.length = front := List.take_left
  refine ⟨by simp, ?_, ?_, ?_, ?_⟩
  · intro other hother
    rw [htake] at hother
    rw [← List.take_append_drop front.length other, hother, hparse, hparse, hrun]
    refine ⟨rfl, fun offset needed => ?_⟩
    cases result <;> simp [Outcome.ofResult]
  · intro other hother hlt
    rw [htake] at hother
    obtain ⟨offset, needed, hstarved⟩ := h.starved 0 hother hlt
    exact ⟨offset, needed, isShort_of_starved hstarved⟩
  · intro file hfile
    rw [hparse] at hfile
    rw [hrun, hfile, List.drop_left]
    rfl
  · intro offset needed herror
    rw [hparse] at herror
    subst herror
    obtain ⟨head, poolBytes, rest, pool, rfl, hhead, hpool, middle, nameIndex, body, rfl, hlt,
      hname, hstarved⟩ := ends_decoder_truncated h
    obtain ⟨hin, hout⟩ := starved_bounds hstarved
    rw [Nat.zero_add] at hin hout
    refine ⟨head, poolBytes, middle, body, pool, nameIndex, ?_, hhead, hpool, hlt, hname, hstarved,
      hin, hout⟩
    rw [htake]
    simp

/-- Every byte sequence is truncated or has a decision point, and never both. A truncated input
stays so until the missing bytes are present; all proper prefixes of a decision point are
truncated. -/
theorem isShort_xor_isDecidedAt (bytes : List UInt8) :
    Xor (∃ offset needed, IsShort bytes offset needed) (∃ point, IsDecidedAt bytes point) := by
  rcases ends_or_starved decoder 0 bytes with
    ⟨front, back, result, rfl, hends⟩ | ⟨offset, needed, hstarved⟩
  · refine Or.inr ⟨⟨_, isDecidedAt_of_ends hends⟩, ?_⟩
    rintro ⟨offset, needed, hshort⟩
    exact ((isDecidedAt_of_ends hends).same _ rfl).2 offset needed hshort.starved
  · refine Or.inl ⟨⟨offset, needed, isShort_of_starved hstarved⟩, ?_⟩
    rintro ⟨point, hdecided⟩
    exact (hdecided.same bytes rfl).2 offset needed hstarved

end ClassFile

end ClassAtlas
