import ClassAtlas.ClassFile.ModifiedUtf8
import Mathlib

/-!
# Modified UTF-8 round trip

Decoding inverts both encodings of a text, as UTF-8 and group by group. A sequence of groups is
well-formed UTF-8 only if it holds neither the zero unit nor surrogates, in which case both decoders
agree. Specification: `SPEC_FULL.md` §4.2, lines 40–46.
-/

namespace ClassAtlas

/-! ### UTF-16 -/

namespace Text.Utf16

private theorem isHigh_iff {unit : UInt16} :
    IsHigh unit ↔ 0xD800 ≤ unit.toNat ∧ unit.toNat ≤ 0xDBFF := by
  simp [IsHigh, UInt16.le_iff_toNat_le]

private theorem isLow_iff {unit : UInt16} :
    IsLow unit ↔ 0xDC00 ≤ unit.toNat ∧ unit.toNat ≤ 0xDFFF := by
  simp [IsLow, UInt16.le_iff_toNat_le]

/-- A basic-plane character decodes from its code unit, which is no surrogate. -/
theorem decode_cons_of_lt {c : Char} (h : c.toNat < 0x10000) (later : List UInt16) :
    decode (UInt16.ofNat c.toNat :: later) = c :: decode later := by
  have hvalue : (UInt16.ofNat c.toNat).toNat = c.toNat := UInt16.toNat_ofNat_of_lt' h
  have hvalid : c.toNat < 0xD800 ∨ 0xDFFF < c.toNat := c.valid.imp_right And.left
  have hhigh : ¬IsHigh (UInt16.ofNat c.toNat) := by
    rw [isHigh_iff, hvalue]
    omega
  have hlow : ¬IsLow (UInt16.ofNat c.toNat) := by
    rw [isLow_iff, hvalue]
    omega
  rw [decode.eq_def]
  simp only [hhigh, hlow, if_false, hvalue, Char.ofNat_toNat]

/-- A supplementary character decodes from its surrogate pair. -/
theorem decode_pair {c : Char} (h : 0x10000 ≤ c.toNat) (later : List UInt16) :
    decode (UInt16.ofNat (0xD800 + (c.toNat - 0x10000) / 0x400) ::
      UInt16.ofNat (0xDC00 + (c.toNat - 0x10000) % 0x400) :: later) = c :: decode later := by
  have hvalid : c.toNat < 0x110000 := by
    obtain h | ⟨-, h⟩ := c.valid <;> simp only [Char.toNat] at * <;> omega
  have hfirst : (UInt16.ofNat (0xD800 + (c.toNat - 0x10000) / 0x400)).toNat =
      0xD800 + (c.toNat - 0x10000) / 0x400 := UInt16.toNat_ofNat_of_lt' (by show _ < 65536; omega)
  have hsecond : (UInt16.ofNat (0xDC00 + (c.toNat - 0x10000) % 0x400)).toNat =
      0xDC00 + (c.toNat - 0x10000) % 0x400 := UInt16.toNat_ofNat_of_lt' (by show _ < 65536; omega)
  have hhigh : IsHigh (UInt16.ofNat (0xD800 + (c.toNat - 0x10000) / 0x400)) := by
    rw [isHigh_iff, hfirst]
    omega
  have hlow : IsLow (UInt16.ofNat (0xDC00 + (c.toNat - 0x10000) % 0x400)) := by
    rw [isLow_iff, hsecond]
    omega
  have hpair : pair (UInt16.ofNat (0xD800 + (c.toNat - 0x10000) / 0x400))
      (UInt16.ofNat (0xDC00 + (c.toNat - 0x10000) % 0x400)) = c := by
    rw [pair, hfirst, hsecond, Nat.add_sub_cancel_left, Nat.add_sub_cancel_left, Nat.add_assoc,
      Nat.div_add_mod', Nat.add_sub_cancel' h, Char.ofNat_toNat]
  rw [decode.eq_def]
  simp only [hhigh, hlow, if_true, hpair]

/-- UTF-16 decoding inverts encoding. -/
theorem decode_encode_eq (text : List Char) : decode (encode text) = text := by
  induction text with
  | nil => rfl
  | cons c text ih =>
    rw [encode, List.flatMap_cons, ← encode, encodeChar]
    split
    · next h => rw [List.singleton_append, decode_cons_of_lt h, ih]
    · next h => rw [List.cons_append, List.singleton_append, decode_pair (by omega), ih]

end Text.Utf16

/-! ### UTF-8 -/

namespace Text.Utf8

/-- UTF-8 encoding is the concatenation of the characters' encodings. -/
theorem encode_eq (text : String) : encode text = text.toList.flatMap String.utf8EncodeChar := by
  have hbytes : (text.toList.flatMap String.utf8EncodeChar).toByteArray = text.toByteArray :=
    String.utf8Encode_toList
  simp [encode, ← hbytes]

/-- The encoding has the length of the text in bytes. -/
theorem length_encode (text : String) : (encode text).length = text.utf8ByteSize := by
  simp [encode]

/-- Strict decoding accepts exactly the encoding of its result. -/
theorem decode?_eq_some_iff {bytes : List UInt8} {text : String} :
    decode? bytes = some text ↔ bytes = encode text := by
  rw [decode?, String.fromUTF8?]
  constructor
  · intro h
    split at h
    · obtain rfl := Option.some.inj h
      exact (List.toList_data_toByteArray).symm
    · cases h
  · rintro rfl
    have hbytes : (encode text).toByteArray = text.toByteArray := by
      ext1
      simp [encode]
    rw [hbytes, dif_pos text.isValidUTF8]
    rfl

end Text.Utf8

/-! ### Groups -/

namespace ModifiedUtf8

/-- Byte sequences that are concatenations of complete groups; continuation bytes are arbitrary. -/
inductive IsGrouped : List UInt8 → Prop
  | nil : IsGrouped []
  | one {a : UInt8} {rest : List UInt8} : a < 0x80 → IsGrouped rest → IsGrouped (a :: rest)
  | two {a b : UInt8} {rest : List UInt8} :
    0xC0 ≤ a → a < 0xE0 → IsGrouped rest → IsGrouped (a :: b :: rest)
  | three {a b c : UInt8} {rest : List UInt8} :
    0xE0 ≤ a → a < 0xF0 → IsGrouped rest → IsGrouped (a :: b :: c :: rest)

/-- A byte sequence is a group of a code unit: it decodes to the unit in front of any bytes, and its
removal preserves `IsGrouped`. -/
structure IsGroup (group : List UInt8) (unit : UInt16) : Prop where
  units_append : ∀ rest, units (group ++ rest) = unit :: units rest
  isGrouped_append : ∀ rest, IsGrouped (group ++ rest) ↔ IsGrouped rest

private theorem isGroup_one {a : UInt8} (h : a < 0x80) : IsGroup [a] a.toUInt16 where
  units_append := by
    rintro (_ | ⟨b, _ | ⟨c, rest⟩⟩) <;> simp [units, h]
  isGrouped_append := by
    refine fun rest => ⟨fun hgrouped => ?_, .one h⟩
    cases hgrouped with
    | one _ hrest => exact hrest
    | two hlow => grind
    | three hlow => grind

private theorem isGroup_two {a : UInt8} (hlow : 0xC0 ≤ a) (hhigh : a < 0xE0) (b : UInt8) :
    IsGroup [a, b] (two a b) where
  units_append := by
    have hone : ¬a < 0x80 := by grind
    rintro (_ | ⟨c, rest⟩) <;> simp [units, hone, hlow, hhigh]
  isGrouped_append := by
    refine fun rest => ⟨fun hgrouped => ?_, .two hlow hhigh⟩
    cases hgrouped with
    | one hone => grind
    | two _ _ hrest => exact hrest
    | three hthree => grind

private theorem isGroup_three {a : UInt8} (hlow : 0xE0 ≤ a) (hhigh : a < 0xF0) (b c : UInt8) :
    IsGroup [a, b, c] (three a b c) where
  units_append := by
    have hone : ¬a < 0x80 := by grind
    have htwo : ¬a < 0xE0 := by grind
    simp [units, hone, htwo, hlow, hhigh]
  isGrouped_append := by
    refine fun rest => ⟨fun hgrouped => ?_, .three hlow hhigh⟩
    cases hgrouped with
    | one hone => grind
    | two _ htwo => grind
    | three _ _ hrest => exact hrest

private theorem toNat_byte (n : Nat) (h : n < 256) : (UInt8.ofNat n).toNat = n :=
  UInt8.toNat_ofNat_of_lt' h

private theorem isGroup_one_ofNat {n : Nat} (h : n < 0x80) :
    IsGroup [UInt8.ofNat n] (UInt16.ofNat n) := by
  have ha := toNat_byte n (by omega)
  have hgreatest : UInt8.ofNat n < 0x80 := by
    rw [UInt8.lt_iff_toNat_lt, ha]
    exact h
  have hgroup := isGroup_one hgreatest
  rwa [← UInt16.ofNat_uInt8ToNat, ha] at hgroup

private theorem isGroup_two_ofNat (high low : Nat) (hhigh : high < 0x20) (hlow : low < 0x40) :
    IsGroup [UInt8.ofNat (0xC0 + high), UInt8.ofNat (0x80 + low)]
      (UInt16.ofNat (high * 0x40 + low)) := by
  have ha := toNat_byte (0xC0 + high) (by omega)
  have hb := toNat_byte (0x80 + low) (by omega)
  have hleast : 0xC0 ≤ UInt8.ofNat (0xC0 + high) := by
    rw [UInt8.le_iff_toNat_le, ha]
    exact Nat.le_add_right 0xC0 high
  have hgreatest : UInt8.ofNat (0xC0 + high) < 0xE0 := by
    rw [UInt8.lt_iff_toNat_lt, ha]
    exact Nat.add_lt_add_left hhigh 0xC0
  have hgroup := isGroup_two hleast hgreatest (UInt8.ofNat (0x80 + low))
  have hunit : (0xC0 + high) % 0x20 * 0x40 + (0x80 + low) % 0x40 = high * 0x40 + low := by omega
  rwa [two, ha, hb, hunit] at hgroup

private theorem isGroup_three_ofNat (high middle low : Nat) (hhigh : high < 0x10)
    (hmiddle : middle < 0x40)
    (hlow : low < 0x40) :
    IsGroup [UInt8.ofNat (0xE0 + high), UInt8.ofNat (0x80 + middle), UInt8.ofNat (0x80 + low)]
      (UInt16.ofNat (high * 0x1000 + middle * 0x40 + low)) := by
  have ha := toNat_byte (0xE0 + high) (by omega)
  have hb := toNat_byte (0x80 + middle) (by omega)
  have hc := toNat_byte (0x80 + low) (by omega)
  have hleast : 0xE0 ≤ UInt8.ofNat (0xE0 + high) := by
    rw [UInt8.le_iff_toNat_le, ha]
    exact Nat.le_add_right 0xE0 high
  have hgreatest : UInt8.ofNat (0xE0 + high) < 0xF0 := by
    rw [UInt8.lt_iff_toNat_lt, ha]
    exact Nat.add_lt_add_left hhigh 0xE0
  have hgroup := isGroup_three hleast hgreatest (UInt8.ofNat (0x80 + middle))
    (UInt8.ofNat (0x80 + low))
  have hunit : (0xE0 + high) % 0x10 * 0x1000 + (0x80 + middle) % 0x40 * 0x40 + (0x80 + low) % 0x40 =
      high * 0x1000 + middle * 0x40 + low := by omega
  rwa [three, ha, hb, hc, hunit] at hgroup

/-- The encoding of a code unit is a group of it. -/
theorem isGroup_encodeUnit (unit : UInt16) : IsGroup (encodeUnit unit) unit := by
  have hunit : unit.toNat < 0x10000 := unit.toNat_lt
  rw [encodeUnit]
  split_ifs with hone htwo
  · have hgroup := isGroup_one_ofNat hone.2
    rwa [UInt16.ofNat_toNat] at hgroup
  · have hgroup := isGroup_two_ofNat (unit.toNat / 0x40) (unit.toNat % 0x40) (by omega) (by omega)
    rwa [Nat.div_add_mod', UInt16.ofNat_toNat] at hgroup
  · have hgroup := isGroup_three_ofNat (unit.toNat / 0x1000) (unit.toNat / 0x40 % 0x40)
      (unit.toNat % 0x40) (by omega) (by omega) (by omega)
    have hvalue : unit.toNat / 0x1000 * 0x1000 + unit.toNat / 0x40 % 0x40 * 0x40 +
        unit.toNat % 0x40 = unit.toNat := by omega
    rwa [hvalue, UInt16.ofNat_toNat] at hgroup

/-- The UTF-8 encoding of a basic-plane character other than zero is a group of its code unit. -/
theorem isGroup_utf8EncodeChar {c : Char} (h : c.toNat < 0x10000) :
    IsGroup (String.utf8EncodeChar c) (UInt16.ofNat c.toNat) := by
  rw [String.utf8EncodeChar, ← Char.toNat]
  split_ifs with hone htwo hthree
  · exact isGroup_one_ofNat (Nat.lt_succ_of_le hone)
  · have hgroup := isGroup_two_ofNat (c.toNat / 0x40 % 0x20) (c.toNat % 0x40) (by omega) (by omega)
    have hvalue : c.toNat / 0x40 % 0x20 * 0x40 + c.toNat % 0x40 = c.toNat := by omega
    rwa [hvalue, Nat.add_comm 0xC0, Nat.add_comm 0x80] at hgroup
  · have hgroup := isGroup_three_ofNat (c.toNat / 0x1000 % 0x10) (c.toNat / 0x40 % 0x40)
      (c.toNat % 0x40) (by omega) (by omega) (by omega)
    have hvalue : c.toNat / 0x1000 % 0x10 * 0x1000 + c.toNat / 0x40 % 0x40 * 0x40 +
        c.toNat % 0x40 = c.toNat := by omega
    rwa [hvalue, Nat.add_comm 0xE0, Nat.add_comm 0x80, Nat.add_comm 0x80] at hgroup
  · omega

/-- Group decoding inverts group encoding. -/
theorem units_encode (codes : List UInt16) : units (encode codes) = codes := by
  induction codes with
  | nil => rfl
  | cons unit codes ih =>
    rw [encode, List.flatMap_cons, ← encode, (isGroup_encodeUnit unit).units_append, ih]

/-- Encoded code units are grouped. -/
theorem isGrouped_encode (codes : List UInt16) : IsGrouped (encode codes) := by
  induction codes with
  | nil => exact .nil
  | cons unit codes ih =>
    rwa [encode, List.flatMap_cons, ← encode, (isGroup_encodeUnit unit).isGrouped_append]

/-- The UTF-8 encoding of a supplementary character is no prefix of a grouped sequence. -/
theorem not_isGrouped_utf8EncodeChar {c : Char} (h : 0x10000 ≤ c.toNat) (rest : List UInt8) :
    ¬IsGrouped (String.utf8EncodeChar c ++ rest) := by
  rw [String.utf8EncodeChar, ← Char.toNat]
  split_ifs with hone htwo hthree
  · omega
  · omega
  · omega
  · have ha := toNat_byte (c.toNat / 262144 % 8 + 0xF0) (by omega)
    have hleast : 0xF0 ≤ UInt8.ofNat (c.toNat / 262144 % 8 + 0xF0) := by
      rw [UInt8.le_iff_toNat_le, ha]
      exact Nat.le_add_left 0xF0 _
    intro hgrouped
    cases hgrouped with
    | one hgreatest => grind
    | two _ hgreatest => grind
    | three _ hgreatest => grind

/-- A grouped UTF-8 encoding decodes to the code units of its text. -/
theorem units_flatMap_utf8EncodeChar {text : List Char}
    (h : IsGrouped (text.flatMap String.utf8EncodeChar)) :
    units (text.flatMap String.utf8EncodeChar) = Text.Utf16.encode text := by
  induction text with
  | nil => rfl
  | cons c text ih =>
    rw [List.flatMap_cons] at h ⊢
    obtain hlow | hhigh := lt_or_ge c.toNat 0x10000
    · have hgroup := isGroup_utf8EncodeChar hlow
      rw [hgroup.units_append, ih ((hgroup.isGrouped_append _).mp h), Text.Utf16.encode,
        Text.Utf16.encode, List.flatMap_cons, Text.Utf16.encodeChar, if_pos hlow,
        List.singleton_append]
    · exact absurd h (not_isGrouped_utf8EncodeChar hhigh _)

/-- Both decoders agree on grouped well-formed UTF-8. -/
theorem ofList_decode_units {bytes : List UInt8} {text : String}
    (htext : Text.Utf8.decode? bytes = some text) (h : IsGrouped bytes) :
    String.ofList (Text.Utf16.decode (units bytes)) = text := by
  obtain rfl := Text.Utf8.decode?_eq_some_iff.mp htext
  rw [Text.Utf8.encode_eq] at h ⊢
  rw [units_flatMap_utf8EncodeChar h, Text.Utf16.decode_encode_eq, String.ofList_toList]

/-- Decoding inverts UTF-8 encoding. -/
theorem decode_encode (text : String) : decode (Text.Utf8.encode text) = text := by
  have htext := Text.Utf8.decode?_eq_some_iff.mpr (Eq.refl (Text.Utf8.encode text))
  simp only [decode, htext]

/-- Decoding a grouped sequence is decoding its code units. -/
theorem decode_of_isGrouped {bytes : List UInt8} (h : IsGrouped bytes) :
    decode bytes = String.ofList (Text.Utf16.decode (units bytes)) := by
  rw [decode]
  split
  · next text htext => exact (ofList_decode_units htext h).symm
  · rfl

/-- Each step of group decoding consumes one to three bytes and yields one unit. -/
theorem exists_units_eq_cons {bytes : List UInt8} (h : bytes ≠ []) :
    ∃ unit taken, 0 < taken ∧ taken ≤ 3 ∧ taken ≤ bytes.length ∧
      units bytes = unit :: units (bytes.drop taken) := by
  fun_cases units bytes with
  | case1 => exact absurd rfl h
  | case2 | case5 | case6 | case8 | case9 | case10 => exact ⟨_, 1, by simp, by simp, by simp, rfl⟩
  | case3 | case7 => exact ⟨_, 2, by simp, by simp, by simp, rfl⟩
  | case4 => exact ⟨_, 3, by simp, by simp, by simp, rfl⟩

/-- Decoding inverts both encodings: the groups of code units decode to their text with lone
surrogates replaced, and the UTF-8 encoding of a text to the text. Both decoders agree where both
apply, and group decoding makes progress until the input is exhausted. -/
theorem decode_inverts_encode :
    (∀ codes, decode (encode codes) = String.ofList (Text.Utf16.decode codes)) ∧
      (∀ text, decode (Text.Utf8.encode text) = text) ∧
      (∀ text : String, decode (encode (Text.Utf16.encode text.toList)) = text) ∧
      (∀ codes, IsGrouped (encode codes)) ∧
      (∀ bytes text, Text.Utf8.decode? bytes = some text → IsGrouped bytes →
        String.ofList (Text.Utf16.decode (units bytes)) = text) ∧
      ∀ bytes, bytes ≠ [] → ∃ unit taken, 0 < taken ∧ taken ≤ 3 ∧ taken ≤ bytes.length ∧
        units bytes = unit :: units (bytes.drop taken) := by
  have hunits (codes : List UInt16) :
      decode (encode codes) = String.ofList (Text.Utf16.decode codes) := by
    rw [decode_of_isGrouped (isGrouped_encode codes), units_encode]
  refine ⟨hunits, decode_encode, fun text => ?_, isGrouped_encode,
    fun _ _ => ofList_decode_units, fun _ => exists_units_eq_cons⟩
  rw [hunits, Text.Utf16.decode_encode_eq, String.ofList_toList]

end ModifiedUtf8

end ClassAtlas
