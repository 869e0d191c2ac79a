import ClassAtlas.Text.Utf16

/-!
# UTF-8

Strict decoding accepts exactly the well-formed sequences. Lossy decoding replaces each maximal
truncated prefix of a well-formed sequence, and each byte that starts none, by one replacement
character. Specification: `SPEC_FULL.md` §4.2, lines 40–46, and §10.4, lines 150–152.
-/

namespace ClassAtlas.Text.Utf8

/-- Strict decoding. -/
def decode? (bytes : List UInt8) : Option String := String.fromUTF8? bytes.toByteArray

/-- UTF-8 encoding. -/
def encode (text : String) : List UInt8 := text.toUTF8.data.toList

/-- Continuation of a well-formed sequence: the number of bytes behind the first, and the bounds of
the second. -/
structure Continuation where
  count : Nat
  low : UInt8
  high : UInt8

/-- Continuation required by a first byte; absent for a byte that starts no sequence. -/
def Continuation.after? (first : UInt8) : Option Continuation :=
  if first < 0x80 then some ⟨0, 0x80, 0xBF⟩
  else if first < 0xC2 then none
  else if first < 0xE0 then some ⟨1, 0x80, 0xBF⟩
  else if first = 0xE0 then some ⟨2, 0xA0, 0xBF⟩
  else if first = 0xED then some ⟨2, 0x80, 0x9F⟩
  else if first < 0xF0 then some ⟨2, 0x80, 0xBF⟩
  else if first = 0xF0 then some ⟨3, 0x90, 0xBF⟩
  else if first < 0xF4 then some ⟨3, 0x80, 0xBF⟩
  else if first = 0xF4 then some ⟨3, 0x80, 0x8F⟩
  else none

/-- Longest prefix of the bytes that satisfies a continuation. -/
def Continuation.follow (continuation : Continuation) : List UInt8 → List UInt8
  | [] => []
  | second :: rest =>
    if continuation.count ≠ 0 ∧ continuation.low ≤ second ∧ second ≤ continuation.high then
      second :: (rest.take (continuation.count - 1)).takeWhile fun byte =>
        0x80 ≤ byte ∧ byte ≤ 0xBF
    else []

/-- Character of a complete sequence. -/
def assemble (first : UInt8) (following : List UInt8) : Char :=
  let leading :=
    match following.length with
    | 0 => first.toNat
    | 1 => first.toNat % 0x20
    | 2 => first.toNat % 0x10
    | _ => first.toNat % 0x08
  Char.ofNat (following.foldl (fun value byte => value * 64 + byte.toNat % 64) leading)

/-- Lossy decoding. -/
def decodeLossy : List UInt8 → List Char
  | [] => []
  | first :: rest =>
    match Continuation.after? first with
    | none => Utf16.replacement :: decodeLossy rest
    | some continuation =>
      let following := continuation.follow rest
      let c :=
        if following.length = continuation.count then assemble first following
        else Utf16.replacement
      c :: decodeLossy (rest.drop following.length)
termination_by bytes => bytes.length
decreasing_by all_goals grind

end ClassAtlas.Text.Utf8
