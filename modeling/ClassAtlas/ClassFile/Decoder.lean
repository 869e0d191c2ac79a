import ClassAtlas.Bytes
import ClassAtlas.ClassFile.Error

/-!
# Pull decoders

A decoder is a free monad over reads of a byte count: it returns a value, refuses with an error, or
demands the next bytes and continues from them. It has no other access to its input, so its result
is a function of the bytes it was given. A run has three outcomes; exhaustion of the input is
distinguished from a refusal. Specification: `SPEC_FULL.md` §4.2, line 46, and §9, line 95.
-/

namespace ClassAtlas

/-- Decoder of a value: `take` demands exactly `count` bytes. -/
inductive Decoder (α : Type) where
  | done (value : α)
  | refuse (error : ClassFileError)
  | take (count : Nat) (next : List UInt8 → Decoder α)

namespace Decoder

variable {α β : Type}

/-- Sequential composition. -/
def bind : Decoder α → (α → Decoder β) → Decoder β
  | done value, next => next value
  | refuse error, _ => refuse error
  | take count first, next => take count fun bytes => (first bytes).bind next

/-- Decoders compose by `bind`. -/
instance : Monad Decoder where
  pure := done
  bind := bind

/-- Read position: the number of bytes consumed and the remaining bytes. -/
structure Cursor where
  offset : Nat
  rest : List UInt8

/-- Position at the start of an input. -/
def Cursor.start (bytes : List UInt8) : Cursor := ⟨0, bytes⟩

/-- Split off the next `count` bytes, if that many remain. -/
def Cursor.take? (count : Nat) (cursor : Cursor) : Option (List UInt8 × Cursor) :=
  let taken := cursor.rest.take count
  if taken.length = count then some (taken, ⟨cursor.offset + count, cursor.rest.drop count⟩)
  else none

/-- Outcome of a run: a value with the final position, a refusal by the decoder, or a read of
`needed` bytes at `offset` beyond the end of the input. -/
inductive Outcome (α : Type) where
  | done (value : α) (rest : Cursor)
  | refused (error : ClassFileError)
  | starved (offset needed : Nat)

/-- Run a decoder from a position. -/
def run : Decoder α → Cursor → Outcome α
  | done value, cursor => .done value cursor
  | refuse error, _ => .refused error
  | take count next, cursor =>
    match cursor.take? count with
    | some (bytes, rest) => (next bytes).run rest
    | none => .starved cursor.offset count

/-- Result of an outcome; exhaustion is reported as `ClassFileError.truncated`. -/
def Outcome.toExcept : Outcome α → Except ClassFileError α
  | .done value _ => .ok value
  | .refused error => .error error
  | .starved offset needed => .error (.truncated offset needed)

/-- Run a decoder from the start of an input, ignoring trailing bytes. -/
def decode (plan : Decoder α) (bytes : List UInt8) : Except ClassFileError α :=
  (plan.run (Cursor.start bytes)).toExcept

/-- Decoder with a given result that consumes nothing. -/
def ofExcept : Except ClassFileError α → Decoder α
  | .ok value => done value
  | .error error => refuse error

/-- Read `count` bytes. -/
def bytes (count : Nat) : Decoder (List UInt8) := take count done

/-- Skip `count` bytes. -/
def skip (count : Nat) : Decoder Unit := take count fun _ => done ()

/-- Read an 8-bit integer. -/
def u8 : Decoder UInt8 := take 1 fun bytes => done (UInt8.ofNat (Bytes.bigEndian bytes))

/-- Read a big-endian 16-bit integer. -/
def u16 : Decoder UInt16 := take 2 fun bytes => done (UInt16.ofNat (Bytes.bigEndian bytes))

/-- Read a big-endian 32-bit integer. -/
def u32 : Decoder UInt32 := take 4 fun bytes => done (UInt32.ofNat (Bytes.bigEndian bytes))

/-- Repeat a decoder `count` times with the reversed accumulator `values`. -/
def repeatOnto (plan : Decoder α) : (count : Nat) → List α → Decoder (List α)
  | 0, values => done values.reverse
  | count + 1, values => plan.bind fun value => plan.repeatOnto count (value :: values)

/-- Repeat a decoder `count` times and collect the values in order. -/
def times (count : Nat) (plan : Decoder α) : Decoder (List α) := plan.repeatOnto count []

end Decoder

end ClassAtlas
