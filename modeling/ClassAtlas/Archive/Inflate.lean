/-!
# DEFLATE decompression

A stream is a sequence of blocks over a bit stream that starts at the low end of each byte. A block
is stored or coded in two canonical prefix codes, one for literals and lengths and one for
distances. A back reference reaches at most 32768 bytes back; in front of the output it reads zeros.
Malformed and incomplete streams decompress to nothing. Specification: `SPEC_FULL.md` §10.6, lines
171–174.
-/

namespace ClassAtlas.Inflate

/-- Bit stream with the number of bits consumed. -/
structure BitCursor where
  data : ByteArray
  position : Nat

namespace BitCursor

/-- Next bit. -/
def bit? (cursor : BitCursor) : Option (Nat × BitCursor) := do
  let byte ← cursor.data[cursor.position / 8]?
  return ((byte.toNat >>> (cursor.position % 8)) % 2,
    { cursor with position := cursor.position + 1 })

/-- Next `count` bits, least significant first. -/
def bits? (cursor : BitCursor) : (count : Nat) → Option (Nat × BitCursor)
  | 0 => some (0, cursor)
  | count + 1 => do
    let (low, cursor) ← cursor.bit?
    let (high, cursor) ← cursor.bits? count
    return (low + 2 * high, cursor)

/-- Skip to the next byte boundary. -/
def alignByte (cursor : BitCursor) : BitCursor :=
  { cursor with position := (cursor.position + 7) / 8 * 8 }

/-- Number of unread bits. -/
def remaining (cursor : BitCursor) : Nat := 8 * cursor.data.size - cursor.position

end BitCursor

/-- Maximal length of a code word. -/
def maxCodeLength : Nat := 15

/-- Canonical prefix code: the number of code words of each length from one on, and the symbols in
the order of their code words. -/
structure PrefixCode where
  counts : List Nat
  symbols : Array Nat

namespace PrefixCode

/-- Symbols of one code length, in order. -/
def symbolsOfLength (lengths : List Nat) (length : Nat) : List Nat :=
  (lengths.zipIdx.filter fun (own, _) => own == length).map Prod.snd

/-- The code words exhaust the code space. -/
def isFull (counts : List Nat) : Bool :=
  counts.zipIdx.foldl
    (fun space (count, index) => space + count <<< (maxCodeLength - 1 - index)) 0
    == 1 <<< maxCodeLength

/-- There is at most one code word, of a single bit. -/
def isSparse : (counts : List Nat) → Bool
  | [] => true
  | count :: longer => count ≤ 1 && longer.all (· == 0)

/-- Code with the given length for each symbol, where zero excludes the symbol. -/
def ofLengths (lengths : List Nat) : PrefixCode :=
  let groups := (List.range maxCodeLength).map fun index => symbolsOfLength lengths (index + 1)
  ⟨groups.map List.length, groups.flatten.toArray⟩

/-- Decode a code word, given the counts of the remaining lengths, the bits so far, the first code
word of the current length and the number of shorter code words. -/
def decodeFrom? (symbols : Array Nat) :
    (counts : List Nat) → (word first shorter : Nat) → BitCursor → Option (Nat × BitCursor)
  | [], _, _, _, _ => none
  | count :: counts, word, first, shorter, cursor => do
    let (bit, cursor) ← cursor.bit?
    let word := 2 * word + bit
    let first := 2 * first
    if word < first + count then
      let symbol ← symbols[shorter + (word - first)]?
      return (symbol, cursor)
    else decodeFrom? symbols counts word (first + count) (shorter + count) cursor

/-- Decode one symbol. -/
def decode? (code : PrefixCode) (cursor : BitCursor) : Option (Nat × BitCursor) :=
  decodeFrom? code.symbols code.counts 0 0 0 cursor

end PrefixCode

/-- Base and number of extra bits of the length symbols from 257 on. -/
def lengthSymbols : Array (Nat × Nat) :=
  #[(3, 0), (4, 0), (5, 0), (6, 0), (7, 0), (8, 0), (9, 0), (10, 0), (11, 1), (13, 1), (15, 1),
    (17, 1), (19, 2), (23, 2), (27, 2), (31, 2), (35, 3), (43, 3), (51, 3), (59, 3), (67, 4),
    (83, 4), (99, 4), (115, 4), (131, 5), (163, 5), (195, 5), (227, 5), (258, 0)]

/-- Base and number of extra bits of the distance symbols. -/
def distanceSymbols : Array (Nat × Nat) :=
  #[(1, 0), (2, 0), (3, 0), (4, 0), (5, 1), (7, 1), (9, 2), (13, 2), (17, 3), (25, 3), (33, 4),
    (49, 4), (65, 5), (97, 5), (129, 6), (193, 6), (257, 7), (385, 7), (513, 8), (769, 8),
    (1025, 9), (1537, 9), (2049, 10), (3073, 10), (4097, 11), (6145, 11), (8193, 12), (12289, 12),
    (16385, 13), (24577, 13)]

/-- Value of a symbol with its extra bits. -/
def extended? (table : Array (Nat × Nat)) (symbol : Nat) (cursor : BitCursor) :
    Option (Nat × BitCursor) := do
  let (base, extra) ← table[symbol]?
  let (more, cursor) ← cursor.bits? extra
  return (base + more, cursor)

/-- Copy `length` bytes from `distance` back, bytewise, with zeros in front of the output. -/
def copyBack (out : ByteArray) (distance : Nat) : (length : Nat) → ByteArray
  | 0 => out
  | length + 1 =>
    let byte := if distance ≤ out.size then out[out.size - distance]?.getD 0 else 0
    copyBack (out.push byte) distance length

/-- Decode symbols up to the end of a block and append their output; `fuel` bounds their number. -/
def readSymbols? (literals distances : PrefixCode) :
    (fuel : Nat) → BitCursor → ByteArray → Option (ByteArray × BitCursor)
  | 0, _, _ => none
  | fuel + 1, cursor, out => do
    let (symbol, cursor) ← literals.decode? cursor
    if symbol < 256 then
      readSymbols? literals distances fuel cursor (out.push (UInt8.ofNat symbol))
    else if symbol = 256 then return (out, cursor)
    else
      let (length, cursor) ← extended? lengthSymbols (symbol - 257) cursor
      let (symbol, cursor) ← distances.decode? cursor
      let (distance, cursor) ← extended? distanceSymbols symbol cursor
      readSymbols? literals distances fuel cursor (copyBack out distance length)

/-- Append whole bytes. -/
def readStored? (cursor : BitCursor) (count : Nat) (out : ByteArray) :
    Option (ByteArray × BitCursor) :=
  let start := cursor.position / 8
  if start + count ≤ cursor.data.size then
    some (out ++ cursor.data.extract start (start + count),
      { cursor with position := cursor.position + 8 * count })
  else none

/-- Literal and length code of a block with fixed codes. -/
def fixedLiteralLengths : List Nat :=
  List.replicate 144 8 ++ List.replicate 112 9 ++ List.replicate 24 7 ++ List.replicate 8 8

/-- Distance code of a block with fixed codes. -/
def fixedDistanceLengths : List Nat := List.replicate 32 5

/-- Order in which the lengths of the code length code are stored. -/
def lengthOrder : List Nat := [16, 17, 18, 0, 8, 7, 9, 6, 10, 5, 11, 4, 12, 3, 13, 2, 14, 1, 15]

/-- Read `count` code lengths with repetitions into a reversed accumulator; `fuel` bounds the number
of symbols. -/
def readLengths? (code : PrefixCode) (count : Nat) :
    (fuel : Nat) → BitCursor → List Nat → Option (List Nat × BitCursor)
  | 0, _, _ => none
  | fuel + 1, cursor, lengths =>
    if count ≤ lengths.length then
      if count < lengths.length then none else some (lengths.reverse, cursor)
    else do
      let (symbol, cursor) ← code.decode? cursor
      match symbol with
      | 16 =>
        let (more, cursor) ← cursor.bits? 2
        let last ← lengths.head?
        readLengths? code count fuel cursor (List.replicate (3 + more) last ++ lengths)
      | 17 =>
        let (more, cursor) ← cursor.bits? 3
        readLengths? code count fuel cursor (List.replicate (3 + more) 0 ++ lengths)
      | 18 =>
        let (more, cursor) ← cursor.bits? 7
        readLengths? code count fuel cursor (List.replicate (11 + more) 0 ++ lengths)
      | length => readLengths? code count fuel cursor (length :: lengths)

/-- Read three-bit integers. -/
def readTriples? (cursor : BitCursor) : (count : Nat) → Option (List Nat × BitCursor)
  | 0 => some ([], cursor)
  | count + 1 => do
    let (first, cursor) ← cursor.bits? 3
    let (rest, cursor) ← readTriples? cursor count
    return (first :: rest, cursor)

/-- Code of the given lengths, required to exhaust the code space. -/
def fullCode? (lengths : List Nat) : Option PrefixCode :=
  let code := PrefixCode.ofLengths lengths
  if PrefixCode.isFull code.counts then some code else none

/-- Code of the given lengths, required to exhaust the code space or to be degenerate. -/
def code? (lengths : List Nat) : Option PrefixCode :=
  let code := PrefixCode.ofLengths lengths
  if PrefixCode.isFull code.counts || PrefixCode.isSparse code.counts then some code else none

/-- Maximal number of literal and length symbols of a dynamic block. -/
def maxLiterals : Nat := 286

/-- Maximal number of distance symbols of a dynamic block. -/
def maxDistances : Nat := 30

/-- Codes of a dynamic block. -/
def readCodes? (cursor : BitCursor) : Option (PrefixCode × PrefixCode × BitCursor) := do
  let (literals, cursor) ← cursor.bits? 5
  let (distances, cursor) ← cursor.bits? 5
  let (given, cursor) ← cursor.bits? 4
  let literalCount := literals + 257
  let distanceCount := distances + 1
  if maxLiterals < literalCount || maxDistances < distanceCount then none
  let (triples, cursor) ← readTriples? cursor (given + 4)
  let ordered := lengthOrder.zip (triples ++ List.replicate (lengthOrder.length - triples.length) 0)
  let lengthCode ← fullCode? <| (List.range lengthOrder.length).map fun symbol =>
    (ordered.lookup symbol).getD 0
  let count := literalCount + distanceCount
  let (lengths, cursor) ← readLengths? lengthCode count (count + 1) cursor []
  let literalCode ← code? (lengths.take literalCount)
  let distanceCode ← code? (lengths.drop literalCount)
  return (literalCode, distanceCode, cursor)

/-- Length field of a stored block, verified against its complement. -/
def readStoredLength? (cursor : BitCursor) : Option (Nat × BitCursor) := do
  let (length, cursor) ← cursor.alignByte.bits? 16
  let (complement, cursor) ← cursor.bits? 16
  if length + complement = 0xFFFF then return (length, cursor) else none

/-- Decode the body of a block and append its output. -/
def readBlock? (blockType : Nat) (cursor : BitCursor) (out : ByteArray) :
    Option (ByteArray × BitCursor) :=
  match blockType with
  | 0 => do
    let (length, cursor) ← readStoredLength? cursor
    readStored? cursor length out
  | 1 =>
    let literals := PrefixCode.ofLengths fixedLiteralLengths
    let distances := PrefixCode.ofLengths fixedDistanceLengths
    readSymbols? literals distances (cursor.remaining + 1) cursor out
  | 2 => do
    let (literals, distances, cursor) ← readCodes? cursor
    readSymbols? literals distances (cursor.remaining + 1) cursor out
  | _ => none

/-- Decode blocks up to the last one; `fuel` bounds their number. -/
def readBlocks? : (fuel : Nat) → BitCursor → ByteArray → Option ByteArray
  | 0, _, _ => none
  | fuel + 1, cursor, out => do
    let (head, cursor) ← cursor.bits? 3
    let (out, cursor) ← readBlock? (head / 2) cursor out
    if head % 2 = 1 then return out else readBlocks? fuel cursor out

/-- Decompress a stream. A block takes at least three bits, which bounds the number of blocks. -/
def inflate? (data : ByteArray) : Option ByteArray :=
  readBlocks? (8 * data.size + 1) ⟨data, 0⟩ ByteArray.empty

end ClassAtlas.Inflate
