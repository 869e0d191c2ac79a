import ClassAtlas.Proofs.Scan.Content
import Mathlib

/-!
# Chunks of an archive

The chunks of an archive are a partition of its entry indices into consecutive, non-empty ranges of
bounded length. A loop over 64-bit words computes the same chunks without overflow for every length
below 2 ^ 63 and every chunk size. Specification: `SPEC_FULL.md` §4.3, lines 49–50, and §10.4, lines
146–149.
-/

namespace ClassAtlas.Scan

/-! ### Partitions and the machine loop -/

/-- The chunks partition the indices below `length` into ranges of at most `size`: each is non-empty
and bounded, they are consecutive and disjoint, and they cover all indices in order. -/
structure IsPartition (length size : Nat) (parts : List Chunk) : Prop where
  start_lt_stop : ∀ chunk ∈ parts, chunk.start < chunk.stop
  length_indices_le : ∀ chunk ∈ parts, chunk.indices.length ≤ size
  consecutive : parts.map Chunk.start ++ [length] = 0 :: parts.map Chunk.stop
  disjoint : parts.Pairwise fun earlier later => earlier.indices.Disjoint later.indices
  flatMap_indices : parts.flatMap Chunk.indices = List.range length
  eq_nil_iff : parts = [] ↔ length = 0

/-- End of the chunk from `start`, in wrapping 64-bit arithmetic. -/
def stopInWords (length size start : UInt64) : UInt64 := min (start + max size 1) length

/-- Big-step relation of the machine loop from `start` to `length`, with its chunks. -/
inductive DividesInWords (length size : UInt64) : UInt64 → List Chunk → Prop
  | done {start : UInt64} : ¬ start < length → DividesInWords length size start []
  | chunk {start : UInt64} {later : List Chunk} : start < length →
      DividesInWords length size (stopInWords length size start) later →
      DividesInWords length size start
        (⟨start.toNat, (stopInWords length size start).toNat⟩ :: later)

/-! ### Partition law -/

/-- The number of indices of a chunk is the difference of its bounds. -/
theorem Chunk.length_indices (chunk : Chunk) :
    chunk.indices.length = chunk.stop - chunk.start := List.length_range'

/-- A chunk of the loop starts at the start of the loop or at least one full chunk behind it. -/
theorem mem_chunksFrom {length size start : Nat} {chunk : Chunk}
    (h : chunk ∈ chunksFrom length size start) :
    chunk.start < length ∧ chunk.stop = min (chunk.start + max size 1) length ∧
      (chunk.start = start ∨ start + max size 1 ≤ chunk.start) := by
  induction start using chunksFrom.induct length size with
  | case1 start hlt stop ih =>
    rw [chunksFrom, if_pos hlt] at h
    rcases List.mem_cons.mp h with rfl | h
    · exact ⟨hlt, rfl, Or.inl rfl⟩
    · -- There is a later chunk, so this one was not cut short by the end.
      obtain ⟨hbelow, hstop, hstart⟩ := ih h
      exact ⟨hbelow, hstop, Or.inr (by omega)⟩
  | case2 start hge =>
    rw [chunksFrom, if_neg hge] at h
    exact absurd h List.not_mem_nil

/-- The starts of the chunks are the ends of their predecessors. -/
theorem map_start_chunksFrom (length size start : Nat) (h : start ≤ length) :
    (chunksFrom length size start).map Chunk.start ++ [length] =
      start :: (chunksFrom length size start).map Chunk.stop := by
  induction start using chunksFrom.induct length size with
  | case1 start hlt stop ih =>
    rw [chunksFrom, if_pos hlt, List.map_cons, List.map_cons, List.cons_append]
    exact congrArg (start :: ·) (ih (Nat.min_le_right _ _))
  | case2 start hge =>
    have heq : start = length := by omega
    rw [chunksFrom, if_neg hge, heq]
    rfl

/-- The chunks partition the indices below `length`, for every size. -/
theorem isPartition_chunks (length size : Nat) :
    IsPartition length (max size 1) (chunks length size) where
  start_lt_stop := by
    intro chunk hchunk
    obtain ⟨hbelow, hstop, -⟩ := mem_chunksFrom hchunk
    omega
  length_indices_le := by
    intro chunk hchunk
    obtain ⟨-, hstop, -⟩ := mem_chunksFrom hchunk
    rw [chunk.length_indices]
    omega
  consecutive := map_start_chunksFrom length size 0 (Nat.zero_le length)
  disjoint := by
    have hnodup : ((chunks length size).flatMap Chunk.indices).Nodup := by
      rw [flatMap_indices_chunks]
      exact List.nodup_range
    exact (List.nodup_flatMap.mp hnodup).2
  flatMap_indices := flatMap_indices_chunks length size
  eq_nil_iff := by
    constructor
    · intro hnil
      have hrange := flatMap_indices_chunks length size
      rw [hnil] at hrange
      exact List.range_eq_nil.mp hrange.symm
    · rintro rfl
      rw [chunks, chunksFrom, if_neg (Nat.lt_irrefl 0)]

/-! ### Refinement by the machine loop -/

section Words

variable {length size start : UInt64}

/-- The machine loop is deterministic. -/
theorem DividesInWords.unique {parts others : List Chunk}
    (h : DividesInWords length size start parts) (h' : DividesInWords length size start others) :
    parts = others := by
  induction h generalizing others with
  | done hge =>
    cases h' with
    | done _ => rfl
    | chunk hlt _ => exact absurd hlt hge
  | chunk hlt _ ih =>
    cases h' with
    | done hge => exact absurd hlt hge
    | chunk _ hlater => rw [ih hlater]

private theorem toNat_max_one (size : UInt64) : (max size 1).toNat = max size.toNat 1 := by
  change (if size ≤ 1 then 1 else size).toNat = _
  by_cases h : size ≤ 1
  · rw [if_pos h]
    exact (max_eq_right (UInt64.le_iff_toNat_le.mp h)).symm
  · rw [if_neg h]
    exact (max_eq_left (UInt64.le_of_lt (UInt64.not_le.mp h))).symm

private theorem toNat_min_length (stop length : UInt64) :
    (min stop length).toNat = min stop.toNat length.toNat := by
  change (if stop ≤ length then stop else length).toNat = _
  by_cases h : stop ≤ length
  · rw [if_pos h]
    exact (min_eq_left h).symm
  · rw [if_neg h]
    exact (min_eq_right (UInt64.le_of_lt (UInt64.not_le.mp h))).symm

/-- The machine end of a chunk equals its end if the addition does not overflow. -/
theorem toNat_stopInWords (length : UInt64) (h : start.toNat + max size.toNat 1 < 2 ^ 64) :
    (stopInWords length size start).toNat =
      min (start.toNat + max size.toNat 1) length.toNat := by
  rw [stopInWords, toNat_min_length, UInt64.toNat_add, toNat_max_one, Nat.mod_eq_of_lt h]

/-- No addition of the loop overflows: its start is zero, or below 2 ^ 63 and at least `size`. -/
theorem add_size_lt {length start : Nat} (hlength : length < 2 ^ 63) (hlt : start < length)
    (hstart : start = 0 ∨ max size.toNat 1 ≤ start) : start + max size.toNat 1 < 2 ^ 64 := by
  have hsize := size.toNat_lt
  omega

/-- The machine loop computes the chunks from zero, and from any start behind a full chunk. -/
theorem dividesInWords_chunksFrom (hlength : length.toNat < 2 ^ 63)
    (hstart : start.toNat = 0 ∨ max size.toNat 1 ≤ start.toNat) :
    DividesInWords length size start (chunksFrom length.toNat size.toNat start.toNat) := by
  -- Induction on the number of remaining indices, which every chunk decreases.
  induction hleft : length.toNat - start.toNat using Nat.strongRecOn generalizing start with
  | ind left ih =>
    rw [chunksFrom]
    by_cases hlt : start < length
    · have hbelow : start.toNat < length.toNat := UInt64.lt_iff_toNat_lt.mp hlt
      have hstop := toNat_stopInWords length (add_size_lt hlength hbelow hstart)
      rw [if_pos hbelow, ← hstop]
      apply DividesInWords.chunk hlt
      -- Only the last chunk may be shorter than the others, and no chunk starts behind it.
      by_cases hlast : length.toNat ≤ start.toNat + max size.toNat 1
      · rw [min_eq_right hlast] at hstop
        have hend : ¬ stopInWords length size start < length := by
          rw [UInt64.lt_iff_toNat_lt]
          omega
        rw [chunksFrom, if_neg (by omega)]
        exact DividesInWords.done hend
      · apply ih _ _ (Or.inr _) rfl
        · omega
        · omega
    · have hge : ¬ start.toNat < length.toNat := by rwa [← UInt64.lt_iff_toNat_lt]
      rw [if_neg hge]
      exact DividesInWords.done hlt

/-- For every length below 2 ^ 63 and every chunk size, where zero counts as one, the machine loop
terminates with exactly the chunks, none of its additions overflows, and the chunks are a partition
of the indices. -/
theorem chunks_divide (length size : UInt64) (h : length.toNat < 2 ^ 63) :
    (∀ parts, DividesInWords length size 0 parts ↔ parts = chunks length.toNat size.toNat) ∧
      (∀ chunk ∈ chunks length.toNat size.toNat, chunk.start + max size.toNat 1 < 2 ^ 64) ∧
      IsPartition length.toNat (max size.toNat 1) (chunks length.toNat size.toNat) := by
  have hdivides : DividesInWords length size 0 (chunks length.toNat size.toNat) :=
    dividesInWords_chunksFrom h (Or.inl rfl)
  refine ⟨?_, ?_, isPartition_chunks _ _⟩
  · intro parts
    constructor
    · intro hparts
      exact hparts.unique hdivides
    · rintro rfl
      exact hdivides
  · intro chunk hchunk
    obtain ⟨hbelow, -, hstart⟩ := mem_chunksFrom hchunk
    rw [Nat.zero_add] at hstart
    exact add_size_lt h hbelow hstart

/-- The greatest admissible length with a chunk size that leaves one entry for the last chunk: the
last addition is four below 2 ^ 64. -/
theorem chunks_divide_extreme :
    (0x7FFFFFFFFFFFFFFF : UInt64).toNat < 2 ^ 63 ∧
      DividesInWords 0x7FFFFFFFFFFFFFFF 0x7FFFFFFFFFFFFFFE 0
        [⟨0, 0x7FFFFFFFFFFFFFFE⟩, ⟨0x7FFFFFFFFFFFFFFE, 0x7FFFFFFFFFFFFFFF⟩] := by
  have h : (0x7FFFFFFFFFFFFFFF : UInt64).toNat < 2 ^ 63 := by decide
  refine ⟨h, ((chunks_divide 0x7FFFFFFFFFFFFFFF 0x7FFFFFFFFFFFFFFE h).1 _).mpr ?_⟩
  simp [chunks, chunksFrom]

end Words

end ClassAtlas.Scan
