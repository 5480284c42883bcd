import Vllm.KVCache.HitLargest

/-!
`ChunkedLocalAttentionManager.find_longest_cache_hit`: is a hit usable?

The token after a hit attends to the tokens of its own chunk that are in the hit, and their
blocks have to be there. The lookup treats everything left of the chunk of `max_length` as
computed. When the block at the border is not cached and the chunk does not begin with a
block, the hit ends inside the chunk before, with null blocks only (`chunkedLocal_hit_iff`).
-/

namespace Vllm.KVCache

open Vllm.Lib.Fallible List

variable {H : Type}

/-- The start of the chunk that `t` lies in. -/
def chunkStart (chunk t : Nat) : Nat := t / chunk * chunk

/-- Every token that the position after the hit attends to lies in a cached block. -/
structure Usable (lookup : Nat → Except KVError (Option Row)) (chunk blockSize maxLength : Nat)
    (rows : List Row) : Prop where
  fits : rows.length * blockSize ≤ maxLength
  attended : ∀ t, chunkStart chunk (rows.length * blockSize) ≤ t → t < rows.length * blockSize →
    ∃ row, rows[t / blockSize]? = some row ∧ lookup (t / blockSize) = .ok (some row) ∧
      ∀ b ∈ row, b ≠ nullBlock

/-! ### Chunks and blocks -/

section Chunks

variable {chunk blockSize t t' : Nat}

theorem chunkStart_le : chunkStart chunk t ≤ t := Nat.div_mul_le_self t chunk

theorem chunkStart_of_between (pos : 0 < chunk) (after : chunkStart chunk t ≤ t') (before : t' ≤ t) :
    chunkStart chunk t' = chunkStart chunk t := by
  have le : t / chunk ≤ t' / chunk := (Nat.le_div_iff_mul_le pos).mpr after
  unfold chunkStart
  rw [le_antisymm (Nat.div_le_div_right before) le]

theorem chunkStart_lt (notDvd : ¬ chunk ∣ t) : chunkStart chunk t < t :=
  lt_of_le_of_ne chunkStart_le fun same => notDvd ⟨t / chunk, by
    rw [Nat.mul_comm]
    exact same.symm⟩

/-- The first block of the chunk of `maxLength`. -/
def startBlock (chunk blockSize maxLength : Nat) : Nat := chunkStart chunk maxLength / blockSize

end Chunks

/-! ### The lookup -/

section Lookup

variable {lookup : Nat → Except KVError (Option Row)} {numGroups chunk blockSize maxLength : Nat}
  {rows : List Row}

/-- Where the hits begin, there are null blocks before them. -/
theorem chunkedLocalHit_eq (run : chunkedLocalHit lookup numGroups chunk maxLength blockSize false
      blockSize = .ok rows) :
    ∃ hits, collectHits lookup (maxLength / blockSize - startBlock chunk blockSize maxLength)
        (startBlock chunk blockSize maxLength) = .ok hits ∧
      rows = replicate (startBlock chunk blockSize maxLength) (nullRow numGroups) ++ hits := by
  unfold chunkedLocalHit at run
  rw [if_neg (by rintro (eagle | ne); cases eagle; exact ne rfl)] at run
  obtain ⟨hits, collected, run⟩ := bind_eq_ok.mp run
  exact ⟨hits, collected, (Except.ok.inj run).symm⟩

/-- A hit is usable if it has a block of its chunk, or ends with a chunk. -/
theorem usable_iff (pos : 0 < blockSize) (chunkPos : 0 < chunk) (groupsPos : 0 < numGroups)
    (cached : ∀ i row, lookup i = .ok (some row) → ∀ b ∈ row, b ≠ nullBlock)
    (run : chunkedLocalHit lookup numGroups chunk maxLength blockSize false blockSize = .ok rows) :
    Usable lookup chunk blockSize maxLength rows ↔
      chunk ∣ startBlock chunk blockSize maxLength * blockSize ∨
        (startBlock chunk blockSize maxLength < maxLength / blockSize ∧
          Hits lookup (startBlock chunk blockSize maxLength)) := by
  obtain ⟨hits, collected, isRows⟩ := chunkedLocalHit_eq run
  set start := startBlock chunk blockSize maxLength with isStart
  have startLe : start ≤ maxLength / blockSize :=
    Nat.div_le_div_right chunkStart_le
  have collected := collectHits_collected collected
  have bound := collected.length_le
  have length : rows.length = start + hits.length := by
    rw [isRows, length_append, length_replicate]
  have fits : rows.length * blockSize ≤ maxLength :=
    (Nat.le_div_iff_mul_le pos).mp (by omega)
  -- Blocks from the start on are those that were found.
  have found : ∀ i, start ≤ i → i < rows.length →
      ∃ row, rows[i]? = some row ∧ lookup i = .ok (some row) := by
    intro i after before
    have inside : i - start < hits.length := by omega
    refine ⟨hits[i - start], ?_, ?_⟩
    · rw [isRows, getElem?_append_right (by rwa [length_replicate]),
        length_replicate]
      exact getElem?_eq_getElem inside
    · have looked := collected.found (i - start) _ (getElem?_eq_getElem inside)
      rwa [Nat.add_sub_cancel' after] at looked
  cases isHits : hits with
  | nil =>
    have ends : rows.length = start := by
      rw [length, isHits]
      rfl
    have missed : ¬ (start < maxLength / blockSize ∧ Hits lookup start) := by
      rintro ⟨lt, row, hit⟩
      have stop := collected.stops (by rw [isHits]; exact Nat.sub_pos_of_lt lt)
      rw [isHits, length_nil, Nat.add_zero, hit] at stop
      cases stop
    constructor
    · intro usable
      by_contra neither
      have notDvd : ¬ chunk ∣ start * blockSize := fun dvd => neither (.inl dvd)
      have lt := chunkStart_lt notDvd
      obtain ⟨row, at_t, -, notNull⟩ := usable.attended (start * blockSize - 1)
        (by rw [ends]; omega) (by rw [ends]; omega)
      have isNull := mem_of_getElem? at_t
      rw [isRows, isHits, append_nil] at isNull
      rw [eq_of_mem_replicate isNull] at notNull
      exact notNull nullBlock (mem_replicate.mpr ⟨by omega, rfl⟩) rfl
    · rintro (dvd | both)
      · refine ⟨fits, fun t after before => ?_⟩
        rw [ends] at after before
        rw [chunkStart, Nat.div_mul_cancel dvd] at after
        omega
      · exact absurd both missed
  | cons first rest =>
    have several : start < rows.length := by
      rw [length, isHits, length_cons]
      omega
    have hit : start < maxLength / blockSize ∧ Hits lookup start := by
      obtain ⟨row, -, looked⟩ := found start le_rfl several
      exact ⟨by omega, row, looked⟩
    refine ⟨fun _ => .inr hit, fun _ => ⟨fits, fun t after before => ?_⟩⟩
    -- The hit ends in the chunk of `maxLength`.
    have inChunk : chunkStart chunk (rows.length * blockSize) = chunkStart chunk maxLength := by
      apply chunkStart_of_between chunkPos ?_ fits
      have next : chunkStart chunk maxLength < (start + 1) * blockSize := by
        exact Nat.lt_mul_of_div_lt (Nat.lt_succ_self _) pos
      exact (Nat.le_of_lt next).trans (Nat.mul_le_mul_right _ several)
    rw [inChunk] at after
    have afterStart : start ≤ t / blockSize := Nat.div_le_div_right after
    have inRows : t / blockSize < rows.length := (Nat.div_lt_iff_lt_mul pos).mpr before
    obtain ⟨row, at_t, looked⟩ := found _ afterStart inRows
    exact ⟨row, at_t, looked, cached _ row looked⟩

end Lookup

/-! ### The pool -/

variable {p : BlockPool H} {blockHashes : List H} {scale i : Nat} {groupIds : List Nat}

/-- The lookup does not run out of hashes: there are enough of them, it has nothing to look
up, or it stops at a block that is not cached. -/
def ChunkReaches (p : BlockPool H) (blockHashes : List H) (scale : Nat) (groupIds : List Nat)
    (start stop : Nat) : Prop :=
  scale = 1 → stop ≤ blockHashes.length ∨ stop ≤ start ∨
    ∃ i, start ≤ i ∧ i < blockHashes.length ∧ ¬ Hits (lookupBlock p blockHashes scale groupIds) i

theorem collectHits_ok_iff {start stop : Nat} :
    (∃ rows, collectHits (lookupBlock p blockHashes scale groupIds) (stop - start) start = .ok rows) ↔
      ChunkReaches p blockHashes scale groupIds start stop := by
  constructor
  · rintro ⟨rows, collected⟩ rfl
    have collected := collectHits_collected collected
    by_contra short
    rcases lt_or_ge rows.length (stop - start) with early | whole
    · have missed := collected.stops early
      refine short (.inr (.inr ⟨_, Nat.le_add_right _ _, lt_length_of_lookupBlock missed, ?_⟩))
      rintro ⟨row, hit⟩
      rw [missed] at hit
      cases hit
    · -- The last block was looked up, so there is a hash for it.
      have inside : stop - start - 1 < rows.length := by omega
      have looked := collected.found _ _ (getElem?_eq_getElem inside)
      have lt := lt_length_of_lookupBlock looked
      exact short (.inl (by omega))
  · intro reaches
    by_cases one : scale = 1
    · rcases reaches one with enough | nothing | ⟨i, after, inside, missed⟩
      · exact collectHits_ok fun j _ before _ => lookupBlock_ok groupIds fun _ => by omega
      · rw [Nat.sub_eq_zero_of_le nothing]
        exact ⟨[], rfl⟩
      · obtain ⟨hit, looked⟩ : ∃ hit, lookupBlock p blockHashes scale groupIds i = .ok hit :=
          lookupBlock_ok groupIds fun _ => inside
        cases hit with
        | some row => exact absurd ⟨row, looked⟩ missed
        | none =>
          refine collectHits_ok fun k _ _ noMiss => lookupBlock_ok groupIds fun _ => ?_
          have := not_lt.mp fun later => noMiss i after later looked
          omega
    · exact collectHits_ok fun j _ _ _ => lookupBlock_ok groupIds fun same => absurd same one

/-- The hit is usable exactly when the lookup does not run out of hashes, and the chunk of
`max_length` begins with a block of the hit or the null blocks end with a chunk. -/
theorem chunkedLocal_hit_iff {p : BlockPool H} (uncached : NullUncached p) (blockHashes : List H)
    (hashBlockSize : Nat) {groupIds : List Nat} (nonempty : groupIds ≠ []) {spec : KVCacheSpec}
    {chunk : Nat} (kind : spec.kind = .chunkedLocalAttention chunk) (chunkPos : 0 < chunk)
    (maxLength : Nat) :
    (∃ rows, findLongestCacheHit p blockHashes hashBlockSize maxLength groupIds spec 1 false
        spec.blockSize = .ok rows ∧
      Usable (lookupBlock p blockHashes (spec.blockSize / hashBlockSize) groupIds) chunk
        spec.blockSize maxLength rows) ↔
    ChunkReaches p blockHashes (spec.blockSize / hashBlockSize) groupIds
        (startBlock chunk spec.blockSize maxLength) (maxLength / spec.blockSize) ∧
      (chunk ∣ startBlock chunk spec.blockSize maxLength * spec.blockSize ∨
        (startBlock chunk spec.blockSize maxLength < maxLength / spec.blockSize ∧
          Hits (lookupBlock p blockHashes (spec.blockSize / hashBlockSize) groupIds)
            (startBlock chunk spec.blockSize maxLength))) := by
  have search : findLongestCacheHit p blockHashes hashBlockSize maxLength groupIds spec 1 false
      spec.blockSize =
      chunkedLocalHit (lookupBlock p blockHashes (spec.blockSize / hashBlockSize) groupIds)
        groupIds.length chunk maxLength spec.blockSize false spec.blockSize := by
    unfold findLongestCacheHit
    simp only [Nat.mul_one, ne_eq, not_true_eq_false, false_and, if_false, kind]
  have groupsPos := length_pos_iff.mpr nonempty
  have cached : ∀ i row, lookupBlock p blockHashes (spec.blockSize / hashBlockSize) groupIds i =
      .ok (some row) → ∀ b ∈ row, b ≠ nullBlock :=
    fun i row found => ne_nullBlock_of_lookupBlock uncached found
  rw [search, ← collectHits_ok_iff]
  constructor
  · rintro ⟨rows, run, hit⟩
    obtain ⟨hits, collected, -⟩ := chunkedLocalHit_eq run
    exact ⟨⟨hits, collected⟩, (usable_iff spec.blockSize_pos chunkPos groupsPos cached run).mp hit⟩
  · rintro ⟨⟨hits, collected⟩, ends⟩
    have run : chunkedLocalHit (lookupBlock p blockHashes (spec.blockSize / hashBlockSize) groupIds)
        groupIds.length chunk maxLength spec.blockSize false spec.blockSize =
        .ok (replicate (startBlock chunk spec.blockSize maxLength)
          (nullRow groupIds.length) ++ hits) := by
      unfold chunkedLocalHit
      rw [if_neg (by rintro (eagle | ne); cases eagle; exact ne rfl)]
      exact bind_eq_ok.mpr ⟨hits, collected, rfl⟩
    exact ⟨_, run, (usable_iff spec.blockSize_pos chunkPos groupsPos cached run).mpr ends⟩

/-- Chunks of three tokens and blocks of two: the first block ends inside the first chunk and
counts as computed, although it is not in the hit. -/
theorem chunked_hit_unusable :
    findLongestCacheHit (cachedPrefix 1) [0] 2 3 [0]
        { kind := .chunkedLocalAttention 3, blockSize := 2 } 1 false 2 = .ok [[nullBlock]] ∧
      ¬ Usable (lookupBlock (cachedPrefix 1) [0] 1 [0]) 3 2 3 [[nullBlock]] := by
  refine ⟨by decide +kernel, fun usable => ?_⟩
  obtain ⟨row, at_t, -, notNull⟩ := usable.attended 0 (by decide) (by decide)
  cases at_t
  exact notNull nullBlock mem_cons_self rfl

/-- Chunks of four tokens and blocks of two, with the second chunk begun. -/
theorem chunked_hit_usable : ∃ rows,
    findLongestCacheHit (cachedPrefix 3) [0, 1, 2] 2 7 [0]
        { kind := .chunkedLocalAttention 4, blockSize := 2 } 1 false 2 = .ok rows ∧
      Usable (lookupBlock (cachedPrefix 3) [0, 1, 2] 1 [0]) 4 2 7 rows :=
  (chunkedLocal_hit_iff (nullUncached_cachedPrefix 3) [0, 1, 2] 2 (by decide) rfl (by decide) 7).mpr
    ⟨fun _ => .inl (by decide), .inl (by decide)⟩

end Vllm.KVCache
