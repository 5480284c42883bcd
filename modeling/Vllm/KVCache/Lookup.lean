import Vllm.KVCache.BlockPool
import Vllm.KVCache.Spec

/-!
Cache lookups of the managers: `find_longest_cache_hit` of each class in
`vllm/v1/core/single_type_kv_cache_manager.py`.

A lookup serves several KV cache groups with one spec at once, and keeps one
list of blocks per group. The lists always change together, so the model keeps
one list of rows, a row holding one block per group. The managers walk over the
block hashes from the left up to the first miss, or from the right until a window
(or one Mamba state) is found.
-/

namespace Vllm.KVCache

open Vllm.Lib.Ceil Vllm.Lib.Fallible List

variable {H : Type}

/-- One block for each group of a lookup. -/
abbrev Row := List BlockId

def nullRow (numGroups : Nat) : Row := replicate numGroups nullBlock

/-- `block_hashes[i]` at the granularity of a group whose blocks span `scale`
hash blocks: the request's own list, or a `BlockHashListWithBlockSize`, which
slices and never runs out. -/
def hashAt (blockHashes : List H) (scale i : Nat) : Except KVError (List H) :=
  if scale = 1 then
    match blockHashes[i]? with
    | some hash => .ok [hash]
    | none => .error .indexError
  else .ok ((blockHashes.drop (i * scale)).take scale)

/-- `block_pool.get_cached_block(block_hashes[i], kv_cache_group_ids)`. -/
def lookupBlock (p : BlockPool H) (blockHashes : List H) (scale : Nat) (groupIds : List Nat)
    (i : Nat) : Except KVError (Option Row) := do
  let hash ← hashAt blockHashes scale i
  return p.getCachedBlock hash groupIds

section Walks

variable (lookup : Nat → Except KVError (Option Row))

/-- Hits from block `i` on, up to the first miss. -/
def collectHits : Nat → Nat → Except KVError (List Row)
  | 0, _ => .ok []
  | n + 1, i => do
    match ← lookup i with
    | none => return []
    | some row => return row :: (← collectHits n (i + 1))

/-- The length left by the loop that pops blocks until the hit is aligned. -/
def popUnaligned (blockSize alignmentTokens : Nat) : Nat → Nat
  | 0 => 0
  | n + 1 =>
    if blockSize ≠ alignmentTokens ∧ (n + 1) * blockSize % alignmentTokens ≠ 0 then
      popUnaligned blockSize alignmentTokens n
    else n + 1

/-- The hit after that loop. -/
def trimUnaligned (blockSize alignmentTokens : Nat) (rows : List Row) : List Row :=
  rows.take (popUnaligned blockSize alignmentTokens rows.length)

/-- `FullAttentionManager.find_longest_cache_hit`. -/
def fullAttentionHit (numHashes maxLength blockSize : Nat) (dropEagleBlock : Bool)
    (alignmentTokens : Nat) : Except KVError (List Row) := do
  let rows ← collectHits lookup (min (maxLength / blockSize) numHashes) 0
  let rows := if dropEagleBlock then rows.dropLast else rows
  return trimUnaligned blockSize alignmentTokens rows

/-- `SlidingWindowManager._contiguous_blocks_for_hit`. -/
def contiguousBlocksForHit (windowSize blockSize : Nat) (useEagle : Bool) : Nat :=
  cdiv (windowSize - 1) blockSize + if useEagle then 1 else 0

/-- A hit whose last block is block `i` would not be aligned, after the eagle
pop if there is one. -/
def EndsUnaligned (blockSize : Nat) (dropEagleBlock : Bool) (alignmentTokens i : Nat) : Prop :=
  blockSize ≠ alignmentTokens ∧
    (if dropEagleBlock then i else i + 1) * blockSize % alignmentTokens ≠ 0

instance (blockSize : Nat) (dropEagleBlock : Bool) (alignmentTokens i : Nat) :
    Decidable (EndsUnaligned blockSize dropEagleBlock alignmentTokens i) :=
  inferInstanceAs (Decidable (_ ∧ _))

/-- The right-to-left loop of `SlidingWindowManager.find_longest_cache_hit`, with
`i + 1` blocks left to look at. Returns the rows, the length of the current run
and whether a match was found. -/
def slidingWindowLoop (need blockSize : Nat) (dropEagleBlock : Bool) (alignmentTokens : Nat) :
    Nat → List Row → Nat → Except KVError (List Row × Nat × Bool)
  | 0, computed, numContiguous => .ok (computed, numContiguous, false)
  | i + 1, computed, numContiguous => do
    match ← lookup i with
    | none => slidingWindowLoop need blockSize dropEagleBlock alignmentTokens i computed 0
    | some row =>
      if numContiguous = 0 ∧ EndsUnaligned blockSize dropEagleBlock alignmentTokens i then
        slidingWindowLoop need blockSize dropEagleBlock alignmentTokens i computed numContiguous
      else
        let computed := computed.set i row
        if need ≤ numContiguous + 1 then
          -- Trim the trailing blocks.
          return (computed.take (i + (numContiguous + 1)), numContiguous + 1, true)
        else
          slidingWindowLoop need blockSize dropEagleBlock alignmentTokens i computed
            (numContiguous + 1)

/-- `SlidingWindowManager.find_longest_cache_hit`. -/
def slidingWindowHit (numGroups slidingWindow maxLength blockSize : Nat) (dropEagleBlock : Bool)
    (alignmentTokens : Nat) : Except KVError (List Row) := do
  let need := contiguousBlocksForHit slidingWindow blockSize dropEagleBlock
  let maxNumBlocks := maxLength / blockSize
  let (computed, numContiguous, matchFound) ← slidingWindowLoop lookup need blockSize
    dropEagleBlock alignmentTokens maxNumBlocks (replicate maxNumBlocks (nullRow numGroups)) 0
  let computed := if matchFound then computed
    else trimUnaligned blockSize alignmentTokens (computed.take numContiguous)
  if dropEagleBlock then
    -- Re-align after the eagle pop.
    return trimUnaligned blockSize alignmentTokens computed.dropLast
  else return computed

/-- The right-to-left loop of `MambaManager.find_longest_cache_hit`. -/
def mambaLoop (numGroups blockSize alignmentTokens : Nat) : Nat → Except KVError (List Row)
  | 0 => .ok []
  | i + 1 => do
    match ← lookup i with
    | none => mambaLoop numGroups blockSize alignmentTokens i
    | some row =>
      if blockSize ≠ alignmentTokens ∧ (i + 1) * blockSize % alignmentTokens ≠ 0 then
        mambaLoop numGroups blockSize alignmentTokens i
      else return replicate i (nullRow numGroups) ++ [row]

/-- `MambaManager.find_longest_cache_hit`. It is not told about the eagle drop:
the last state either is there or is not. -/
def mambaHit (numGroups maxLength blockSize alignmentTokens : Nat) : Except KVError (List Row) :=
  mambaLoop lookup numGroups blockSize alignmentTokens (maxLength / blockSize)

/-- `ChunkedLocalAttentionManager.find_longest_cache_hit`: blocks before the
current chunk count as computed. -/
def chunkedLocalHit (numGroups attentionChunkSize maxLength blockSize : Nat) (dropEagleBlock : Bool)
    (alignmentTokens : Nat) : Except KVError (List Row) :=
  if dropEagleBlock ∨ blockSize ≠ alignmentTokens then .error .unsupportedChunkedLocal
  else do
    let startBlockIdx := maxLength / attentionChunkSize * attentionChunkSize / blockSize
    let hits ← collectHits lookup (maxLength / blockSize - startBlockIdx) startBlockIdx
    return replicate startBlockIdx (nullRow numGroups) ++ hits

end Walks

/-- `find_longest_cache_hit` of the spec's manager class. `blockSize` is the
spec's block size times the context-parallel world size, which only full
attention supports. -/
def findLongestCacheHit (p : BlockPool H) (blockHashes : List H) (hashBlockSize maxLength : Nat)
    (groupIds : List Nat) (spec : KVCacheSpec) (contextParallelSize : Nat) (dropEagleBlock : Bool)
    (alignmentTokens : Nat) : Except KVError (List Row) :=
  let blockSize := spec.blockSize * contextParallelSize
  let scale := blockSize / hashBlockSize
  let lookup := lookupBlock p blockHashes scale groupIds
  if contextParallelSize ≠ 1 ∧ ¬ spec.isFullAttention then .error .unsupportedContextParallel
  else
    match spec.kind with
    | .fullAttention =>
      fullAttentionHit lookup (blockHashes.length / scale) maxLength blockSize dropEagleBlock
        alignmentTokens
    | .slidingWindow w =>
      slidingWindowHit lookup groupIds.length w maxLength blockSize dropEagleBlock alignmentTokens
    | .chunkedLocalAttention c =>
      chunkedLocalHit lookup groupIds.length c maxLength blockSize dropEagleBlock alignmentTokens
    | .mamba _ _ => mambaHit lookup groupIds.length maxLength blockSize alignmentTokens
    | .crossAttention => .error .unsupportedCrossAttention

/-! ### Length of a hit -/

section Length

variable {lookup : Nat → Except KVError (Option Row)} {blockSize align i maxLength numGroups : Nat}
  {rows : List Row} {drop : Bool}

/-- The run that the loop is on ends at an aligned place. -/
def RunAligned (blockSize align : Nat) (drop : Bool) (stop numContiguous : Nat) : Prop :=
  0 < numContiguous → align ∣ (if drop then stop - 1 else stop) * blockSize

theorem runAligned_of_not_endsUnaligned (aligned : ¬ EndsUnaligned blockSize drop align i) :
    RunAligned blockSize align drop (i + 1) 1 := by
  intro _
  by_cases same : blockSize = align
  · exact same ▸ Nat.dvd_mul_left _ _
  · exact Nat.dvd_of_mod_eq_zero (Decidable.not_not.mp fun rest => aligned ⟨same, rest⟩)

theorem popUnaligned_le (n : Nat) : popUnaligned blockSize align n ≤ n := by
  induction n with
  | zero => exact Nat.le_refl _
  | succ n ih =>
    rw [popUnaligned]
    split
    · omega
    · exact Nat.le_refl _

theorem dvd_popUnaligned (n : Nat) : align ∣ popUnaligned blockSize align n * blockSize := by
  induction n with
  | zero => simp [popUnaligned]
  | succ n ih =>
    rw [popUnaligned]
    split
    · exact ih
    · rename_i stop
      have aligned : RunAligned blockSize align false (n + 1) 1 := runAligned_of_not_endsUnaligned stop
      exact aligned Nat.one_pos

theorem length_trimUnaligned_le (blockSize align : Nat) (rows : List Row) :
    (trimUnaligned blockSize align rows).length ≤ rows.length := by
  rw [trimUnaligned, length_take]
  exact Nat.min_le_right _ _

theorem dvd_trimUnaligned (rows : List Row) :
    align ∣ (trimUnaligned blockSize align rows).length * blockSize := by
  rw [trimUnaligned, length_take, Nat.min_eq_left (popUnaligned_le _)]
  exact dvd_popUnaligned _

/-- What the walk from block `i` on has found: it ends after `n` blocks or at a miss. -/
structure Collected (lookup : Nat → Except KVError (Option Row)) (n i : Nat) (rows : List Row) :
    Prop where
  length_le : rows.length ≤ n
  found : ∀ (j : Nat) (row : Row), rows[j]? = some row → lookup (i + j) = .ok (some row)
  stops : rows.length < n → lookup (i + rows.length) = .ok none

theorem collectHits_collected {n : Nat} (run : collectHits lookup n i = .ok rows) :
    Collected lookup n i rows := by
  induction n generalizing i rows with
  | zero =>
    cases run
    exact ⟨Nat.le_refl _, nofun, nofun⟩
  | succ n ih =>
    obtain ⟨hit, looked, run⟩ := bind_eq_ok.mp run
    cases hit with
    | none =>
      cases run
      exact ⟨Nat.zero_le _, nofun, fun _ => looked⟩
    | some first =>
      obtain ⟨rest, restRun, run⟩ := bind_eq_ok.mp run
      cases run
      have later := ih restRun
      refine ⟨Nat.succ_le_succ later.length_le, fun j row found => ?_, fun short => ?_⟩
      · cases j with
        | zero =>
          cases found
          exact looked
        | succ j =>
          rw [Nat.add_succ, ← Nat.succ_add]
          exact later.found j row found
      · rw [length_cons, Nat.add_succ, ← Nat.succ_add]
        exact later.stops (Nat.lt_of_succ_lt_succ short)

/-- The shape that every manager's hit has: aligned, within the maximal length,
and, when the eagle block is dropped, with room for that block. -/
structure HitLength (blockSize align maxLength : Nat) (drop : Bool) (rows : List Row) : Prop where
  aligned : align ∣ rows.length * blockSize
  bound : rows.length ≤ maxLength / blockSize
  dropped : drop = true → rows ≠ [] → rows.length + 1 ≤ maxLength / blockSize

theorem fullAttentionHit_length {numHashes : Nat}
    (run : fullAttentionHit lookup numHashes maxLength blockSize drop align = .ok rows) :
    HitLength blockSize align maxLength drop rows := by
  obtain ⟨hits, collected, run⟩ := bind_eq_ok.mp run
  cases run
  have hitsLe := Nat.le_trans ((collectHits_collected collected).length_le) (Nat.min_le_left _ _)
  refine ⟨dvd_trimUnaligned _, ?_, ?_⟩
  · refine Nat.le_trans (length_trimUnaligned_le _ _ _) ?_
    cases drop with
    | false => exact hitsLe
    | true => simp only [if_true, length_dropLast]; omega
  · rintro rfl nonempty
    have pos := length_pos_iff.mpr nonempty
    have le := length_trimUnaligned_le blockSize align hits.dropLast
    rw [length_dropLast] at le
    simp only [if_true] at pos ⊢
    omega

theorem chunkedLocalHit_length {chunk : Nat}
    (run : chunkedLocalHit lookup numGroups chunk maxLength blockSize drop align = .ok rows) :
    HitLength blockSize align maxLength drop rows := by
  obtain ⟨supported, run⟩ := guard_eq_ok.mp run
  obtain ⟨hits, collected, run⟩ := bind_eq_ok.mp run
  cases run
  have same : blockSize = align := Decidable.not_not.mp fun ne => supported (.inr ne)
  have notDropped : ¬ drop = true := fun isTrue => supported (.inl isTrue)
  have hitsLe := (collectHits_collected collected).length_le
  have startLe : maxLength / chunk * chunk / blockSize ≤ maxLength / blockSize :=
    Nat.div_le_div_right (Nat.div_mul_le_self _ _)
  refine ⟨same ▸ Nat.dvd_mul_left _ _, ?_, fun isTrue => absurd isTrue notDropped⟩
  rw [length_append, length_replicate]
  omega

end Length

end Vllm.KVCache
