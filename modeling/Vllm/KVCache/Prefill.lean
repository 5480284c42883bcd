import Vllm.KVCache.Prediction
import Vllm.KVCache.TableHashes

/-!
One request alone.

From a state `s` in which a request is new, the request computes its tokens chunk
by chunk while no other request allocates or frees. The free blocks left and the
blocks it holds that were free in `s` add up to the free blocks of `s`
(`Borrows.numFree`). A table has null blocks up to the window, then the hits, then
new blocks (`Holds`), so both numbers are known, and so is the outcome of every
`allocate_slots` (`Prefilling.allocateSlots`).
-/

namespace Vllm.KVCache

open Vllm.Lib Vllm.Lib.Ceil Vllm.Lib.Fallible SingleTypeKVCacheManager List

variable {H : Type}

/-- The kinds whose tables have a block for every token of the window. -/
def SpecKind.isSelfAttention : SpecKind → Bool
  | .fullAttention | .slidingWindow _ | .chunkedLocalAttention _ => true
  | .mamba _ _ | .crossAttention => false

/-! ### Null blocks first -/

def NullsFirst (blocks : List BlockId) : Prop :=
  ∃ numNull rest, blocks = replicate numNull nullBlock ++ rest ∧ nullBlock ∉ rest

theorem NullsFirst.nil : NullsFirst [] := ⟨0, [], rfl, not_mem_nil⟩

variable {blocks : List BlockId}

section

variable (first : NullsFirst blocks)
include first

theorem NullsFirst.replicate_append (n : Nat) :
    NullsFirst (replicate n nullBlock ++ blocks) := by
  obtain ⟨numNull, rest, rfl, notMem⟩ := first
  exact ⟨n + numNull, rest, by rw [← append_assoc, replicate_append_replicate], notMem⟩

theorem NullsFirst.append {new : List BlockId} (notNull : nullBlock ∉ new) :
    NullsFirst (blocks ++ new) := by
  obtain ⟨numNull, rest, rfl, notMem⟩ := first
  refine ⟨numNull, rest ++ new, append_assoc _ _ _, fun mem => ?_⟩
  rcases mem_append.mp mem with mem | mem
  · exact notMem mem
  · exact notNull mem

theorem NullsFirst.drop (n : Nat) : NullsFirst (blocks.drop n) := by
  obtain ⟨numNull, rest, rfl, notMem⟩ := first
  refine ⟨numNull - n, rest.drop (n - numNull), ?_, fun mem => notMem (mem_of_mem_drop mem)⟩
  rw [drop_append, drop_replicate, length_replicate]

end

/-- A hit starts with the null blocks. -/
theorem HitSound.nullsFirst {p : BlockPool H} (uncached : NullUncached p) {blockHashes : List H}
    {scale groupId : Nat} (sound : HitSound p blockHashes scale groupId blocks) :
    NullsFirst blocks := by
  obtain ⟨numNull, sound⟩ := sound
  refine ⟨(blocks.take numNull).length, blocks.drop numNull, ?_, fun mem => ?_⟩
  · have nulls : blocks.take numNull = replicate (blocks.take numNull).length nullBlock := by
      refine eq_replicate_iff.mpr ⟨rfl, fun b mem => ?_⟩
      obtain ⟨i, found⟩ := mem_iff_getElem?.mp mem
      rw [getElem?_take] at found
      split at found
      · rcases sound i b found with ⟨-, isNull⟩ | ⟨le, -⟩
        · exact isNull
        · omega
      · cases found
    rw [← nulls, take_append_drop]
  · obtain ⟨i, found⟩ := mem_iff_getElem?.mp mem
    rw [getElem?_drop] at found
    rcases sound _ _ found with ⟨lt, -⟩ | ⟨-, hash, -, cached⟩
    · omega
    · exact uncached _ cached

open SingleTypeKVCacheManager (skippedBlocks blocksAfterSkip)

/-- Skipping `n` blocks of such a table makes the first `n` null. -/
theorem blocksAfterSkip_eq (first : NullsFirst blocks) {n : Nat} (le : n ≤ blocks.length) :
    blocksAfterSkip blocks n = replicate n nullBlock ++ blocks.drop n := by
  obtain ⟨numNull, rest, rfl, notMem⟩ := first
  have isReal : ∀ b ∈ rest, decide (b ≠ nullBlock) = true := fun b mem =>
    decide_eq_true fun null => notMem (null ▸ mem)
  rw [length_append, length_replicate] at le
  by_cases inNulls : n ≤ numNull
  · -- The walk stops at once: what it would skip is null already.
    have takes : (replicate numNull nullBlock ++ rest).take n = replicate n nullBlock := by
      rw [take_append_of_le_length (by rw [length_replicate]; exact inNulls),
        take_replicate, min_eq_left inNulls]
    have none : skippedBlocks (replicate numNull nullBlock ++ rest) n = [] := by
      rw [skippedBlocks, takes, reverse_replicate]
      cases n with
      | zero | succ => rfl
    rw [blocksAfterSkip, none]
    simp only [length_nil, Nat.sub_zero, replicate_zero, append_nil,
      length_append, length_replicate, min_eq_left le, takes]
  · -- The walk takes the blocks after the nulls.
    have takes : (replicate numNull nullBlock ++ rest).take n =
        replicate numNull nullBlock ++ rest.take (n - numNull) := by
      rw [take_append, length_replicate, take_replicate, min_eq_right (by omega)]
    have removed : skippedBlocks (replicate numNull nullBlock ++ rest) n =
        (rest.take (n - numNull)).reverse := by
      rw [skippedBlocks, takes, reverse_append, reverse_replicate,
        takeWhile_append_of_pos fun b mem =>
          isReal b (mem_of_mem_take (mem_reverse.mp mem))]
      cases numNull with
      | zero | succ => exact append_nil _
    have length : (rest.take (n - numNull)).length = n - numNull := by
      rw [length_take]
      omega
    rw [blocksAfterSkip, removed]
    simp only [length_reverse, length, length_append, length_replicate,
      min_eq_left le]
    rw [show n - (n - numNull) = numNull by omega,
      take_append_of_le_length (by rw [length_replicate]), take_replicate,
      Nat.min_self, replicate_append_replicate, Nat.add_sub_cancel' (by omega)]

/-! ### What the request holds -/

section Owned

variable {cfg : KVCacheConfig} {r : RequestId} {s t u : KVState H} {m : SingleTypeKVCacheManager}

/-- The request's blocks of all groups. -/
def owned (cfg : KVCacheConfig) (t : KVState H) (r : RequestId) : List BlockId :=
  cfg.managers.flatMap fun m => m.blocksOf t r

theorem count_owned (mem : m ∈ cfg.managers)
    (tables : t.reqToBlocks.Updated (m.key r) u.reqToBlocks) (b : BlockId) :
    (owned cfg u r).count b + (m.blocksOf t r).count b =
      (owned cfg t r).count b + (m.blocksOf u r).count b := by
  obtain ⟨front, back, split⟩ := append_of_mem mem
  have nodup := cfg.managers_nodup
  rw [split] at nodup
  have same : ∀ m' ∈ front ++ back, m'.blocksOf u r = m'.blocksOf t r := by
    intro m' mem'
    have mem'' : m' ∈ cfg.managers := by
      rw [split]
      rcases mem_append.mp mem' with inFront | inBack
      · simp [inFront]
      · simp [inBack]
    have ne : m ≠ m' := by
      rintro rfl
      exact (nodup_middle.mp nodup).notMem mem'
    exact tables.get_of_ne (KVCacheConfig.key_ne mem mem'' ne r r)
  have sameFront : front.flatMap (fun m' => m'.blocksOf u r) =
      front.flatMap fun m' => m'.blocksOf t r :=
    flatMap_congr fun m' mem' => same m' (by simp [mem'])
  have sameBack : back.flatMap (fun m' => m'.blocksOf u r) =
      back.flatMap fun m' => m'.blocksOf t r :=
    flatMap_congr fun m' mem' => same m' (by simp [mem'])
  simp only [owned, split, flatMap_append, flatMap_cons, count_append, sameFront,
    sameBack]
  omega

/-- The request took what it holds out of the free blocks of `s`, and each such block
once; other blocks it shares. -/
structure Borrows (cfg : KVCacheConfig) (r : RequestId) (s t : KVState H) : Prop where
  wf : Wf cfg.numBlocks t
  refCnt : ∀ b, b ≠ nullBlock →
    t.blockPool.refCnt b = s.blockPool.refCnt b + (owned cfg t r).count b
  once : ∀ b, b ≠ nullBlock → s.blockPool.refCnt b = 0 → (owned cfg t r).count b ≤ 1

/-- A request that has nothing borrows nothing. -/
theorem Borrows.of_isNew (wf : Wf cfg.numBlocks t) (isNew : ∀ m ∈ cfg.managers, m.blocksOf t r = [])
    (same : t.blockPool = s.blockPool) : Borrows cfg r s t := by
  have nothing : owned cfg t r = [] := flatMap_eq_nil_iff.mpr isNew
  refine ⟨wf, fun b _ => ?_, fun b _ _ => ?_⟩
  · rw [same, nothing, count_nil]
    omega
  · rw [nothing]
    exact Nat.zero_le _

section

variable (borrows : Borrows cfg r s t)
include borrows

/-- A manager's operation on the request keeps the counts in step. -/
theorem Borrows.update (mem : m ∈ cfg.managers)
    (tables : t.reqToBlocks.Updated (m.key r) u.reqToBlocks) (wf : Wf cfg.numBlocks u)
    (once : ∀ b, b ≠ nullBlock → s.blockPool.refCnt b = 0 → (owned cfg u r).count b ≤ 1) :
    Borrows cfg r s u := by
  refine ⟨wf, fun b notNull => ?_, once⟩
  have counts := count_owned mem tables b
  have held : u.held b + (m.blocksOf t r).count b = t.held b + (m.blocksOf u r).count b :=
    tables.total (count b) rfl
  have before := borrows.refCnt b notNull
  rw [borrows.wf.refCnt b notNull] at before
  rw [wf.refCnt b notNull]
  omega

/-- A block that is free now was free in `s`, and the request does not hold it. -/
theorem Borrows.of_free (wf : Wf cfg.numBlocks s) {b : BlockId}
    (free : b ∈ t.blockPool.freeBlockQueue.blocks) :
    b ≠ nullBlock ∧ s.blockPool.refCnt b = 0 ∧ (owned cfg t r).count b = 0 := by
  obtain ⟨notNull, -, zero⟩ := (borrows.wf.pool.mem_free b).mp free
  have := borrows.refCnt b notNull
  have := wf.pool.nonneg b notNull
  exact ⟨notNull, by omega, by omega⟩

/-- The free blocks of `s` are those left and those that the request took. -/
theorem Borrows.numFree (wf : Wf cfg.numBlocks s) :
    t.blockPool.getNumFreeBlocks + getNumEvictableBlocks s.blockPool (owned cfg t r) =
      s.blockPool.getNumFreeBlocks := by
  let taken := (owned cfg t r).filter fun b => decide (s.blockPool.refCnt b = 0 ∧ b ≠ nullBlock)
  have mem_taken : ∀ b, b ∈ taken ↔ b ∈ owned cfg t r ∧ s.blockPool.refCnt b = 0 ∧ b ≠ nullBlock :=
    fun b => by simp only [taken, mem_filter, decide_eq_true_eq]
  have takenNodup : taken.Nodup := by
    refine nodup_iff_count_le_one.mpr fun b => ?_
    by_cases mem : b ∈ taken
    · obtain ⟨-, zero, notNull⟩ := (mem_taken b).mp mem
      exact (filter_sublist.count_le b).trans (borrows.once b notNull zero)
    · rw [count_eq_zero.mpr mem]
      exact Nat.zero_le _
  have perm : s.blockPool.freeBlockQueue.blocks.Perm
      (t.blockPool.freeBlockQueue.blocks ++ taken) := by
    refine (perm_ext_iff_of_nodup wf.pool.nodup (nodup_append.mpr
      ⟨borrows.wf.pool.nodup, takenNodup, ?_⟩)).mpr fun b => ?_
    · rintro b free b' mem rfl
      have absent := (borrows.of_free wf free).2.2
      exact count_eq_zero.mp absent ((mem_taken b).mp mem).1
    · rw [mem_append, mem_taken, wf.pool.mem_free]
      constructor
      · rintro ⟨notNull, lt, zero⟩
        by_cases held : b ∈ owned cfg t r
        · exact .inr ⟨held, zero, notNull⟩
        · refine .inl ((borrows.wf.pool.mem_free b).mpr ⟨notNull, lt, ?_⟩)
          rw [borrows.refCnt b notNull, zero, count_eq_zero.mpr held]
          rfl
      · rintro (free | ⟨held, zero, notNull⟩)
        · obtain ⟨notNull, zero, -⟩ := borrows.of_free wf free
          exact ⟨notNull, ((borrows.wf.pool.mem_free b).mp free).2.1, zero⟩
        · obtain ⟨m, -, isBlock⟩ := mem_flatMap.mp held
          exact ⟨notNull, borrows.wf.inRange (m.key r) b isBlock notNull, zero⟩
  have length := perm.length_eq
  rw [length_append] at length
  rw [wf.pool.numFree, borrows.wf.pool.numFree, getNumEvictableBlocks, countP_eq_length_filter]
  change (_ : Int) + (taken.length : Int) = _
  omega

end

end Owned

/-! ### One table -/

/-- The request's table in a group: null blocks at the first `skipped` positions, what
is left of the hits, and new blocks, which were free in `s`. With caching on, what is
not cached yet has no hash. -/
structure Holds (s t : KVState H) (r : RequestId) (m : SingleTypeKVCacheManager)
    (hits : List BlockId) (skipped length : Nat) : Prop where
  table : ∃ new, m.blocksOf t r = replicate skipped nullBlock ++ hits.drop skipped ++ new ∧
    ∀ b ∈ new, b ≠ nullBlock ∧ s.blockPool.refCnt b = 0
  length_eq : (m.blocksOf t r).length = length
  numCached : m.enableCaching = true → hits.length ≤ (t.numCachedBlock (m.key r)).getD 0
  unhashed : m.enableCaching = true → ∀ (i : Nat) (b : BlockId),
    (t.numCachedBlock (m.key r)).getD 0 ≤ i → (m.blocksOf t r)[i]? = some b → b ≠ nullBlock →
    t.blockPool.blockHash b = none

namespace Holds

variable {s t u : KVState H} {r : RequestId} {m : SingleTypeKVCacheManager} {hits : List BlockId}
  {skipped length : Nat}

section

variable (holds : Holds s t r m hits skipped length)
include holds

/-- Behind the hits there are new blocks. -/
theorem wasFree {i : Nat} {b : BlockId} (le : hits.length ≤ i)
    (found : (m.blocksOf t r)[i]? = some b) (notNull : b ≠ nullBlock) :
    s.blockPool.refCnt b = 0 := by
  obtain ⟨new, table, free⟩ := holds.table
  rw [table] at found
  have inNulls : skipped ≤ i := by
    by_contra lt
    rw [append_assoc, getElem?_append_left (by rw [length_replicate]; omega),
      getElem?_replicate, if_pos (by omega)] at found
    exact notNull (Option.some.inj found).symm
  rw [getElem?_append_right (by
    rw [length_append, length_replicate, length_drop]
    omega)] at found
  exact (free b (mem_of_getElem? found)).2

theorem nullsFirst (first : NullsFirst hits) : NullsFirst (m.blocksOf t r) := by
  obtain ⟨new, table, free⟩ := holds.table
  rw [table, append_assoc]
  exact ((first.drop skipped).append fun mem => (free _ mem).1 rfl).replicate_append skipped

/-- How many of the table's blocks came out of the free blocks of `s`. -/
theorem numEvictable :
    getNumEvictableBlocks s.blockPool (m.blocksOf t r) + max skipped hits.length =
      getNumEvictableBlocks s.blockPool (hits.drop skipped) + length := by
  obtain ⟨new, table, free⟩ := holds.table
  have lengths := holds.length_eq
  rw [table, length_append, length_append, length_replicate, length_drop]
    at lengths
  have nulls : getNumEvictableBlocks s.blockPool (replicate skipped nullBlock) = 0 :=
    countP_eq_zero.mpr fun b mem => by simp [eq_of_mem_replicate mem]
  have all : getNumEvictableBlocks s.blockPool new = new.length :=
    countP_eq_length.mpr fun b mem => by simpa using ⟨(free b mem).2, (free b mem).1⟩
  rw [getNumEvictableBlocks] at nulls all
  rw [table, getNumEvictableBlocks, getNumEvictableBlocks, countP_append, countP_append]
  omega

/-- What happens elsewhere leaves the table alone, as long as it gives none of the
new blocks a hash. -/
theorem frame (table : m.blocksOf u r = m.blocksOf t r)
    (cached : u.numCachedBlock (m.key r) = t.numCachedBlock (m.key r))
    (hash : ∀ b ∈ m.blocksOf t r, b ≠ nullBlock → s.blockPool.refCnt b = 0 →
      t.blockPool.blockHash b = none → u.blockPool.blockHash b = none) :
    Holds s u r m hits skipped length := by
  refine ⟨by rw [table]; exact holds.table, by rw [table]; exact holds.length_eq,
    fun caching => by rw [cached]; exact holds.numCached caching, fun caching i b le found notNull => ?_⟩
  rw [table] at found
  rw [cached] at le
  have wasFree := holds.wasFree ((holds.numCached caching).trans le) found notNull
  exact hash b (mem_of_getElem? found) notNull wasFree
    (holds.unhashed caching i b le found notNull)

end

end Holds

section Skip

variable {cfg : KVCacheConfig} {s t : KVState H} {r : RequestId} {m : SingleTypeKVCacheManager}
  {hits : List BlockId} {skipped length : Nat}

/-- The first positions of the table become null. -/
theorem Holds.skip (holds : Holds s t r m hits skipped length) (first : NullsFirst hits) {n : Nat}
    (more : skipped ≤ m.numSkippedBlocks n) (le : m.numSkippedBlocks n ≤ length) :
    Holds s (m.baseRemoveSkippedBlocks t r n) r m hits (m.numSkippedBlocks n) length := by
  unfold baseRemoveSkippedBlocks
  split
  · rename_i noTokens
    have zero : m.numSkippedBlocks n = 0 := by
      rw [numSkippedBlocks, noTokens, Nat.zero_div]
    rw [zero] at more ⊢
    obtain rfl : skipped = 0 := by omega
    exact holds
  · obtain ⟨new, table, free⟩ := holds.table
    have skips := blocksAfterSkip_eq (holds.nullsFirst first) (n := m.numSkippedBlocks n)
      (by rw [holds.length_eq]; exact le)
    have kept : (m.blocksOf t r).drop (m.numSkippedBlocks n) =
        hits.drop (m.numSkippedBlocks n) ++
          new.drop (m.numSkippedBlocks n - skipped - (hits.length - skipped)) := by
      rw [table, append_assoc, drop_append, drop_of_length_le
        (by rw [length_replicate]; exact more), nil_append, length_replicate,
        drop_append, drop_drop, length_drop, Nat.add_sub_cancel' more]
    have newTable : (m.setBlocks t r (blocksAfterSkip (m.blocksOf t r)
        (m.numSkippedBlocks n))).reqToBlocks.get (m.key r) =
        replicate (m.numSkippedBlocks n) nullBlock ++ hits.drop (m.numSkippedBlocks n) ++
          new.drop (m.numSkippedBlocks n - skipped - (hits.length - skipped)) := by
      rw [get_setBlocks, skips, kept, append_assoc]
    have nulled := nulled_blocksAfterSkip (m.blocksOf t r) (m.numSkippedBlocks n)
    refine ⟨⟨_, newTable, fun b mem => free b (mem_of_mem_drop mem)⟩, ?_, holds.numCached,
      fun caching i b le found notNull => ?_⟩
    · rw [blocksOf, get_setBlocks, nulled.length]
      exact holds.length_eq
    · rw [blocksOf, get_setBlocks] at found
      exact holds.unhashed caching i b le (nulled.sub found notNull) notNull

theorem Borrows.skip (borrows : Borrows cfg r s t) (mem : m ∈ cfg.managers) (n : Nat) :
    Borrows cfg r s (m.baseRemoveSkippedBlocks t r n) := by
  obtain ⟨skipped, wf⟩ := baseRemoveSkippedBlocks_spec m r borrows.wf n
  obtain ⟨blocks, -, counts⟩ := skipped.freed
  refine borrows.update mem skipped.tables wf fun b notNull wasFree => ?_
  have := borrows.once b notNull wasFree
  have := count_owned mem skipped.tables b
  have count : (m.blocksOf (m.baseRemoveSkippedBlocks t r n) r).count b + blocks.count b =
    (m.blocksOf t r).count b := counts b notNull
  omega

end Skip

section Grow

variable [DecidableEq H] {cfg : KVCacheConfig} {s t : KVState H} {r : RequestId}
  {m : SingleTypeKVCacheManager} {hits : List BlockId} {skipped length : Nat}

/-- A table grows by blocks that were free in `s`. Whether that works is a matter of
the number of free blocks. -/
theorem Holds.grow (holds : Holds s t r m hits skipped length) (wf : Wf cfg.numBlocks s)
    (borrows : Borrows cfg r s t) (mem : m ∈ cfg.managers) {numTokens : Nat} {enough : Prop}
    (fits : enough → ((cdiv numTokens m.blockSize - length : Nat) : Int) ≤
      t.blockPool.getNumFreeBlocks) :
    Ensures (fun _ => enough) (fun result => Borrows cfg r s result.2 ∧
        Holds s result.2 r m hits skipped (max length (cdiv numTokens m.blockSize)) ∧
        OnlyEntry (m.key r) t result.2 ∧
        ∀ b, t.blockPool.blockHash b = none → result.2.blockPool.blockHash b = none)
      (m.baseAllocateNewBlocks t r numTokens) := by
  constructor
  · rintro ⟨blocks, u⟩ run
    obtain ⟨grown, numNew, -⟩ := baseAllocateNewBlocks_spec borrows.wf run
    obtain ⟨isBlocks, -, -, taken, -⟩ :=
      borrows.wf.pool.of_getNewBlocks (Int.natCast_nonneg _) grown.run
    have table : m.blocksOf u r = m.blocksOf t r ++ blocks := grown.table
    have wasFree : ∀ b ∈ blocks, b ≠ nullBlock ∧ s.blockPool.refCnt b = 0 ∧
        (owned cfg t r).count b = 0 := fun b isNew => by
      rw [isBlocks] at isNew
      exact borrows.of_free wf (mem_of_mem_take isNew)
    have nodup : blocks.Nodup := by
      rw [isBlocks]
      exact borrows.wf.pool.nodup.sublist (take_sublist _ _)
    have hash : ∀ b, t.blockPool.blockHash b = none → u.blockPool.blockHash b = none := by
      intro b unhashed
      rw [taken.blockHash]
      split
      · rfl
      · exact unhashed
    have once : ∀ b, b ≠ nullBlock → s.blockPool.refCnt b = 0 → (owned cfg u r).count b ≤ 1 := by
      intro b notNull free
      have counts := count_owned mem grown.entry.tables b
      rw [table, count_append] at counts
      by_cases isNew : b ∈ blocks
      · have := (wasFree b isNew).2.2
        have := nodup_iff_count_le_one.mp nodup b
        omega
      · have := borrows.once b notNull free
        have := count_eq_zero.mpr isNew
        omega
    have holds' : Holds s u r m hits skipped (max length (cdiv numTokens m.blockSize)) := by
      refine ⟨?_, ?_, fun caching => ?_, fun caching i b le found notNull => ?_⟩
      · obtain ⟨new, oldTable, free⟩ := holds.table
        refine ⟨new ++ blocks, by rw [table, oldTable, append_assoc], fun b isNew => ?_⟩
        rcases mem_append.mp isNew with old | fresh
        · exact free b old
        · exact ⟨(wasFree b fresh).1, (wasFree b fresh).2.1⟩
      · rw [table, length_append, numNew, holds.length_eq]
        omega
      · rw [grown.numCachedBlock]
        exact holds.numCached caching
      · rw [grown.numCachedBlock] at le
        rw [table] at found
        rcases lt_or_ge i (m.blocksOf t r).length with inside | behind
        · rw [getElem?_append_left inside] at found
          exact hash b (holds.unhashed caching i b le found notNull)
        · rw [getElem?_append_right behind] at found
          rw [taken.blockHash, if_pos ⟨caching, mem_of_getElem? found⟩]
    exact ⟨borrows.update mem grown.entry.tables (borrows.wf.grow grown) once, holds', grown.entry,
      hash⟩
  · intro e run isEnough
    unfold baseAllocateNewBlocks at run
    simp only at run
    split at run
    · cases run
    · rcases bind_eq_error.mp run with takeRun | ⟨⟨blocks, p⟩, -, run⟩
      · refine absurd takeRun (borrows.wf.pool.getNewBlocks_ne_error ?_ e)
        rw [holds.length_eq]
        exact fits isEnough
      · cases run

end Grow

/-! ### Caching -/

variable {blocks : List BlockId}

/-- A block that stands in a list once differs from those behind it. -/
theorem pairwise_of_once (once : ∀ b, b ≠ nullBlock → blocks.count b ≤ 1) :
    blocks.Pairwise fun b b' => b ≠ nullBlock → b ≠ b' := by
  induction blocks with
  | nil => exact .nil
  | cons b rest ih =>
    refine pairwise_cons.mpr ⟨?_, ih fun b' notNull => ?_⟩
    · rintro b' mem notNull rfl
      have := once b notNull
      have := count_pos_iff.mpr mem
      rw [count_cons_self] at *
      omega
    · exact (count_le_count_cons).trans (once b' notNull)

/-- The entries that `cache_full_blocks` goes through. -/
theorem mem_newFullBlocks {numCached numFull : Nat} {entry : BlockId × Nat}
    (mem : entry ∈ (blocks.zipIdx.take numFull).drop numCached) :
    numCached ≤ entry.2 ∧ entry.2 < numFull ∧ blocks[entry.2]? = some entry.1 := by
  obtain ⟨j, found⟩ := mem_iff_getElem?.mp mem
  rw [getElem?_drop, getElem?_take] at found
  split at found
  · rename_i lt
    obtain ⟨b, at_j, rfl⟩ := Option.map_eq_some_iff.mp (getElem?_zipIdx ▸ found)
    simp only [Nat.zero_add]
    exact ⟨Nat.le_add_right _ _, lt, at_j⟩
  · cases found

namespace SingleTypeKVCacheManager

variable {m : SingleTypeKVCacheManager}

theorem length_reachableBlockMask {startBlock endBlock numPromptTokens : Nat}
    {retentionInterval : Option Nat} {mask : List Bool}
    (masked : m.reachableBlockMask startBlock endBlock retentionInterval numPromptTokens =
      some mask) : mask.length = endBlock - startBlock := by
  have ofIf : ∀ (all : Bool) (reachable : Nat → Bool), (if all = true then none else
      some ((range' startBlock (endBlock - startBlock)).map reachable)) = some mask →
      mask.length = endBlock - startBlock := by
    intro all reachable isMask
    cases all with
    | true => cases isMask
    | false =>
      cases isMask
      rw [length_map, length_range']
  unfold reachableBlockMask at masked
  split at masked
  · exact ofIf _ _ masked
  · cases masked

variable [DecidableEq H]

variable {p : BlockPool H} {blockHashes : List H}

/-- Distinct blocks without a hash can be cached one after the other. -/
theorem foldlM_cacheBlock {entries : List ((BlockId × Nat) × Bool)}
    (unhashed : ∀ e ∈ entries, e.1.1 ≠ nullBlock → p.blockHash e.1.1 = none)
    (distinct : entries.Pairwise fun e e' => e.1.1 ≠ nullBlock → e.1.1 ≠ e'.1.1)
    (hashes : ∀ e ∈ entries, e.1.2 < blockHashes.length / m.scale) :
    ∃ p', entries.foldlM (m.cacheBlock blockHashes) p = .ok p' := by
  induction entries generalizing p with
  | nil => exact ⟨p, rfl⟩
  | cons e rest ih =>
    obtain ⟨⟨block, i⟩, reachable⟩ := e
    obtain ⟨differs, distinct⟩ := pairwise_cons.mp distinct
    rw [foldlM_cons]
    have restHashes : ∀ e ∈ rest, e.1.2 < blockHashes.length / m.scale := fun e mem =>
      hashes e (by simp [mem])
    by_cases skip : block = nullBlock ∨ reachable = false
    · rw [cacheBlock, if_pos skip]
      exact ih (fun e mem => unhashed e (by simp [mem])) distinct restHashes
    · have notNull : block ≠ nullBlock := fun null => skip (.inl null)
      have noHash : ¬ (p.blockHash block).isSome = true := by
        rw [unhashed ⟨⟨block, i⟩, reachable⟩ (by simp) notNull]
        simp
      have hash : m.fullBlockHash blockHashes i =
          .ok ((blockHashes.drop (i * m.scale)).take m.scale) :=
        if_pos (hashes ⟨⟨block, i⟩, reachable⟩ (by simp))
      rw [cacheBlock, if_neg skip, if_neg noHash, hash]
      refine ih (fun e mem notNull' => ?_) distinct restHashes
      have ne : e.1.1 ≠ block := Ne.symm (differs e mem notNull)
      exact (Function.update_of_ne ne _ _).trans (unhashed e (by simp [mem]) notNull')

/-- Blocks of the table that have no hash yet can be cached, up to the last full block
of the tokens whose hashes are known. -/
theorem cacheFullBlocks_ok {blocks : List BlockId} {numCached numTokens : Nat}
    (retentionInterval : Option Nat) (numPromptTokens : Nat)
    (divides : m.hashBlockSize ∣ m.blockSize) (long : numTokens / m.blockSize ≤ blocks.length)
    (hashes : numTokens / m.hashBlockSize ≤ blockHashes.length)
    (once : ∀ b, b ≠ nullBlock → blocks.count b ≤ 1)
    (unhashed : ∀ (i : Nat) (b : BlockId), numCached ≤ i → blocks[i]? = some b → b ≠ nullBlock →
      p.blockHash b = none) :
    ∃ p', m.cacheFullBlocks p blockHashes blocks numCached (numTokens / m.blockSize)
      (m.reachableBlockMask numCached (numTokens / m.blockSize) retentionInterval numPromptTokens) =
        .ok p' := by
  obtain ⟨scale, isScale⟩ := divides
  have pos := m.blockSize_pos
  have hashPos : 0 < m.hashBlockSize := Nat.pos_of_ne_zero fun zero => by
    rw [isScale, zero, Nat.zero_mul] at pos
    exact lt_irrefl 0 pos
  have scale_eq : m.scale = scale := by
    rw [SingleTypeKVCacheManager.scale, isScale, Nat.mul_div_cancel_left _ hashPos]
  have inHashes : numTokens / m.blockSize ≤ blockHashes.length / m.scale := by
    rw [isScale, ← Nat.div_div_eq_div_mul, scale_eq]
    exact Nat.div_le_div_right hashes
  have enough : ¬ blockHashes.length < numTokens / m.blockSize := by
    have := Nat.div_le_self blockHashes.length m.scale
    omega
  generalize numTokens / m.blockSize = numFull at *
  let newFull := (blocks.zipIdx.take numFull).drop numCached
  have numNew : newFull.length = numFull - numCached := by
    simp only [newFull, length_drop, length_take, length_zipIdx]
    omega
  obtain ⟨mask, isMask, maskLength⟩ : ∃ mask, (m.reachableBlockMask numCached numFull
      retentionInterval numPromptTokens).getD (replicate newFull.length true) = mask ∧
      mask.length = newFull.length := by
    refine ⟨_, rfl, ?_⟩
    cases masked : m.reachableBlockMask numCached numFull retentionInterval numPromptTokens with
    | none => exact length_replicate
    | some mask => exact (length_reachableBlockMask masked).trans numNew.symm
  have entries : (newFull.zip mask).map Prod.fst = newFull :=
    map_fst_zip (le_of_eq maskLength.symm)
  have sub : (newFull.map Prod.fst).Sublist blocks := by
    have := (drop_sublist numCached (blocks.zipIdx.take numFull)).trans
      (take_sublist numFull blocks.zipIdx)
    have := this.map Prod.fst
    rwa [zipIdx_map_fst] at this
  have mem_fst : ∀ e ∈ newFull.zip mask, e.1 ∈ newFull := fun e mem => (of_mem_zip mem).1
  have distinct : (newFull.zip mask).Pairwise fun e e' => e.1.1 ≠ nullBlock → e.1.1 ≠ e'.1.1 := by
    have := (pairwise_of_once once).sublist sub
    rw [pairwise_map, ← entries, pairwise_map] at this
    exact this
  obtain ⟨p', run⟩ : ∃ p', (newFull.zip mask).foldlM (m.cacheBlock blockHashes) p = .ok p' := by
    refine foldlM_cacheBlock (fun e mem notNull => ?_) distinct fun e mem =>
      Nat.lt_of_lt_of_le (mem_newFullBlocks (mem_fst e mem)).2.1 inHashes
    obtain ⟨le, -, found⟩ := mem_newFullBlocks (mem_fst e mem)
    exact unhashed e.1.2 e.1.1 le found notNull
  refine ⟨p', ?_⟩
  unfold cacheFullBlocks
  rw [if_neg enough, isMask, if_neg (not_not.mpr maskLength)]
  exact run

end SingleTypeKVCacheManager

section Cache

variable [DecidableEq H] {cfg : KVCacheConfig} {s t : KVState H} {m : SingleTypeKVCacheManager}
  {req : Request H} {hits : List BlockId} {skipped length : Nat}

/-- Caching the full blocks of a table works, and leaves the blocks behind them
without a hash. -/
theorem Holds.cache (holds : Holds s t req.requestId m hits skipped length)
    (borrows : Borrows cfg req.requestId s t) (caching : m.enableCaching = true)
    (divides : m.hashBlockSize ∣ m.blockSize) {numTokens : Nat}
    (long : numTokens / m.blockSize ≤ length)
    (hashes : numTokens / m.hashBlockSize ≤ req.blockHashes.length)
    (retentionInterval : Option Nat) :
    ∃ u, m.baseCacheBlocks t req numTokens retentionInterval = .ok u ∧
      Wf cfg.numBlocks u ∧ Holds s u req.requestId m hits skipped length ∧
      SingleTypeKVCacheManager.CachedBlocks m req numTokens t u := by
  obtain ⟨u, run, grows⟩ : ∃ u, m.baseCacheBlocks t req numTokens retentionInterval = .ok u ∧
      (u = t ∨ (t.numCachedBlock (m.key req.requestId)).getD 0 ≤ numTokens / m.blockSize ∧
        u.numCachedBlock (m.key req.requestId) = some (numTokens / m.blockSize)) := by
    unfold baseCacheBlocks
    simp only
    split
    · exact ⟨t, rfl, .inl rfl⟩
    · have once : ∀ b, b ≠ nullBlock → (m.blocksOf t req.requestId).count b ≤ 1 :=
        borrows.wf.once (m.key req.requestId)
      rw [← holds.length_eq] at long
      obtain ⟨p, cached⟩ := cacheFullBlocks_ok retentionInterval
        req.numPromptTokens divides long hashes once (holds.unhashed caching)
      rw [cached]
      exact ⟨_, rfl, .inr ⟨by omega, Function.update_self _ _ _⟩⟩
  obtain ⟨done, wf⟩ := baseCacheBlocks_spec borrows.wf run
  refine ⟨u, run, wf, ?_, done⟩
  rcases grows with rfl | ⟨le, numCached⟩
  · exact holds
  have table : m.blocksOf u req.requestId = m.blocksOf t req.requestId := by
    rw [blocksOf, blocksOf, done.reqToBlocks]
  refine ⟨by rw [table]; exact holds.table, by rw [table]; exact holds.length_eq, fun _ => ?_,
    fun _ i b behind found notNull => ?_⟩
  · rw [numCached]
    exact (holds.numCached caching).trans le
  · rw [numCached] at behind
    rw [table] at found
    have before := holds.unhashed caching i b (le.trans behind) found notNull
    cases hashed : u.blockPool.blockHash b with
    | none => rfl
    | some key =>
      -- A block that got a hash stands before the last full block as well.
      obtain ⟨j, lt, at_j, -⟩ := done.pool.new b key hashed before
      have := two_le_count at_j found (ne_of_lt (lt.trans_le behind))
      have : (m.blocksOf t req.requestId).count b ≤ 1 :=
        borrows.wf.once (m.key req.requestId) b notNull
      omega

end Cache

/-! ### All tables -/

def hitsOf (hits : List (List BlockId)) (m : SingleTypeKVCacheManager) : List BlockId :=
  hits.getD m.kvCacheGroupId []

/-- What is fixed while a request computes its chunks: the groups are self-attention,
blocks are made of hash blocks, and `s` and the hits found in it are in order. -/
structure Setting (cfg : KVCacheConfig) (s : KVState H) (hits : List (List BlockId)) : Prop where
  valid : cfg.Valid
  kinds : ∀ m ∈ cfg.managers, m.kvCacheSpec.kind.isSelfAttention = true
  divides : cfg.enableCaching = true → ∀ m ∈ cfg.managers, cfg.hashBlockSize ∣ m.blockSize
  wf : Wf cfg.numBlocks s
  nullsFirst : ∀ m ∈ cfg.managers, NullsFirst (hitsOf hits m)

/-- The length of a table when `n` tokens are computed. -/
def tableLength (hits : List (List BlockId)) (n : Nat) (m : SingleTypeKVCacheManager) : Nat :=
  max (hitsOf hits m).length (cdiv n m.blockSize)

/-- `n` tokens of the request are computed. -/
structure Prefilling (cfg : KVCacheConfig) (s : KVState H) (r : RequestId)
    (hits : List (List BlockId)) (n : Nat) (t : KVState H) : Prop where
  borrows : Borrows cfg r s t
  tables : ∀ m ∈ cfg.managers, ∃ skipped, skipped ≤ m.numSkippedBlocks n ∧
    Holds s t r m (hitsOf hits m) skipped (tableLength hits n m)

section Tables

variable {cfg : KVCacheConfig} {s t : KVState H} {r : RequestId} {hits : List (List BlockId)}
  {m : SingleTypeKVCacheManager}

variable {skipped length n : Nat}

/-- An operation on one table leaves the others alone. -/
theorem Holds.of_other {u : KVState H} {m' : SingleTypeKVCacheManager} {hits : List BlockId}
    (holds : Holds s t r m' hits skipped length) (mem : m ∈ cfg.managers) (mem' : m' ∈ cfg.managers)
    (ne : m' ≠ m) (entry : OnlyEntry (m.key r) t u)
    (hash : ∀ b, t.blockPool.blockHash b = none → u.blockPool.blockHash b = none) :
    Holds s u r m' hits skipped length :=
  have other := KVCacheConfig.key_ne mem mem' (Ne.symm ne) r r
  holds.frame (entry.tables.get_of_ne other) (entry.numCachedBlock other) fun b _ _ _ => hash b

theorem numSkippedBlocks_mono (m : SingleTypeKVCacheManager) {n' : Nat} (le : n ≤ n') :
    m.numSkippedBlocks n ≤ m.numSkippedBlocks n' :=
  Nat.div_le_div_right (m.kvCacheSpec.getNumSkippedTokens_mono le)

theorem Setting.numSkippedBlocks_le_tableLength (setting : Setting cfg s hits)
    (mem : m ∈ cfg.managers) (n : Nat) : m.numSkippedBlocks n ≤ tableLength hits n m :=
  Nat.le_trans (numSkippedBlocks_le setting.valid mem (le_cdiv_mul m.blockSize_pos))
    (Nat.le_max_right _ _)

theorem removeSkippedBlocks_eq (kind : m.kvCacheSpec.kind.isSelfAttention = true) (n : Nat) :
    m.removeSkippedBlocks t r n = .ok (m.baseRemoveSkippedBlocks t r n) := by
  unfold removeSkippedBlocks
  split
  · rename_i mode k isMamba
    rw [isMamba] at kind
    cases kind
  · rfl

theorem Prefilling.removeSkippedBlocks (prefilling : Prefilling cfg s r hits n t)
    (setting : Setting cfg s hits) : ∃ u, cfg.removeSkippedBlocks t r n = .ok u ∧
      Borrows cfg r s u ∧ ∀ m ∈ cfg.managers,
        Holds s u r m (hitsOf hits m) (m.numSkippedBlocks n) (tableLength hits n m) := by
  apply Ensures.exists_ok
  refine ensures_foldlM_each (Borrows cfg r s)
    (fun m t => ∃ skipped, skipped ≤ m.numSkippedBlocks n ∧
      Holds s t r m (hitsOf hits m) skipped (tableLength hits n m))
    (fun m t => Holds s t r m (hitsOf hits m) (m.numSkippedBlocks n) (tableLength hits n m))
    cfg.managers_nodup ?_ prefilling.borrows prefilling.tables
  rintro t m mem borrows ⟨skipped, le, holds⟩ -
  rw [removeSkippedBlocks_eq (setting.kinds m mem), ensures_ok]
  have first := setting.nullsFirst m mem
  have inside := setting.numSkippedBlocks_le_tableLength mem n
  obtain ⟨skip, -⟩ := baseRemoveSkippedBlocks_spec m r borrows.wf n
  have hash : ∀ b, t.blockPool.blockHash b = none →
      (m.baseRemoveSkippedBlocks t r n).blockPool.blockHash b = none := by
    obtain ⟨blocks, freed, -⟩ := skip.freed
    intro b unhashed
    rw [freed.blockHash]
    exact unhashed
  refine ⟨borrows.skip mem n, holds.skip first le inside, fun m' mem' ne => ⟨?_, ?_⟩⟩
  · rintro ⟨skipped, le, holds⟩
    exact ⟨skipped, le, holds.of_other mem mem' ne skip.onlyEntry hash⟩
  · exact fun holds => holds.of_other mem mem' ne skip.onlyEntry hash

/-- The blocks out of the free blocks of `s`, group by group. -/
theorem getNumEvictableBlocks_owned (p : BlockPool H) :
    getNumEvictableBlocks p (owned cfg t r) =
      (cfg.managers.map fun m => getNumEvictableBlocks p (m.blocksOf t r)).sum := by
  rw [getNumEvictableBlocks, owned, countP_flatMap]
  rfl

/-- One summand has room for `d` more. -/
theorem sum_add_le {α : Type} {f g : α → Nat} {d : Nat} {a : α} {xs : List α} (mem : a ∈ xs)
    (le : ∀ b ∈ xs, f b ≤ g b) (room : f a + d ≤ g a) :
    (xs.map f).sum + d ≤ (xs.map g).sum := by
  induction xs with
  | nil => exact absurd mem not_mem_nil
  | cons b rest ih =>
    rw [map_cons, map_cons, sum_cons, sum_cons]
    have leRest : ∀ c ∈ rest, f c ≤ g c := fun c memC => le c (by simp [memC])
    rcases mem_cons.mp mem with rfl | inRest
    · have := sum_le_sum leRest
      omega
    · have := ih inRest leRest
      have := le b (by simp)
      omega

/-- What a table of length `length` with `skipped` null blocks takes out of the free
blocks of `s`. -/
def takenOf (s : KVState H) (hits : List BlockId) (skipped length : Nat) : Nat :=
  getNumEvictableBlocks s.blockPool (hits.drop skipped) + (length - max skipped hits.length)

theorem Holds.numEvictable_eq {hits : List BlockId} (holds : Holds s t r m hits skipped length) :
    getNumEvictableBlocks s.blockPool (m.blocksOf t r) = takenOf s hits skipped length ∧
      max skipped hits.length ≤ length := by
  have sum := holds.numEvictable
  have inside : max skipped hits.length ≤ length := by
    obtain ⟨new, table, -⟩ := holds.table
    have lengths := holds.length_eq
    rw [table, length_append, length_append, length_replicate, length_drop]
      at lengths
    omega
  rw [takenOf]
  exact ⟨by omega, inside⟩

variable [DecidableEq H]

theorem allocateNewBlocks_eq (kind : m.kvCacheSpec.kind.isSelfAttention = true)
    (numTokens numTokensMainModel numEncoderTokens : Nat) :
    m.allocateNewBlocks t r (if m.kvCacheSpec.isCrossAttention then numEncoderTokens else numTokens)
      numTokensMainModel = m.baseAllocateNewBlocks t r numTokens := by
  unfold allocateNewBlocks KVCacheSpec.isCrossAttention
  cases isKind : m.kvCacheSpec.kind with
  | mamba | crossAttention =>
    rw [isKind] at kind
    cases kind
  | _ => rfl

variable {skipped length : SingleTypeKVCacheManager → Nat}

/-- Every table grows to the blocks that its tokens need, if the free blocks of `s`
cover what all tables take in the end. -/
theorem Borrows.allocateNewBlocks (borrows : Borrows cfg r s t) (setting : Setting cfg s hits)
    (holds : ∀ m ∈ cfg.managers, Holds s t r m (hitsOf hits m) (skipped m) (length m))
    (numTokens numTokensMainModel numEncoderTokens : Nat) (enough : Prop)
    (fits : enough → (((cfg.managers.map fun m => takenOf s (hitsOf hits m) (skipped m)
      (max (length m) (cdiv numTokens m.blockSize))).sum : Nat) : Int) ≤
        s.blockPool.getNumFreeBlocks) :
    Ensures (fun _ => enough) (fun result => Borrows cfg r s result.2 ∧ ∀ m ∈ cfg.managers,
        Holds s result.2 r m (hitsOf hits m) (skipped m)
          (max (length m) (cdiv numTokens m.blockSize)))
      (cfg.allocateNewBlocks t r numTokens numTokensMainModel numEncoderTokens) := by
  refine ensures_foldlM_each (fun acc : List (List BlockId) × KVState H => Borrows cfg r s acc.2)
    (fun m acc => Holds s acc.2 r m (hitsOf hits m) (skipped m) (length m))
    (fun m acc => Holds s acc.2 r m (hitsOf hits m) (skipped m)
      (max (length m) (cdiv numTokens m.blockSize)))
    cfg.managers_nodup ?_ borrows holds
  rintro ⟨newBlocks, t⟩ m mem (borrows : Borrows cfg r s t) holds all
  -- Whatever is taken so far is part of what is taken in the end.
  have room : enough → ((cdiv numTokens m.blockSize - length m : Nat) : Int) ≤
      t.blockPool.getNumFreeBlocks := by
    intro isEnough
    have le : ∀ m' ∈ cfg.managers, getNumEvictableBlocks s.blockPool (m'.blocksOf t r) ≤
        takenOf s (hitsOf hits m') (skipped m')
          (max (length m') (cdiv numTokens m'.blockSize)) := by
      intro m' mem'
      rcases all m' mem' with before | after
      · rw [before.numEvictable_eq.1, takenOf, takenOf]
        omega
      · exact le_of_eq after.numEvictable_eq.1
    have own : getNumEvictableBlocks s.blockPool (m.blocksOf t r) +
        (cdiv numTokens m.blockSize - length m) ≤ takenOf s (hitsOf hits m) (skipped m)
          (max (length m) (cdiv numTokens m.blockSize)) := by
      obtain ⟨taken, inside⟩ := holds.numEvictable_eq
      rw [taken, takenOf, takenOf]
      omega
    have total := sum_add_le mem le own
    rw [← getNumEvictableBlocks_owned] at total
    have free := borrows.numFree setting.wf
    have := fits isEnough
    omega
  rw [allocateNewBlocks_eq (setting.kinds m mem)]
  refine (holds.grow setting.wf borrows mem room).bind ?_
  rintro ⟨blocks, u⟩ - ⟨borrows', holds', entry, hash⟩
  refine ensures_ok.mpr ⟨borrows', holds', fun m' mem' ne => ⟨?_, ?_⟩⟩
  · exact fun before => before.of_other mem mem' ne entry hash
  · exact fun after => after.of_other mem mem' ne entry hash

omit [DecidableEq H] in
/-- A block in the tables of two groups is held twice. -/
theorem two_le_count_owned {m' : SingleTypeKVCacheManager} (mem : m ∈ cfg.managers)
    (mem' : m' ∈ cfg.managers) (ne : m' ≠ m) {b : BlockId} (inTable : b ∈ m.blocksOf t r)
    (inTable' : b ∈ m'.blocksOf t r) : 2 ≤ (owned cfg t r).count b := by
  obtain ⟨front, back, split⟩ := append_of_mem mem
  have pos := count_pos_iff.mpr inTable
  have posRest : 0 < ((front ++ back).flatMap fun m => m.blocksOf t r).count b := by
    refine count_pos_iff.mpr (mem_flatMap.mpr ⟨m', ?_, inTable'⟩)
    rw [split] at mem'
    rcases mem_append.mp mem' with inFront | inBack
    · exact mem_append_left _ inFront
    · rcases mem_cons.mp inBack with same | inBack
      · exact absurd same ne
      · exact mem_append_right _ inBack
  rw [flatMap_append, count_append] at posRest
  rw [owned, split, flatMap_append, flatMap_cons, count_append, count_append]
  omega

theorem cacheBlocks_eq (kind : m.kvCacheSpec.kind.isSelfAttention = true) (req : Request H)
    (numTokens : Nat) (retentionInterval : Option Nat) :
    m.cacheBlocks t req numTokens retentionInterval =
      m.baseCacheBlocks t req numTokens retentionInterval := by
  unfold cacheBlocks
  cases isKind : m.kvCacheSpec.kind with
  | mamba | crossAttention =>
    rw [isKind] at kind
    cases kind
  | _ => rfl

theorem Borrows.cacheBlocks {req : Request H} (borrows : Borrows cfg req.requestId s t)
    (setting : Setting cfg s hits) (caching : cfg.enableCaching = true)
    (holds : ∀ m ∈ cfg.managers,
      Holds s t req.requestId m (hitsOf hits m) (skipped m) (length m)) {n : Nat}
    (long : ∀ m ∈ cfg.managers, n / m.blockSize ≤ length m)
    (hashes : n / cfg.hashBlockSize ≤ req.blockHashes.length) :
    ∃ u, cfg.coordinatorCacheBlocks t req n = .ok u ∧ Borrows cfg req.requestId s u ∧
      ∀ m ∈ cfg.managers, Holds s u req.requestId m (hitsOf hits m) (skipped m) (length m) := by
  apply Ensures.exists_ok
  refine ensures_foldlM_each (Borrows cfg req.requestId s)
    (fun m t => Holds s t req.requestId m (hitsOf hits m) (skipped m) (length m))
    (fun m t => Holds s t req.requestId m (hitsOf hits m) (skipped m) (length m))
    cfg.managers_nodup ?_ borrows holds
  intro t m mem borrows holds _
  have divides := setting.divides caching m mem
  have le := numTokensToCache_le cfg m n
  obtain ⟨g, i, -, isManager⟩ := KVCacheConfig.mem_managers.mp mem
  have sameCaching : m.enableCaching = true := by rw [isManager]; exact caching
  have sameHash : m.hashBlockSize = cfg.hashBlockSize := by rw [isManager]; rfl
  rw [← sameHash] at divides hashes
  obtain ⟨u, run, wf, holds', done⟩ := holds.cache borrows sameCaching divides
    ((Nat.div_le_div_right le).trans (long m mem))
    ((Nat.div_le_div_right le).trans hashes) cfg.retentionInterval
  rw [cacheBlocks_eq (setting.kinds m mem), run, ensures_ok]
  have table : ∀ m' : SingleTypeKVCacheManager,
      m'.blocksOf u req.requestId = m'.blocksOf t req.requestId := fun m' => by
    rw [blocksOf, blocksOf, done.reqToBlocks]
  have sameOwned : owned cfg u req.requestId = owned cfg t req.requestId :=
    flatMap_congr fun m' _ => table m'
  have others : ∀ m' ∈ cfg.managers, m' ≠ m →
      Holds s t req.requestId m' (hitsOf hits m') (skipped m') (length m') →
      Holds s u req.requestId m' (hitsOf hits m') (skipped m') (length m') := by
    intro m' mem' ne other
    refine other.frame (table m') (done.numCachedBlock (KVCacheConfig.key_ne mem mem' ne.symm _ _))
      fun b inTable notNull wasFree unhashed => ?_
    cases hashed : u.blockPool.blockHash b with
    | none => rfl
    | some key =>
      obtain ⟨j, -, found, -⟩ := done.pool.new b key hashed unhashed
      have twice := two_le_count_owned mem mem' ne (mem_of_getElem? found) inTable
      have := borrows.once b notNull wasFree
      omega
  refine ⟨⟨wf, ?_, ?_⟩, holds', fun m' mem' ne => ⟨others m' mem' ne, others m' mem' ne⟩⟩
  · rw [sameOwned, done.pool.refCnt]
    exact borrows.refCnt
  · rw [sameOwned]
    exact borrows.once

end Tables

/-! ### A chunk -/

section Chunk

variable {cfg : KVCacheConfig} {s t : KVState H} {req : Request H} {args : AllocateSlotsArgs}
  {hits : List (List BlockId)} {m : SingleTypeKVCacheManager} {n k : Nat}

/-- What the request holds of the free blocks of `s` when it computes `k` tokens after
the first `n`. -/
def chunkBlocks (s : KVState H) (hits : List (List BlockId)) (n k : Nat)
    (m : SingleTypeKVCacheManager) : Nat :=
  takenOf s (hitsOf hits m) (m.numSkippedBlocks n) (tableLength hits (n + k) m)

/-- That of all groups. -/
def totalChunkBlocks (cfg : KVCacheConfig) (s : KVState H) (hits : List (List BlockId))
    (n k : Nat) : Nat :=
  (cfg.managers.map (chunkBlocks s hits n k)).sum

/-- It is what the tables hold already and the blocks that the table lacks. -/
theorem Setting.chunkBlocks_eq (setting : Setting cfg s hits) (mem : m ∈ cfg.managers) (n k : Nat) :
    chunkBlocks s hits n k m =
      takenOf s (hitsOf hits m) (m.numSkippedBlocks n) (tableLength hits n m) +
        (cdiv (n + k) m.blockSize - tableLength hits n m) := by
  have inside := setting.numSkippedBlocks_le_tableLength mem n
  have mono := cdiv_mono m.blockSize_pos (Nat.le_add_right n k)
  unfold chunkBlocks takenOf tableLength at *
  omega

/-- The arguments of a call that continues a request with `k` tokens. -/
structure Continues (cfg : KVCacheConfig) (args : AllocateSlotsArgs) (k : Nat) : Prop where
  numNewTokens : args.numNewTokens = k
  numNewComputedTokens : args.numNewComputedTokens = 0
  noNew : cfg.hasNewComputed args = false
  numLookaheadTokens : args.numLookaheadTokens = 0
  reservedBlocks : args.reservedBlocks = 0
  delayCacheBlocks : args.delayCacheBlocks = false

/-- The call of the scheduler's running loop. -/
theorem continues_default (cfg : KVCacheConfig) (k : Nat) :
    Continues cfg { numNewTokens := k } k := by
  refine ⟨rfl, rfl, ?_, rfl, rfl, rfl⟩
  simp [KVCacheConfig.hasNewComputed, KVCacheConfig.newComputedBlockList,
    KVCacheConfig.emptyKVCacheBlocks]

/-- The local variables of a call without external and lookahead tokens. -/
theorem locals_eq (computed : req.numComputedTokens.toNat + args.numNewComputedTokens = n)
    (new : args.numNewTokens = k) (external : args.numExternalComputedTokens = 0)
    (lookahead : args.numLookaheadTokens = 0) (inside : n + k ≤ cfg.maxModelLen) :
    KVCacheConfig.numLocalAndExternalTokens req args = n ∧
      cfg.totalComputedTokens req args = n ∧ cfg.numTokensMainModel req args = n + k ∧
      cfg.numTokensNeedSlot req args = n + k ∧
      cfg.numTokensToCommit req args = min (n + k) req.numTokens := by
  have numLocal : KVCacheConfig.numLocalAndExternalTokens req args = n := by
    rw [KVCacheConfig.numLocalAndExternalTokens, KVCacheConfig.numLocalComputedTokens]
    omega
  have total : cfg.totalComputedTokens req args = n := by
    rw [KVCacheConfig.totalComputedTokens]
    omega
  have main : cfg.numTokensMainModel req args = n + k := by
    rw [KVCacheConfig.numTokensMainModel, total, new]
  refine ⟨numLocal, total, main, ?_, ?_⟩
  · rw [KVCacheConfig.numTokensNeedSlot, lookahead]
    omega
  · rw [KVCacheConfig.numTokensToCommit, total, new]

variable [DecidableEq H]

theorem managerNumBlocksToAllocate_eq (kind : m.kvCacheSpec.kind.isSelfAttention = true)
    (r : RequestId) (numTokens : Nat) (hits : List (List BlockId))
    (numEncoderTokens total main : Nat) (cap : Bool) :
    KVCacheConfig.managerNumBlocksToAllocate t r numTokens hits numEncoderTokens total main cap m =
      (m.baseNumBlocksToAllocate t r numTokens (hitsOf hits m) total cap).map Int.ofNat := by
  unfold KVCacheConfig.managerNumBlocksToAllocate getNumBlocksToAllocate
    KVCacheSpec.isCrossAttention
  cases isKind : m.kvCacheSpec.kind with
  | mamba | crossAttention =>
    rw [isKind] at kind
    cases kind
  | _ => rfl

omit [DecidableEq H] in
/-- The estimate for a request that has a table, null up to its window or not. -/
theorem Holds.estimate {r : RequestId} {hits : List BlockId} {skipped length : Nat}
    (holds : Holds s t r m hits skipped length) {total : Nat}
    (inside : m.numSkippedBlocks total ≤ length) (numTokens : Nat) :
    m.baseNumBlocksToAllocate t r numTokens [] total false =
      .ok (cdiv numTokens m.blockSize - length) := by
  unfold baseNumBlocksToAllocate
  have required : m.numRequiredBlocks numTokens false = cdiv numTokens m.blockSize := rfl
  simp only [holds.length_eq]
  split
  · rfl
  · have : max (m.numSkippedBlocks total) (([] : List BlockId).length + length) = length := by
      rw [length_nil]
      omega
    rw [this, drop_nil]
    rfl

theorem Borrows.growToChunk {r : RequestId} (borrows : Borrows cfg r s t)
    (setting : Setting cfg s hits) {length : SingleTypeKVCacheManager → Nat}
    (holds : ∀ m ∈ cfg.managers,
      Holds s t r m (hitsOf hits m) (m.numSkippedBlocks n) (length m))
    (final : ∀ m ∈ cfg.managers,
      max (length m) (cdiv (n + k) m.blockSize) = tableLength hits (n + k) m)
    (main encoder : Nat) (enough : Prop)
    (fits : enough → (totalChunkBlocks cfg s hits n k : Int) ≤ s.blockPool.getNumFreeBlocks) :
    Ensures (fun _ => enough) (fun result => Borrows cfg r s result.2 ∧
        ∀ m ∈ cfg.managers, Holds s result.2 r m (hitsOf hits m) (m.numSkippedBlocks n)
          (tableLength hits (n + k) m))
      (cfg.allocateNewBlocks t r (n + k) main encoder) := by
  have same : (cfg.managers.map fun m => takenOf s (hitsOf hits m) (m.numSkippedBlocks n)
      (max (length m) (cdiv (n + k) m.blockSize))).sum = totalChunkBlocks cfg s hits n k :=
    congrArg sum (map_congr_left fun m mem => by rw [final m mem]; rfl)
  refine (borrows.allocateNewBlocks setting holds (n + k) main encoder enough ?_).mono ?_
  · rw [same]
    exact fits
  · rintro ⟨newBlocks, u⟩ ⟨borrows', holds'⟩
    refine ⟨borrows', fun m mem => ?_⟩
    rw [← final m mem]
    exact holds' m mem

theorem Borrows.commit (borrows : Borrows cfg req.requestId s t) (setting : Setting cfg s hits)
    (holds : ∀ m ∈ cfg.managers, Holds s t req.requestId m (hitsOf hits m)
      (m.numSkippedBlocks n) (tableLength hits (n + k) m))
    (inside : cfg.numTokensToCommit req args ≤ n + k)
    (hashes : cfg.enableCaching = true →
      cfg.numTokensToCommit req args / cfg.hashBlockSize ≤ req.blockHashes.length) :
    ∃ u, cfg.commit req args t = .ok u ∧
      Prefilling cfg s req.requestId hits (n + k) u := by
  have window : ∀ m : SingleTypeKVCacheManager, m.numSkippedBlocks n ≤ m.numSkippedBlocks (n + k) :=
    fun m => numSkippedBlocks_mono m (Nat.le_add_right _ _)
  unfold KVCacheConfig.commit
  split
  · exact ⟨t, rfl, borrows, fun m mem => ⟨_, window m, holds m mem⟩⟩
  · rename_i noCaching
    have caching : cfg.enableCaching = true := Decidable.not_not.mp fun off => noCaching (.inl off)
    obtain ⟨u, cached, borrows', holds'⟩ := borrows.cacheBlocks setting caching holds
      (fun m _ => Nat.le_trans (Nat.div_le_div_right inside)
        ((div_le_cdiv m.blockSize_pos).trans (Nat.le_max_right _ _))) (hashes caching)
    exact ⟨u, cached, borrows', fun m mem => ⟨_, window m, holds' m mem⟩⟩

/-- A chunk gets its blocks iff the free blocks of `s` cover what the request then
holds of them. -/
theorem Prefilling.allocateSlots (prefilling : Prefilling cfg s req.requestId hits n t)
    (setting : Setting cfg s hits) (continues : Continues cfg args k)
    (computed : req.numComputedTokens = n) (pos : 0 < k) (inside : n + k ≤ cfg.maxModelLen)
    (hashes : cfg.enableCaching = true →
      req.numTokens / cfg.hashBlockSize ≤ req.blockHashes.length)
    (gate : cfg.fullSequenceFits req args t = .ok true) :
    ((totalChunkBlocks cfg s hits n k : Int) ≤ s.blockPool.getNumFreeBlocks ∧ ∃ newBlocks u,
        cfg.allocateSlots req args t = .ok (some newBlocks, u) ∧
        Prefilling cfg s req.requestId hits (n + k) u) ∨
      (s.blockPool.getNumFreeBlocks < totalChunkBlocks cfg s hits n k ∧
        ∃ u, cfg.allocateSlots req args t = .ok (none, u)) := by
  obtain ⟨numLocal, total, main, needSlot, toCommit⟩ := locals_eq
    (by rw [computed, continues.numNewComputedTokens]; rfl) continues.numNewTokens
    (by simpa using (Bool.or_eq_false_iff.mp continues.noNew).2) continues.numLookaheadTokens inside
  obtain ⟨t₁, skips, borrows₁, holds₁⟩ := prefilling.removeSkippedBlocks setting
  have someNew : ¬ (args.numNewTokens = 0 ∧ args.numExternalComputedTokens = 0) := by
    rw [continues.numNewTokens]
    omega
  have slots : cfg.allocateSlots req args t = cfg.allocateIfFree req args t₁ := by
    rw [KVCacheConfig.allocateSlots, if_neg someNew, gate, ok_bind, if_pos rfl, total, skips, ok_bind]
  -- The estimate is what the tables lack.
  let lacks (m : SingleTypeKVCacheManager) : Nat :=
    cdiv (n + k) m.blockSize - tableLength hits n m
  have predicted : cfg.numBlocksToAllocate req args t₁ =
      .ok (((cfg.managers.map lacks).sum : Nat) : Int) := by
    have each : ∀ m ∈ cfg.managers, KVCacheConfig.managerNumBlocksToAllocate t₁ req.requestId
        (n + k) (cfg.newComputedBlockList args) args.numEncoderTokens n (n + k) false m =
          .ok ((lacks m : Nat) : Int) := by
      intro m mem
      have noHits : hitsOf (cfg.newComputedBlockList args) m = [] :=
        groupHits_eq_nil continues.noNew m
      rw [managerNumBlocksToAllocate_eq (setting.kinds m mem), noHits,
        (holds₁ m mem).estimate (setting.numSkippedBlocks_le_tableLength mem n)]
      rfl
    have sum := foldlM_sum each 0
    rw [KVCacheConfig.numBlocksToAllocate, numLocal, needSlot, main]
    rw [Nat.zero_add] at sum
    exact sum
  -- What is free now and what the tables hold make up the free blocks of `s`.
  have balance : (totalChunkBlocks cfg s hits n k : Int) + t₁.blockPool.getNumFreeBlocks =
      s.blockPool.getNumFreeBlocks + ((cfg.managers.map lacks).sum : Nat) := by
    have free := borrows₁.numFree setting.wf
    rw [getNumEvictableBlocks_owned] at free
    have split : totalChunkBlocks cfg s hits n k =
        (cfg.managers.map fun m => getNumEvictableBlocks s.blockPool
          (m.blocksOf t₁ req.requestId)).sum + (cfg.managers.map lacks).sum := by
      rw [← sum_map_add]
      refine congrArg sum (map_congr_left fun m mem => ?_)
      rw [setting.chunkBlocks_eq mem, (holds₁ m mem).numEvictable_eq.1]
    omega
  rw [slots, KVCacheConfig.allocateIfFree, predicted, ok_bind, continues.reservedBlocks]
  by_cases short : s.blockPool.getNumFreeBlocks < totalChunkBlocks cfg s hits n k
  · exact .inr ⟨short, t₁, if_pos (by omega)⟩
  refine .inl ⟨by omega, ?_⟩
  rw [if_neg (by omega)]
  -- The tables grow.
  have finalLength : ∀ m ∈ cfg.managers,
      max (tableLength hits n m) (cdiv (n + k) m.blockSize) = tableLength hits (n + k) m := by
    intro m _
    have mono := cdiv_mono m.blockSize_pos (Nat.le_add_right n k)
    unfold tableLength
    omega
  obtain ⟨⟨newBlocks, t₂⟩, allocated, borrows₂, holds₂⟩ := (borrows₁.growToChunk setting holds₁
    finalLength (n + k) args.numEncoderTokens True fun _ => by omega).exists_ok
  have allocates : cfg.allocate req args t₁ = .ok (newBlocks, t₂) := by
    rw [KVCacheConfig.allocate, KVCacheConfig.allocateComputed, continues.noNew]
    simp only [needSlot, main]
    exact allocated
  rw [allocates]
  obtain ⟨u, commits, prefilling⟩ := borrows₂.commit setting holds₂
    (toCommit.trans_le (Nat.min_le_left _ _)) fun caching =>
      (Nat.div_le_div_right (toCommit.trans_le (Nat.min_le_right _ _))).trans (hashes caching)
  refine ⟨newBlocks, u, ?_, prefilling⟩
  simp only [commits, ok_bind]
  rfl

end Chunk

end Vllm.KVCache
