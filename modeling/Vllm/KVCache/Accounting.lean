import Vllm.KVCache.KVCacheManager

/-!
Block tables and reference counts.

`Wf` is the representation invariant of the managers over their pool: a block's
reference count is the number of table positions that hold it, and no table
holds a block twice. Each manager operation on a request changes the request's
own table, and the counts by the difference (`Wf.of_update`).
-/

namespace Vllm.KVCache

open Vllm.Lib Vllm.Lib.Ceil Vllm.Lib.Fallible SingleTypeKVCacheManager List
open Function (update_self update_of_ne)

variable {H : Type} {N : Nat} {s s' : KVState H}

/-- How often a block stands in the block tables. -/
def KVState.held (s : KVState H) (b : BlockId) : Nat := s.reqToBlocks.total (count b)

/-- Pool and tables agree. -/
structure Wf (N : Nat) (s : KVState H) : Prop where
  pool : PoolOk N s.blockPool
  refCnt : ∀ b, b ≠ nullBlock → s.blockPool.refCnt b = s.held b
  once : ∀ key b, b ≠ nullBlock → (s.reqToBlocks.get key).count b ≤ 1
  inRange : ∀ key, ∀ b ∈ s.reqToBlocks.get key, b ≠ nullBlock → b < N

namespace Wf

theorem init (H : Type) {numGpuBlocks : Nat} (pos : 0 < numGpuBlocks) :
    Wf numGpuBlocks (KVState.init H numGpuBlocks) where
  pool := .init H pos
  refCnt _ _ := rfl
  once _ _ _ := Nat.zero_le _
  inRange _ _ mem := absurd mem not_mem_nil

variable {key : Nat × RequestId} {b : BlockId}

theorem refCnt_pos (wf : Wf N s) (mem : b ∈ s.reqToBlocks.get key) (notNull : b ≠ nullBlock) :
    1 ≤ s.blockPool.refCnt b := by
  have : (s.reqToBlocks.get key).count b ≤ s.held b := s.reqToBlocks.weight_get_le rfl key
  have := count_pos_iff.mpr mem
  rw [wf.refCnt b notNull]
  omega

theorem notMem_of_free (wf : Wf N s) (key : Nat × RequestId)
    (free : b ∈ s.blockPool.freeBlockQueue.blocks) : b ∉ s.reqToBlocks.get key := by
  intro mem
  obtain ⟨notNull, -, zero⟩ := (wf.pool.mem_free b).mp free
  have := wf.refCnt_pos mem notNull
  omega

/-- One table changes, and the counts with it. -/
theorem of_update (wf : Wf N s) (tables : s.reqToBlocks.Updated key s'.reqToBlocks)
    (pool : PoolOk N s'.blockPool)
    (refCnt : ∀ b, b ≠ nullBlock → s'.blockPool.refCnt b + (s.reqToBlocks.get key).count b =
      s.blockPool.refCnt b + (s'.reqToBlocks.get key).count b)
    (once : ∀ b, b ≠ nullBlock → (s'.reqToBlocks.get key).count b ≤ 1)
    (inRange : ∀ b ∈ s'.reqToBlocks.get key, b ≠ nullBlock → b < N) : Wf N s' where
  pool := pool
  refCnt b notNull := by
    have total : s'.held b + (s.reqToBlocks.get key).count b =
        s.held b + (s'.reqToBlocks.get key).count b :=
      tables.total (count b) rfl
    have := wf.refCnt b notNull
    have := refCnt b notNull
    omega
  once key' b notNull := by
    by_cases same : key' = key
    · exact same ▸ once b notNull
    · rw [tables.get_of_ne same]
      exact wf.once key' b notNull
  inRange key' b mem notNull := by
    by_cases same : key' = key
    · exact inRange b (same ▸ mem) notNull
    · rw [tables.get_of_ne same] at mem
      exact wf.inRange key' b mem notNull

theorem of_pool (wf : Wf N s) (pool : PoolOk N s'.blockPool)
    (refCnt : s'.blockPool.refCnt = s.blockPool.refCnt)
    (tables : s'.reqToBlocks = s.reqToBlocks) : Wf N s' where
  pool := pool
  refCnt b notNull := by
    rw [refCnt, wf.refCnt b notNull, KVState.held, KVState.held, tables]
  once key := by rw [tables]; exact wf.once key
  inRange key := by rw [tables]; exact wf.inRange key

end Wf

/-- Only the entries of one request in one group change. -/
structure OnlyEntry (key : Nat × RequestId) (s s' : KVState H) : Prop where
  tables : s.reqToBlocks.Updated key s'.reqToBlocks
  numCachedBlock : ∀ {key'}, key' ≠ key → s'.numCachedBlock key' = s.numCachedBlock key'
  lastStateBlockIdx : ∀ {key'}, key' ≠ key → s'.lastStateBlockIdx key' = s.lastStateBlockIdx key'
  allocatedBlockReqs : ∀ {key'}, key' ≠ key → s'.allocatedBlockReqs key' = s.allocatedBlockReqs key'

theorem OnlyEntry.refl (key : Nat × RequestId) (s : KVState H) : OnlyEntry key s s :=
  ⟨.refl _ _, fun _ => rfl, fun _ => rfl, fun _ => rfl⟩

/-! ### Freeing -/

/-- What `free_blocks` does to counts and hashes. -/
structure Freed (p : BlockPool H) (blocks : List BlockId) (p' : BlockPool H) : Prop where
  refCnt : ∀ b, p'.refCnt b = p.refCnt b - blocks.count b
  blockHash : p'.blockHash = p.blockHash
  cached : p'.cached = p.cached

theorem Freed.freeBlocks (p : BlockPool H) (blocks : List BlockId) (prepend : Bool) :
    Freed p blocks (p.freeBlocks blocks prepend) where
  refCnt := freeBlocks_refCnt p blocks prepend
  blockHash := rfl
  cached := rfl

variable {p : BlockPool H} {blocks : List BlockId} {key : Nat × RequestId}

theorem Freed.append {p₁ p₂ : BlockPool H} {rest : List BlockId} (first : Freed p blocks p₁)
    (second : Freed p₁ rest p₂) : Freed p (blocks ++ rest) p₂ where
  refCnt b := by
    rw [second.refCnt, first.refCnt, count_append]
    omega
  blockHash := second.blockHash.trans first.blockHash
  cached := second.cached.trans first.cached

/-- Giving blocks back in two parts. -/
theorem PoolOk.freeSplit (ok : PoolOk N p) (freeable : Freeable N p blocks) :
    PoolOk N (freeSplit p blocks) ∧
      Freed p blocks (freeSplit p blocks) := by
  have uncached : (fun b => (p.blockHash b).isNone) = fun b => !(p.blockHash b).isSome := by
    funext b
    simp
  have count : ∀ b, (blocks.filter fun b => (p.blockHash b).isSome).count b +
      (blocks.filter fun b => !(p.blockHash b).isSome).count b = blocks.count b := fun b => by
    rw [← count_append]
    exact (filter_append_perm _ blocks).count_eq b
  unfold SingleTypeKVCacheManager.freeSplit
  rw [uncached]
  have first : Freeable N p (blocks.filter fun b => (p.blockHash b).isSome) := by
    intro b mem notNull
    obtain ⟨lt, once, held⟩ := freeable b (mem_of_mem_filter mem) notNull
    have := count b
    exact ⟨lt, by omega, held⟩
  have ok₁ := ok.freeBlocks first false
  refine ⟨ok₁.freeBlocks (fun b mem notNull => ?_) true, fun b => ?_, rfl, rfl⟩
  · obtain ⟨lt, once, held⟩ := freeable b (mem_of_mem_filter mem) notNull
    have := count b
    have pos := count_pos_iff.mpr mem
    refine ⟨lt, by omega, ?_⟩
    rw [freeBlocks_refCnt]
    omega
  · have := count b
    rw [freeBlocks_refCnt, freeBlocks_refCnt]
    omega

/-! ### Skipped blocks -/

variable {b : BlockId}

theorem count_nulls (notNull : b ≠ nullBlock) (n : Nat) : (replicate n nullBlock).count b = 0 :=
  count_eq_zero.mpr fun mem => notNull (eq_of_mem_replicate mem)

/-- A table of which some positions became null. -/
structure Nulled (blocks blocks' : List BlockId) : Prop where
  length : blocks'.length = blocks.length
  sub : ∀ {i : Nat} {b : BlockId}, blocks'[i]? = some b → b ≠ nullBlock → blocks[i]? = some b

theorem Nulled.refl (blocks : List BlockId) : Nulled blocks blocks := ⟨rfl, fun found _ => found⟩

theorem Nulled.trans {blocks₁ blocks₂ : List BlockId} (first : Nulled blocks blocks₁)
    (second : Nulled blocks₁ blocks₂) : Nulled blocks blocks₂ where
  length := second.length.trans first.length
  sub found notNull := first.sub (second.sub found notNull) notNull

theorem Nulled.mem {blocks' : List BlockId} (nulled : Nulled blocks blocks') (mem : b ∈ blocks')
    (notNull : b ≠ nullBlock) : b ∈ blocks := by
  obtain ⟨i, found⟩ := mem_iff_getElem?.mp mem
  exact mem_of_getElem? (nulled.sub found notNull)

theorem nulled_middle (front middle back : List BlockId) :
    Nulled (front ++ middle ++ back) (front ++ replicate middle.length nullBlock ++ back) where
  length := by simp
  sub {i b} found notNull := by
    have inMiddle : i < front.length ∨ front.length + middle.length ≤ i := by
      by_contra inside
      have : (front ++ replicate middle.length nullBlock ++ back)[i]? = some nullBlock := by
        rw [getElem?_append_left (by simp; omega), getElem?_append_right (by omega),
          getElem?_replicate, if_pos (by omega)]
      rw [this] at found
      exact notNull (Option.some.inj found).symm
    rcases inMiddle with before | after
    · rw [append_assoc, getElem?_append_left before] at found ⊢
      exact found
    · rw [getElem?_append_right (by simpa using after)] at found ⊢
      simpa using found

theorem nulled_set (blocks : List BlockId) (i : Nat) : Nulled blocks (blocks.set i nullBlock) where
  length := length_set
  sub {j b} found notNull := by
    rcases eq_or_ne i j with rfl | same
    · rw [getElem?_set_self'] at found
      cases at_i : blocks[i]? with
      | none => simp [at_i] at found
      | some c =>
        simp only [at_i] at found
        exact absurd (Option.some.inj found).symm notNull
    · rwa [getElem?_set_ne same] at found

open SingleTypeKVCacheManager (skippedBlocks blocksAfterSkip)

/-- The skipped blocks are the end of the blocks before the window. -/
theorem eq_append_skippedBlocks (blocks : List BlockId) (n : Nat) :
    blocks = blocks.take (min n blocks.length - (skippedBlocks blocks n).length) ++
      (skippedBlocks blocks n).reverse ++ blocks.drop (min n blocks.length) := by
  have split : blocks.take n =
      ((blocks.take n).reverse.dropWhile fun b => decide (b ≠ nullBlock)).reverse ++
        (skippedBlocks blocks n).reverse := by
    rw [← reverse_append, skippedBlocks, takeWhile_append_dropWhile, reverse_reverse]
  have length := congrArg length split
  rw [length_append, length_reverse, length_reverse, length_take] at length
  have front : blocks.take (min n blocks.length - (skippedBlocks blocks n).length) =
      ((blocks.take n).reverse.dropWhile fun b => decide (b ≠ nullBlock)).reverse := by
    rw [prefix_iff_eq_take.mp ⟨_, split.symm⟩, take_take, length_reverse]
    congr 1
    omega
  rw [front, ← split, take_eq_take_min]
  exact (take_append_drop _ _).symm

/-- Skipped positions become null and their blocks are given back; nothing else
changes. -/
structure Skipped (key : Nat × RequestId) (s s' : KVState H) : Prop where
  tables : s.reqToBlocks.Updated key s'.reqToBlocks
  nulled : Nulled (s.reqToBlocks.get key) (s'.reqToBlocks.get key)
  freed : ∃ blocks, Freed s.blockPool blocks s'.blockPool ∧ ∀ b, b ≠ nullBlock →
    (s'.reqToBlocks.get key).count b + blocks.count b = (s.reqToBlocks.get key).count b
  pool_of_nil : s.reqToBlocks.get key = [] → s'.blockPool = s.blockPool
  numCachedBlock : s'.numCachedBlock = s.numCachedBlock
  lastStateBlockIdx : s'.lastStateBlockIdx = s.lastStateBlockIdx
  allocatedBlockReqs : s'.allocatedBlockReqs = s.allocatedBlockReqs
  cachedBlocksThisStep : s'.cachedBlocksThisStep = s.cachedBlocksThisStep

theorem Skipped.refl (key : Nat × RequestId) (s : KVState H) : Skipped key s s where
  tables := .refl _ _
  nulled := .refl _
  freed := ⟨[], ⟨by simp, rfl, rfl⟩, by simp⟩
  pool_of_nil _ := rfl
  numCachedBlock := rfl
  lastStateBlockIdx := rfl
  allocatedBlockReqs := rfl
  cachedBlocksThisStep := rfl

theorem Skipped.trans {s₁ s₂ : KVState H} (first : Skipped key s s₁) (second : Skipped key s₁ s₂) :
    Skipped key s s₂ where
  tables := first.tables.trans second.tables
  nulled := first.nulled.trans second.nulled
  freed := by
    obtain ⟨blocks, freed, count⟩ := first.freed
    obtain ⟨rest, freedRest, countRest⟩ := second.freed
    refine ⟨blocks ++ rest, freed.append freedRest, fun b notNull => ?_⟩
    have := count b notNull
    have := countRest b notNull
    rw [count_append]
    omega
  pool_of_nil empty := by
    have length := first.nulled.length
    rw [empty] at length
    exact (second.pool_of_nil (length_eq_zero_iff.mp length)).trans (first.pool_of_nil empty)
  numCachedBlock := second.numCachedBlock.trans first.numCachedBlock
  lastStateBlockIdx := second.lastStateBlockIdx.trans first.lastStateBlockIdx
  allocatedBlockReqs := second.allocatedBlockReqs.trans first.allocatedBlockReqs
  cachedBlocksThisStep := second.cachedBlocksThisStep.trans first.cachedBlocksThisStep

theorem Skipped.onlyEntry (skipped : Skipped key s s') : OnlyEntry key s s' where
  tables := skipped.tables
  numCachedBlock _ := by rw [skipped.numCachedBlock]
  lastStateBlockIdx _ := by rw [skipped.lastStateBlockIdx]
  allocatedBlockReqs _ := by rw [skipped.allocatedBlockReqs]

theorem Wf.skip (wf : Wf N s) (skipped : Skipped key s s') (pool : PoolOk N s'.blockPool) :
    Wf N s' := by
  obtain ⟨blocks, freed, count⟩ := skipped.freed
  refine wf.of_update skipped.tables pool (fun b notNull => ?_) (fun b notNull => ?_)
    fun b mem notNull => wf.inRange key b (skipped.nulled.mem mem notNull) notNull
  · have := count b notNull
    rw [freed.refCnt]
    omega
  · have := count b notNull
    have := wf.once key b notNull
    omega

/-- Blocks out of one table, no more often than the table has them, can be given
back. -/
theorem Wf.freeable (wf : Wf N s) (key : Nat × RequestId)
    (count : ∀ b, b ≠ nullBlock → blocks.count b ≤ (s.reqToBlocks.get key).count b) :
    Freeable N s.blockPool blocks := by
  intro b mem notNull
  have pos := count_pos_iff.mpr mem
  have le := count b notNull
  have mem : b ∈ s.reqToBlocks.get key := count_pos_iff.mp (by omega)
  exact ⟨wf.inRange key b mem notNull, Nat.le_trans le (wf.once key b notNull),
    wf.refCnt_pos mem notNull⟩

namespace SingleTypeKVCacheManager

variable {m : SingleTypeKVCacheManager} {r : RequestId}

theorem get_setBlocks (s : KVState H) (blocks : List BlockId) :
    (m.setBlocks s r blocks).reqToBlocks.get (m.key r) = blocks :=
  Dict.get_set_self _ _ _

theorem count_blocksAfterSkip (blocks : List BlockId) (n : Nat) (notNull : b ≠ nullBlock) :
    (blocksAfterSkip blocks n).count b + (skippedBlocks blocks n).count b = blocks.count b := by
  have split := congrArg (count b) (eq_append_skippedBlocks blocks n)
  rw [count_append, count_append, count_reverse] at split
  rw [blocksAfterSkip, count_append, count_append, count_nulls notNull]
  omega

theorem nulled_blocksAfterSkip (blocks : List BlockId) (n : Nat) :
    Nulled blocks (blocksAfterSkip blocks n) := by
  have := nulled_middle (blocks.take (min n blocks.length - (skippedBlocks blocks n).length))
    (skippedBlocks blocks n).reverse (blocks.drop (min n blocks.length))
  rwa [← eq_append_skippedBlocks, length_reverse] at this

theorem baseRemoveSkippedBlocks_spec (m : SingleTypeKVCacheManager) (r : RequestId)
    (wf : Wf N s) (n : Nat) :
    Skipped (m.key r) s (m.baseRemoveSkippedBlocks s r n) ∧
      Wf N (m.baseRemoveSkippedBlocks s r n) := by
  unfold baseRemoveSkippedBlocks
  split
  · exact ⟨.refl _ s, wf⟩
  · have count : ∀ b, b ≠ nullBlock → _ := fun b notNull =>
      count_blocksAfterSkip (m.blocksOf s r) (m.numSkippedBlocks n) notNull
    have freeable := wf.freeable (m.key r) fun b notNull =>
      Nat.le.intro ((Nat.add_comm _ _).trans (count b notNull))
    obtain ⟨pool, freed⟩ := wf.pool.freeSplit freeable
    have skipped : Skipped (m.key r) s
        { m.setBlocks s r (blocksAfterSkip (m.blocksOf s r) (m.numSkippedBlocks n)) with
          blockPool := freeSplit s.blockPool
            (skippedBlocks (m.blocksOf s r) (m.numSkippedBlocks n)) } := by
      refine ⟨Dict.updated_set _ _ _, ?_, ⟨_, freed, fun b notNull => ?_⟩, fun empty => ?_, rfl, rfl,
        rfl, rfl⟩
      · simp only [get_setBlocks]
        exact nulled_blocksAfterSkip _ _
      · simp only [get_setBlocks]
        exact count b notNull
      · have noBlocks : skippedBlocks (m.blocksOf s r) (m.numSkippedBlocks n) = [] := by
          rw [blocksOf, empty]
          simp [skippedBlocks]
        simp [noBlocks, freeSplit, freeBlocks_nil]
    exact ⟨skipped, wf.skip skipped pool⟩

theorem freeLastStateBlock_spec (wf : Wf N s) {n : Nat}
    (run : m.freeLastStateBlock s r n = .ok s') :
    Skipped (m.key r) s s' ∧ Wf N s' := by
  unfold freeLastStateBlock at run
  split at run
  · cases run
    exact ⟨.refl _ s, wf⟩
  · rename_i idx _
    split at run
    · simp only at run
      split at run
      · cases run
      · rename_i block found
        split at run
        · rename_i notNull
          cases run
          have mem := List.mem_of_getElem? found
          have count : ∀ b, b ≠ nullBlock → ((m.blocksOf s r).set idx nullBlock).count b +
              [block].count b = (m.blocksOf s r).count b := by
            intro b bNotNull
            obtain ⟨lt, at_idx⟩ := List.getElem?_eq_some_iff.mp found
            rw [count_set lt, at_idx, count_singleton]
            have pos := count_pos_iff.mpr mem
            rcases eq_or_ne block b with rfl | same
            · have : ¬ (nullBlock == block) = true := by simpa using Ne.symm notNull
              simp only [beq_self_eq_true, if_true, if_neg this]
              omega
            · have null : ¬ (nullBlock == b) = true := by simpa using Ne.symm bNotNull
              have other : ¬ (block == b) = true := by simpa using same
              simp [null, other]
          have freeable : Freeable N s.blockPool [block] := wf.freeable (m.key r) fun b notNull =>
            Nat.le.intro ((Nat.add_comm _ _).trans (count b notNull))
          have skipped : Skipped (m.key r) s
              { m.setBlocks s r ((m.blocksOf s r).set idx nullBlock) with
                blockPool := s.blockPool.freeBlocks [block] false } := by
            refine ⟨Dict.updated_set _ _ _, ?_, ⟨_, Freed.freeBlocks _ _ _, fun b notNull => ?_⟩,
              fun empty => ?_, rfl, rfl, rfl, rfl⟩
            · simp only [get_setBlocks]
              exact nulled_set _ _
            · simp only [get_setBlocks]
              exact count b notNull
            · rw [blocksOf, empty] at mem
              cases mem
          exact ⟨skipped, wf.skip skipped (wf.pool.freeBlocks freeable false)⟩
        · cases run
          exact ⟨.refl _ s, wf⟩
    · cases run
      exact ⟨.refl _ s, wf⟩

theorem removeSkippedBlocks_spec (wf : Wf N s) {n : Nat}
    (run : m.removeSkippedBlocks s r n = .ok s') :
    Skipped (m.key r) s s' ∧ Wf N s' := by
  unfold removeSkippedBlocks at run
  split at run
  · rename_i mode k _
    obtain ⟨skipped, wf₁⟩ := baseRemoveSkippedBlocks_spec m r wf (n - k)
    split at run
    · obtain ⟨last, wf₂⟩ := freeLastStateBlock_spec wf₁ run
      exact ⟨skipped.trans last, wf₂⟩
    · cases run
      exact ⟨skipped, wf₁⟩
  · cases run
    exact baseRemoveSkippedBlocks_spec m r wf n

theorem get_free (m : SingleTypeKVCacheManager) (s : KVState H) (r : RequestId) :
    (m.free s r).reqToBlocks.get (m.key r) = [] :=
  Dict.get_erase_self _ _

theorem free_onlyEntry (m : SingleTypeKVCacheManager) (s : KVState H) (r : RequestId) :
    OnlyEntry (m.key r) s (m.free s r) where
  tables := Dict.updated_erase _ _
  numCachedBlock ne := update_of_ne ne _ _
  lastStateBlockIdx ne := update_of_ne ne _ _
  allocatedBlockReqs ne := update_of_ne ne _ _

theorem free_spec (m : SingleTypeKVCacheManager) (r : RequestId) (wf : Wf N s) :
    Freed s.blockPool (m.blocksOf s r).reverse (m.free s r).blockPool ∧
      Wf N (m.free s r) := by
  have freeable : Freeable N s.blockPool (m.blocksOf s r).reverse :=
    wf.freeable (m.key r) fun b _ => Nat.le_of_eq (count_reverse)
  have freed : PoolOk N (m.free s r).blockPool ∧
      Freed s.blockPool (m.blocksOf s r).reverse (m.free s r).blockPool := by
    simp only [free]
    split
    · exact wf.pool.freeSplit freeable
    · exact ⟨wf.pool.freeBlocks freeable false, .freeBlocks _ _ _⟩
  refine ⟨freed.2, wf.of_update (free_onlyEntry m s r).tables freed.1 (fun b _ => ?_) ?_ ?_⟩
  · rw [freed.2.refCnt, get_free, count_reverse, count_nil, blocksOf]
    omega
  · rw [get_free]
    exact fun _ _ => Nat.zero_le _
  · rw [get_free]
    exact nofun

end SingleTypeKVCacheManager

/-! ### New blocks -/

/-- New blocks at the end of a table whose old blocks are still there. -/
theorem Wf.take [DecidableEq H] {enableCaching : Bool} (wf : Wf N s) {n : Int} (nonneg : 0 ≤ n)
    {kept : List BlockId}
    (run : s.blockPool.getNewBlocks enableCaching n = .ok (blocks, s'.blockPool))
    (tables : s.reqToBlocks.Updated key s'.reqToBlocks)
    (table : s'.reqToBlocks.get key = kept ++ blocks)
    (same : ∀ b, b ≠ nullBlock → kept.count b = (s.reqToBlocks.get key).count b) : Wf N s' := by
  obtain ⟨rfl, -, pool, taken, -⟩ := wf.pool.of_getNewBlocks nonneg run
  have free : ∀ b ∈ s.blockPool.freeBlockQueue.blocks.take n.toNat,
      b ∈ s.blockPool.freeBlockQueue.blocks := fun b mem => mem_of_mem_take mem
  have nodup := wf.pool.nodup.sublist (take_sublist n.toNat _)
  refine wf.of_update tables pool (fun b notNull => ?_) (fun b notNull => ?_) fun b mem notNull => ?_
  · rw [table, taken.refCnt, count_append, same b notNull]
    omega
  · rw [table, count_append, same b notNull]
    by_cases mem : b ∈ s.blockPool.freeBlockQueue.blocks.take n.toNat
    · rw [count_eq_zero.mpr (wf.notMem_of_free key (free b mem)), Nat.zero_add]
      exact nodup_iff_count_le_one.mp nodup b
    · rw [count_eq_zero.mpr mem]
      exact wf.once key b notNull
  · rw [table] at mem
    rcases mem_append.mp mem with old | new
    · have pos := count_pos_iff.mpr old
      rw [same b notNull] at pos
      exact wf.inRange key b (count_pos_iff.mp pos) notNull
    · exact ((wf.pool.mem_free b).mp (free b new)).2.1

/-- Moving blocks to the end of the table, one by one. -/
theorem foldl_moveBlock (front moved back : List BlockId) :
    (range' front.length moved.length).foldl moveBlock (front ++ moved ++ back) =
      front ++ replicate moved.length nullBlock ++ back ++ moved := by
  induction moved generalizing front back with
  | nil => simp
  | cons block rest ih =>
    have step : moveBlock (front ++ (block :: rest) ++ back) front.length =
        (front ++ [nullBlock]) ++ rest ++ (back ++ [block]) := by
      simp [moveBlock]
    have := ih (front ++ [nullBlock]) (back ++ [block])
    rw [length_append, length_singleton] at this
    rw [length_cons, range'_succ, foldl_cons, step, this, replicate_succ]
    simp

/-- The table after the speculative blocks before `numSkippedBlocks` moved. -/
theorem reuseSpeculativeBlocks_eq (numSpeculativeBlocks numSkippedBlocks : Nat)
    (blocks : List BlockId) :
    let start := blocks.length - numSpeculativeBlocks
    let moved := (blocks.drop start).take (min blocks.length numSkippedBlocks - start)
    blocks = blocks.take start ++ moved ++ blocks.drop (start + moved.length) ∧
    reuseSpeculativeBlocks numSpeculativeBlocks numSkippedBlocks blocks =
      blocks.take start ++ replicate moved.length nullBlock ++
        (blocks.drop (start + moved.length) ++
          replicate (numSkippedBlocks - blocks.length) nullBlock) ++ moved := by
  intro start moved
  have lengthMoved : moved.length = min blocks.length numSkippedBlocks - start := by
    simp only [moved, length_take, length_drop]
    omega
  have split : blocks = blocks.take start ++ moved ++ blocks.drop (start + moved.length) := by
    rw [lengthMoved, append_assoc, ← drop_drop, take_append_drop,
      take_append_drop]
  refine ⟨split, ?_⟩
  have lengthFront : (blocks.take start).length = start := by
    rw [length_take]
    omega
  have moves := foldl_moveBlock (blocks.take start) moved (blocks.drop (start + moved.length) ++
    replicate (numSkippedBlocks - blocks.length) nullBlock)
  rw [← append_assoc, ← split, lengthFront, lengthMoved] at moves
  rw [lengthMoved]
  exact moves

theorem count_reuseSpeculativeBlocks (numSpeculativeBlocks numSkippedBlocks : Nat)
    (blocks : List BlockId) (notNull : b ≠ nullBlock) :
    (reuseSpeculativeBlocks numSpeculativeBlocks numSkippedBlocks blocks).count b =
      blocks.count b := by
  obtain ⟨split, reused⟩ := reuseSpeculativeBlocks_eq numSpeculativeBlocks numSkippedBlocks blocks
  have count := congrArg (count b) split
  rw [count_append, count_append] at count
  rw [reused, count_append, count_append, count_append, count_append,
    count_nulls notNull, count_nulls notNull]
  omega

theorem length_reuseSpeculativeBlocks {numSpeculativeBlocks numSkippedBlocks : Nat}
    (le : numSpeculativeBlocks ≤ blocks.length)
    (past : blocks.length ≤ numSkippedBlocks + numSpeculativeBlocks) :
    (reuseSpeculativeBlocks numSpeculativeBlocks numSkippedBlocks blocks).length =
      max blocks.length numSkippedBlocks +
        (min blocks.length numSkippedBlocks + numSpeculativeBlocks - blocks.length) := by
  obtain ⟨-, reused⟩ := reuseSpeculativeBlocks_eq numSpeculativeBlocks numSkippedBlocks blocks
  rw [reused]
  simp only [length_append, length_take, length_drop, length_replicate]
  omega

/-- A table got new blocks from the pool; `kept` is what became of the old ones. -/
structure Grown [DecidableEq H] (enableCaching : Bool) (key : Nat × RequestId) (s s' : KVState H)
    (kept blocks : List BlockId) : Prop where
  entry : OnlyEntry key s s'
  table : s'.reqToBlocks.get key = kept ++ blocks
  same : ∀ b, b ≠ nullBlock → kept.count b = (s.reqToBlocks.get key).count b
  run : s.blockPool.getNewBlocks enableCaching blocks.length = .ok (blocks, s'.blockPool)
  numCachedBlock : s'.numCachedBlock = s.numCachedBlock
  cachedBlocksThisStep : s'.cachedBlocksThisStep = s.cachedBlocksThisStep

section Grow

variable [DecidableEq H] {enableCaching : Bool} {key : Nat × RequestId}

theorem Wf.grow {kept : List BlockId} (wf : Wf N s)
    (grown : Grown enableCaching key s s' kept blocks) : Wf N s' :=
  wf.take (Int.natCast_nonneg _) grown.run grown.entry.tables grown.table grown.same

theorem Wf.grown_refl (wf : Wf N s) (enableCaching : Bool) (key : Nat × RequestId) :
    Grown enableCaching key s s (s.reqToBlocks.get key) [] :=
  ⟨.refl _ _, (append_nil _).symm,
    fun _ _ => rfl, wf.pool.getNewBlocks_zero enableCaching, rfl, rfl⟩

theorem length_of_getNewBlocks (wf : Wf N s) {n : Nat} {p' : BlockPool H}
    (run : s.blockPool.getNewBlocks enableCaching n = .ok (blocks, p')) : blocks.length = n := by
  obtain ⟨rfl, enough, -⟩ := wf.pool.of_getNewBlocks (Int.natCast_nonneg n) run
  rw [length_take]
  have := wf.pool.numFree
  omega

namespace SingleTypeKVCacheManager

variable {m : SingleTypeKVCacheManager} {r : RequestId}

variable {n k : Nat} {blocks hits : List BlockId}

/-- The table grows to the blocks that the tokens need. -/
theorem baseAllocateNewBlocks_spec (wf : Wf N s)
    (run : m.baseAllocateNewBlocks s r n = .ok (blocks, s')) :
    Grown m.enableCaching (m.key r) s s' (m.blocksOf s r) blocks ∧
      blocks.length = cdiv n m.blockSize - (m.blocksOf s r).length ∧
      s'.lastStateBlockIdx = s.lastStateBlockIdx ∧ s'.allocatedBlockReqs = s.allocatedBlockReqs := by
  unfold baseAllocateNewBlocks at run
  simp only at run
  split at run
  · cases run
    exact ⟨wf.grown_refl _ _, by rw [length_nil]; omega, rfl, rfl⟩
  · obtain ⟨⟨newBlocks, pool⟩, taken, run⟩ := bind_eq_ok.mp run
    cases run
    have length := length_of_getNewBlocks wf taken
    refine ⟨⟨⟨Dict.updated_set _ _ _, fun _ => rfl, fun _ => rfl, fun _ => rfl⟩,
      get_setBlocks _ _, fun _ _ => rfl, ?_, rfl, rfl⟩, length, rfl, rfl⟩
    rw [length]
    exact taken

omit [DecidableEq H] in
/-- An align-mode table leaves room for one new block if the request had its state
blocks, and for at most the speculative blocks more otherwise. -/
theorem length_alignTable
    (spec : s.allocatedBlockReqs (m.key r) = true → k < (m.blocksOf s r).length)
    (grows : (m.blocksOf s r).length < cdiv n m.blockSize + k) :
    (m.alignTable s r k n).length =
      if s.allocatedBlockReqs (m.key r) then cdiv n m.blockSize + k - 1
      else max (m.blocksOf s r).length (cdiv n m.blockSize - 1) := by
  rw [alignTable]
  split
  · rename_i allocated
    have := spec allocated
    rw [length_reuseSpeculativeBlocks (by omega) (by omega)]
    omega
  · obtain ⟨-, reused⟩ := reuseSpeculativeBlocks_eq 0 (cdiv n m.blockSize - 1)
      (m.blocksOf s r)
    rw [reused]
    simp only [length_append, length_take, length_drop, length_replicate]
    omega

/-- The table grows to one state block past the null blocks, and the speculative
blocks. -/
theorem alignAllocateNewBlocks_spec (wf : Wf N s)
    (spec : s.allocatedBlockReqs (m.key r) = true → k < (m.blocksOf s r).length)
    (run : m.alignAllocateNewBlocks s r k n = .ok (blocks, s')) :
    (cdiv n m.blockSize + k ≤ (m.blocksOf s r).length ∧ s' = s) ∨
    ((m.blocksOf s r).length < cdiv n m.blockSize + k ∧ ∃ newBlocks,
      Grown m.enableCaching (m.key r) s s' (m.alignTable s r k n) newBlocks ∧
      (m.alignTable s r k n).length + newBlocks.length = cdiv n m.blockSize + k ∧
      s'.allocatedBlockReqs (m.key r) = true ∧
      ∀ idx, s'.lastStateBlockIdx (m.key r) = some idx →
        idx < (m.blocksOf s r).length ∨ s.lastStateBlockIdx (m.key r) = some idx) := by
  unfold alignAllocateNewBlocks at run
  simp only at run
  split at run
  · rename_i enough
    cases run
    exact .inl ⟨enough, rfl⟩
  · have grows : (m.blocksOf s r).length < cdiv n m.blockSize + k := by omega
    obtain ⟨-, run⟩ := guard_eq_ok.mp run
    obtain ⟨⟨newBlocks, pool⟩, taken, run⟩ := bind_eq_ok.mp run
    cases run
    have length := length_alignTable spec grows
    obtain ⟨room, fits⟩ : ∃ room : Nat, ((cdiv n m.blockSize + k : Nat) : Int) -
        (m.alignTable s r k n).length = room := by
      refine Int.eq_ofNat_of_zero_le ?_
      rw [length]
      split <;> omega
    rw [fits] at taken
    have lengthNew := length_of_getNewBlocks wf taken
    refine .inr ⟨grows, newBlocks, ⟨⟨Dict.updated_set _ _ _, fun _ => rfl,
      fun ne => update_of_ne ne _ _, fun ne => update_of_ne ne _ _⟩,
      get_setBlocks _ _, fun b notNull => count_reuseSpeculativeBlocks _ _ _ notNull, ?_, rfl, rfl⟩,
      ?_, update_self _ _ _, fun idx last => ?_⟩
    · rw [lengthNew]
      exact taken
    · omega
    · simp only [update_self, nextLastStateBlockIdx] at last
      split at last
      · rename_i allocated
        have := spec allocated
        have := Option.some.inj last
        exact .inl (by omega)
      · split at last
        · have := Option.some.inj last
          exact .inl (by omega)
        · exact .inr last

omit [DecidableEq H] in
theorem touchHits_spec {p p' : BlockPool H} (ok : PoolOk N p)
    (inRange : ∀ b ∈ hits, b ≠ nullBlock → b < N) (run : m.touchHits p hits = .ok p') :
    PoolOk.Touched p hits p' ∧ PoolOk N p' := by
  unfold touchHits at run
  split at run
  · obtain ⟨p₂, run₂, ok₂, touched⟩ := ok.touch inRange
    rw [run₂] at run
    cases run
    exact ⟨touched, ok₂⟩
  · obtain ⟨noHits, run⟩ := guard_eq_ok.mp run
    cases run
    rw [Decidable.not_not.mp noHits]
    exact ⟨⟨by simp, rfl, rfl, by simp, by simp⟩, ok⟩

omit [DecidableEq H] in
theorem enterHits_wf (wf : Wf N s) {p₁ : BlockPool H} (fresh : m.blocksOf s r = [])
    (once : ∀ b, b ≠ nullBlock → (m.hitsInWindow hits n).count b ≤ 1)
    (inRange : ∀ b ∈ m.hitsInWindow hits n, b ≠ nullBlock → b < N)
    (touched : PoolOk.Touched s.blockPool (m.hitsInWindow hits n) p₁) (ok : PoolOk N p₁) :
    Wf N { m.setBlocks s r (m.hitTable hits n) with blockPool := p₁ } := by
  have empty : s.reqToBlocks.get (m.key r) = [] := fresh
  refine wf.of_update (Dict.updated_set _ _ _) ok (fun b notNull => ?_) (fun b notNull => ?_)
    fun b mem notNull => ?_
  · rw [get_setBlocks, empty, touched.refCnt, hitTable, count_append, count_nulls notNull,
      count_nil]
    omega
  · rw [get_setBlocks, hitTable, count_append, count_nulls notNull, Nat.zero_add]
    exact once b notNull
  · rw [get_setBlocks] at mem
    rcases mem_append.mp mem with null | hit
    · exact absurd (eq_of_mem_replicate null) notNull
    · exact inRange b hit notNull

/-- The hits of a new request enter its table, followed by blocks for the external
tokens in the window. -/
theorem addComputedBlocks_spec (wf : Wf N s) {numLocal numExternal : Nat}
    (fresh : m.blocksOf s r = [])
    (once : ∀ b, b ≠ nullBlock → (m.hitsInWindow hits (numLocal + numExternal)).count b ≤ 1)
    (inRange : ∀ b ∈ m.hitsInWindow hits (numLocal + numExternal), b ≠ nullBlock → b < N)
    (nonneg : 0 < m.numExternalInWindow numLocal numExternal →
      0 ≤ m.numExternalBlocks hits (numLocal + numExternal))
    (run : m.addComputedBlocks s r hits numLocal numExternal = .ok s') :
    ∃ p₁ blocks, PoolOk.Touched s.blockPool (m.hitsInWindow hits (numLocal + numExternal)) p₁ ∧
      PoolOk N p₁ ∧
      p₁.getNewBlocks m.enableCaching blocks.length = .ok (blocks, s'.blockPool) ∧
      ((blocks.length : Int) = if 0 < m.numExternalInWindow numLocal numExternal then
        m.numExternalBlocks hits (numLocal + numExternal) else 0) ∧
      s'.reqToBlocks.get (m.key r) = m.hitTable hits (numLocal + numExternal) ++ blocks ∧
      OnlyEntry (m.key r) s s' ∧
      s'.numCachedBlock (m.key r) = some (m.hitTable hits (numLocal + numExternal)).length ∧
      s'.lastStateBlockIdx = s.lastStateBlockIdx ∧ s'.allocatedBlockReqs = s.allocatedBlockReqs ∧
      s'.cachedBlocksThisStep = s.cachedBlocksThisStep ∧ Wf N s' := by
  obtain ⟨p₁, touchRun, run⟩ := bind_eq_ok.mp run
  obtain ⟨touched, ok₁⟩ := touchHits_spec wf.pool inRange touchRun
  obtain ⟨⟨blocks, p₂⟩, takeRun, run⟩ := bind_eq_ok.mp run
  cases run
  obtain ⟨n, amount, takeRun⟩ : ∃ n : Nat,
      ((n : Int) = if 0 < m.numExternalInWindow numLocal numExternal then
        m.numExternalBlocks hits (numLocal + numExternal) else 0) ∧
      p₁.getNewBlocks m.enableCaching n = .ok (blocks, p₂) := by
    unfold takeExternal at takeRun
    split at takeRun
    · rename_i external
      obtain ⟨n, eq⟩ := Int.eq_ofNat_of_zero_le (nonneg external)
      rw [eq] at takeRun
      exact ⟨n, by rw [if_pos external, eq], takeRun⟩
    · rename_i noExternal
      cases takeRun
      exact ⟨0, by rw [if_neg noExternal]; rfl, ok₁.getNewBlocks_zero m.enableCaching⟩
  have wf₁ := enterHits_wf wf fresh once inRange touched ok₁
  have length := length_of_getNewBlocks wf₁ takeRun
  rw [← length] at takeRun amount
  refine ⟨p₁, blocks, touched, ok₁, takeRun, amount, get_setBlocks _ _,
    ⟨Dict.updated_set _ _ _, fun ne => update_of_ne ne _ _, fun _ => rfl, fun _ => rfl⟩,
    update_self _ _ _, rfl, rfl, rfl, ?_⟩
  exact wf₁.take (Int.natCast_nonneg _) takeRun ((Dict.updated_set _ _ _).symm.trans
    (Dict.updated_set _ _ _)) (get_setBlocks _ _) fun b _ => by rw [get_setBlocks]

end SingleTypeKVCacheManager

end Grow

/-! ### Caching -/

section Cache

variable [DecidableEq H] {p p' : BlockPool H}

theorem CacheOk.insertCached (ok : CacheOk N p) (key : BlockHashWithGroupId H) {block : BlockId}
    (uncached : p.blockHash block = none) (inRange : block ≠ nullBlock ∧ block < N) :
    CacheOk N (p.insertCached key block) := by
  have notMem : ∀ key', block ∉ p.cached key' := fun key' mem => by
    have := (ok.mem_cached key' block).mp mem
    rw [uncached] at this
    cases this
  have cached : ∀ key', (p.insertCached key block).cached key' =
      if key' = key then p.cached key ++ [block] else p.cached key' := by
    intro key'
    rcases eq_or_ne key' key with rfl | same
    · simp [BlockPool.insertCached, notMem]
    · simp [BlockPool.insertCached, same]
  have hash : ∀ b, (p.insertCached key block).blockHash b =
      if b = block then some key else p.blockHash b := fun b => Function.update_apply _ _ _ _
  refine ⟨fun key' b => ?_, fun key' => ?_, fun b key' hashed => ?_⟩
  · rw [cached, hash]
    rcases eq_or_ne b block with rfl | sameBlock
    · by_cases sameKey : key' = key
      · simp [sameKey]
      · simp [sameKey, notMem, Ne.symm sameKey]
    · by_cases sameKey : key' = key
      · simp [sameKey, sameBlock, ok.mem_cached]
      · simp [sameKey, sameBlock, ok.mem_cached]
  · rw [cached]
    split
    · exact nodup_append.mpr ⟨ok.cached_nodup key, nodup_singleton _, fun a mem b isBlock =>
        fun same => notMem key (mem_singleton.mp isBlock ▸ same ▸ mem)⟩
    · exact ok.cached_nodup key'
  · rw [hash] at hashed
    split at hashed
    · rename_i same
      exact same ▸ inRange
    · exact ok.hash_inRange b key' hashed

/-- What `cache_full_blocks` does: hashes stay, and a block of the table may get
the hash of its position. -/
structure Cached (m : SingleTypeKVCacheManager) (blockHashes : List H) (blocks : List BlockId)
    (numFullBlocks : Nat) (p p' : BlockPool H) : Prop where
  refCnt : p'.refCnt = p.refCnt
  freeBlockQueue : p'.freeBlockQueue = p.freeBlockQueue
  kept : ∀ b key, p.blockHash b = some key → p'.blockHash b = some key
  new : ∀ b key, p'.blockHash b = some key → p.blockHash b = none →
    ∃ i, i < numFullBlocks ∧ blocks[i]? = some b ∧ b ≠ nullBlock ∧
      key.groupId = m.kvCacheGroupId ∧ m.fullBlockHash blockHashes i = .ok key.blockHash

namespace SingleTypeKVCacheManager

variable {m : SingleTypeKVCacheManager}

variable {blockHashes : List H} {blocks : List BlockId} {numFullBlocks n : Nat}
  {request : Request H} {retention : Option Nat}

theorem cacheBlock_spec {p₁ p₂ : BlockPool H} {entry : (BlockId × Nat) × Bool} (ok : CacheOk N p₁)
    (cached : Cached m blockHashes blocks numFullBlocks p p₁)
    (inTable : entry.1.2 < numFullBlocks ∧ blocks[entry.1.2]? = some entry.1.1)
    (inRange : ∀ b ∈ blocks, b ≠ nullBlock → b < N)
    (run : m.cacheBlock blockHashes p₁ entry = .ok p₂) :
    CacheOk N p₂ ∧ Cached m blockHashes blocks numFullBlocks p p₂ := by
  obtain ⟨⟨block, i⟩, reachable⟩ := entry
  simp only [cacheBlock] at run
  split at run
  · cases run
    exact ⟨ok, cached⟩
  · rename_i notSkipped
    have notNull : block ≠ nullBlock := fun null => notSkipped (.inl null)
    split at run
    · cases run
    · rename_i uncached
      obtain ⟨blockHash, hash, run⟩ := bind_eq_ok.mp run
      cases run
      simp only [Option.not_isSome_iff_eq_none] at uncached
      have hashed : ∀ b, (p₁.insertCached ⟨blockHash, m.kvCacheGroupId⟩ block).blockHash b =
          if b = block then some ⟨blockHash, m.kvCacheGroupId⟩ else p₁.blockHash b :=
        fun b => Function.update_apply _ _ _ _
      refine ⟨ok.insertCached _ uncached ⟨notNull, inRange block (mem_of_getElem? inTable.2) notNull⟩,
        cached.refCnt, cached.freeBlockQueue, fun b key old => ?_, fun b key new old => ?_⟩
      · rw [hashed]
        have := cached.kept b key old
        split
        · rename_i same
          rw [same, uncached] at this
          cases this
        · exact this
      · rw [hashed] at new
        split at new
        · rename_i same
          cases new
          exact ⟨i, inTable.1, same ▸ inTable.2, same ▸ notNull, rfl, hash⟩
        · exact cached.new b key new old

theorem cacheFullBlocks_spec {numCachedBlocks : Nat} {mask : Option (List Bool)} (ok : CacheOk N p)
    (inRange : ∀ b ∈ blocks, b ≠ nullBlock → b < N)
    (run : m.cacheFullBlocks p blockHashes blocks numCachedBlocks numFullBlocks mask = .ok p') :
    CacheOk N p' ∧ Cached m blockHashes blocks numFullBlocks p p' := by
  obtain ⟨-, run⟩ := guard_eq_ok.mp run
  split at run
  · cases run
  refine foldlM_keeps (fun p₁ => CacheOk N p₁ ∧ Cached m blockHashes blocks numFullBlocks p p₁)
    (fun p₁ entry mem p₂ inv step => cacheBlock_spec inv.1 inv.2 ?_ inRange step)
    ⟨ok, rfl, rfl, fun _ _ => id, fun b key new old => ?_⟩ run
  · -- The entry is a position of the table below `numFullBlocks`.
    have mem := mem_of_mem_drop (of_mem_zip mem).1
    obtain ⟨j, found⟩ := mem_iff_getElem?.mp mem
    rw [getElem?_take] at found
    split at found
    · rename_i lt
      obtain ⟨b, at_j, eq⟩ := Option.map_eq_some_iff.mp (getElem?_zipIdx ▸ found)
      rw [← eq]
      exact ⟨by simpa using lt, by simpa using at_j⟩
    · cases found
  · rw [old] at new
    cases new

/-- What a manager's `cache_blocks` does. -/
structure CachedBlocks (m : SingleTypeKVCacheManager) (request : Request H) (numTokens : Nat)
    (s s' : KVState H) : Prop where
  pool : Cached m request.blockHashes (m.blocksOf s request.requestId) (numTokens / m.blockSize)
    s.blockPool s'.blockPool
  reqToBlocks : s'.reqToBlocks = s.reqToBlocks
  numCachedBlock : ∀ {key'}, key' ≠ m.key request.requestId →
    s'.numCachedBlock key' = s.numCachedBlock key'
  lastStateBlockIdx : s'.lastStateBlockIdx = s.lastStateBlockIdx
  allocatedBlockReqs : s'.allocatedBlockReqs = s.allocatedBlockReqs

theorem baseCacheBlocks_spec (wf : Wf N s)
    (run : m.baseCacheBlocks s request n retention = .ok s') :
    CachedBlocks m request n s s' ∧ Wf N s' := by
  unfold baseCacheBlocks at run
  simp only at run
  split at run
  · cases run
    refine ⟨⟨⟨rfl, rfl, fun _ _ => id, fun b key new old => ?_⟩, rfl, fun _ => rfl, rfl, rfl⟩, wf⟩
    rw [old] at new
    cases new
  · obtain ⟨pool, cacheRun, run⟩ := bind_eq_ok.mp run
    cases run
    obtain ⟨ok, cached⟩ := cacheFullBlocks_spec wf.pool.toCacheOk
      (wf.inRange (m.key request.requestId)) cacheRun
    exact ⟨⟨cached, rfl, fun ne => update_of_ne ne _ _, rfl, rfl⟩,
      wf.of_pool (wf.pool.of_hashes ok cached.refCnt cached.freeBlockQueue) cached.refCnt rfl⟩

theorem cacheBlocks_spec (wf : Wf N s) (run : m.cacheBlocks s request n retention = .ok s') :
    CachedBlocks m request n s s' ∧ Wf N s' := by
  unfold cacheBlocks at run
  split at run
  · cases run
  · obtain ⟨s₁, base, run⟩ := bind_eq_ok.mp run
    cases run
    obtain ⟨cached, wf₁⟩ := baseCacheBlocks_spec wf base
    exact ⟨{ cached with }, wf₁.of_pool wf₁.pool rfl rfl⟩
  · exact baseCacheBlocks_spec wf run

end SingleTypeKVCacheManager

end Cache

end Vllm.KVCache
