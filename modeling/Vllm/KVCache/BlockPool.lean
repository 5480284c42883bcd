import Vllm.Lib.Fallible

/-!
The block pool (`vllm/v1/core/block_pool.py`) and its free queue
(`FreeKVCacheBlockQueue` in `kv_cache_utils.py`).

Blocks are their ids. What a `KVCacheBlock` carries (`ref_cnt`, `block_hash`)
and the hash map `cached_block_hash_to_block` are functions; the doubly linked
free queue is a list in eviction order next to the counter `num_free_blocks`,
which the source keeps on its own. Block `0` is the null block.

`PoolOk` is the representation invariant.
-/

namespace Vllm.KVCache

open Vllm.Lib.Fallible List
open Function (update update_self update_of_ne)

abbrev BlockId := Nat

/-- The placeholder block, taken out of the queue when the pool is built. -/
abbrev nullBlock : BlockId := 0

/-- `BlockHashWithGroupId`. The hash of a block that spans several hash blocks
is the concatenation of theirs. -/
structure BlockHashWithGroupId (H : Type) where
  blockHash : List H
  groupId : Nat
  deriving DecidableEq

inductive KVError where
  /-- `Cannot get {num_blocks} free blocks from the pool`. -/
  | cannotGetFreeBlocks (numBlocks : Int)
  /-- `remove() called on an invalid block`. -/
  | invalidBlock (block : BlockId)
  /-- The counter promises more blocks than the queue has. -/
  | freeQueueOutOfSync
  /-- `assert block.ref_cnt == 0` in `get_new_blocks`. -/
  | blockInUse (block : BlockId)
  /-- `assert len(request.block_hashes) >= num_full_blocks`. -/
  | missingBlockHashes
  /-- `assert blk.block_hash is None` in `cache_full_blocks`. -/
  | blockAlreadyCached (block : BlockId)
  /-- `assert block_mask is None or len(block_mask) == len(new_full_blocks)`. -/
  | blockMaskLength
  /-- `assert block_size % self.hash_block_size == 0`. -/
  | unalignedBlockSize
  /-- A list index out of range. -/
  | indexError
  /-- `assert len(new_computed_blocks) == 0`. -/
  | unexpectedComputedBlocks
  /-- `Computed blocks should be empty when prefix caching is disabled`. -/
  | computedBlocksWithoutCaching
  /-- `assert len(req_blocks) == 0`. -/
  | requestHasBlocks
  /-- `assert num_new_blocks <= 1` and its counterpart for a first prefill. -/
  | tooManyNewBlocks
  /-- `Should not be called as prefix caching is disabled.` -/
  | prefixCachingDisabled
  /-- The assertions of `ChunkedLocalAttentionManager.find_longest_cache_hit`. -/
  | unsupportedChunkedLocal
  /-- The assertions that context parallelism is off in a lookup. -/
  | unsupportedContextParallel
  /-- `CrossAttentionManager does not support caching`. -/
  | unsupportedCrossAttention
  /-- `num_new_tokens must be greater than 0 when there are no external computed
  tokens`. -/
  | noNewTokens
  /-- `Invalid block_id` in `evict_blocks`. -/
  | invalidBlockId (block : BlockId)
  deriving DecidableEq, Repr

structure FreeKVCacheBlockQueue where
  blocks : List BlockId
  numFreeBlocks : Int
  deriving DecidableEq, Repr

open FreeKVCacheBlockQueue

namespace FreeKVCacheBlockQueue

/-- `popleft_n`. A negative count pops nothing and raises the counter. -/
def popleftN (q : FreeKVCacheBlockQueue) (n : Int) :
    Except KVError (List BlockId × FreeKVCacheBlockQueue) :=
  if n = 0 then .ok ([], q)
  else if q.numFreeBlocks < n ∨ q.blocks.length < n.toNat then .error .freeQueueOutOfSync
  else .ok (q.blocks.take n.toNat, ⟨q.blocks.drop n.toNat, q.numFreeBlocks - n⟩)

def remove (q : FreeKVCacheBlockQueue) (block : BlockId) : Except KVError FreeKVCacheBlockQueue :=
  if block ∈ q.blocks then .ok ⟨q.blocks.erase block, q.numFreeBlocks - 1⟩
  else .error (.invalidBlock block)

def appendN (q : FreeKVCacheBlockQueue) (blocks : List BlockId) : FreeKVCacheBlockQueue :=
  ⟨q.blocks ++ blocks, q.numFreeBlocks + blocks.length⟩

def prependN (q : FreeKVCacheBlockQueue) (blocks : List BlockId) : FreeKVCacheBlockQueue :=
  ⟨blocks ++ q.blocks, q.numFreeBlocks + blocks.length⟩

end FreeKVCacheBlockQueue

/-- `BlockPool`: reference counts and hashes of the blocks, the free queue, and
`cached_block_hash_to_block`, whose values keep insertion order. -/
structure BlockPool (H : Type) where
  refCnt : BlockId → Int
  blockHash : BlockId → Option (BlockHashWithGroupId H)
  freeBlockQueue : FreeKVCacheBlockQueue
  cached : BlockHashWithGroupId H → List BlockId

open BlockPool

variable {H : Type}

namespace BlockPool

/-- `BlockPool.__init__`: every block is free but the null block. -/
def init (H : Type) (numGpuBlocks : Nat) : BlockPool H where
  refCnt := fun _ => 0
  blockHash := fun _ => none
  freeBlockQueue := ⟨(range numGpuBlocks).tail, (numGpuBlocks : Int) - 1⟩
  cached := fun _ => []

def getNumFreeBlocks (p : BlockPool H) : Int := p.freeBlockQueue.numFreeBlocks

/-- `get_cached_block`: the first block with the hash in every group, or none. -/
def getCachedBlock (p : BlockPool H) (blockHash : List H) (groupIds : List Nat) :
    Option (List BlockId) :=
  groupIds.mapM fun g => (p.cached ⟨blockHash, g⟩).head?

variable [DecidableEq H]

/-- `BlockHashToBlockMap.insert`: an id that is there keeps its place. -/
def insertCached (p : BlockPool H) (key : BlockHashWithGroupId H) (block : BlockId) : BlockPool H :=
  { p with
    blockHash := update p.blockHash block (some key)
    cached := update p.cached key
      (if block ∈ p.cached key then p.cached key else p.cached key ++ [block]) }

/-- `_maybe_evict_cached_block`: the hash is reset only if the map knew the
block. -/
def maybeEvictCachedBlock (p : BlockPool H) (block : BlockId) : BlockPool H :=
  match p.blockHash block with
  | none => p
  | some key =>
    if block ∈ p.cached key then
      { p with
        blockHash := update p.blockHash block none
        cached := update p.cached key ((p.cached key).erase block) }
    else p

/-- One block of the loop of `get_new_blocks`. -/
def takeBlock (enableCaching : Bool) (p : BlockPool H) (block : BlockId) :
    Except KVError (BlockPool H) :=
  let p := if enableCaching then p.maybeEvictCachedBlock block else p
  if p.refCnt block = 0 then
    .ok { p with refCnt := update p.refCnt block (p.refCnt block + 1) }
  else .error (.blockInUse block)

def getNewBlocks (enableCaching : Bool) (p : BlockPool H) (numBlocks : Int) :
    Except KVError (List BlockId × BlockPool H) :=
  if p.getNumFreeBlocks < numBlocks then .error (.cannotGetFreeBlocks numBlocks)
  else do
    let (ret, queue) ← p.freeBlockQueue.popleftN numBlocks
    let p ← ret.foldlM (takeBlock enableCaching) { p with freeBlockQueue := queue }
    return (ret, p)

/-- `evict_blocks`. The blocks stay where they are; only their hashes go. -/
def evictBlocks (numGpuBlocks : Nat) (p : BlockPool H) (blockIds : List BlockId) :
    Except KVError (BlockPool H) :=
  blockIds.foldlM
    (fun p block => if block < numGpuBlocks then .ok (p.maybeEvictCachedBlock block)
      else .error (.invalidBlockId block))
    p


/-- `reset_prefix_cache`, which fails while a block other than the null block is in
use. -/
def resetPrefixCache (numGpuBlocks : Nat) (p : BlockPool H) : Bool × BlockPool H :=
  if (numGpuBlocks : Int) - p.getNumFreeBlocks ≠ 1 then (false, p)
  else (true, { p with cached := fun _ => [], blockHash := fun _ => none })

/-- One block of the loop of `touch`. -/
def touchBlock (p : BlockPool H) (block : BlockId) : Except KVError (BlockPool H) := do
  let queue ← if p.refCnt block = 0 ∧ block ≠ nullBlock then p.freeBlockQueue.remove block
    else .ok p.freeBlockQueue
  return { p with
    freeBlockQueue := queue
    refCnt := update p.refCnt block (p.refCnt block + 1) }

def touch (p : BlockPool H) (blocks : List BlockId) : Except KVError (BlockPool H) :=
  blocks.foldlM touchBlock p

/-- The reference counts after the first loop of `free_blocks`. -/
def decrement (refCnt : BlockId → Int) (blocks : List BlockId) : BlockId → Int :=
  blocks.foldl (fun refCnt block => update refCnt block (refCnt block - 1)) refCnt

def freeBlocks (p : BlockPool H) (blocks : List BlockId) (prepend : Bool) : BlockPool H :=
  let refCnt := decrement p.refCnt blocks
  let freed := blocks.filter fun block => decide (refCnt block = 0 ∧ block ≠ nullBlock)
  { p with
    refCnt := refCnt
    freeBlockQueue := if prepend then p.freeBlockQueue.prependN freed
      else p.freeBlockQueue.appendN freed }

end BlockPool

/-! ### The representation invariant -/

/-- The hashes of the blocks and the hash map agree. -/
structure CacheOk (numGpuBlocks : Nat) (p : BlockPool H) : Prop where
  mem_cached : ∀ key b, b ∈ p.cached key ↔ p.blockHash b = some key
  cached_nodup : ∀ key, (p.cached key).Nodup
  hash_inRange : ∀ b key, p.blockHash b = some key → b ≠ nullBlock ∧ b < numGpuBlocks

def NullUncached (p : BlockPool H) : Prop := ∀ key, nullBlock ∉ p.cached key

theorem CacheOk.nullUncached {N : Nat} {p : BlockPool H} (ok : CacheOk N p) : NullUncached p := by
  intro key cached
  exact (ok.hash_inRange nullBlock key ((ok.mem_cached key nullBlock).mp cached)).1 rfl

theorem NullUncached.insertCached [DecidableEq H] {p : BlockPool H} (uncached : NullUncached p)
    (key : BlockHashWithGroupId H) {block : BlockId} (ne : block ≠ nullBlock) :
    NullUncached (p.insertCached key block) := by
  intro other
  unfold BlockPool.insertCached
  rcases eq_or_ne other key with rfl | same
  · simp only [update_self]
    split
    · exact uncached other
    · rw [mem_append, mem_singleton]
      rintro (there | added)
      · exact uncached other there
      · exact ne added.symm
  · simp only [update_of_ne same]
    exact uncached other

/-- Moreover queue, counter and reference counts agree. -/
structure PoolOk (numGpuBlocks : Nat) (p : BlockPool H) : Prop extends CacheOk numGpuBlocks p where
  nodup : p.freeBlockQueue.blocks.Nodup
  mem_free : ∀ b, b ∈ p.freeBlockQueue.blocks ↔ b ≠ nullBlock ∧ b < numGpuBlocks ∧ p.refCnt b = 0
  numFree : p.getNumFreeBlocks = p.freeBlockQueue.blocks.length
  nonneg : ∀ b, b ≠ nullBlock → 0 ≤ p.refCnt b

namespace PoolOk

variable {N : Nat} {p p' : BlockPool H}

theorem of_hashes (ok : PoolOk N p) (cache : CacheOk N p') (refCnt : p'.refCnt = p.refCnt)
    (queue : p'.freeBlockQueue = p.freeBlockQueue) : PoolOk N p' where
  toCacheOk := cache
  nodup := queue ▸ ok.nodup
  mem_free := by rw [queue, refCnt]; exact ok.mem_free
  numFree := by rw [BlockPool.getNumFreeBlocks, queue]; exact ok.numFree
  nonneg := refCnt ▸ ok.nonneg

theorem init (H : Type) {numGpuBlocks : Nat} (pos : 0 < numGpuBlocks) :
    PoolOk numGpuBlocks (BlockPool.init H numGpuBlocks) := by
  obtain ⟨n, rfl⟩ : ∃ n, numGpuBlocks = n + 1 := ⟨numGpuBlocks - 1, by omega⟩
  have queue : (BlockPool.init H (n + 1)).freeBlockQueue.blocks = (range n).map Nat.succ := by
    simp [BlockPool.init, range_succ_eq_map]
  refine ⟨⟨by simp [BlockPool.init], by simp [BlockPool.init], by simp [BlockPool.init]⟩, ?_,
    fun b => ?_, ?_, by simp [BlockPool.init]⟩
  · rw [queue]
    exact List.Nodup.map (fun _ _ => Nat.succ.inj) nodup_range
  · rw [queue, mem_map]
    constructor
    · rintro ⟨i, mem, rfl⟩
      exact ⟨Nat.succ_ne_zero i, Nat.succ_lt_succ (mem_range.mp mem), rfl⟩
    · rintro ⟨notNull, lt, -⟩
      have succ : (b - 1).succ = b := Nat.succ_pred_eq_of_ne_zero notNull
      exact ⟨b - 1, mem_range.mpr (by rw [← succ] at lt; exact Nat.lt_of_succ_lt_succ lt), succ⟩
  · simp [BlockPool.getNumFreeBlocks, BlockPool.init]

/-- A change of reference counts and queue that keeps the two in step. -/
theorem of_queue (ok : PoolOk N p) (sameHash : p'.blockHash = p.blockHash)
    (sameCached : p'.cached = p.cached) (nodup : p'.freeBlockQueue.blocks.Nodup)
    (mem_free : ∀ b, b ∈ p'.freeBlockQueue.blocks ↔ b ≠ nullBlock ∧ b < N ∧ p'.refCnt b = 0)
    (numFree : p'.getNumFreeBlocks = p'.freeBlockQueue.blocks.length)
    (nonneg : ∀ b, b ≠ nullBlock → 0 ≤ p'.refCnt b) : PoolOk N p' where
  nodup := nodup
  mem_free := mem_free
  numFree := numFree
  nonneg := nonneg
  mem_cached := by rw [sameHash, sameCached]; exact ok.mem_cached
  cached_nodup := by rw [sameCached]; exact ok.cached_nodup
  hash_inRange := by rw [sameHash]; exact ok.hash_inRange

/-! ### Touching -/

/-- What `touch` does. -/
structure Touched (p : BlockPool H) (blocks : List BlockId) (p' : BlockPool H) : Prop where
  refCnt : ∀ b, p'.refCnt b = p.refCnt b + blocks.count b
  blockHash : p'.blockHash = p.blockHash
  cached : p'.cached = p.cached
  free : p'.freeBlockQueue.blocks = p.freeBlockQueue.blocks.filter fun b => decide (b ∉ blocks)
  numFree : p.getNumFreeBlocks ≤ p'.getNumFreeBlocks +
    blocks.countP fun b => decide (p.refCnt b = 0 ∧ b ≠ nullBlock)

theorem touchBlock (ok : PoolOk N p) {block : BlockId}
    (inRange : block ≠ nullBlock → block < N) :
    ∃ p', p.touchBlock block = .ok p' ∧ PoolOk N p' ∧ Touched p [block] p' := by
  have refAt : ∀ b, (update p.refCnt block (p.refCnt block + 1)) b =
      p.refCnt b + [block].count b := by
    intro b
    rcases eq_or_ne b block with rfl | same
    · simp
    · simp [update_of_ne same, Ne.symm same]
  have nonneg : ∀ b, b ≠ nullBlock → 0 ≤ (update p.refCnt block (p.refCnt block + 1)) b := by
    intro b notNull
    have := ok.nonneg b notNull
    rw [refAt]
    omega
  by_cases free : p.refCnt block = 0 ∧ block ≠ nullBlock
  · have mem : block ∈ p.freeBlockQueue.blocks :=
      (ok.mem_free block).mpr ⟨free.2, inRange free.2, free.1⟩
    have erased : p.freeBlockQueue.blocks.erase block =
        p.freeBlockQueue.blocks.filter fun b => decide (b ∉ [block]) := by
      rw [ok.nodup.erase_eq_filter]
      exact filter_congr fun b _ => by by_cases same : b = block <;> simp [same]
    have length := length_erase_of_mem mem
    have pos := length_pos_of_mem mem
    refine ⟨{ p with
      freeBlockQueue := ⟨p.freeBlockQueue.blocks.erase block, p.freeBlockQueue.numFreeBlocks - 1⟩
      refCnt := update p.refCnt block (p.refCnt block + 1) }, ?_,
      ok.of_queue rfl rfl (ok.nodup.erase _) (fun b => ?_) ?_ nonneg, refAt, rfl, rfl, erased, ?_⟩
    · simp only [BlockPool.touchBlock, if_pos free, remove, if_pos mem]
      rfl
    · rw [erased, mem_filter, ok.mem_free]
      rcases eq_or_ne b block with rfl | same
      · simp [free.1]
      · simp [same]
    · have := ok.numFree
      simp only [getNumFreeBlocks] at this ⊢
      omega
    · simp [getNumFreeBlocks, free]
  · have notMem : block ∉ p.freeBlockQueue.blocks := fun mem => by
      have := (ok.mem_free block).mp mem
      exact free ⟨this.2.2, this.1⟩
    have filtered : p.freeBlockQueue.blocks =
        p.freeBlockQueue.blocks.filter fun b => decide (b ∉ [block]) := by
      refine (filter_eq_self.mpr fun b mem => ?_).symm
      have : b ≠ block := fun same => notMem (same ▸ mem)
      simp [this]
    refine ⟨{ p with refCnt := update p.refCnt block (p.refCnt block + 1) }, ?_,
      ok.of_queue rfl rfl ok.nodup (fun b => ?_) ok.numFree nonneg,
      refAt, rfl, rfl, filtered, ?_⟩
    · simp only [BlockPool.touchBlock, if_neg free]
      rfl
    · rw [ok.mem_free]
      rcases eq_or_ne b block with rfl | same
      · simp only [update_self]
        constructor
        · rintro ⟨notNull, -, isZero⟩
          exact absurd ⟨isZero, notNull⟩ free
        · rintro ⟨notNull, -, isZero⟩
          have := ok.nonneg b notNull
          omega
      · simp [update_of_ne same]
    · rw [countP_singleton, if_neg (by simpa using free)]
      exact Int.le_of_eq (Int.add_zero _).symm

theorem touch (ok : PoolOk N p) {blocks : List BlockId}
    (inRange : ∀ b ∈ blocks, b ≠ nullBlock → b < N) :
    ∃ p', p.touch blocks = .ok p' ∧ PoolOk N p' ∧ Touched p blocks p' := by
  induction blocks generalizing p with
  | nil => exact ⟨p, rfl, ok, ⟨by simp, rfl, rfl, by simp, by simp⟩⟩
  | cons block rest ih =>
    obtain ⟨p₁, step, ok₁, touched₁⟩ := ok.touchBlock (inRange block (by simp))
    obtain ⟨p₂, run, ok₂, touched₂⟩ := ih ok₁ fun b mem => inRange b (by simp [mem])
    refine ⟨p₂, ?_, ok₂, ⟨fun b => ?_, ?_, ?_, ?_, ?_⟩⟩
    · simp only [touch, foldlM_cons, step]
      exact run
    · have split : ([block] ++ rest).count b = [block].count b + rest.count b :=
        count_append
      rw [singleton_append] at split
      rw [touched₂.refCnt, touched₁.refCnt]
      omega
    · rw [touched₂.blockHash, touched₁.blockHash]
    · rw [touched₂.cached, touched₁.cached]
    · rw [touched₂.free, touched₁.free, filter_filter]
      exact filter_congr fun b _ => by simp [Bool.and_comm]
    · have le₁ := touched₁.numFree
      have le₂ := touched₂.numFree
      -- A block that is free after the first touch was free before it.
      have mono : rest.countP (fun b => decide (p₁.refCnt b = 0 ∧ b ≠ nullBlock)) ≤
          rest.countP fun b => decide (p.refCnt b = 0 ∧ b ≠ nullBlock) := by
        refine countP_mono_left fun b _ free => ?_
        simp only [decide_eq_true_eq] at free ⊢
        have := touched₁.refCnt b
        have := ok.nonneg b free.2
        exact ⟨by omega, free.2⟩
      rw [countP_cons]
      simp only [countP_singleton] at le₁
      omega

end PoolOk

/-! ### Taking new blocks -/

section Take

variable {N : Nat} {p p' : BlockPool H}

/-- What `get_new_blocks` does to counts and hashes when it hands out `blocks`. -/
structure Taken (enableCaching : Bool) (p : BlockPool H) (blocks : List BlockId)
    (p' : BlockPool H) : Prop where
  refCnt : ∀ b, p'.refCnt b = p.refCnt b + blocks.count b
  blockHash : ∀ b, p'.blockHash b =
    if enableCaching = true ∧ b ∈ blocks then none else p.blockHash b

variable {blocks : List BlockId}

variable {enableCaching : Bool}

theorem Taken.blockHash_of_some (taken : Taken enableCaching p blocks p') {b : BlockId}
    {key : BlockHashWithGroupId H} (hashed : p'.blockHash b = some key) :
    p.blockHash b = some key := by
  rw [taken.blockHash] at hashed
  split at hashed
  · cases hashed
  · exact hashed

variable [DecidableEq H]

/-- Evicting a block takes its hash away and leaves the other blocks alone. -/
theorem CacheOk.maybeEvictCachedBlock (ok : CacheOk N p) (block : BlockId) :
    CacheOk N (p.maybeEvictCachedBlock block) ∧
      (p.maybeEvictCachedBlock block).blockHash = update p.blockHash block none ∧
      (p.maybeEvictCachedBlock block).refCnt = p.refCnt ∧
      (p.maybeEvictCachedBlock block).freeBlockQueue = p.freeBlockQueue := by
  cases hash : p.blockHash block with
  | none =>
    have same : p.maybeEvictCachedBlock block = p := by
      simp only [BlockPool.maybeEvictCachedBlock, hash]
    rw [same]
    exact ⟨ok, by rw [← hash, Function.update_eq_self], rfl, rfl⟩
  | some key =>
    have mem : block ∈ p.cached key := (ok.mem_cached key block).mpr hash
    have evicted : p.maybeEvictCachedBlock block =
        { p with
          blockHash := update p.blockHash block none
          cached := update p.cached key ((p.cached key).erase block) } := by
      simp only [BlockPool.maybeEvictCachedBlock, hash, if_pos mem]
    rw [evicted]
    refine ⟨⟨fun key' b => ?_, fun key' => ?_, fun b key' hashed => ?_⟩, rfl, rfl, rfl⟩
    · rcases eq_or_ne b block with rfl | sameBlock
      · simp only [update_self, reduceCtorEq, iff_false]
        rcases eq_or_ne key' key with rfl | sameKey
        · simp only [update_self]
          exact fun mem => absurd rfl ((ok.cached_nodup _).mem_erase_iff.mp mem).1
        · simp only [update_of_ne sameKey, ok.mem_cached, hash, Option.some.injEq]
          exact fun same => sameKey same.symm
      · simp only [update_of_ne sameBlock]
        rcases eq_or_ne key' key with rfl | sameKey
        · simp only [update_self, mem_erase_of_ne sameBlock, ok.mem_cached]
        · simp only [update_of_ne sameKey, ok.mem_cached]
    · rcases eq_or_ne key' key with rfl | sameKey
      · simpa only [update_self] using (ok.cached_nodup _).erase _
      · simpa only [update_of_ne sameKey] using ok.cached_nodup key'
    · by_cases sameBlock : b = block
      · simp [sameBlock] at hashed
      · exact ok.hash_inRange b key' (by simpa [update_of_ne sameBlock] using hashed)

theorem CacheOk.takeBlocks (ok : CacheOk N p) (nodup : blocks.Nodup)
    (free : ∀ b ∈ blocks, p.refCnt b = 0) :
    ∃ p', blocks.foldlM (takeBlock enableCaching) p = .ok p' ∧ CacheOk N p' ∧
      Taken enableCaching p blocks p' ∧ p'.freeBlockQueue = p.freeBlockQueue := by
  induction blocks generalizing p with
  | nil => exact ⟨p, rfl, ok, ⟨by simp, by simp⟩, rfl⟩
  | cons block rest ih =>
    obtain ⟨notMem, nodup⟩ := nodup_cons.mp nodup
    -- The pool after the eviction, then after the count is raised.
    obtain ⟨p₁, evict, ok₁, hash₁, ref₁, queue₁⟩ : ∃ p₁,
        p₁ = (if enableCaching then p.maybeEvictCachedBlock block else p) ∧ CacheOk N p₁ ∧
        (∀ b, p₁.blockHash b =
          if enableCaching = true ∧ b = block then none else p.blockHash b) ∧
        p₁.refCnt = p.refCnt ∧ p₁.freeBlockQueue = p.freeBlockQueue := by
      cases enableCaching with
      | false => exact ⟨p, rfl, ok, by simp, rfl, rfl⟩
      | true =>
        obtain ⟨ok', hash, ref, queue⟩ := ok.maybeEvictCachedBlock block
        refine ⟨_, rfl, ok', fun b => ?_, ref, queue⟩
        rw [if_pos rfl, hash]
        by_cases same : b = block <;> simp [same]
    have refBlock : p₁.refCnt block = 0 := by rw [ref₁]; exact free block (by simp)
    obtain ⟨p₂, run, ok₂, taken₂, queue₂⟩ := ih (p :=
      { p₁ with refCnt := update p₁.refCnt block (p₁.refCnt block + 1) })
      { ok₁ with } nodup fun b mem => by
        have ne : b ≠ block := fun same => notMem (same ▸ mem)
        simp only [update_of_ne ne, ref₁]
        exact free b (by simp [mem])
    refine ⟨p₂, ?_, ok₂, ⟨fun b => ?_, fun b => ?_⟩, by rw [queue₂]; exact queue₁⟩
    · simp only [foldlM_cons, takeBlock, ← evict, if_pos refBlock]
      exact run
    · rw [taken₂.refCnt]
      rcases eq_or_ne b block with rfl | same
      · simp [ref₁]
        omega
      · simp [update_of_ne same, Ne.symm same, ref₁]
    · rw [taken₂.blockHash]
      simp only [hash₁]
      by_cases caching : enableCaching = true
      · by_cases same : b = block <;> by_cases mem : b ∈ rest <;> simp [caching, mem]
      · simp [caching]

section

variable (ok : PoolOk N p)
include ok

/-- `get_new_blocks` hands out the front of the queue. -/
theorem PoolOk.getNewBlocks (enableCaching : Bool) {n : Nat}
    (enough : (n : Int) ≤ p.getNumFreeBlocks) :
    ∃ p', p.getNewBlocks enableCaching n = .ok (p.freeBlockQueue.blocks.take n, p') ∧ PoolOk N p' ∧
      Taken enableCaching p (p.freeBlockQueue.blocks.take n) p' ∧
      p'.freeBlockQueue = ⟨p.freeBlockQueue.blocks.drop n, p.getNumFreeBlocks - n⟩ := by
  have length : n ≤ p.freeBlockQueue.blocks.length := by
    have := ok.numFree
    omega
  have popped : p.freeBlockQueue.popleftN n = .ok (p.freeBlockQueue.blocks.take n,
      ⟨p.freeBlockQueue.blocks.drop n, p.getNumFreeBlocks - n⟩) := by
    simp only [popleftN]
    by_cases zero : (n : Int) = 0
    · obtain rfl : n = 0 := by omega
      simp [getNumFreeBlocks]
    · rw [if_neg zero, if_neg]
      · rfl
      · simp only [getNumFreeBlocks] at enough
        omega
  have free : ∀ b ∈ p.freeBlockQueue.blocks.take n, p.refCnt b = 0 := fun b mem =>
    ((ok.mem_free b).mp (mem_of_mem_take mem)).2.2
  have cacheOk : CacheOk N { p with
      freeBlockQueue := ⟨p.freeBlockQueue.blocks.drop n, p.getNumFreeBlocks - n⟩ } :=
    { ok with }
  have nodup := ok.nodup
  rw [← take_append_drop n p.freeBlockQueue.blocks] at nodup
  obtain ⟨takeNodup, dropNodup, apart⟩ := nodup_append.mp nodup
  obtain ⟨p', run, ok', taken, queue⟩ := cacheOk.takeBlocks takeNodup free
  refine ⟨p', ?_, ⟨ok', ?_, fun b => ?_, ?_, fun b notNull => ?_⟩, { taken with }, queue⟩
  · simp only [BlockPool.getNewBlocks, if_neg (Int.not_lt.mpr enough), popped, ok_bind, run]
    rfl
  · rwa [queue]
  · have split : b ∈ p.freeBlockQueue.blocks ↔
        b ∈ p.freeBlockQueue.blocks.take n ∨ b ∈ p.freeBlockQueue.blocks.drop n := by
      conv_lhs => rw [← take_append_drop n p.freeBlockQueue.blocks]
      exact mem_append
    rw [queue, taken.refCnt]
    by_cases taking : b ∈ p.freeBlockQueue.blocks.take n
    · have pos := count_pos_iff.mpr taking
      have := free b taking
      refine iff_of_false (fun mem => apart b taking b mem rfl) fun h => ?_
      simp only at h
      omega
    · rw [count_eq_zero.mpr taking]
      simp only [taking, false_or] at split
      rw [← split, ok.mem_free]
      simp
  · have numFree := ok.numFree
    rw [getNumFreeBlocks, queue]
    simp only [length_drop]
    omega
  · rw [taken.refCnt]
    have := ok.nonneg b notNull
    simp only
    omega

omit [DecidableEq H] in
theorem PoolOk.numFree_le : p.getNumFreeBlocks ≤ N := by
  have sub : p.freeBlockQueue.blocks ⊆ range N := fun b mem =>
    mem_range.mpr ((ok.mem_free b).mp mem).2.1
  have := (subperm_of_subset ok.nodup sub).length_le
  rw [length_range] at this
  rw [ok.numFree]
  omega

theorem PoolOk.getNewBlocks_zero (enableCaching : Bool) :
    p.getNewBlocks enableCaching 0 = .ok ([], p) := by
  have enough : ¬ p.getNumFreeBlocks < 0 := by
    rw [ok.numFree]
    omega
  rw [BlockPool.getNewBlocks, if_neg enough]
  rfl

/-- A call that succeeds found enough blocks. -/
theorem PoolOk.of_getNewBlocks {n : Int} (nonneg : 0 ≤ n)
    (run : p.getNewBlocks enableCaching n = .ok (blocks, p')) :
    blocks = p.freeBlockQueue.blocks.take n.toNat ∧ n ≤ p.getNumFreeBlocks ∧ PoolOk N p' ∧
      Taken enableCaching p blocks p' ∧
      p'.freeBlockQueue = ⟨p.freeBlockQueue.blocks.drop n.toNat, p.getNumFreeBlocks - n⟩ := by
  have enough : n ≤ p.getNumFreeBlocks := by
    by_cases short : p.getNumFreeBlocks < n
    · rw [BlockPool.getNewBlocks, if_pos short] at run
      cases run
    · omega
  obtain ⟨k, rfl⟩ := Int.eq_ofNat_of_zero_le nonneg
  obtain ⟨p₁, run₁, ok₁, taken, queue⟩ := ok.getNewBlocks enableCaching enough
  rw [run₁] at run
  cases run
  exact ⟨rfl, enough, ok₁, taken, queue⟩

end

end Take

/-! ### Freeing -/

section Free

variable {N : Nat} {p : BlockPool H}

theorem decrement_apply (refCnt : BlockId → Int) (blocks : List BlockId) (b : BlockId) :
    decrement refCnt blocks b = refCnt b - blocks.count b := by
  induction blocks generalizing refCnt with
  | nil => simp [decrement]
  | cons block rest ih =>
    rw [decrement, foldl_cons, ← decrement, ih, count_cons]
    rcases eq_or_ne b block with rfl | same
    · simp only [update_self, beq_self_eq_true, if_true]
      omega
    · simp [update_of_ne same, Ne.symm same]

/-- Blocks that a caller may give back: each once, and none more often than it
is held. -/
def Freeable (numGpuBlocks : Nat) (p : BlockPool H) (blocks : List BlockId) : Prop :=
  ∀ b ∈ blocks, b ≠ nullBlock → b < numGpuBlocks ∧ blocks.count b ≤ 1 ∧ 1 ≤ p.refCnt b

/-- The blocks that `free_blocks` puts back into the queue. -/
def freedBlocks (p : BlockPool H) (blocks : List BlockId) : List BlockId :=
  blocks.filter fun b => decide (p.refCnt b - blocks.count b = 0 ∧ b ≠ nullBlock)

theorem freeBlocks_queue (p : BlockPool H) (blocks : List BlockId) (prepend : Bool) :
    (p.freeBlocks blocks prepend).freeBlockQueue =
      if prepend then p.freeBlockQueue.prependN (freedBlocks p blocks)
      else p.freeBlockQueue.appendN (freedBlocks p blocks) := by
  simp only [freeBlocks, freedBlocks, decrement_apply]

@[simp] theorem freeBlocks_refCnt (p : BlockPool H) (blocks : List BlockId) (prepend : Bool)
    (b : BlockId) : (p.freeBlocks blocks prepend).refCnt b = p.refCnt b - blocks.count b :=
  decrement_apply _ _ _

@[simp] theorem freeBlocks_numFree (p : BlockPool H) (blocks : List BlockId) (prepend : Bool) :
    (p.freeBlocks blocks prepend).getNumFreeBlocks =
      p.getNumFreeBlocks + (freedBlocks p blocks).length := by
  rw [getNumFreeBlocks, freeBlocks_queue]
  cases prepend <;> rfl

theorem freeBlocks_nil (p : BlockPool H) (prepend : Bool) : p.freeBlocks [] prepend = p := by
  cases prepend <;>
    simp [freeBlocks, decrement, appendN,
      prependN]

theorem mem_freeBlocks_queue (p : BlockPool H) (blocks : List BlockId) (prepend : Bool)
    (b : BlockId) : b ∈ (p.freeBlocks blocks prepend).freeBlockQueue.blocks ↔
      b ∈ p.freeBlockQueue.blocks ∨ b ∈ freedBlocks p blocks := by
  rw [freeBlocks_queue]
  cases prepend with
  | false => exact mem_append
  | true => exact mem_append.trans or_comm

/-- Giving blocks back keeps queue and counts in step. -/
theorem PoolOk.freeBlocks (ok : PoolOk N p) {blocks : List BlockId} (freeable : Freeable N p blocks)
    (prepend : Bool) : PoolOk N (p.freeBlocks blocks prepend) := by
  have freedNodup : (freedBlocks p blocks).Nodup := by
    refine nodup_iff_count_le_one.mpr fun b => ?_
    by_cases mem : b ∈ freedBlocks p blocks
    · obtain ⟨mem, kept⟩ := mem_filter.mp mem
      simp only [decide_eq_true_eq] at kept
      exact Nat.le_trans (filter_sublist.count_le _) (freeable b mem kept.2).2.1
    · rw [count_eq_zero.mpr mem]
      exact Nat.zero_le _
  have apart : ∀ b ∈ p.freeBlockQueue.blocks, b ∉ freedBlocks p blocks := by
    intro b free mem
    obtain ⟨mem, kept⟩ := mem_filter.mp mem
    simp only [decide_eq_true_eq] at kept
    have := (ok.mem_free b).mp free
    have := freeable b mem kept.2
    omega
  refine ok.of_queue rfl rfl ?_ (fun b => ?_) ?_ fun b notNull => ?_
  · rw [freeBlocks_queue]
    cases prepend with
    | false =>
      exact nodup_append.mpr ⟨ok.nodup, freedNodup, fun a free b freed same =>
        apart a free (same ▸ freed)⟩
    | true =>
      exact nodup_append.mpr ⟨freedNodup, ok.nodup, fun a freed b free same =>
        apart b free (same ▸ freed)⟩
  · rw [mem_freeBlocks_queue, ok.mem_free]
    by_cases mem : b ∈ blocks
    · by_cases null : b = nullBlock
      · simp [null, freedBlocks]
      · obtain ⟨lt, -, held⟩ := freeable b mem null
        have notFree : p.refCnt b ≠ 0 := by omega
        simp [freedBlocks, mem, null, lt, notFree]
    · have notFreed : b ∉ freedBlocks p blocks := fun freed => mem (mem_of_mem_filter freed)
      simp [notFreed, count_eq_zero.mpr mem]
  · rw [freeBlocks_numFree, freeBlocks_queue, ok.numFree]
    cases prepend with
    | false => simp [appendN]
    | true =>
      simp only [prependN, if_true, length_append]
      omega
  · rw [freeBlocks_refCnt]
    by_cases mem : b ∈ blocks
    · have := freeable b mem notNull
      omega
    · rw [count_eq_zero.mpr mem]
      have := ok.nonneg b notNull
      omega

end Free

end Vllm.KVCache
