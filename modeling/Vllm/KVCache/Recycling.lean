import Vllm.KVCache.Admission
import Vllm.KVCache.Tables

/-!
The recycling bound: how many blocks a request holds in a group whose window moves on.

A table begins with null blocks, and the blocks after them are not null, so
`remove_skipped_blocks` turns all blocks before the window into null blocks. A call of
`allocate_slots` makes the table as long as its tokens need. The bound of the spec has to
be above the difference (`CallFits`). For a sliding window it is. A chunk may begin inside
a block, for which the bound of chunked-local attention leaves no room.
-/

namespace Vllm.KVCache

open Vllm.Lib Vllm.Lib.Ceil Vllm.Lib.Fallible Vllm.Lib.Steps SingleTypeKVCacheManager KVCacheConfig
open FreeKVCacheBlockQueue
open List

variable {H : Type}

def numNonNull (blocks : List BlockId) : Nat := blocks.countP fun b => decide (b ≠ nullBlock)

/-! ### Tables -/

theorem numNonNull_replicate_append (n : Nat) (blocks : List BlockId) :
    numNonNull (replicate n nullBlock ++ blocks) = numNonNull blocks := by
  have nulls : (replicate n nullBlock).countP (fun b => decide (b ≠ nullBlock)) = 0 := by
    rw [countP_eq_zero]
    intro b mem
    rw [eq_of_mem_replicate mem]
    simp
  rw [numNonNull, countP_append, nulls, Nat.zero_add, numNonNull]

theorem numNonNull_drop_le (n : Nat) (blocks : List BlockId) :
    numNonNull (blocks.drop n) ≤ numNonNull blocks :=
  (drop_sublist n blocks).countP_le

/-- A table has no more blocks to skip than it has blocks. -/
theorem blocksAfterSkip_min (blocks : List BlockId) (n : Nat) :
    blocksAfterSkip blocks n = blocksAfterSkip blocks (min n blocks.length) := by
  unfold blocksAfterSkip skippedBlocks
  rw [← take_eq_take_min, Nat.min_assoc, Nat.min_self]

/-! ### The null block in the pool -/

/-- The null block is neither free nor cached. -/
structure NullApart (p : BlockPool H) : Prop where
  notFree : nullBlock ∉ p.freeBlockQueue.blocks
  uncached : NullUncached p

theorem PoolOk.nullApart {N : Nat} {p : BlockPool H} (ok : PoolOk N p) : NullApart p where
  notFree free := ((ok.mem_free nullBlock).mp free).1 rfl
  uncached := ok.toCacheOk.nullUncached

namespace NullApart

variable {p p' : BlockPool H}

section

variable (apart : NullApart p)
include apart

theorem freeBlocks (blocks : List BlockId) (prepend : Bool) :
    NullApart (p.freeBlocks blocks prepend) where
  notFree := by
    have freed : nullBlock ∉ blocks.filter fun block =>
        decide (BlockPool.decrement p.refCnt blocks block = 0 ∧ block ≠ nullBlock) := by
      intro mem
      exact (of_decide_eq_true (mem_filter.mp mem).2).2 rfl
    unfold BlockPool.freeBlocks prependN appendN
    split
    · exact fun mem => (mem_append.mp mem).elim freed apart.notFree
    · exact fun mem => (mem_append.mp mem).elim apart.notFree freed
  uncached := apart.uncached

theorem touch {blocks : List BlockId} (run : p.touch blocks = .ok p') : NullApart p' := by
  refine foldlM_keeps NullApart (fun p b _ p' apart step => ?_) apart run
  unfold BlockPool.touchBlock at step
  split at step
  · obtain ⟨queue, removed, step⟩ := bind_eq_ok.mp step
    cases step
    unfold remove at removed
    split at removed
    · cases removed
      exact ⟨fun mem => apart.notFree (mem_of_mem_erase mem), apart.uncached⟩
    · cases removed
  · cases step
    exact { apart with }

end

variable [DecidableEq H]

theorem maybeEvictCachedBlock (apart : NullApart p) (b : BlockId) :
    NullApart (p.maybeEvictCachedBlock b) := by
  unfold BlockPool.maybeEvictCachedBlock
  split
  · exact apart
  · rename_i key _
    split
    · refine ⟨apart.notFree, fun other => ?_⟩
      rcases eq_or_ne other key with rfl | same
      · simp only [Function.update_self]
        exact fun mem => apart.uncached other (mem_of_mem_erase mem)
      · simp only [Function.update_of_ne same]
        exact apart.uncached other
    · exact apart

variable {enableCaching : Bool}

theorem takeBlock (apart : NullApart p) {b : BlockId} (run : p.takeBlock enableCaching b = .ok p') :
    NullApart p' := by
  unfold BlockPool.takeBlock at run
  cases enableCaching with
  | false =>
    dsimp only at run
    rw [if_neg Bool.false_ne_true] at run
    split at run
    · cases run
      exact { apart with }
    · cases run
  | true =>
    have evicted := apart.maybeEvictCachedBlock b
    dsimp only at run
    rw [if_pos rfl] at run
    split at run
    · cases run
      exact { evicted with }
    · cases run

theorem getNewBlocks (apart : NullApart p) {n : Int} {blocks : List BlockId}
    (run : p.getNewBlocks enableCaching n = .ok (blocks, p')) :
    nullBlock ∉ blocks ∧ blocks.length = n.toNat ∧ NullApart p' := by
  obtain ⟨-, run⟩ := guard_eq_ok.mp run
  obtain ⟨⟨ret, queue⟩, popped, run⟩ := bind_eq_ok.mp run
  obtain ⟨q, taken, run⟩ := bind_eq_ok.mp run
  cases run
  have kept : nullBlock ∉ queue.blocks → NullApart p' := by
    intro notFree
    have start : NullApart { p with freeBlockQueue := queue } := ⟨notFree, apart.uncached⟩
    exact foldlM_keeps NullApart (fun q b _ q' before step => before.takeBlock step) start taken
  unfold popleftN at popped
  split at popped
  · rename_i zero
    cases popped
    exact ⟨not_mem_nil, by rw [zero]; rfl, kept apart.notFree⟩
  · obtain ⟨enough, popped⟩ := guard_eq_ok.mp popped
    cases popped
    refine ⟨fun mem => apart.notFree (mem_of_mem_take mem), ?_,
      kept fun mem => apart.notFree (mem_of_mem_drop mem)⟩
    rw [length_take]
    omega

end NullApart

/-! ### The managers -/

namespace SingleTypeKVCacheManager

variable {m : SingleTypeKVCacheManager} {s s' : KVState H} {r : RequestId}

theorem baseRemoveSkippedBlocks_nullApart (apart : NullApart s.blockPool) (n : Nat) :
    NullApart (m.baseRemoveSkippedBlocks s r n).blockPool := by
  unfold baseRemoveSkippedBlocks
  split
  · exact apart
  · exact (apart.freeBlocks _ _).freeBlocks _ _

theorem removeSkippedBlocks_nullApart (apart : NullApart s.blockPool) {n : Nat}
    (run : m.removeSkippedBlocks s r n = .ok s') : NullApart s'.blockPool := by
  obtain ⟨k, rfl | ⟨_, _, rfl⟩⟩ := removeSkippedBlocks_cases run
  · exact baseRemoveSkippedBlocks_nullApart apart k
  · exact (baseRemoveSkippedBlocks_nullApart apart k).freeBlocks _ _

variable [DecidableEq H]

variable {hits blocks : List BlockId} {n k : Nat} {request : Request H} {retention : Option Nat}

theorem allocateNewComputedBlocks_nullApart (apart : NullApart s.blockPool)
    {numLocal numExternal : Nat}
    (run : m.allocateNewComputedBlocks s r hits numLocal numExternal = .ok s') :
    NullApart s'.blockPool := by
  unfold allocateNewComputedBlocks at run
  split at run
  · split at run
    · cases run
    · cases run
      exact apart
  · obtain ⟨-, run⟩ := guard_eq_ok.mp run
    obtain ⟨pool, touched, run⟩ := bind_eq_ok.mp run
    obtain ⟨⟨taken, pool'⟩, external, run⟩ := bind_eq_ok.mp run
    cases run
    have touchedOk : NullApart pool := by
      unfold touchHits at touched
      split at touched
      · exact apart.touch touched
      · split at touched
        · cases touched
        · cases touched
          exact apart
    unfold takeExternal at external
    split at external
    · exact (touchedOk.getNewBlocks external).2.2
    · cases external
      exact touchedOk

theorem cacheFullBlocks_nullApart {p p' : BlockPool H} (apart : NullApart p) {blockHashes : List H}
    {numCached numFull : Nat} {mask : Option (List Bool)}
    (run : m.cacheFullBlocks p blockHashes blocks numCached numFull mask = .ok p') :
    NullApart p' := by
  obtain ⟨-, run⟩ := guard_eq_ok.mp run
  obtain ⟨-, run⟩ := guard_eq_ok.mp run
  refine foldlM_keeps NullApart (fun q entry _ q' before step => ?_) apart run
  unfold cacheBlock at step
  dsimp only at step
  split at step
  · cases step
    exact before
  · rename_i cached
    split at step
    · cases step
    · obtain ⟨hash, -, step⟩ := bind_eq_ok.mp step
      cases step
      refine ⟨before.notFree, before.uncached.insertCached _ fun isNull => cached (.inl isNull)⟩

theorem baseCacheBlocks_nullApart (apart : NullApart s.blockPool)
    (run : m.baseCacheBlocks s request n retention = .ok s') :
    NullApart s'.blockPool := by
  unfold baseCacheBlocks at run
  dsimp only at run
  split at run
  · cases run
    exact apart
  · obtain ⟨pool, cached, run⟩ := bind_eq_ok.mp run
    cases run
    exact cacheFullBlocks_nullApart apart cached

theorem cacheBlocks_nullApart (apart : NullApart s.blockPool)
    (run : m.cacheBlocks s request n retention = .ok s') :
    NullApart s'.blockPool := by
  unfold cacheBlocks at run
  split at run
  · cases run
  · obtain ⟨t, cached, run⟩ := bind_eq_ok.mp run
    have kept := baseCacheBlocks_nullApart apart cached
    cases run
    exact kept
  · exact baseCacheBlocks_nullApart apart run

/-! ### A manager that recycles -/

/-- The groups with a bound: sliding window and chunked-local attention. -/
def recycles (m : SingleTypeKVCacheManager) : Bool :=
  m.kvCacheSpec.kind matches .slidingWindow _ | .chunkedLocalAttention _

theorem isSelfAttention_of_recycles (isRecycling : m.recycles = true) :
    m.kvCacheSpec.kind.isSelfAttention = true := by
  unfold recycles at isRecycling
  cases kind : m.kvCacheSpec.kind with
  | slidingWindow | chunkedLocalAttention => rfl
  | fullAttention | mamba | crossAttention =>
    rw [kind] at isRecycling
    cases isRecycling

omit [DecidableEq H] in
theorem removeSkippedBlocks_recycles (isRecycling : m.recycles = true)
    (run : m.removeSkippedBlocks s r n = .ok s') :
    m.blocksOf s' r = blocksAfterSkip (m.blocksOf s r) (m.numSkippedBlocks n) := by
  rw [removeSkippedBlocks_eq (isSelfAttention_of_recycles isRecycling)] at run
  cases run
  unfold baseRemoveSkippedBlocks
  split
  · rename_i noTokens
    have none : m.numSkippedBlocks n = 0 := by rw [numSkippedBlocks, noTokens, Nat.zero_div]
    rw [none]
    simp [blocksAfterSkip, skippedBlocks]
  · exact get_setBlocks _ _

theorem allocateNewComputedBlocks_recycles
    (run : m.allocateNewComputedBlocks s r hits n 0 = .ok s') :
    (hits = [] ∧ m.blocksOf s' r = m.blocksOf s r) ∨
      (m.blocksOf s r = [] ∧ m.blocksOf s' r = m.hitTable hits n) := by
  unfold allocateNewComputedBlocks at run
  split at run
  · obtain ⟨noHits, run⟩ := guard_eq_ok.mp run
    cases run
    exact .inl ⟨Decidable.not_not.mp noHits, rfl⟩
  · obtain ⟨noBlocks, run⟩ := guard_eq_ok.mp run
    obtain ⟨pool, touched, run⟩ := bind_eq_ok.mp run
    obtain ⟨⟨taken, pool'⟩, external, run⟩ := bind_eq_ok.mp run
    cases run
    unfold takeExternal at external
    rw [if_neg fun pos => lt_irrefl 0 (external_of_inWindow pos)] at external
    cases external
    refine .inr ⟨Decidable.not_not.mp noBlocks, ?_⟩
    exact (get_setBlocks _ _).trans (append_nil _)

theorem allocateNewBlocks_recycles (isRecycling : m.recycles = true) (apart : NullApart s.blockPool)
    {numEncoder : Nat} (run : m.allocateNewBlocks s r
      (if m.kvCacheSpec.isCrossAttention then numEncoder else n) k = .ok (blocks, s')) :
    ∃ new, m.blocksOf s' r = m.blocksOf s r ++ new ∧ nullBlock ∉ new ∧
      (m.blocksOf s' r).length = max (m.blocksOf s r).length (cdiv n m.blockSize) := by
  rw [allocateNewBlocks_eq (isSelfAttention_of_recycles isRecycling)] at run
  unfold baseAllocateNewBlocks at run
  dsimp only at run
  split at run
  · rename_i enough
    cases run
    exact ⟨[], (append_nil _).symm, not_mem_nil, (Nat.max_eq_left enough).symm⟩
  · obtain ⟨⟨taken, pool⟩, got, run⟩ := bind_eq_ok.mp run
    cases run
    obtain ⟨notNull, length, -⟩ := apart.getNewBlocks got
    have table : ({ m.setBlocks s r (m.blocksOf s r ++ taken) with blockPool := pool } :
        KVState H).reqToBlocks.get (m.key r) = m.blocksOf s r ++ taken := get_setBlocks _ _
    refine ⟨taken, table, notNull, ?_⟩
    rw [blocksOf, table, length_append]
    omega

end SingleTypeKVCacheManager

/-! ### One call -/

section Call

variable {cfg : KVCacheConfig} {m : SingleTypeKVCacheManager} {s s' : KVState H} {r : RequestId}

/-- A loop over the managers comes by `m` once; the others leave its table alone. -/
theorem managers_split {σ : Type} {f : σ → SingleTypeKVCacheManager → Except KVError σ}
    (view : σ → KVState H) (mem : m ∈ cfg.managers)
    (apart : ∀ t m' u, f t m' = .ok u → NullApart (view t).blockPool → NullApart (view u).blockPool)
    (frame : ∀ t m' u, m.key r ≠ m'.key r → f t m' = .ok u →
      (view u).reqToBlocks.get (m.key r) = (view t).reqToBlocks.get (m.key r))
    {a b : σ} (start : NullApart (view a).blockPool) (run : cfg.managers.foldlM f a = .ok b) :
    NullApart (view b).blockPool ∧ ∃ t u, f t m = .ok u ∧ NullApart (view t).blockPool ∧
      m.blocksOf (view t) r = m.blocksOf (view a) r ∧
      m.blocksOf (view b) r = m.blocksOf (view u) r := by
  obtain ⟨before, after, t, u, first, there, rest, otherGroups⟩ :=
    managers_foldlM_split mem run
  have others : ∀ m' ∈ before ++ after, m.key r ≠ m'.key r :=
    fun m' mem' same => otherGroups m' mem' (congrArg Prod.fst same).symm
  have keeps : ∀ (a b : σ) (ms : List SingleTypeKVCacheManager), (∀ m' ∈ ms, m.key r ≠ m'.key r) →
      ms.foldlM f a = .ok b → NullApart (view a).blockPool →
      NullApart (view b).blockPool ∧ m.blocksOf (view b) r = m.blocksOf (view a) r := by
    intro a b ms other run start
    refine foldlM_keeps (fun t => NullApart (view t).blockPool ∧
      m.blocksOf (view t) r = m.blocksOf (view a) r) (fun t m' mem' u kept step => ?_)
      ⟨start, rfl⟩ run
    exact ⟨apart t m' u step kept.1, (frame t m' u (other m' mem') step).trans kept.2⟩
  obtain ⟨apartT, sameT⟩ := keeps a t before
    (fun m' mem' => others m' (mem_append_left _ mem')) first start
  obtain ⟨apartB, sameB⟩ := keeps u b after
    (fun m' mem' => others m' (mem_append_right _ mem')) rest (apart t m u there apartT)
  exact ⟨apartB, t, u, there, apartT, sameT, sameB⟩

theorem removeSkippedBlocks_table (mem : m ∈ cfg.managers) (isRecycling : m.recycles = true)
    (apart : NullApart s.blockPool) (first : NullsFirst (m.blocksOf s r)) {n : Nat}
    (run : cfg.removeSkippedBlocks s r n = .ok s') :
    NullApart s'.blockPool ∧ m.blocksOf s' r =
      replicate (min (m.numSkippedBlocks n) (m.blocksOf s r).length) nullBlock ++
        (m.blocksOf s r).drop (min (m.numSkippedBlocks n) (m.blocksOf s r).length) := by
  obtain ⟨apart', t, u, step, -, before, after⟩ := managers_split
    (fun t : KVState H => t) mem
    (fun t m' u step apart => removeSkippedBlocks_nullApart apart step)
    (fun t m' u ne step => removeSkippedBlocks_get_of_ne step ne) apart run
  refine ⟨apart', ?_⟩
  rw [after, removeSkippedBlocks_recycles isRecycling step, before,
    blocksAfterSkip_min, blocksAfterSkip_eq first (Nat.min_le_right _ _)]

variable [DecidableEq H] {request : Request H} {args : AllocateSlotsArgs}

theorem coordinatorCacheBlocks_table {n : Nat} (apart : NullApart s.blockPool)
    (run : cfg.coordinatorCacheBlocks s request n = .ok s') :
    NullApart s'.blockPool ∧ m.blocksOf s' r = m.blocksOf s r := by
  refine foldlM_keeps (fun t => NullApart t.blockPool ∧ m.blocksOf t r = m.blocksOf s r)
    (fun t m' _ u kept step => ?_) ⟨apart, rfl⟩ run
  refine ⟨cacheBlocks_nullApart kept.1 step, ?_⟩
  rw [blocksOf, cacheBlocks_tables step]
  exact kept.2

theorem allocateComputed_table (mem : m ∈ cfg.managers) (apart : NullApart s.blockPool)
    (noExternal : args.numExternalComputedTokens = 0)
    (run : cfg.allocateComputed request args s = .ok s') :
    NullApart s'.blockPool ∧
      ((hitsOf (cfg.newComputedBlockList args) m = [] ∧
        m.blocksOf s' request.requestId = m.blocksOf s request.requestId) ∨
      (m.blocksOf s request.requestId = [] ∧ m.blocksOf s' request.requestId =
        m.hitTable (hitsOf (cfg.newComputedBlockList args) m)
          (numLocalComputedTokens request args))) := by
  unfold allocateComputed at run
  split at run
  · obtain ⟨apart', t, u, step, -, before, after⟩ := managers_split
      (fun t : KVState H => t) mem
      (fun t m' u step apart =>
        allocateNewComputedBlocks_nullApart apart step)
      (fun t m' u ne step =>
        allocateNewComputedBlocks_get_of_ne step ne) apart run
    rw [noExternal] at step
    refine ⟨apart', ?_⟩
    rw [after, ← before]
    exact allocateNewComputedBlocks_recycles step
  · rename_i nothing
    cases run
    exact ⟨apart, .inl ⟨groupHits_eq_nil (Bool.eq_false_iff.mpr nothing) m, rfl⟩⟩

theorem allocateNewBlocks_table (mem : m ∈ cfg.managers) (isRecycling : m.recycles = true)
    (apart : NullApart s.blockPool) {numTokens k numEncoder : Nat} {blocks : List (List BlockId)}
    (run : cfg.allocateNewBlocks s r numTokens k numEncoder = .ok (blocks, s')) :
    NullApart s'.blockPool ∧ ∃ new, m.blocksOf s' r = m.blocksOf s r ++ new ∧ nullBlock ∉ new ∧
      (m.blocksOf s' r).length = max (m.blocksOf s r).length (cdiv numTokens m.blockSize) := by
  obtain ⟨apart', t, u, step, apartT, before, after⟩ := managers_split
    (fun t : List (List BlockId) × KVState H => t.2) mem
    (fun t m' u step apart => by
      obtain ⟨⟨taken, v⟩, grown, step⟩ := bind_eq_ok.mp step
      cases step
      obtain rfl | ⟨_, _, _, got, -⟩ := allocateNewBlocks_cases grown
      · exact apart
      · exact (apart.getNewBlocks got).2.2)
    (fun t m' u ne step => by
      obtain ⟨⟨taken, v⟩, grown, step⟩ := bind_eq_ok.mp step
      cases step
      exact allocateNewBlocks_get_of_ne grown ne) apart run
  obtain ⟨⟨taken, v⟩, grown, step⟩ := bind_eq_ok.mp step
  cases step
  obtain ⟨new, table, notNull, length⟩ :=
    allocateNewBlocks_recycles isRecycling apartT grown
  rw [← after, before] at table length
  exact ⟨apart', new, table, notNull, length⟩

/-- What is left after the window moved to `n` and the table grew to `numTokens` tokens is at
most `bound`. -/
def CallFits (m : SingleTypeKVCacheManager) (bound n numTokens : Nat) : Prop :=
  cdiv numTokens m.blockSize ≤ m.numSkippedBlocks n + bound

/-- The request's table in the group, with `computed` tokens of the request computed. -/
structure Recycled (m : SingleTypeKVCacheManager) (r : RequestId) (bound computed : Nat)
    (s : KVState H) : Prop where
  apart : NullApart s.blockPool
  nullsFirst : NullsFirst (m.blocksOf s r)
  covers : computed ≤ (m.blocksOf s r).length * m.blockSize
  bounded : numNonNull (m.blocksOf s r) ≤ bound

omit [DecidableEq H] in
/-- What leaves the table alone. -/
theorem Recycled.frame {bound computed : Nat} (recycled : Recycled m r bound computed s)
    (apart : NullApart s'.blockPool) (same : m.blocksOf s' r = m.blocksOf s r) :
    Recycled m r bound computed s' := by
  obtain ⟨-, first, covers, bounded⟩ := recycled
  rw [← same] at first covers bounded
  exact ⟨apart, first, covers, bounded⟩

omit [DecidableEq H] in
/-- Growing a table whose first blocks are those before the window. -/
theorem Recycled.grow {bound n numTokens : Nat} {kept new : List BlockId}
    (fits : CallFits m bound n numTokens) (first : NullsFirst kept) (notNull : nullBlock ∉ new)
    (apart : NullApart s.blockPool)
    (table : m.blocksOf s r = replicate (m.numSkippedBlocks n) nullBlock ++ kept ++ new)
    (length : (m.blocksOf s r).length =
      max (m.numSkippedBlocks n + kept.length) (cdiv numTokens m.blockSize))
    (bounded : m.numSkippedBlocks n + kept.length ≤ cdiv numTokens m.blockSize ∨
      numNonNull kept ≤ bound) :
    Recycled m r bound numTokens s := by
  refine ⟨apart, ?_, ?_, ?_⟩
  · rw [table]
    exact (first.replicate_append _).append notNull
  · refine (le_cdiv_mul m.blockSize_pos).trans (Nat.mul_le_mul_right _ ?_)
    rw [length]
    exact Nat.le_max_right _ _
  · have lengths := length
    rw [table, length_append, length_append, length_replicate] at lengths
    rw [table, append_assoc, numNonNull_replicate_append]
    have all : numNonNull (kept ++ new) ≤ (kept ++ new).length := countP_le_length
    rw [length_append] at all
    unfold CallFits at fits
    rcases lt_or_ge (cdiv numTokens m.blockSize) (m.numSkippedBlocks n + kept.length) with
      already | grows
    · -- The table was long enough before.
      have none : new = [] := eq_nil_of_length_eq_zero (by omega)
      rw [none, append_nil]
      exact bounded.resolve_left (by omega)
    · omega

/-- A call of `allocate_slots` for the request with `computed` tokens computed: without
lookahead and external tokens, within the limits, and with a hit that was just looked up and
holds the tokens that it stands for. -/
structure PlainCall (cfg : KVCacheConfig) (m : SingleTypeKVCacheManager) (r : RequestId)
    (computed : Nat) (s : KVState H) (request : Request H) (args : AllocateSlotsArgs) : Prop where
  id : request.requestId = r
  counts : request.numComputedTokens = computed
  noLookahead : args.numLookaheadTokens = 0
  noExternal : args.numExternalComputedTokens = 0
  batch : args.numNewTokens ≤ cfg.maxNumBatchedTokens
  total : computed + args.numNewComputedTokens + args.numNewTokens ≤ cfg.maxModelLen
  passesHit : cfg.PassesHit s request args
  holds : (hitsOf (cfg.newComputedBlockList args) m).length * m.blockSize =
    args.numNewComputedTokens

section Plain

variable {computed : Nat}

section

variable (plain : PlainCall cfg m r computed s request args)
include plain

omit [DecidableEq H] in
theorem PlainCall.numLocalComputedTokens_eq :
    numLocalComputedTokens request args = computed + args.numNewComputedTokens := by
  rw [numLocalComputedTokens, plain.counts, Int.toNat_natCast]

omit [DecidableEq H] in
theorem PlainCall.totalComputedTokens_eq :
    cfg.totalComputedTokens request args = computed + args.numNewComputedTokens := by
  have total := plain.total
  rw [totalComputedTokens, numLocalAndExternalTokens,
    plain.numLocalComputedTokens_eq, plain.noExternal]
  omega

omit [DecidableEq H] in
theorem PlainCall.numTokensNeedSlot_eq :
    cfg.numTokensNeedSlot request args =
      computed + args.numNewComputedTokens + args.numNewTokens := by
  have total := plain.total
  rw [numTokensNeedSlot, numTokensMainModel, plain.totalComputedTokens_eq, plain.noLookahead]
  omega

end

theorem Recycled.allocateSlots (valid : cfg.Valid) (mem : m ∈ cfg.managers)
    (isRecycling : m.recycles = true) {bound : Nat} (recycled : Recycled m r bound computed s)
    (plain : PlainCall cfg m r computed s request args)
    (fits : CallFits m bound (computed + args.numNewComputedTokens)
      (computed + args.numNewComputedTokens + args.numNewTokens))
    {result : Option (List (List BlockId))}
    (run : cfg.allocateSlots request args s = .ok (result, s')) :
    Recycled m r bound computed s' ∧ (result ≠ none →
      Recycled m r bound (computed + args.numNewComputedTokens + args.numNewTokens) s') := by
  have isRequest := plain.id
  subst isRequest
  rcases allocateSlots_cases run with ⟨none, rfl⟩ | ⟨-, s₁, removed, rest⟩
  · exact ⟨recycled, fun some => absurd none some⟩
  rw [plain.totalComputedTokens_eq] at removed
  obtain ⟨apart₁, table₁⟩ := removeSkippedBlocks_table mem isRecycling recycled.apart
    recycled.nullsFirst removed
  -- The window moved; the table is as long as before.
  have length₁ : (m.blocksOf s₁ request.requestId).length =
      (m.blocksOf s request.requestId).length := by
    rw [table₁, length_append, length_replicate, length_drop]
    omega
  have recycled₁ : Recycled m request.requestId bound computed s₁ := by
    refine ⟨apart₁, ?_, ?_, ?_⟩
    · rw [table₁]
      exact (recycled.nullsFirst.drop _).replicate_append _
    · rw [length₁]
      exact recycled.covers
    · rw [table₁, numNonNull_replicate_append]
      exact (numNonNull_drop_le _ _).trans recycled.bounded
  rcases rest with ⟨none, rfl⟩ | ⟨-, newBlocks, s₃, -, -, allocated, committed, isResult⟩
  · exact ⟨recycled₁, fun some => absurd none some⟩
  -- What the caching at the end leaves alone.
  suffices grown : Recycled m request.requestId bound
      (computed + args.numNewComputedTokens + args.numNewTokens) s₃ by
    have after : Recycled m request.requestId bound
        (computed + args.numNewComputedTokens + args.numNewTokens) s' := by
      unfold commit at committed
      split at committed
      · cases committed
        exact grown
      · obtain ⟨apart, same⟩ := coordinatorCacheBlocks_table grown.apart committed
        exact grown.frame apart same
    refine ⟨⟨after.apart, after.nullsFirst, ?_, after.bounded⟩, fun _ => after⟩
    exact Nat.le_trans (by omega) after.covers
  obtain ⟨s₂, entered, allocated⟩ := bind_eq_ok.mp allocated
  obtain ⟨apart₂, table₂⟩ := allocateComputed_table mem apart₁ plain.noExternal entered
  rw [plain.numTokensNeedSlot_eq] at allocated
  obtain ⟨apart₃, new, table₃, notNull, length₃⟩ :=
    allocateNewBlocks_table mem isRecycling apart₂ allocated
  rw [plain.numLocalComputedTokens_eq] at table₂
  have holds := plain.holds
  rcases Nat.eq_zero_or_pos args.numNewComputedTokens with noHit | someHit
  · -- No hit: the table is the one that the window left.
    have noBlocks : hitsOf (cfg.newComputedBlockList args) m = [] := by
      rw [noHit] at holds
      exact eq_nil_of_length_eq_zero
        ((Nat.mul_eq_zero.mp holds).resolve_right (ne_of_gt m.blockSize_pos))
    have skipped : m.numSkippedBlocks (computed + args.numNewComputedTokens) ≤
        (m.blocksOf s request.requestId).length := by
      rw [noHit]
      exact numSkippedBlocks_le valid mem recycled.covers
    rw [min_eq_left skipped] at table₁
    have same : m.blocksOf s₂ request.requestId = m.blocksOf s₁ request.requestId := by
      rcases table₂ with ⟨-, same⟩ | ⟨empty, filled⟩
      · exact same
      · rw [empty, length_nil] at length₁
        have zero : m.numSkippedBlocks (computed + args.numNewComputedTokens) = 0 := by omega
        rw [filled, empty, noBlocks, hitTable, hitsInWindow, zero]
        rfl
    rw [same, table₁] at table₃ length₃
    rw [length_append, length_replicate] at length₃
    refine Recycled.grow fits (recycled.nullsFirst.drop _) notNull apart₃ table₃ length₃ (.inr ?_)
    exact (numNonNull_drop_le _ _).trans recycled.bounded
  · -- The hit enters an empty table, and so nothing was computed before.
    obtain ⟨empty, filled⟩ : m.blocksOf s₁ request.requestId = [] ∧ _ := by
      rcases table₂ with ⟨noBlocks, -⟩ | entered
      · rw [noBlocks, length_nil] at holds
        omega
      · exact entered
    have zero : computed = 0 := by
      have covers := recycled₁.covers
      rw [empty, length_nil] at covers
      omega
    subst zero
    rw [Nat.zero_add] at fits length₃ filled ⊢
    have first : NullsFirst (hitsOf (cfg.newComputedBlockList args) m) :=
      (hitSound_of_passesHit valid plain.passesHit mem).nullsFirst recycled.apart.uncached
    have skipped : m.numSkippedBlocks args.numNewComputedTokens ≤
        (hitsOf (cfg.newComputedBlockList args) m).length :=
      numSkippedBlocks_le valid mem (le_of_eq holds.symm)
    have longer : (hitsOf (cfg.newComputedBlockList args) m).length ≤
        cdiv (args.numNewComputedTokens + args.numNewTokens) m.blockSize := by
      have mono := cdiv_mono m.blockSize_pos
        (Nat.le_add_right args.numNewComputedTokens args.numNewTokens)
      rw [← holds, cdiv_mul_self m.blockSize_pos] at mono
      rw [← holds]
      exact mono
    rw [filled] at table₃
    rw [filled, hitTable, length_append, length_replicate] at length₃
    refine Recycled.grow fits (first.drop _) notNull apart₃ table₃ length₃ (.inl ?_)
    rw [length_drop]
    omega

end Plain

end Call

/-! ### Runs -/

/-- The manager, and how many tokens of the request are computed. -/
structure Progress (H : Type) where
  kv : KVState H
  computed : Nat

/-- A call of `allocate_slots` for the request, after which `computed` of its tokens are
computed, or calls for other requests. -/
inductive Turn (H : Type) where
  | allocateSlots (request : Request H) (args : AllocateSlotsArgs) (computed : Nat)
  | others (kv : KVState H)

section Runs

variable [DecidableEq H] (cfg : KVCacheConfig) (m : SingleTypeKVCacheManager) (r : RequestId)

/-- One turn. New tokens count as computed once they are scheduled, as far as they are not
rejected. Other requests leave the request's table alone. -/
def Progress.turn (before : Progress H) : Turn H → Progress H → Prop
  | .allocateSlots request args computed, after =>
    PlainCall cfg m r before.computed before.kv request args ∧ after.computed = computed ∧
      ∃ result, cfg.allocateSlots request args before.kv = .ok (result, after.kv) ∧
        (result = none → computed = before.computed) ∧
        (result ≠ none → before.computed ≤ computed ∧
          computed ≤ before.computed + args.numNewComputedTokens + args.numNewTokens)
  | .others kv, after =>
    after = ⟨kv, before.computed⟩ ∧ PoolOk cfg.numBlocks kv.blockPool ∧
      m.blocksOf kv r = m.blocksOf before.kv r

/-- What a chunk needs: the blocks from the one in which the chunk begins. -/
def TurnFits (bound : Nat) (before : Progress H) : Turn H → Prop
  | .allocateSlots _ args _ => ∀ chunk, m.kvCacheSpec.kind = .chunkedLocalAttention chunk →
      CallFits m bound (before.computed + args.numNewComputedTokens)
        (before.computed + args.numNewComputedTokens + args.numNewTokens)
  | .others _ => True

variable {cfg m r}

omit [DecidableEq H] in
/-- A chunk that begins with a block is covered by the bound. -/
theorem callFits_of_dvd {chunk n k : Nat} (kind : m.kvCacheSpec.kind = .chunkedLocalAttention chunk)
    (pos : 0 < chunk) (divides : m.blockSize ∣ chunk) (batched : k ≤ cfg.maxNumBatchedTokens)
    (inside : n + k ≤ cfg.maxModelLen) :
    CallFits m (cdiv (min (chunk + cfg.maxNumBatchedTokens) cfg.maxModelLen)
      m.kvCacheSpec.blockSize) n (n + k) := by
  have skipped : m.numSkippedBlocks n * m.blockSize = n / chunk * chunk := by
    unfold numSkippedBlocks KVCacheSpec.getNumSkippedTokens
    rw [kind]
    exact Nat.div_mul_cancel (Nat.dvd_mul_left_of_dvd divides _)
  have inChunk : n < n / chunk * chunk + chunk := by
    rw [← Nat.succ_mul]
    exact Nat.lt_mul_of_div_lt (Nat.lt_succ_self _) pos
  have covered : min (chunk + cfg.maxNumBatchedTokens) cfg.maxModelLen ≤
      cdiv (min (chunk + cfg.maxNumBatchedTokens) cfg.maxModelLen) m.kvCacheSpec.blockSize *
        m.blockSize :=
    (le_cdiv_mul m.kvCacheSpec.blockSize_pos).trans
      (Nat.mul_le_mul_left _ (kvCacheSpec_blockSize_le m))
  rw [CallFits, cdiv_le_iff m.blockSize_pos, Nat.add_mul, skipped]
  omega

/-- If the block size divides the chunk size, every call of the request is covered. -/
theorem turnFits_of_dvd {bound : Nat}
    (isBound : m.kvCacheSpec.maxAdmissionBlocksPerRequest cfg.maxNumBatchedTokens cfg.maxModelLen =
      some bound)
    (divides : ∀ chunk, m.kvCacheSpec.kind = .chunkedLocalAttention chunk →
      0 < chunk ∧ m.blockSize ∣ chunk) {before after : Progress H} {turn : Turn H}
    (taken : before.turn cfg m r turn after) : TurnFits m bound before turn := by
  cases turn with
  | others kv => trivial
  | allocateSlots request args computed =>
    intro chunk kind
    rw [KVCacheSpec.maxAdmissionBlocksPerRequest, kind] at isBound
    cases isBound
    exact callFits_of_dvd kind (divides chunk kind).1 (divides chunk kind).2 taken.1.batch
      taken.1.total

theorem Recycled.turn (valid : cfg.Valid) (mem : m ∈ cfg.managers) {bound : Nat}
    (isBound : m.kvCacheSpec.maxAdmissionBlocksPerRequest cfg.maxNumBatchedTokens cfg.maxModelLen =
      some bound) {before after : Progress H} {turn : Turn H}
    (recycled : Recycled m r bound before.computed before.kv) (fits : TurnFits m bound before turn)
    (taken : before.turn cfg m r turn after) : Recycled m r bound after.computed after.kv := by
  cases turn with
  | others kv =>
    obtain ⟨rfl, ok, same⟩ := taken
    exact recycled.frame ok.nullApart same
  | allocateSlots request args computed =>
    obtain ⟨plain, isComputed, result, run, refused, scheduled⟩ := taken
    have callFits : m.recycles = true ∧ CallFits m bound
        (before.computed + args.numNewComputedTokens)
        (before.computed + args.numNewComputedTokens + args.numNewTokens) := by
      unfold KVCacheSpec.maxAdmissionBlocksPerRequest at isBound
      cases kind : m.kvCacheSpec.kind with
      | slidingWindow w =>
        rw [kind] at isBound
        cases isBound
        refine ⟨by rw [recycles, kind], ?_⟩
        exact windowBlocks_le kind plain.batch plain.total
      | chunkedLocalAttention chunk =>
        exact ⟨by rw [recycles, kind], fits chunk kind⟩
      | fullAttention | mamba | crossAttention =>
        rw [kind] at isBound
        cases isBound
    obtain ⟨kept, grown⟩ := recycled.allocateSlots valid mem callFits.1 plain callFits.2 run
    rw [isComputed]
    by_cases isNone : result = none
    · rw [refused isNone]
      exact kept
    · have grown := grown isNone
      exact ⟨grown.apart, grown.nullsFirst, Nat.le_trans (scheduled isNone).2 grown.covers,
        grown.bounded⟩

/-- In every run of a request whose calls, if the group is chunked-local, leave no more than
the bound, the request never holds more blocks of the group than the bound. -/
theorem recycling_bound (valid : cfg.Valid) (mem : m ∈ cfg.managers) {bound : Nat}
    (isBound : m.kvCacheSpec.maxAdmissionBlocksPerRequest cfg.maxNumBatchedTokens cfg.maxModelLen =
      some bound) {kv : KVState H} (ok : PoolOk cfg.numBlocks kv.blockPool)
    (isNew : m.blocksOf kv r = []) {turns : List (Turn H)} {now : Progress H}
    (run : Run (guarded (TurnFits m bound) (Progress.turn cfg m r)) ⟨kv, 0⟩ turns now) :
    numNonNull (m.blocksOf now.kv r) ≤ bound := by
  have start : Recycled m r bound 0 kv := by
    refine ⟨ok.nullApart, ?_, Nat.zero_le _, ?_⟩
    · rw [isNew]
      exact NullsFirst.nil
    · rw [isNew]
      exact Nat.zero_le _
  have reached := run.invariant (fun now : Progress H => Recycled m r bound now.computed now.kv)
    (fun recycled step => recycled.turn valid mem isBound step.1 step.2) start
  exact reached.bounded

end Runs

/-- Chunks of three tokens, blocks of seven, and batches of four. -/
def smallChunks : KVCacheConfig where
  kvCacheGroups := [⟨{ kind := .chunkedLocalAttention 3, blockSize := 7 }, false⟩]
  numBlocks := 4
  maxModelLen := 16
  maxNumBatchedTokens := 4
  schedulerBlockSize := 7
  hashBlockSize := 7

def smallChunksManager : SingleTypeKVCacheManager :=
  smallChunks.manager ⟨{ kind := .chunkedLocalAttention 3, blockSize := 7 }, false⟩ 0

/-- A request of eight tokens, of which `n` are computed. -/
def eightTokens (n : Nat) : Request Nat :=
  { requestId := 0, allTokenIds := [1, 2, 3, 4, 5, 6, 7, 8], blockHashes := [0],
    numComputedTokens := n }

theorem eightTokens_plainCall (n : Nat) (s : KVState Nat) (total : n + 4 ≤ 16) :
    PlainCall smallChunks smallChunksManager 0 n s (eightTokens n) { numNewTokens := 4 } :=
  ⟨rfl, rfl, rfl, rfl, by decide, total, rfl, rfl⟩

/-- Two calls of four tokens each that both succeed. -/
theorem twoTurns_run {cfg : KVCacheConfig} {m : SingleTypeKVCacheManager}
    {request : Nat → Request Nat} (table : List BlockId)
    (plain : ∀ n s, n + 4 ≤ 16 → PlainCall cfg m 0 n s (request n) { numNewTokens := 4 })
    (evaluated : (do
      let (first, s₁) ← cfg.allocateSlots (request 0) { numNewTokens := 4 }
        (KVState.init Nat cfg.numBlocks)
      let (second, s₂) ← cfg.allocateSlots (request 4) { numNewTokens := 4 } s₁
      return (first.isSome, second.isSome, m.blocksOf s₂ 0)) = .ok (true, true, table)) :
    ∃ turns now, Run (Progress.turn cfg m 0) ⟨KVState.init Nat cfg.numBlocks, 0⟩ turns now ∧
      m.blocksOf now.kv 0 = table := by
  obtain ⟨⟨first, s₁⟩, run₁, evaluated⟩ := bind_eq_ok.mp evaluated
  obtain ⟨⟨second, s₂⟩, run₂, evaluated⟩ := bind_eq_ok.mp evaluated
  dsimp only at evaluated
  rw [pure_eq_ok, Except.ok.injEq, Prod.mk.injEq, Prod.mk.injEq] at evaluated
  obtain ⟨some₁, some₂, isTable⟩ := evaluated
  refine ⟨[.allocateSlots (request 0) { numNewTokens := 4 } 4,
    .allocateSlots (request 4) { numNewTokens := 4 } 8], ⟨s₂, 8⟩, ?_, isTable⟩
  refine .head (t := ⟨s₁, 4⟩) ?_ (.head ?_ (.refl _))
  · refine ⟨plain 0 _ (by decide), rfl, first, run₁, ?_,
      fun _ => ⟨Nat.zero_le 4, le_rfl⟩⟩
    rintro rfl
    cases some₁
  · refine ⟨plain 4 _ (by decide), rfl, second, run₂, ?_,
      fun _ => ⟨Nat.le_add_right 4 4, le_rfl⟩⟩
    rintro rfl
    cases some₂

/-- Two calls of four tokens each. The second chunk begins with token three, inside the first
block, and ends in the second one: two blocks, where the bound is one. -/
theorem smallChunks_above_bound :
    smallChunksManager.kvCacheSpec.maxAdmissionBlocksPerRequest smallChunks.maxNumBatchedTokens
      smallChunks.maxModelLen = some 1 ∧
    ∃ turns now, Run (Progress.turn smallChunks smallChunksManager 0)
      ⟨KVState.init Nat smallChunks.numBlocks, 0⟩ turns now ∧
      numNonNull (smallChunksManager.blocksOf now.kv 0) = 2 := by
  obtain ⟨turns, now, run, table⟩ := twoTurns_run [1, 2] eightTokens_plainCall
    (by decide +kernel)
  refine ⟨by decide, turns, now, run, ?_⟩
  rw [table]
  decide

/-- Chunks of four tokens, and blocks of two. -/
def alignedChunks : KVCacheConfig where
  kvCacheGroups := [⟨
    { kind := .chunkedLocalAttention 4, blockSize := 2, blockSize_pos := Nat.two_pos }, false⟩]
  numBlocks := 8
  maxModelLen := 16
  maxNumBatchedTokens := 4
  schedulerBlockSize := 2
  hashBlockSize := 2

def alignedChunksManager : SingleTypeKVCacheManager :=
  alignedChunks.manager ⟨
    { kind := .chunkedLocalAttention 4, blockSize := 2, blockSize_pos := Nat.two_pos }, false⟩ 0

def fourBlocks (n : Nat) : Request Nat := { eightTokens n with blockHashes := [0, 1, 2, 3] }

/-- The second call gives back the blocks of the first chunk. -/
theorem alignedChunks_within_bound : ∃ turns now,
    Run (Progress.turn alignedChunks alignedChunksManager 0)
      ⟨KVState.init Nat alignedChunks.numBlocks, 0⟩ turns now ∧
      alignedChunksManager.blocksOf now.kv 0 = [nullBlock, nullBlock, 3, 4] ∧
      numNonNull (alignedChunksManager.blocksOf now.kv 0) ≤ 4 := by
  have isBound : alignedChunksManager.kvCacheSpec.maxAdmissionBlocksPerRequest
      alignedChunks.maxNumBatchedTokens alignedChunks.maxModelLen = some 4 := by decide
  have plain : ∀ n s, n + 4 ≤ 16 → PlainCall alignedChunks alignedChunksManager 0 n s
      (fourBlocks n) { numNewTokens := 4 } :=
    fun _ _ total => ⟨rfl, rfl, rfl, rfl, by decide, total, rfl, rfl⟩
  obtain ⟨turns, now, run, table⟩ := twoTurns_run [nullBlock, nullBlock, 3, 4] plain
    (by decide +kernel)
  refine ⟨turns, now, run, table, ?_⟩
  refine recycling_bound ⟨by decide, by decide, by decide, by decide, by decide⟩ (by decide) isBound
    (PoolOk.init Nat (by decide)) rfl (run.imp fun taken => ⟨turnFits_of_dvd isBound ?_ taken, taken⟩)
  rintro chunk kind
  cases kind
  decide

end Vllm.KVCache
