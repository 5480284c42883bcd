import Vllm.KVCache.Prediction
import Vllm.KVCache.Isolation

/-!
The representation invariant of the block pool, over whole runs.

Reference counts, free queue, hash map and block tables are kept by different
classes. `repInvariant_of_run` says that they agree after any calls, `evict_blocks`
and `reset_prefix_cache` among them, as long as no call asks the pool for a negative
number of blocks: `popleft_n` then raises its counter and hands nothing out.
-/

namespace Vllm.KVCache

open Vllm.Lib Vllm.Lib.Ceil Vllm.Lib.Fallible Vllm.Lib.Steps Vllm.Hashing SingleTypeKVCacheManager
open KVCacheConfig (numLocalComputedTokens)
open KVState

variable {H : Type}

/-! ### The invariant -/

/-- What holds between pool and tables. -/
structure RepInvariant (N : Nat) (s : KVState H) : Prop where
  /-- A reference for each occurrence in a table. -/
  refCnt : ∀ b, b ≠ nullBlock → s.blockPool.refCnt b = s.held b
  /-- The free queue has the blocks without references. -/
  mem_free : ∀ b, b ≠ nullBlock → b < N →
    (b ∈ s.blockPool.freeBlockQueue.blocks ↔ s.blockPool.refCnt b = 0)
  nodup_free : s.blockPool.freeBlockQueue.blocks.Nodup
  numFreeBlocks : s.blockPool.freeBlockQueue.numFreeBlocks = s.blockPool.freeBlockQueue.blocks.length
  null_notMem : nullBlock ∉ s.blockPool.freeBlockQueue.blocks
  null_unhashed : s.blockPool.blockHash nullBlock = none
  /-- The hash map has a block under its hash and nowhere else. -/
  mem_cached : ∀ b key, s.blockPool.blockHash b = some key ↔ b ∈ s.blockPool.cached key
  cached_once : ∀ b key key', b ∈ s.blockPool.cached key → b ∈ s.blockPool.cached key' → key = key'

theorem Wf.repInvariant {N : Nat} {s : KVState H} (wf : Wf N s) : RepInvariant N s where
  refCnt := wf.refCnt
  mem_free b notNull lt := by
    rw [wf.pool.mem_free]
    exact ⟨fun free => free.2.2, fun zero => ⟨notNull, lt, zero⟩⟩
  nodup_free := wf.pool.nodup
  numFreeBlocks := wf.pool.numFree
  null_notMem mem := ((wf.pool.mem_free nullBlock).mp mem).1 rfl
  null_unhashed := by
    cases hash : s.blockPool.blockHash nullBlock with
    | none => rfl
    | some key => exact absurd rfl (wf.pool.hash_inRange nullBlock key hash).1
  mem_cached b key := (wf.pool.mem_cached key b).symm
  cached_once b key key' mem mem' := by
    have first := (wf.pool.mem_cached key b).mp mem
    have second := (wf.pool.mem_cached key' b).mp mem'
    exact Option.some.inj (first.symm.trans second)

/-- Every block but the null block is in a table or free. -/
theorem Wf.numFree_add_held {N : Nat} {s : KVState H} (wf : Wf N s) (pos : 0 < N) :
    s.blockPool.getNumFreeBlocks + ((Finset.Ioo 0 N).filter (s.held · ≠ 0)).card =
      N - 1 := by
  have free : s.blockPool.freeBlockQueue.blocks.toFinset =
      (Finset.Ioo 0 N).filter (s.held · = 0) := by
    ext b
    rw [List.mem_toFinset, wf.pool.mem_free, Finset.mem_filter, Finset.mem_Ioo, and_assoc,
      Nat.pos_iff_ne_zero]
    refine and_congr_right fun notNull => ?_
    rw [wf.refCnt b notNull, Int.natCast_eq_zero]
  have split : _ + ((Finset.Ioo 0 N).filter (s.held · ≠ 0)).card = _ :=
    Finset.card_filter_add_card_filter_not (s.held · = 0)
  rw [← free, List.toFinset_card_of_nodup wf.pool.nodup, Nat.card_Ioo] at split
  rw [wf.pool.numFree]
  omega

/-- Pool and tables agree, and every hash is that of a block of its group. -/
structure Intact (cfg : KVCacheConfig) (s : KVState H) : Prop extends Accounted cfg s where
  keyed : ∀ b key, s.blockPool.blockHash b = some key → ∃ m ∈ cfg.managers,
    key.groupId = m.kvCacheGroupId ∧ 0 < m.scale ∧ key.blockHash.length = m.scale

section Steps

variable {cfg : KVCacheConfig} {s s' : KVState H} {m : SingleTypeKVCacheManager} {r : RequestId}

theorem Intact.init (H : Type) (pos : 0 < cfg.numBlocks) :
    Intact cfg (init H cfg.numBlocks) :=
  ⟨⟨.init H pos, nofun⟩, nofun⟩

section

variable (intact : Intact cfg s)
include intact

theorem Intact.of_entry (mem : m ∈ cfg.managers)
    (entry : OnlyEntry (m.key r) s s') (wf : Wf cfg.numBlocks s')
    (hash : ∀ b key, s'.blockPool.blockHash b = some key → s.blockPool.blockHash b = some key)
    (state : ∀ k, m.kvCacheSpec.kind = .mamba .align k →
      s'.allocatedBlockReqs (m.key r) = true → k < (m.blocksOf s' r).length) : Intact cfg s' :=
  ⟨intact.toAccounted.of_entry mem entry wf state,
    fun b key hashed => intact.keyed b key (hash b key hashed)⟩

theorem Intact.removeSkippedBlocks {n : Nat} (run : cfg.removeSkippedBlocks s r n = .ok s') :
    Intact cfg s' := by
  obtain ⟨skipped, wf⟩ := KVCacheConfig.removeSkippedBlocks_spec intact.wf run
  refine ⟨intact.toAccounted.skip wf skipped, fun b key hash => intact.keyed b key ?_⟩
  rwa [skipped.blockHash] at hash

theorem Intact.free (r : RequestId) : Intact cfg (cfg.free s r) := by
  refine List.foldlRecOn cfg.managers _ intact fun s intact m mem => ?_
  obtain ⟨freed, wf⟩ := free_spec m r intact.wf
  refine intact.of_entry mem (SingleTypeKVCacheManager.free_onlyEntry m s r) wf
    (fun b key hash => ?_) fun k kind isTrue => ?_
  · rwa [freed.blockHash] at hash
  · simp [SingleTypeKVCacheManager.free] at isTrue

/-! ### Hits -/

/-- With distinct block hashes no block is a hit twice. -/
theorem Intact.hits_once (valid : cfg.Valid) {request : Request H} {args : AllocateSlotsArgs}
    (passed : cfg.PassesHit s request args) (distinct : request.blockHashes.Nodup)
    (mem : m ∈ cfg.managers) {b : BlockId} (notNull : b ≠ nullBlock) :
    (groupHits cfg args m).count b ≤ 1 := by
  have fits : ∀ i : Nat, (groupHits cfg args m)[i]? = some b → ∃ key,
      s.blockPool.blockHash b = some key ∧
        Fits (fun _ => request.blockHashes) m request.requestId i key := fun i =>
    fits_of_passesHit intact.wf.pool.toCacheOk intact.keyed valid List.prefix_rfl passed mem notNull
  apply count_le_one_of_inj
  intro i j at_i at_j
  obtain ⟨key, isKey, first⟩ := fits i at_i
  obtain ⟨key', isKey', second⟩ := fits j at_j
  rw [isKey] at isKey'
  cases isKey'
  exact Fits.inj distinct first second

variable [DecidableEq H]

/-- One manager's part of `allocate_new_computed_blocks`. -/
theorem Intact.computed (mem : m ∈ cfg.managers) {hits : List BlockId}
    {numLocal numExternal : Nat} (once : ∀ b, b ≠ nullBlock → hits.count b ≤ 1)
    (inRange : ∀ b ∈ hits, b ≠ nullBlock → b < cfg.numBlocks)
    (nonneg : s.numCachedBlock (m.key r) = none → m.kvCacheSpec.isCrossAttention = false →
      0 < m.numExternalInWindow numLocal numExternal →
      0 ≤ m.numExternalBlocks hits (numLocal + numExternal))
    (run : m.allocateNewComputedBlocks s r hits numLocal numExternal = .ok s') :
    Intact cfg s' ∧ OnlyEntry (m.key r) s s' := by
  unfold allocateNewComputedBlocks at run
  split at run
  · split at run
    · cases run
    · cases run
      exact ⟨intact, .refl _ _⟩
  · rename_i isNew
    obtain ⟨noBlocks, run⟩ := guard_eq_ok.mp run
    have empty : m.blocksOf s r = [] := Decidable.not_not.mp noBlocks
    have notCross : m.kvCacheSpec.isCrossAttention = false :=
      Bool.eq_false_iff.mpr fun cross => isNew (.inl cross)
    have notCached : s.numCachedBlock (m.key r) = none :=
      Option.not_isSome_iff_eq_none.mp fun cached => isNew (.inr cached)
    have inWindow : (m.hitsInWindow hits (numLocal + numExternal)).Sublist hits :=
      List.drop_sublist _ _
    obtain ⟨p₁, blocks, touched, ok₁, takeRun, -, -, entry, -, -, sameAllocated, -, wf⟩ :=
      addComputedBlocks_spec intact.wf empty
        (fun b notNull => (inWindow.count_le b).trans (once b notNull))
        (fun b isHit => inRange b (inWindow.subset isHit)) (nonneg notCached notCross) run
    obtain ⟨-, -, -, taken, -⟩ := ok₁.of_getNewBlocks (Int.natCast_nonneg _) takeRun
    refine ⟨intact.of_entry mem entry wf (fun b key hash => ?_) fun k kind isTrue => ?_, entry⟩
    · exact touched.blockHash ▸ taken.blockHash_of_some hash
    · -- A request without blocks has no state blocks.
      rw [sameAllocated] at isTrue
      have state := intact.state m mem k kind r isTrue
      rw [empty] at state
      exact absurd state (Nat.not_lt_zero k)

variable {n main : Nat} {request : Request H} {args : AllocateSlotsArgs} {p : BlockPool H}

theorem Intact.allocateNewBlocks (mem : m ∈ cfg.managers) (pos : 0 < main) {blocks : List BlockId}
    (run : m.allocateNewBlocks s r n main = .ok (blocks, s')) : Intact cfg s' := by
  have hash : ∀ {kept newBlocks : List BlockId},
      Grown m.enableCaching (m.key r) s s' kept newBlocks →
      ∀ b key, s'.blockPool.blockHash b = some key → s.blockPool.blockHash b = some key := by
    intro kept newBlocks grown b key
    obtain ⟨-, -, -, taken, -⟩ := intact.wf.pool.of_getNewBlocks (Int.natCast_nonneg _) grown.run
    exact taken.blockHash_of_some
  have base : ∀ {n : Nat}, (∀ k, m.kvCacheSpec.kind ≠ .mamba .align k) →
      m.baseAllocateNewBlocks s r n = .ok (blocks, s') → Intact cfg s' := by
    intro n noState run
    obtain ⟨grown, -⟩ := baseAllocateNewBlocks_spec intact.wf run
    exact intact.of_entry mem grown.entry (intact.wf.grow grown) (hash grown)
      fun k kind => absurd kind (noState k)
  unfold SingleTypeKVCacheManager.allocateNewBlocks at run
  split at run
  · rename_i k kind
    rcases SingleTypeKVCacheManager.alignAllocateNewBlocks_spec intact.wf
        (intact.state m mem k kind r) run with ⟨-, same⟩ | ⟨-, newBlocks, grown, length, -⟩
    · exact same ▸ intact
    · refine intact.of_entry mem grown.entry (intact.wf.grow grown) (hash grown) fun k' kind' _ => ?_
      obtain rfl : k' = k := by
        rw [kind] at kind'
        cases kind'
        rfl
      have some : 0 < cdiv main m.blockSize :=
        (lt_cdiv_iff m.blockSize_pos).mpr (by rw [Nat.zero_mul]; exact pos)
      rw [blocksOf, grown.table, List.length_append]
      omega
  · rename_i mode k notAlign kind
    refine base (fun k' isAlign => ?_) run
    rw [kind] at isAlign
    cases isAlign
    exact notAlign rfl
  · rename_i notAlign _
    exact base (fun k' isAlign => notAlign _ isAlign) run

theorem Intact.coordinatorCacheBlocks (run : cfg.coordinatorCacheBlocks s request n = .ok s') :
    Intact cfg s' := by
  refine foldlM_keeps (Intact cfg) (fun t m mem u before step => ?_) intact run
  obtain ⟨cached, wf⟩ := cacheBlocks_spec before.wf step
  refine ⟨⟨wf, fun m' mem' k kind r isTrue => ?_⟩, fun b key hashed => ?_⟩
  · rw [cached.allocatedBlockReqs] at isTrue
    rw [blocksOf, cached.reqToBlocks]
    exact before.state m' mem' k kind r isTrue
  · cases old : t.blockPool.blockHash b with
    | none =>
      obtain ⟨j, -, -, -, group, isHash⟩ := cached.pool.new b key hashed old
      obtain ⟨⟨-, pos, -⟩, length⟩ : Fits (fun _ => request.blockHashes) m 0 j
          ⟨key.blockHash, m.kvCacheGroupId⟩ ∧ key.blockHash.length = m.scale :=
        fits_of_fullBlockHash List.prefix_rfl isHash
      exact ⟨m, mem, group, pos, length⟩
    | some key₀ =>
      rw [cached.pool.kept b key₀ old] at hashed
      cases hashed
      exact before.keyed b _ old

/-- The stage of `allocate_slots` that puts hits and external blocks into the
tables. -/
theorem Intact.allocateComputed
    (once : ∀ m ∈ cfg.managers, ∀ b, b ≠ nullBlock → (groupHits cfg args m).count b ≤ 1)
    (inRange : ∀ m ∈ cfg.managers, ∀ b ∈ groupHits cfg args m, b ≠ nullBlock → b < cfg.numBlocks)
    (nonneg : cfg.hasNewComputed args = true → ∀ m ∈ cfg.managers,
      s.numCachedBlock (m.key request.requestId) = none → m.kvCacheSpec.isCrossAttention = false →
      0 ≤ numTaken (cfg.newComputedBlockList args)
        (numLocalComputedTokens request args) args.numExternalComputedTokens m)
    (run : cfg.allocateComputed request args s = .ok s') : Intact cfg s' := by
  unfold KVCacheConfig.allocateComputed at run
  split at run
  · rename_i hasNew
    have loop : Ensures (fun _ : KVError => False) (fun t => Intact cfg t ∧ ∀ m ∈ cfg.managers, True)
        (cfg.allocateNewComputedBlocks s request.requestId (cfg.newComputedBlockList args)
          (numLocalComputedTokens request args) args.numExternalComputedTokens) := by
      refine ensures_foldlM_each (Intact cfg)
        (fun m t => t.numCachedBlock (m.key request.requestId) =
          s.numCachedBlock (m.key request.requestId)) (fun _ _ => True) cfg.managers_nodup ?_ intact
        fun _ _ => rfl
      intro t m mem intact same all
      constructor
      · intro u run
        have result := intact.computed mem (once m mem) (inRange m mem) (fun notCached notCross some => ?_) run
        · obtain ⟨intact', entry⟩ := result
          refine ⟨intact', trivial, fun m' mem' ne => ⟨fun before => ?_, id⟩⟩
          rw [entry.numCachedBlock (KVCacheConfig.key_ne mem mem' (Ne.symm ne) _ _)]
          exact before
        · have nonneg := nonneg hasNew m mem (same ▸ notCached) notCross
          rwa [numTaken, if_pos some] at nonneg
      · exact fun _ _ => id
    exact (loop.1 _ run).1
  · cases run
    exact intact

theorem Intact.coordinatorAllocateNewBlocks {enc : Nat} (pos : 0 < main)
    {newBlocks : List (List BlockId)}
    (run : cfg.allocateNewBlocks s r n main enc = .ok (newBlocks, s')) : Intact cfg s' := by
  refine foldlM_keeps (fun acc => Intact cfg acc.2) ?_ intact run
  rintro ⟨acc, t⟩ m mem ⟨acc', u⟩ before step
  obtain ⟨⟨blocks, v⟩, allocated, step⟩ := bind_eq_ok.mp step
  cases step
  exact Intact.allocateNewBlocks before mem pos allocated

theorem Intact.allocateSlots (valid : cfg.Valid)
    (passed : cfg.PassesHit s request args) (distinct : request.blockHashes.Nodup)
    (nonneg : cfg.hasNewComputed args = true → ∀ m ∈ cfg.managers,
      s.numCachedBlock (m.key request.requestId) = none → m.kvCacheSpec.isCrossAttention = false →
      0 ≤ numTaken (cfg.newComputedBlockList args)
        (numLocalComputedTokens request args) args.numExternalComputedTokens m)
    {result : Option (List (List BlockId))}
    (run : cfg.allocateSlots request args s = .ok (result, s')) : Intact cfg s' := by
  rcases KVCacheConfig.allocateSlots_cases run with ⟨-, rfl⟩ | ⟨someNew, s₁, removed, rest⟩
  · exact intact
  have intact₁ := intact.removeSkippedBlocks removed
  rcases rest with ⟨-, rfl⟩ | ⟨_, blocks, s₂, -, -, allocated, committed, -⟩
  · exact intact₁
  obtain ⟨skipped, -⟩ := KVCacheConfig.removeSkippedBlocks_spec intact.wf removed
  obtain ⟨s₃, computed, allocated⟩ := bind_eq_ok.mp allocated
  have intact₃ := intact₁.allocateComputed
    (fun m mem b notNull => intact.hits_once valid passed distinct mem notNull)
    (inRange_of_passesHit valid intact.wf passed)
    (by rw [skipped.numCachedBlock]; exact nonneg) computed
  have intact₂ := intact₃.coordinatorAllocateNewBlocks
    (valid.numTokensMainModel_pos someNew) allocated
  unfold KVCacheConfig.commit at committed
  split at committed
  · cases committed
    exact intact₂
  · exact intact₂.coordinatorCacheBlocks committed

/-! ### Eviction and reset -/

omit [DecidableEq H] in
theorem Intact.of_hashes (ok : CacheOk cfg.numBlocks p) (refCnt : p.refCnt = s.blockPool.refCnt)
    (queue : p.freeBlockQueue = s.blockPool.freeBlockQueue)
    (hash : ∀ b key, p.blockHash b = some key → s.blockPool.blockHash b = some key) :
    Intact cfg { s with blockPool := p } :=
  ⟨⟨intact.wf.of_pool (intact.wf.pool.of_hashes ok refCnt queue) refCnt rfl, intact.state⟩,
    fun b key hashed => intact.keyed b key (hash b key hashed)⟩

theorem Intact.evictBlocks {blockIds : List BlockId}
    (run : s.blockPool.evictBlocks cfg.numBlocks blockIds = .ok p) :
    Intact cfg { s with blockPool := p } := by
  refine foldlM_keeps (fun p => Intact cfg { s with blockPool := p }) ?_ intact run
  intro p block _ p' before step
  split at step
  · cases step
    obtain ⟨ok, hash, refCnt, queue⟩ := before.wf.pool.toCacheOk.maybeEvictCachedBlock block
    apply before.of_hashes ok refCnt queue
    intro b key hashed
    rw [hash, Function.update_apply] at hashed
    split at hashed
    · cases hashed
    · exact hashed
  · cases step

omit [DecidableEq H] in
theorem Intact.resetPrefixCache :
    Intact cfg { s with blockPool := (s.blockPool.resetPrefixCache cfg.numBlocks).2 } := by
  unfold BlockPool.resetPrefixCache
  split
  · exact intact
  · apply intact.of_hashes
    · exact ⟨fun key b => ⟨nofun, nofun⟩,
        fun _ => List.nodup_nil, nofun⟩
    · rfl
    · rfl
    · intro b key hash
      cases hash

end

end Steps

/-! ### Runs -/

/-- A call of the KV cache manager, or of the pool through it. -/
inductive CacheCall (H : Type) where
  | manager (call : Call H)
  | evictBlocks (blockIds : List BlockId)
  | resetPrefixCache

section Runs

variable [DecidableEq H] (cfg : KVCacheConfig)

def KVCacheConfig.execCache (s : KVState H) : CacheCall H → Except KVError (KVState H)
  | .manager call => cfg.exec s call
  | .evictBlocks blockIds => do
    let pool ← s.blockPool.evictBlocks cfg.numBlocks blockIds
    return { s with blockPool := pool }
  | .resetPrefixCache =>
    .ok { s with blockPool := (s.blockPool.resetPrefixCache cfg.numBlocks).2 }

def KVCacheConfig.cacheStep : KVState H → CacheCall H → KVState H → Prop :=
  Steps.succeeds cfg.execCache

/-- The hits of a call are those just looked up. -/
def LooksUp (s : KVState H) : CacheCall H → Prop
  | .manager (.allocateSlots request args) => cfg.PassesHit s request args
  | _ => True

/-- The block hashes of a call come from the block hasher. -/
def Hashed (B : BlockHasher H) : CacheCall H → Prop
  | .manager (.allocateSlots request _) => B.Chained request.blockHashes
  | _ => True

/-- No manager that starts a table asks for a negative number of blocks for external
tokens. -/
def AsksNonneg (s : KVState H) : CacheCall H → Prop
  | .manager (.allocateSlots request args) => cfg.hasNewComputed args = true →
      ∀ m ∈ cfg.managers, s.numCachedBlock (m.key request.requestId) = none →
        m.kvCacheSpec.isCrossAttention = false →
        0 ≤ numTaken (cfg.newComputedBlockList args)
          (numLocalComputedTokens request args) args.numExternalComputedTokens m
  | _ => True

instance decidableLooksUp (s : KVState H) : (call : CacheCall H) → Decidable (LooksUp cfg s call)
  | .manager (.allocateSlots request args) =>
    inferInstanceAs (Decidable (cfg.PassesHit s request args))
  | .manager (.getComputedBlocks _) | .manager (.cacheBlocks _ _)
  | .manager (.removeSkippedBlocks _ _) | .manager (.free _) | .manager .newStepStarts
  | .evictBlocks _ | .resetPrefixCache => inferInstanceAs (Decidable True)

instance decidableAsksNonneg (s : KVState H) : (call : CacheCall H) →
    Decidable (AsksNonneg cfg s call)
  | .manager (.allocateSlots _ _) => inferInstanceAs (Decidable (_ → _))
  | .manager (.getComputedBlocks _) | .manager (.cacheBlocks _ _)
  | .manager (.removeSkippedBlocks _ _) | .manager (.free _) | .manager .newStepStarts
  | .evictBlocks _ | .resetPrefixCache => inferInstanceAs (Decidable True)

variable {cfg} {s s' : KVState H}

theorem Intact.step (intact : Intact cfg s) (valid : cfg.Valid) {B : BlockHasher H}
    (inj : Function.Injective B.hashFn) (fresh : ∀ input, B.hashFn input ≠ B.noneHash)
    {call : CacheCall H} (looksUp : LooksUp cfg s call) (hashed : Hashed B call)
    (nonneg : AsksNonneg cfg s call)
    (run : cfg.cacheStep s call s') : Intact cfg s' := by
  unfold KVCacheConfig.cacheStep Steps.succeeds KVCacheConfig.execCache at run
  cases call with
  | evictBlocks blockIds =>
    obtain ⟨pool, evicted, run⟩ := bind_eq_ok.mp run
    cases run
    exact intact.evictBlocks evicted
  | resetPrefixCache =>
    cases run
    exact intact.resetPrefixCache
  | manager call =>
    unfold KVCacheConfig.exec at run
    cases call with
    | getComputedBlocks request =>
      obtain ⟨-, -, run⟩ := bind_eq_ok.mp run
      cases run
      exact intact
    | allocateSlots request args =>
      obtain ⟨⟨result, t⟩, allocated, run⟩ := bind_eq_ok.mp run
      cases run
      have chained : B.Chained request.blockHashes := hashed
      exact intact.allocateSlots valid looksUp (chained.nodup inj fresh) nonneg allocated
    | cacheBlocks request n =>
      simp only [KVCacheConfig.cacheBlocks] at run
      split at run
      · exact intact.coordinatorCacheBlocks run
      · cases run
        exact intact
    | removeSkippedBlocks r n => exact intact.removeSkippedBlocks run
    | free r =>
      cases run
      exact intact.free r
    | newStepStarts =>
      cases run
      obtain ⟨cachedBlocksThisStep, same⟩ := newStepStarts_eq cfg s
      rw [same]
      exact ⟨⟨intact.wf.of_pool intact.wf.pool rfl rfl, intact.state⟩, intact.keyed⟩

/-- In every run in which no call asks for a negative number of blocks, the
representation invariant holds. -/
theorem repInvariant_of_run {B : BlockHasher H} (inj : Function.Injective B.hashFn)
    (fresh : ∀ input, B.hashFn input ≠ B.noneHash) (valid : cfg.Valid) {calls : List (CacheCall H)}
    (run : Run (guarded (fun s call => (LooksUp cfg s call ∧ Hashed B call) ∧ AsksNonneg cfg s call)
      cfg.cacheStep) (init H cfg.numBlocks) calls s) : RepInvariant cfg.numBlocks s := by
  have intact : Intact cfg s := by
    refine run.invariant (Intact cfg) (fun intact step => ?_) (.init H valid.numBlocks)
    obtain ⟨⟨⟨looksUp, hashed⟩, nonneg⟩, step⟩ := step
    exact intact.step valid inj fresh looksUp hashed nonneg step
  exact intact.wf.repInvariant

/-- In such a run no block is lost: the free blocks that are counted and the blocks in tables are all
but the null block. -/
theorem numFree_add_held_of_run {B : BlockHasher H} (inj : Function.Injective B.hashFn)
    (fresh : ∀ input, B.hashFn input ≠ B.noneHash) (valid : cfg.Valid) {calls : List (CacheCall H)}
    (run : Run (guarded (fun s call => (LooksUp cfg s call ∧ Hashed B call) ∧ AsksNonneg cfg s call)
      cfg.cacheStep) (init H cfg.numBlocks) calls s) :
    s.blockPool.getNumFreeBlocks +
      ((Finset.Ioo 0 cfg.numBlocks).filter (s.held · ≠ 0)).card = cfg.numBlocks - 1 := by
  have intact : Intact cfg s := run.invariant (Intact cfg) (fun intact step => intact.step valid inj
    fresh step.1.1.1 step.1.1.2 step.1.2 step.2) (.init H valid.numBlocks)
  exact intact.wf.numFree_add_held valid.numBlocks

end Runs

/-! ### A hit longer than the hit length -/

/-- Two full-attention groups of different shapes and a sliding window. -/
def twoShapes : KVCacheConfig where
  kvCacheGroups := [fullGroup,
    ⟨{ kind := .fullAttention, blockSize := 1, layerShape := 1, blockSize_pos := Nat.one_pos }, false⟩,
    ⟨{ kind := .slidingWindow 2, blockSize := 1, blockSize_pos := Nat.one_pos }, false⟩]
  numBlocks := 10
  maxModelLen := 8
  maxNumBatchedTokens := 8
  schedulerBlockSize := 1
  hashBlockSize := 1

theorem twoShapes_valid : twoShapes.Valid :=
  ⟨by decide, by decide, by decide, fun _ => rfl, by decide⟩

def tokenHasher : BlockHasher SymbolicHash := symbolicHasher 1 Nat.one_pos

def fiveTokens (r : RequestId) : Request SymbolicHash :=
  tokenHasher.updateBlockHashes
    { requestId := r, allTokenIds := [7, 8, 9, 5, 6], promptTokenIds := [7, 8, 9, 5, 6] }

theorem fiveTokens_chained (r : RequestId) : tokenHasher.Chained (fiveTokens r).blockHashes :=
  .updateBlockHashes (BlockHasher.chained_nil _)

def computeThree : CacheCall SymbolicHash :=
  .manager (.allocateSlots (fiveTokens 0) { numNewTokens := 3 })

/-- Three tokens take a block each in each group. -/
theorem computeThree_numFree : ∃ s, twoShapes.cacheStep (init _ 10) computeThree s ∧
    s.blockPool.getNumFreeBlocks + ((Finset.Ioo 0 10).filter (s.held · ≠ 0)).card =
      (10 : Nat) - 1 := by
  have final : (twoShapes.execCache (init _ 10) computeThree).map (fun _ => ()) = .ok () := by rfl
  obtain ⟨s, step, -⟩ := map_eq_ok.mp final
  have hashed : Hashed tokenHasher computeThree := fiveTokens_chained 0
  exact ⟨s, step, numFree_add_held_of_run (symbolicHasher_injective 1 (by decide)) nofun
    twoShapes_valid (.tail (.refl _) ⟨⟨⟨by decide, hashed⟩, by decide⟩, step⟩)⟩

/-- Three tokens are computed and freed, and the window group loses all but the first
of them. -/
def threeTokensKept : List (CacheCall SymbolicHash) :=
  [.manager (.allocateSlots (fiveTokens 0) { numNewTokens := 3 }), .manager (.free 0),
    .evictBlocks [8, 9]]

/-- The hit that is then found, with one token to load. Its length is one token, but
the second group has three blocks in it. -/
def loadSecond (numExternalComputedTokens : Nat) : AllocateSlotsArgs :=
  { numNewTokens := 0, numNewComputedTokens := 1, newComputedBlocks := some [[1], [4, 5, 6], [7]],
    numExternalComputedTokens := numExternalComputedTokens, delayCacheBlocks := true }

def loadOneToken : List (CacheCall SymbolicHash) :=
  threeTokensKept ++ [.manager (.allocateSlots (fiveTokens 1) (loadSecond 1))]

/-- Two tokens are loaded; then all is freed and the cache is reset. -/
def loadTwoTokens : List (CacheCall SymbolicHash) :=
  threeTokensKept ++ [.manager (.allocateSlots (fiveTokens 1) (loadSecond 2)), .manager (.free 1),
    .resetPrefixCache]

/-- The second group asks for two blocks less the three that it has: the counter says
that four blocks are free, and the queue has three. -/
theorem twoShapes_not_repInvariant : twoShapes.Valid ∧ ∃ s,
    Run (guarded (fun s call => LooksUp twoShapes s call ∧ Hashed tokenHasher call)
      twoShapes.cacheStep) (init SymbolicHash 10)
      loadOneToken s ∧
    ¬ RepInvariant 10 s := by
  have final : (loadOneToken.foldlM twoShapes.execCache (init SymbolicHash 10)).map (fun s =>
        (s.blockPool.freeBlockQueue.blocks, s.blockPool.freeBlockQueue.numFreeBlocks)) =
      .ok ([9, 8, 7], 4) := by rfl
  obtain ⟨s, ends, facts⟩ := map_eq_ok.mp final
  obtain ⟨queue, counter⟩ := Prod.mk.inj facts
  have along : AlongOk (LooksUp twoShapes) twoShapes.execCache (init SymbolicHash 10)
      loadOneToken := by decide
  have hashed : ∀ call ∈ loadOneToken, Hashed tokenHasher call := by
    simp [loadOneToken, threeTokensKept, Hashed, fiveTokens_chained]
  refine ⟨twoShapes_valid, s, .of_alongOk (along.imp ?_) ends, ?_⟩
  · exact fun _ call mem looksUp => ⟨looksUp, hashed call mem⟩
  · intro invariant
    have := invariant.numFreeBlocks
    rw [queue, counter] at this
    cases this

/-- With two tokens to load it asks for none. -/
theorem twoShapes_repInvariant : ∃ s,
    loadTwoTokens.foldlM twoShapes.execCache (init SymbolicHash 10) = .ok s ∧ RepInvariant 10 s := by
  have final : (loadTwoTokens.foldlM twoShapes.execCache (init SymbolicHash 10)).map (fun s =>
        s.blockPool.freeBlockQueue.numFreeBlocks) = .ok 9 := by rfl
  obtain ⟨s, ends, -⟩ := map_eq_ok.mp final
  have along : AlongOk (fun s call => LooksUp twoShapes s call ∧ AsksNonneg twoShapes s call)
      twoShapes.execCache (init SymbolicHash 10) loadTwoTokens := by decide
  have hashed : ∀ call ∈ loadTwoTokens, Hashed tokenHasher call := by
    simp [loadTwoTokens, threeTokensKept, Hashed, fiveTokens_chained]
  refine ⟨s, ends, repInvariant_of_run (symbolicHasher_injective 1 (by decide))
    nofun twoShapes_valid (.of_alongOk (along.imp ?_) ends)⟩
  exact fun _ call mem both => ⟨⟨both.1, hashed call mem⟩, both.2⟩

end Vllm.KVCache
