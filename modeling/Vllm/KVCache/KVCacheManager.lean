import Vllm.KVCache.Manager

/-!
The KV cache manager (`vllm/v1/core/kv_cache_manager.py`) with the parts of the
coordinator that go over all managers (`kv_cache_coordinator.py`).

A call that raises has no successor state: the exceptions modelled here end the
engine.
-/

namespace Vllm.KVCache

open Vllm.Lib Vllm.Lib.Fallible List

variable {H : Type}

namespace KVCacheConfig

variable (cfg : KVCacheConfig)

/-- `HybridKVCacheCoordinator` is the coordinator. -/
def isHybrid : Bool := cfg.enableCaching && decide (cfg.kvCacheGroups.length ≠ 1)

/-- `manager.use_eagle` as the coordinator sets it. -/
def managerUsesEagle (i : Nat) : Bool :=
  if cfg.isHybrid then cfg.attentionGroups.any fun group => group.useEagle && group.groupIds.contains i
  else cfg.enableCaching && cfg.isEagle i

/-- The manager of group `i`, as `get_manager_for_kv_cache_spec` builds it. -/
def manager (group : KVCacheGroupSpec) (i : Nat) : SingleTypeKVCacheManager where
  kvCacheSpec := group.kvCacheSpec
  kvCacheGroupId := i
  enableCaching := cfg.enableCaching
  schedulerBlockSize := cfg.schedulerBlockSize
  hashBlockSize := cfg.hashBlockSize
  numGpuBlocks := cfg.numBlocks
  contextParallelSize := cfg.contextParallelSize
  maxAdmissionBlocksPerRequest :=
    group.kvCacheSpec.maxAdmissionBlocksPerRequest cfg.maxNumBatchedTokens cfg.maxModelLen
  useEagle := cfg.managerUsesEagle i

/-- `single_type_managers`. -/
def managers : List SingleTypeKVCacheManager :=
  cfg.kvCacheGroups.zipIdx.map fun g => cfg.manager g.1 g.2

/-- The assertions in the constructors of the coordinators, as far as block sizes
are concerned; moreover the model takes a token, and a window covers its own
token. -/
structure Valid (cfg : KVCacheConfig) : Prop where
  numBlocks : 0 < cfg.numBlocks
  maxModelLen : 0 < cfg.maxModelLen
  contextParallel : 0 < cfg.contextParallelSize
  hybrid : cfg.isHybrid = true → cfg.contextParallelSize = 1
  window : ∀ g ∈ cfg.kvCacheGroups, g.kvCacheSpec.kind ≠ .slidingWindow 0

variable {cfg} in
theorem mem_managers {m : SingleTypeKVCacheManager} :
    m ∈ cfg.managers ↔ ∃ g i, cfg.kvCacheGroups[i]? = some g ∧ m = cfg.manager g i := by
  rw [managers, mem_map]
  constructor
  · rintro ⟨⟨g, i⟩, mem, rfl⟩
    exact ⟨g, i, mk_mem_zipIdx_iff_getElem?.mp mem, rfl⟩
  · rintro ⟨g, i, found, rfl⟩
    exact ⟨(g, i), mk_mem_zipIdx_iff_getElem?.mpr found, rfl⟩

variable {cfg} in
theorem manager_ext {m m' : SingleTypeKVCacheManager} (mem : m ∈ cfg.managers)
    (mem' : m' ∈ cfg.managers) (same : m.kvCacheGroupId = m'.kvCacheGroupId) : m = m' := by
  obtain ⟨g, i, at_i, rfl⟩ := mem_managers.mp mem
  obtain ⟨g', i', at_i', rfl⟩ := mem_managers.mp mem'
  obtain rfl : i = i' := same
  rw [at_i] at at_i'
  cases at_i'
  rfl

theorem managers_nodup : cfg.managers.Nodup := by
  have ids : cfg.managers.map (·.kvCacheGroupId) = range cfg.kvCacheGroups.length := by
    rw [managers, map_map, range_eq_range']
    exact zipIdx_map_snd 0 _
  exact List.Nodup.of_map (·.kvCacheGroupId) (ids ▸ nodup_range)

variable {cfg} in
/-- A loop over the managers comes by `m` once; before and after it there are managers of
other groups. -/
theorem managers_foldlM_split {σ ε : Type} {f : σ → SingleTypeKVCacheManager → Except ε σ}
    {m : SingleTypeKVCacheManager} (mem : m ∈ cfg.managers) {a b : σ}
    (run : cfg.managers.foldlM f a = .ok b) :
    ∃ (before after : List SingleTypeKVCacheManager) (t u : σ),
      before.foldlM f a = .ok t ∧ f t m = .ok u ∧ after.foldlM f u = .ok b ∧
      ∀ m' ∈ before ++ after, m'.kvCacheGroupId ≠ m.kvCacheGroupId := by
  obtain ⟨before, after, t, u, split, first, there, rest⟩ := foldlM_split mem run
  refine ⟨before, after, t, u, first, there, rest, fun m' mem' same => ?_⟩
  have nodup := cfg.managers_nodup
  rw [split, nodup_middle, nodup_cons] at nodup
  have isManager : m' ∈ cfg.managers := by
    rw [split]
    exact mem_append.mpr ((mem_append.mp mem').imp_right (mem_cons_of_mem _))
  rw [manager_ext isManager mem same] at mem'
  exact nodup.1 mem'

/-! ### Coordinator -/

/-- One manager's part of `KVCacheCoordinator.get_num_blocks_to_allocate`.
Cross-attention has one static allocation for the encoder tokens. -/
def managerNumBlocksToAllocate [DecidableEq H] (s : KVState H) (requestId : RequestId)
    (numTokens : Nat) (newComputedBlocks : List (List BlockId))
    (numEncoderTokens totalComputedTokens numTokensMainModel : Nat) (applyAdmissionCap : Bool)
    (m : SingleTypeKVCacheManager) : Except KVError Int :=
  if m.kvCacheSpec.isCrossAttention then
    m.getNumBlocksToAllocate s requestId numEncoderTokens [] 0 numEncoderTokens applyAdmissionCap
  else
    m.getNumBlocksToAllocate s requestId numTokens (newComputedBlocks.getD m.kvCacheGroupId [])
      totalComputedTokens numTokensMainModel applyAdmissionCap

/-- `KVCacheCoordinator.get_num_blocks_to_allocate`. -/
def getNumBlocksToAllocate [DecidableEq H] (s : KVState H) (requestId : RequestId) (numTokens : Nat)
    (newComputedBlocks : List (List BlockId)) (numEncoderTokens totalComputedTokens : Nat)
    (numTokensMainModel : Nat) (applyAdmissionCap : Bool) : Except KVError Int :=
  cfg.managers.foldlM
    (fun sum m => do
      let n ← managerNumBlocksToAllocate s requestId numTokens newComputedBlocks numEncoderTokens
        totalComputedTokens numTokensMainModel applyAdmissionCap m
      return sum + n)
    0

/-- `KVCacheCoordinator.allocate_new_computed_blocks`. -/
def allocateNewComputedBlocks [DecidableEq H] (s : KVState H) (requestId : RequestId)
    (newComputedBlocks : List (List BlockId))
    (numLocalComputedTokens numExternalComputedTokens : Nat) : Except KVError (KVState H) :=
  cfg.managers.foldlM
    (fun s m => m.allocateNewComputedBlocks s requestId
      (newComputedBlocks.getD m.kvCacheGroupId []) numLocalComputedTokens
      numExternalComputedTokens)
    s

/-- `KVCacheCoordinator.allocate_new_blocks`: the new blocks by group. -/
def allocateNewBlocks [DecidableEq H] (s : KVState H) (requestId : RequestId)
    (numTokens numTokensMainModel numEncoderTokens : Nat) :
    Except KVError (List (List BlockId) × KVState H) :=
  cfg.managers.foldlM
    (fun acc m => do
      let (newBlocks, s) ← m.allocateNewBlocks acc.2 requestId
        (if m.kvCacheSpec.isCrossAttention then numEncoderTokens else numTokens)
        numTokensMainModel
      return (acc.1 ++ [newBlocks], s))
    ([], s)

/-- How many tokens the coordinator's `cache_blocks` lets a manager cache. A
hybrid hit is aligned to the scheduler's blocks, and an eagle group is matched
one block past it. -/
def numTokensToCache (m : SingleTypeKVCacheManager) (numComputedTokens : Nat) : Nat :=
  if cfg.isHybrid then
    let aligned := numComputedTokens / cfg.schedulerBlockSize * cfg.schedulerBlockSize
    if m.useEagle ∧ 0 < aligned then min numComputedTokens (aligned + m.blockSize) else aligned
  else numComputedTokens

/-- `cache_blocks` of the coordinator. -/
def coordinatorCacheBlocks [DecidableEq H] (s : KVState H) (request : Request H)
    (numComputedTokens : Nat) : Except KVError (KVState H) :=
  cfg.managers.foldlM
    (fun s m => m.cacheBlocks s request (cfg.numTokensToCache m numComputedTokens)
      cfg.retentionInterval)
    s

/-! ### KVCacheManager -/

/-- `KVCacheManager.remove_skipped_blocks`. -/
def removeSkippedBlocks (s : KVState H) (requestId : RequestId) (totalComputedTokens : Nat) :
    Except KVError (KVState H) :=
  cfg.managers.foldlM (fun s m => m.removeSkippedBlocks s requestId totalComputedTokens) s

/-- `KVCacheManager.free`. -/
def free (s : KVState H) (requestId : RequestId) : KVState H :=
  cfg.managers.foldl (fun s m => m.free s requestId) s

/-- `KVCacheManager.new_step_starts`. -/
def newStepStarts (s : KVState H) : KVState H :=
  cfg.managers.foldl (fun s m => m.newStepStarts s) s

/-- `KVCacheManager.cache_blocks`. -/
def cacheBlocks [DecidableEq H] (s : KVState H) (request : Request H) (numComputedTokens : Nat) :
    Except KVError (KVState H) :=
  if cfg.enableCaching then cfg.coordinatorCacheBlocks s request numComputedTokens else .ok s

def emptyKVCacheBlocks : List (List BlockId) := cfg.kvCacheGroups.map fun _ => []

/-- `KVCacheManager.get_computed_blocks`. -/
def getComputedBlocks (s : KVState H) (request : Request H) :
    Except KVError (List (List BlockId) × Nat) :=
  if ¬ cfg.enableCaching ∨ request.skipReadingPrefixCache then .ok (cfg.emptyKVCacheBlocks, 0)
  -- The last token is always computed, for its logits.
  else cfg.findLongestCacheHit s.blockPool request.blockHashes (request.numTokens - 1)

end KVCacheConfig

/-- The arguments of `allocate_slots` beside the request. -/
structure AllocateSlotsArgs where
  numNewTokens : Nat
  numNewComputedTokens : Nat := 0
  newComputedBlocks : Option (List (List BlockId)) := none
  numLookaheadTokens : Nat := 0
  numExternalComputedTokens : Nat := 0
  delayCacheBlocks : Bool := false
  numEncoderTokens : Nat := 0
  fullSequenceMustFit : Bool := false
  reservedBlocks : Nat := 0
  deriving DecidableEq, Repr

namespace KVCacheConfig

variable (cfg : KVCacheConfig)

section Slots

/-! The local variables of `allocate_slots`. A request is handed over with a count
of computed tokens that is not negative. -/

variable (request : Request H) (args : AllocateSlotsArgs)

def newComputedBlockList : List (List BlockId) :=
  args.newComputedBlocks.getD cfg.emptyKVCacheBlocks

def numLocalComputedTokens : Nat := request.numComputedTokens.toNat + args.numNewComputedTokens

/-- `num_local_computed_tokens + num_external_computed_tokens`. -/
def numLocalAndExternalTokens : Nat :=
  numLocalComputedTokens request args + args.numExternalComputedTokens

def totalComputedTokens : Nat := min (numLocalAndExternalTokens request args) cfg.maxModelLen

def numTokensMainModel : Nat := cfg.totalComputedTokens request args + args.numNewTokens

def numTokensNeedSlot : Nat :=
  min (cfg.numTokensMainModel request args + args.numLookaheadTokens) cfg.maxModelLen

/-- `num_tokens_to_cache`: draft tokens are not cached. -/
def numTokensToCommit : Nat :=
  min (cfg.totalComputedTokens request args + args.numNewTokens) request.numTokens

/-- There are hits or external tokens, so that `allocate_new_computed_blocks` is
called: a lookup without a hit returns `empty_kv_cache_blocks` itself. -/
def hasNewComputed : Bool :=
  (cfg.newComputedBlockList args).any (!·.isEmpty) || decide (0 < args.numExternalComputedTokens)

variable [DecidableEq H]

def fullSequenceBlocks (s : KVState H) : Except KVError Int :=
  let fullNumTokens := min request.numTokens cfg.maxModelLen
  cfg.getNumBlocksToAllocate s request.requestId fullNumTokens (cfg.newComputedBlockList args)
    args.numEncoderTokens (cfg.totalComputedTokens request args) fullNumTokens true

def fullSequenceFits (s : KVState H) : Except KVError Bool :=
  if args.fullSequenceMustFit then do
    let numBlocksToAllocate ← cfg.fullSequenceBlocks request args s
    return decide (numBlocksToAllocate ≤ s.blockPool.getNumFreeBlocks)
  else .ok true

/-- `num_blocks_to_allocate`, the prediction for this call. -/
def numBlocksToAllocate (s : KVState H) : Except KVError Int :=
  cfg.getNumBlocksToAllocate s request.requestId (cfg.numTokensNeedSlot request args)
    (cfg.newComputedBlockList args) args.numEncoderTokens
    (numLocalAndExternalTokens request args) (cfg.numTokensMainModel request args) false

/-- The call of `allocate_new_computed_blocks`, when there is something new. -/
def allocateComputed (s : KVState H) : Except KVError (KVState H) :=
  if cfg.hasNewComputed args then
    cfg.allocateNewComputedBlocks s request.requestId (cfg.newComputedBlockList args)
      (numLocalComputedTokens request args) args.numExternalComputedTokens
  else .ok s

/-- The allocation itself, after the check of the prediction. -/
def allocate (s : KVState H) : Except KVError (List (List BlockId) × KVState H) := do
  let s ← cfg.allocateComputed request args s
  cfg.allocateNewBlocks s request.requestId (cfg.numTokensNeedSlot request args)
    (cfg.numTokensMainModel request args) args.numEncoderTokens

/-- The caching at the end of `allocate_slots`. -/
def commit (s : KVState H) : Except KVError (KVState H) :=
  if ¬ cfg.enableCaching ∨ args.delayCacheBlocks then .ok s
  else cfg.coordinatorCacheBlocks s request (cfg.numTokensToCommit request args)

/-- `allocate_slots` from the second check on, in the state without skipped
blocks. -/
def allocateIfFree (s : KVState H) : Except KVError (Option (List (List BlockId)) × KVState H) := do
  let numBlocksToAllocate ← cfg.numBlocksToAllocate request args s
  if s.blockPool.getNumFreeBlocks - args.reservedBlocks < numBlocksToAllocate then
    return (none, s)
  else
    let (newBlocks, s) ← cfg.allocate request args s
    let s ← cfg.commit request args s
    return (some newBlocks, s)

/-- `KVCacheManager.allocate_slots`: the new blocks by group, or `none` when there
are not enough free blocks. -/
def allocateSlots (s : KVState H) : Except KVError (Option (List (List BlockId)) × KVState H) :=
  if args.numNewTokens = 0 ∧ args.numExternalComputedTokens = 0 then .error .noNewTokens
  else do
    if ← cfg.fullSequenceFits request args s then
      -- Skipped blocks are freed whether or not the rest fits.
      let s ← cfg.removeSkippedBlocks s request.requestId (cfg.totalComputedTokens request args)
      cfg.allocateIfFree request args s
    else return (none, s)

end Slots

end KVCacheConfig

end Vllm.KVCache
