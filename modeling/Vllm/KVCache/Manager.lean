import Vllm.KVCache.Coordinator
import Vllm.Lib.Dict
import Vllm.Request

/-!
The managers of `vllm/v1/core/single_type_kv_cache_manager.py`: one per KV cache
group, all over one block pool.

`SingleTypeKVCacheManager` holds what a manager is constructed with. What the
managers of one coordinator change while they run is `KVState`: the pool, and
every dictionary of every manager with the group id as a part of the key. The
ids in `new_block_ids`, which only the worker's zeroing of fresh blocks reads,
are left out.
-/

namespace Vllm.KVCache

open Vllm.Lib Vllm.Lib.Ceil Vllm.Lib.Fallible
open Function (update)

variable {H : Type}

/-- What the constructors of the manager classes keep. -/
structure SingleTypeKVCacheManager where
  kvCacheSpec : KVCacheSpec
  kvCacheGroupId : Nat
  enableCaching : Bool
  schedulerBlockSize : Nat
  hashBlockSize : Nat
  numGpuBlocks : Nat
  contextParallelSize : Nat
  maxAdmissionBlocksPerRequest : Option Nat
  useEagle : Bool
  deriving DecidableEq, Repr

/-- The state of the block pool and of all managers over it, by group id and
request id. -/
structure KVState (H : Type) where
  blockPool : BlockPool H
  reqToBlocks : Dict (Nat × RequestId) (List BlockId)
  numCachedBlock : Nat × RequestId → Option Nat
  /-- `last_state_block_idx` and `_allocated_block_reqs` of Mamba in align mode. -/
  lastStateBlockIdx : Nat × RequestId → Option Nat
  allocatedBlockReqs : Nat × RequestId → Bool
  /-- `cached_blocks_this_step` of the Mamba managers, by group id. -/
  cachedBlocksThisStep : Nat → List (BlockHashWithGroupId H)

/-- The state of fresh managers over a fresh pool. -/
def KVState.init (H : Type) (numGpuBlocks : Nat) : KVState H where
  blockPool := .init H numGpuBlocks
  reqToBlocks := .empty
  numCachedBlock := fun _ => none
  lastStateBlockIdx := fun _ => none
  allocatedBlockReqs := fun _ => false
  cachedBlocksThisStep := fun _ => []

def getNumEvictableBlocks (p : BlockPool H) (blocks : List BlockId) : Nat :=
  blocks.countP fun b => decide (p.refCnt b = 0 ∧ b ≠ nullBlock)

namespace SingleTypeKVCacheManager

variable (m : SingleTypeKVCacheManager)

/-- `self.block_size`. -/
def blockSize : Nat :=
  if 1 < m.contextParallelSize then m.kvCacheSpec.blockSize * m.contextParallelSize
  else m.kvCacheSpec.blockSize

theorem blockSize_pos : 0 < m.blockSize := by
  unfold blockSize
  split
  · exact Nat.mul_pos m.kvCacheSpec.blockSize_pos (by omega)
  · exact m.kvCacheSpec.blockSize_pos

theorem blockSize_eq (pos : 0 < m.contextParallelSize) :
    m.blockSize = m.kvCacheSpec.blockSize * m.contextParallelSize := by
  unfold blockSize
  split
  · rfl
  · have : m.contextParallelSize = 1 := by omega
    rw [this, Nat.mul_one]

/-- Hash blocks per block of the group. -/
def scale : Nat := m.blockSize / m.hashBlockSize

def key (requestId : RequestId) : Nat × RequestId := (m.kvCacheGroupId, requestId)

/-- `self.req_to_blocks[request_id]`. -/
def blocksOf (s : KVState H) (requestId : RequestId) : List BlockId :=
  s.reqToBlocks.get (m.key requestId)

/-- `get_num_skipped_tokens(num_tokens) // self.block_size`. -/
def numSkippedBlocks (numTokens : Nat) : Nat :=
  m.kvCacheSpec.getNumSkippedTokens numTokens / m.blockSize

/-! ### Predicting an allocation -/

/-- `num_required_blocks` of `get_num_blocks_to_allocate`. -/
def numRequiredBlocks (numTokens : Nat) (applyAdmissionCap : Bool) : Nat :=
  match applyAdmissionCap, m.maxAdmissionBlocksPerRequest with
  | true, some cap => min (cdiv numTokens m.blockSize) cap
  | _, _ => cdiv numTokens m.blockSize

/-- `SingleTypeKVCacheManager.get_num_blocks_to_allocate`. -/
def baseNumBlocksToAllocate (s : KVState H) (requestId : RequestId) (numTokens : Nat)
    (newComputedBlocks : List BlockId) (totalComputedTokens : Nat) (applyAdmissionCap : Bool) :
    Except KVError Nat :=
  let numRequiredBlocks := m.numRequiredBlocks numTokens applyAdmissionCap
  let numReqBlocks := (m.blocksOf s requestId).length
  if (s.numCachedBlock (m.key requestId)).isSome then
    -- A running request has no new hits.
    if newComputedBlocks ≠ [] then .error .unexpectedComputedBlocks
    else .ok (numRequiredBlocks - numReqBlocks)
  else
    let numSkippedBlocks := m.numSkippedBlocks totalComputedTokens
    .ok (numRequiredBlocks - max numSkippedBlocks (newComputedBlocks.length + numReqBlocks) +
      getNumEvictableBlocks s.blockPool (newComputedBlocks.drop (numSkippedBlocks - numReqBlocks)))

/-- The last hit was cached by another request in this step. -/
def hitsThisStep [DecidableEq H] (s : KVState H) (newComputedBlocks : List BlockId) : Bool :=
  match newComputedBlocks.getLast?.bind s.blockPool.blockHash with
  | none => false
  | some hash => (s.cachedBlocksThisStep m.kvCacheGroupId).contains hash

/-- The align branch of `MambaManager.get_num_blocks_to_allocate`. The estimate
is not cut off at zero. -/
def alignNumBlocksToAllocate (s : KVState H) (requestId : RequestId) (numSpeculativeBlocks : Nat)
    (newComputedBlocks : List BlockId) (numTokensMainModel : Nat) : Int :=
  let numRequiredBlocks : Int := (cdiv numTokensMainModel m.blockSize + numSpeculativeBlocks : Nat)
  let numNewBlocks := numRequiredBlocks - newComputedBlocks.length - (m.blocksOf s requestId).length
  let numNewBlocks : Int :=
    if 0 < numNewBlocks then
      if s.allocatedBlockReqs (m.key requestId) then 1 else 1 + numSpeculativeBlocks
    else numNewBlocks
  numNewBlocks + getNumEvictableBlocks s.blockPool newComputedBlocks

/-- `get_num_blocks_to_allocate` of the manager's class. -/
def getNumBlocksToAllocate [DecidableEq H] (s : KVState H) (requestId : RequestId) (numTokens : Nat)
    (newComputedBlocks : List BlockId) (totalComputedTokens numTokensMainModel : Nat)
    (applyAdmissionCap : Bool) : Except KVError Int :=
  match m.kvCacheSpec.kind with
  | .mamba mode numSpeculativeBlocks =>
    if m.hitsThisStep s newComputedBlocks then
      -- More than the pool has, so that the request waits for the next step.
      .ok (m.numGpuBlocks + 1)
    else if mode = .align then
      .ok (m.alignNumBlocksToAllocate s requestId numSpeculativeBlocks newComputedBlocks
        numTokensMainModel)
    else do
      let numTokens := numTokens + m.kvCacheSpec.blockSize * numSpeculativeBlocks
      return (← m.baseNumBlocksToAllocate s requestId numTokens newComputedBlocks
        totalComputedTokens applyAdmissionCap : Nat)
  | _ => do
    return (← m.baseNumBlocksToAllocate s requestId numTokens newComputedBlocks
      totalComputedTokens applyAdmissionCap : Nat)

/-! ### Allocating -/

def setBlocks (s : KVState H) (requestId : RequestId) (blocks : List BlockId) : KVState H :=
  { s with reqToBlocks := s.reqToBlocks.set (m.key requestId) blocks }

/-- External tokens that need a block: those that the window does not skip. -/
def numExternalInWindow (numLocalComputedTokens numExternalComputedTokens : Nat) : Nat :=
  let numTotalComputedTokens := numLocalComputedTokens + numExternalComputedTokens
  if 0 < m.numSkippedBlocks numTotalComputedTokens then
    min (numTotalComputedTokens - m.kvCacheSpec.getNumSkippedTokens numTotalComputedTokens)
      numExternalComputedTokens
  else numExternalComputedTokens

/-- The hits that enter the table: those that the window does not skip. -/
def hitsInWindow (newComputedBlocks : List BlockId) (numTotalComputedTokens : Nat) : List BlockId :=
  newComputedBlocks.drop (m.numSkippedBlocks numTotalComputedTokens)

/-- The table of a new request after its hits are added, before blocks for the
external tokens are: null blocks for what the window skips, then the hits. -/
def hitTable (newComputedBlocks : List BlockId) (numTotalComputedTokens : Nat) : List BlockId :=
  List.replicate (m.numSkippedBlocks numTotalComputedTokens) nullBlock ++
    m.hitsInWindow newComputedBlocks numTotalComputedTokens

/-- How many blocks are asked for external tokens; nothing keeps the difference
from being negative. -/
def numExternalBlocks (newComputedBlocks : List BlockId) (numTotalComputedTokens : Nat) : Int :=
  (cdiv numTotalComputedTokens m.blockSize : Int) -
    (m.hitTable newComputedBlocks numTotalComputedTokens).length

/-- The hits are touched, so that they are not evicted. -/
def touchHits (p : BlockPool H) (hits : List BlockId) : Except KVError (BlockPool H) :=
  if m.enableCaching then p.touch hits
  else if hits ≠ [] then .error .computedBlocksWithoutCaching
  else .ok p

/-- New blocks for the external tokens in the window, if there are any. -/
def takeExternal [DecidableEq H] (p : BlockPool H) (newComputedBlocks : List BlockId)
    (numLocalComputedTokens numExternalComputedTokens : Nat) :
    Except KVError (List BlockId × BlockPool H) :=
  if 0 < m.numExternalInWindow numLocalComputedTokens numExternalComputedTokens then
    p.getNewBlocks m.enableCaching (m.numExternalBlocks newComputedBlocks
      (numLocalComputedTokens + numExternalComputedTokens))
  else .ok ([], p)

/-- The part of `SingleTypeKVCacheManager.allocate_new_computed_blocks` after the
checks that the request is new. -/
def addComputedBlocks [DecidableEq H] (s : KVState H) (requestId : RequestId)
    (newComputedBlocks : List BlockId) (numLocalComputedTokens numExternalComputedTokens : Nat) :
    Except KVError (KVState H) := do
  let numTotalComputedTokens := numLocalComputedTokens + numExternalComputedTokens
  let pool ← m.touchHits s.blockPool (m.hitsInWindow newComputedBlocks numTotalComputedTokens)
  let reqBlocks := m.hitTable newComputedBlocks numTotalComputedTokens
  let (allocated, pool) ← m.takeExternal pool newComputedBlocks numLocalComputedTokens
    numExternalComputedTokens
  return { m.setBlocks s requestId (reqBlocks ++ allocated) with
    blockPool := pool
    numCachedBlock := update s.numCachedBlock (m.key requestId) (some reqBlocks.length) }

/-- `allocate_new_computed_blocks` of the manager's class. -/
def allocateNewComputedBlocks [DecidableEq H] (s : KVState H) (requestId : RequestId)
    (newComputedBlocks : List BlockId) (numLocalComputedTokens numExternalComputedTokens : Nat) :
    Except KVError (KVState H) :=
  if m.kvCacheSpec.isCrossAttention ∨ (s.numCachedBlock (m.key requestId)).isSome then
    if newComputedBlocks ≠ [] then .error .unexpectedComputedBlocks else .ok s
  else if m.blocksOf s requestId ≠ [] then .error .requestHasBlocks
  else m.addComputedBlocks s requestId newComputedBlocks numLocalComputedTokens
    numExternalComputedTokens

/-- `SingleTypeKVCacheManager.allocate_new_blocks`. -/
def baseAllocateNewBlocks [DecidableEq H] (s : KVState H) (requestId : RequestId)
    (numTokens : Nat) : Except KVError (List BlockId × KVState H) :=
  let reqBlocks := m.blocksOf s requestId
  let numRequiredBlocks := cdiv numTokens m.blockSize
  if numRequiredBlocks ≤ reqBlocks.length then .ok ([], s)
  else do
    let (newBlocks, pool) ← s.blockPool.getNewBlocks m.enableCaching
      (numRequiredBlocks - reqBlocks.length : Nat)
    return (newBlocks, { m.setBlocks s requestId (reqBlocks ++ newBlocks) with blockPool := pool })

end SingleTypeKVCacheManager

/-- One speculative block moved to the end of the table. -/
def moveBlock (blocks : List BlockId) (blockIdx : Nat) : List BlockId :=
  (blocks ++ [blocks.getD blockIdx nullBlock]).set blockIdx nullBlock

/-- The table of an align-mode request when the running state moves past
`numSkippedBlocks` blocks: null blocks up to there, then the speculative blocks
of the previous step that lie before it. -/
def reuseSpeculativeBlocks (numSpeculativeBlocks numSkippedBlocks : Nat) (blocks : List BlockId) :
    List BlockId :=
  let prevBlockLen := blocks.length
  let start := prevBlockLen - numSpeculativeBlocks
  (List.range' start (min prevBlockLen numSkippedBlocks - start)).foldl moveBlock
    (blocks ++ List.replicate (numSkippedBlocks - prevBlockLen) nullBlock)

namespace SingleTypeKVCacheManager

variable (m : SingleTypeKVCacheManager)

/-- The bound of the assertions in `MambaManager.allocate_new_blocks`. -/
def maxNewStateBlocks (blocksAllocated : Bool) (numSpeculativeBlocks : Nat) : Int :=
  if blocksAllocated then 1 else numSpeculativeBlocks + 1

/-- The index of the last state block, recorded before an align-mode table grows.
The table of an allocated request has more than `numSpeculativeBlocks` blocks, so
the index is not negative. -/
def nextLastStateBlockIdx (s : KVState H) (requestId : RequestId) (numSpeculativeBlocks : Nat) :
    Option Nat :=
  let prevBlockLen := (m.blocksOf s requestId).length
  if s.allocatedBlockReqs (m.key requestId) then some (prevBlockLen - 1 - numSpeculativeBlocks)
  else if 0 < prevBlockLen then some (prevBlockLen - 1)
  else s.lastStateBlockIdx (m.key requestId)

/-- The table of an align-mode request before new blocks are added. The state
block comes after `numSkippedBlocks` blocks. -/
def alignTable (s : KVState H) (requestId : RequestId)
    (numSpeculativeBlocks numTokensMainModel : Nat) : List BlockId :=
  let numSkippedBlocks := cdiv numTokensMainModel m.blockSize - 1
  reuseSpeculativeBlocks
    (if s.allocatedBlockReqs (m.key requestId) then numSpeculativeBlocks else 0)
    numSkippedBlocks (m.blocksOf s requestId)

/-- The align branch of `MambaManager.allocate_new_blocks`. -/
def alignAllocateNewBlocks [DecidableEq H] (s : KVState H) (requestId : RequestId)
    (numSpeculativeBlocks numTokensMainModel : Nat) : Except KVError (List BlockId × KVState H) :=
  let prevBlockLen := (m.blocksOf s requestId).length
  let numRequiredBlocks := cdiv numTokensMainModel m.blockSize + numSpeculativeBlocks
  if numRequiredBlocks ≤ prevBlockLen then .ok ([], s)
  else
    let reqBlocks := m.alignTable s requestId numSpeculativeBlocks numTokensMainModel
    let numNewBlocks : Int := (numRequiredBlocks : Int) - reqBlocks.length
    if maxNewStateBlocks (s.allocatedBlockReqs (m.key requestId)) numSpeculativeBlocks <
        numNewBlocks then .error .tooManyNewBlocks
    else do
      let (newBlocks, pool) ← s.blockPool.getNewBlocks m.enableCaching numNewBlocks
      return ((reqBlocks ++ newBlocks).drop prevBlockLen,
        { m.setBlocks s requestId (reqBlocks ++ newBlocks) with
          blockPool := pool
          lastStateBlockIdx := update s.lastStateBlockIdx (m.key requestId)
            (m.nextLastStateBlockIdx s requestId numSpeculativeBlocks)
          allocatedBlockReqs := update s.allocatedBlockReqs (m.key requestId) true })

/-- `allocate_new_blocks` of the manager's class. -/
def allocateNewBlocks [DecidableEq H] (s : KVState H) (requestId : RequestId)
    (numTokens numTokensMainModel : Nat) : Except KVError (List BlockId × KVState H) :=
  match m.kvCacheSpec.kind with
  | .mamba .align numSpeculativeBlocks =>
    m.alignAllocateNewBlocks s requestId numSpeculativeBlocks numTokensMainModel
  | .mamba _ numSpeculativeBlocks =>
    m.baseAllocateNewBlocks s requestId (numTokens + m.blockSize * numSpeculativeBlocks)
  | _ => m.baseAllocateNewBlocks s requestId numTokens

/-! ### Caching -/

/-- `block_hashes[num_cached_blocks:][i]` for block `i` of the table: a slice of a
`BlockHashListWithBlockSize` stops at the last full block. -/
def fullBlockHash (blockHashes : List H) (i : Nat) : Except KVError (List H) :=
  if i < blockHashes.length / m.scale then .ok ((blockHashes.drop (i * m.scale)).take m.scale)
  else .error .indexError

/-- One block of the loop of `BlockPool.cache_full_blocks`, with its index in the
table and its mask bit. -/
def cacheBlock [DecidableEq H] (blockHashes : List H) (p : BlockPool H)
    (entry : (BlockId × Nat) × Bool) : Except KVError (BlockPool H) :=
  let ((block, i), reachable) := entry
  if block = nullBlock ∨ reachable = false then .ok p
  else if (p.blockHash block).isSome then .error (.blockAlreadyCached block)
  else do
    let blockHash ← m.fullBlockHash blockHashes i
    return p.insertCached ⟨blockHash, m.kvCacheGroupId⟩ block

/-- `BlockPool.cache_full_blocks`. -/
def cacheFullBlocks [DecidableEq H] (p : BlockPool H) (blockHashes : List H) (blocks : List BlockId)
    (numCachedBlocks numFullBlocks : Nat) (blockMask : Option (List Bool)) :
    Except KVError (BlockPool H) :=
  let newFullBlocks := (blocks.zipIdx.take numFullBlocks).drop numCachedBlocks
  let mask := blockMask.getD (List.replicate newFullBlocks.length true)
  if blockHashes.length < numFullBlocks then .error .missingBlockHashes
  else if mask.length ≠ newFullBlocks.length then .error .blockMaskLength
  else (newFullBlocks.zip mask).foldlM (m.cacheBlock blockHashes) p

/-- `SlidingWindowManager.reachable_block_mask` for the blocks from `startBlock`
on; the other classes have none. A segment is as long as the retention interval;
the replay boundary is the last aligned length before the end of the prompt. -/
def reachableBlockMask (startBlock endBlock : Nat) (retentionInterval : Option Nat)
    (numPromptTokens : Nat) : Option (List Bool) :=
  match m.kvCacheSpec.kind with
  | .slidingWindow w =>
    let alignmentTokens := m.schedulerBlockSize
    let blockSize := m.kvCacheSpec.blockSize
    let need := contiguousBlocksForHit w blockSize m.useEagle
    let shift := if m.useEagle then 1 else 0
    let perSegment := match retentionInterval with
      | none => some (alignmentTokens / blockSize)
      | some 0 => none
      | some k => some (k / blockSize)
    let inTail (i : Nat) : Bool := match perSegment with
      | none => false
      | some n => shift ≤ i ∧ n - need ≤ (i - shift) % n
    let latest : Int := ((numPromptTokens : Int) - 1) / alignmentTokens * alignmentTokens
    let promptEndBlock : Int := latest / blockSize + shift
    let inReplay (i : Nat) : Bool :=
      retentionInterval.isSome ∧ promptEndBlock - need ≤ i ∧ (i : Int) < promptEndBlock
    if (perSegment.map (decide <| · ≤ need)).getD false then none
    else some ((List.range' startBlock (endBlock - startBlock)).map fun i =>
      inTail i || inReplay i)
  | _ => none

/-- `SingleTypeKVCacheManager.cache_blocks`. -/
def baseCacheBlocks [DecidableEq H] (s : KVState H) (request : Request H) (numTokens : Nat)
    (retentionInterval : Option Nat) : Except KVError (KVState H) :=
  let key := m.key request.requestId
  let numCachedBlocks := (s.numCachedBlock key).getD 0
  let numFullBlocks := numTokens / m.blockSize
  if numFullBlocks ≤ numCachedBlocks then .ok s
  else do
    let blockMask := m.reachableBlockMask numCachedBlocks numFullBlocks retentionInterval
      request.numPromptTokens
    let pool ← m.cacheFullBlocks s.blockPool request.blockHashes (m.blocksOf s request.requestId)
      numCachedBlocks numFullBlocks blockMask
    return { s with
      blockPool := pool
      numCachedBlock := update s.numCachedBlock key (some numFullBlocks) }

/-- `cache_blocks` of the manager's class. Mamba remembers what it cached until
the next step starts. -/
def cacheBlocks [DecidableEq H] (s : KVState H) (request : Request H) (numTokens : Nat)
    (retentionInterval : Option Nat) : Except KVError (KVState H) :=
  match m.kvCacheSpec.kind with
  | .crossAttention => .error .prefixCachingDisabled
  | .mamba _ _ => do
    let before := (s.numCachedBlock (m.key request.requestId)).getD 0
    let s ← m.baseCacheBlocks s request numTokens retentionInterval
    let after := (s.numCachedBlock (m.key request.requestId)).getD 0
    let cached := (((m.blocksOf s request.requestId).take after).drop before).filterMap
      s.blockPool.blockHash
    return { s with
      cachedBlocksThisStep := update s.cachedBlocksThisStep m.kvCacheGroupId
        (s.cachedBlocksThisStep m.kvCacheGroupId ++ cached) }
  | _ => m.baseCacheBlocks s request numTokens retentionInterval

/-! ### Freeing -/

/-- Blocks given back in two parts: those that a later request may still hit at
the end of the free queue, the others at its front. -/
def freeSplit (p : BlockPool H) (blocks : List BlockId) : BlockPool H :=
  (p.freeBlocks (blocks.filter fun b => (p.blockHash b).isSome) false).freeBlocks
    (blocks.filter fun b => (p.blockHash b).isNone) true

/-- The blocks that `remove_skipped_blocks` takes out of the first
`numSkippedBlocks`, last one first, up to the first null block. -/
def skippedBlocks (blocks : List BlockId) (numSkippedBlocks : Nat) : List BlockId :=
  (blocks.take numSkippedBlocks).reverse.takeWhile fun b => decide (b ≠ nullBlock)

/-- The table after that. -/
def blocksAfterSkip (blocks : List BlockId) (numSkippedBlocks : Nat) : List BlockId :=
  let stop := min numSkippedBlocks blocks.length
  let numRemoved := (skippedBlocks blocks numSkippedBlocks).length
  blocks.take (stop - numRemoved) ++ List.replicate numRemoved nullBlock ++ blocks.drop stop

/-- `SingleTypeKVCacheManager.remove_skipped_blocks`. -/
def baseRemoveSkippedBlocks (s : KVState H) (requestId : RequestId) (totalComputedTokens : Nat) :
    KVState H :=
  if m.kvCacheSpec.getNumSkippedTokens totalComputedTokens = 0 then s
  else
    let blocks := m.blocksOf s requestId
    let numSkippedBlocks := m.numSkippedBlocks totalComputedTokens
    { m.setBlocks s requestId (blocksAfterSkip blocks numSkippedBlocks) with
      blockPool := freeSplit s.blockPool (skippedBlocks blocks numSkippedBlocks) }

/-- The align-mode part of `MambaManager.remove_skipped_blocks`: the state block
of two steps ago. -/
def freeLastStateBlock (s : KVState H) (requestId : RequestId) (numComputedTokens : Nat) :
    Except KVError (KVState H) :=
  match s.lastStateBlockIdx (m.key requestId) with
  | none => .ok s
  | some idx =>
    if idx + 1 < cdiv numComputedTokens m.blockSize then
      let blocks := m.blocksOf s requestId
      match blocks[idx]? with
      | none => .error .indexError
      | some block =>
        if block ≠ nullBlock then
          .ok { m.setBlocks s requestId (blocks.set idx nullBlock) with
            blockPool := s.blockPool.freeBlocks [block] false }
        else .ok s
    else .ok s

/-- `remove_skipped_blocks` of the manager's class. -/
def removeSkippedBlocks (s : KVState H) (requestId : RequestId) (totalComputedTokens : Nat) :
    Except KVError (KVState H) :=
  match m.kvCacheSpec.kind with
  | .mamba mode numSpeculativeBlocks =>
    -- The draft tokens of the previous step may still be rejected.
    let numComputedTokens := totalComputedTokens - numSpeculativeBlocks
    let s := m.baseRemoveSkippedBlocks s requestId numComputedTokens
    if mode = .align then m.freeLastStateBlock s requestId numComputedTokens else .ok s
  | _ => .ok (m.baseRemoveSkippedBlocks s requestId totalComputedTokens)

/-- `free` of the manager's class. -/
def free (s : KVState H) (requestId : RequestId) : KVState H :=
  let key := m.key requestId
  let blocks := (m.blocksOf s requestId).reverse
  { s with
    blockPool := match m.kvCacheSpec.kind with
      | .slidingWindow _ => freeSplit s.blockPool blocks
      | _ => s.blockPool.freeBlocks blocks false
    reqToBlocks := s.reqToBlocks.erase key
    numCachedBlock := update s.numCachedBlock key none
    lastStateBlockIdx := update s.lastStateBlockIdx key none
    allocatedBlockReqs := update s.allocatedBlockReqs key false }

/-- `new_step_starts` of the manager's class. -/
def newStepStarts (s : KVState H) : KVState H :=
  { s with cachedBlocksThisStep := update s.cachedBlocksThisStep m.kvCacheGroupId [] }

end SingleTypeKVCacheManager

end Vllm.KVCache
