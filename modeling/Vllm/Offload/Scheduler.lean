import Vllm.Lib.Ceil
import Vllm.Lib.Dict
import Vllm.Lib.Fallible

/-!
The scheduler side of the offloading connector
(`kv_connector/v1/offloading/scheduler.py`).

The jobs that store or load a request's blocks are in `_jobs`, each request's job ids in
its `transfer_jobs`, and for blocks that may be reused too early the jobs that still read
them are kept.

The offloading manager is outside: what `prepare_store` answers is an argument of
`build_connector_meta`, and its other calls do not come back. `_lookup`, which only asks
the manager, is left out, and with it `num_hit_blocks` and `_blocks_being_loaded`. The
fields of a `Request` that change between calls come with the call (`RequestView`);
`is_finished()` is kept with the request's state.
-/

namespace Vllm.Offload

open Vllm.Lib Vllm.Lib.Ceil Vllm.Lib.Fallible

abbrev ReqId := Nat
abbrev JobId := Nat
abbrev BlockId := Nat

/-- `make_offload_key(block_hash, group_idx)`. -/
abbrev OffloadKey (H : Type) := H × Nat

inductive OffloadError where
  /-- `self._req_status[req_id]` without an entry. -/
  | missingRequest (req : ReqId)
  /-- `self._jobs[job_id]` without an entry. -/
  | missingJob (job : JobId)
  /-- `req_status.transfer_jobs.remove(job_id)` of a job that is not there. -/
  | missingTransferJob (job : JobId)
  /-- `_remove_pending_job` of a job that the block does not wait for. -/
  | missingPendingJob (block : BlockId) (job : JobId)
  | assertion
  | indexError
  deriving DecidableEq, Repr

structure GroupOffloadConfig where
  groupIdx : Nat
  gpuBlockSize : Nat
  offloadedBlockSize : Nat
  hashBlockSizeFactor : Nat
  /-- `None` means full attention. -/
  slidingWindowSizeInBlocks : Option Nat
  alignmentBlockCount : Option Nat

structure SchedulerOffloadConfig where
  kvGroupConfigs : List GroupOffloadConfig
  blockSizeFactor : Nat
  numWorkers : Nat
  offloadPromptOnly : Bool

/-- What the connector reads off a `Request`. -/
structure RequestView (H : Type) where
  blockHashes : List H
  numTokens : Nat
  numComputedTokens : Nat
  numPromptTokens : Nat

structure RequestGroupState (H : Type) where
  offloadKeys : List (OffloadKey H) := []
  blockIds : List BlockId := []
  nextStoredBlockIdx : Nat := 0

structure RequestOffloadState (H : Type) where
  groupStates : List (RequestGroupState H)
  maxOffloadTokens : Option Nat
  /-- `offloading_context.policy == OffloadPolicy.BLOCK_LEVEL`. -/
  blockLevel : Bool
  numLocallyComputedTokens : Nat := 0
  transferJobs : List JobId := []
  /-- `req.is_finished()`. -/
  finished : Bool := false

structure TransferJobStatus (H : Type) where
  reqId : ReqId
  pendingCount : Nat
  keys : List (OffloadKey H)
  isStore : Bool
  nonSlidingWindowBlockIds : List BlockId := []
  slidingWindowBlockIds : List BlockId := []

structure GPULoadStoreSpec where
  blockIds : List BlockId
  groupSizes : List Nat
  blockIndices : List Nat
  deriving DecidableEq, Repr

/-- `TransferJob` with the GPU side of its spec. -/
structure TransferJob where
  reqId : ReqId
  spec : GPULoadStoreSpec
  deriving DecidableEq, Repr

/-- `OffloadingConnectorScheduler`. -/
structure SchedulerState (H : Type) where
  reqStatus : Dict ReqId (RequestOffloadState H) := .empty
  currentBatchLoadJobs : List (JobId × TransferJob) := []
  currentBatchJobsToFlush : List JobId := []
  currentBatchAllocatedBlockIds : List BlockId := []
  jobCounter : JobId := 0
  staleJobThreshold : JobId := 0
  jobs : Dict JobId (TransferJobStatus H) := .empty
  blockIdToPendingJobs : Dict BlockId (List JobId) := .empty

variable {H : Type}

/-! ### Requests -/

/-- `update_offload_keys` for one group: the hashes at the ends of the offloaded blocks
that have no key yet. -/
def RequestGroupState.updateOffloadKeys (blockHashes : List H) (config : GroupOffloadConfig)
    (group : RequestGroupState H) : RequestGroupState H :=
  let factor := config.hashBlockSizeFactor
  let start := group.offloadKeys.length
  { group with
    offloadKeys := group.offloadKeys ++
      (List.range' start (blockHashes.length / factor - start)).filterMap fun k =>
        blockHashes[k * factor + factor - 1]?.map (·, config.groupIdx) }

namespace RequestOffloadState

/-- The same change to every group, with its configuration. -/
def mapGroups (status : RequestOffloadState H) (cfg : SchedulerOffloadConfig)
    (f : GroupOffloadConfig → RequestGroupState H → RequestGroupState H) : RequestOffloadState H :=
  { status with groupStates := List.zipWith f cfg.kvGroupConfigs status.groupStates }

def updateOffloadKeys (status : RequestOffloadState H) (cfg : SchedulerOffloadConfig)
    (blockHashes : List H) : RequestOffloadState H :=
  status.mapGroups cfg (RequestGroupState.updateOffloadKeys blockHashes)

/-- `group_state.block_ids.clear()` for all groups. -/
def clearBlockIds (status : RequestOffloadState H) : RequestOffloadState H :=
  { status with groupStates := status.groupStates.map fun group => { group with blockIds := [] } }

def updateBlockIdGroups (status : RequestOffloadState H) (newBlockIdGroups : List (List BlockId)) :
    Except OffloadError (RequestOffloadState H) :=
  if newBlockIdGroups.length ≠ status.groupStates.length then .error .assertion
  else .ok { status with
    groupStates := List.zipWith
      (fun group new => { group with blockIds := group.blockIds ++ new })
      status.groupStates newBlockIdGroups }

def advanceStoredIdx (status : RequestOffloadState H) (cfg : SchedulerOffloadConfig)
    (numOffloadableTokens : Nat) : RequestOffloadState H :=
  status.mapGroups cfg fun config group =>
    { group with nextStoredBlockIdx := numOffloadableTokens / config.offloadedBlockSize }

end RequestOffloadState

namespace SchedulerState

variable (cfg : SchedulerOffloadConfig) (s : SchedulerState H)

/-- `self._req_status[req_id]`. -/
def statusOf (req : ReqId) : Except OffloadError (RequestOffloadState H) :=
  match s.reqStatus.get? req with
  | some status => .ok status
  | none => .error (.missingRequest req)

/-- `self._jobs[job_id]`. -/
def jobOf (job : JobId) : Except OffloadError (TransferJobStatus H) :=
  match s.jobs.get? job with
  | some status => .ok status
  | none => .error (.missingJob job)

def setStatus (req : ReqId) (status : RequestOffloadState H) : SchedulerState H :=
  { s with reqStatus := s.reqStatus.set req status }

/-- A fresh job id, noted with the request and in `_jobs`. -/
def addJob (req : ReqId) (status : RequestOffloadState H) (job : TransferJobStatus H) :
    SchedulerState H :=
  { s with
    jobCounter := s.jobCounter + 1
    jobs := s.jobs.set s.jobCounter job
    reqStatus := s.reqStatus.set req
      { status with transferJobs := status.transferJobs ++ [s.jobCounter] } }

/-- `_block_id_to_pending_jobs.setdefault(bid, set()).add(job_id)` for the blocks. -/
def addPendingJob (job : JobId) (blockIds : List BlockId) : SchedulerState H :=
  { s with
    blockIdToPendingJobs := blockIds.foldl
      (fun pending block =>
        let jobs := (pending.get? block).getD []
        pending.set block (if job ∈ jobs then jobs else jobs ++ [job]))
      s.blockIdToPendingJobs }

/-- `_remove_pending_job` for one block. -/
def removePendingBlock (job : JobId) (pending : Dict BlockId (List JobId)) (block : BlockId) :
    Except OffloadError (Dict BlockId (List JobId)) :=
  match pending.get? block with
  | none => .error (.missingPendingJob block job)
  | some jobs =>
    if job ∈ jobs then
      let jobs := jobs.filter (· ≠ job)
      .ok (if jobs = [] then pending.erase block else pending.set block jobs)
    else .error (.missingPendingJob block job)

def removePendingJob (job : JobId) (blockIds : List BlockId) :
    Except OffloadError (SchedulerState H) := do
  let pending ← blockIds.foldlM (removePendingBlock job) s.blockIdToPendingJobs
  return { s with blockIdToPendingJobs := pending }

def onNewRequest (req : ReqId) (maxOffloadTokens : Option Nat) (blockLevel : Bool) :
    SchedulerState H :=
  s.setStatus req
    { groupStates := cfg.kvGroupConfigs.map fun _ => {}
      maxOffloadTokens, blockLevel }

/-- `get_num_new_matched_tokens`, as far as it changes the state. -/
def getNumNewMatchedTokens (req : ReqId) (view : RequestView H) (numComputedTokens : Nat) :
    Except OffloadError (SchedulerState H) := do
  let status ← s.statusOf req
  return s.setStatus req
    { status.clearBlockIds.updateOffloadKeys cfg view.blockHashes with
      numLocallyComputedTokens := numComputedTokens }

/-- What `update_state_after_alloc` reads off a `KVCacheBlock`. -/
structure GpuBlock where
  blockId : BlockId
  isNull : Bool
  /-- `block.block_hash is not None`. -/
  hashed : Bool

/-- What one group contributes to a load. -/
structure GroupLoad (H : Type) where
  keys : List (OffloadKey H)
  blockIds : List BlockId
  numPendingGpuBlocks : Nat
  numLocallyComputedGpuBlocks : Nat
  numBlocks : Nat

/-- The loop of `update_state_after_alloc` for one group. -/
def loadGroup (numLocallyComputedTokens numCachedTokens : Nat) (config : GroupOffloadConfig)
    (group : RequestGroupState H) (groupBlocks : List GpuBlock) :
    Except OffloadError (GroupLoad H) :=
  let numGpuBlocks := cdiv numCachedTokens config.gpuBlockSize
  if groupBlocks.length < numGpuBlocks then .error .assertion
  else
    -- The first block that is neither a placeholder nor cached.
    let numLocallyComputedGpuBlocks :=
      (groupBlocks.take numGpuBlocks).findIdx fun block => !block.isNull && !block.hashed
    let numPendingGpuBlocks := numGpuBlocks - numLocallyComputedGpuBlocks
    let numBlocks := cdiv numCachedTokens config.offloadedBlockSize
    if numLocallyComputedGpuBlocks * config.gpuBlockSize < numLocallyComputedTokens then
      .error .assertion
    else if config.slidingWindowSizeInBlocks.any
        (fun window => window * cfg.blockSizeFactor < numPendingGpuBlocks) then .error .assertion
    else if group.offloadKeys.length < numBlocks then .error .assertion
    else .ok {
      keys := if numPendingGpuBlocks = 0 then []
        else (group.offloadKeys.take numBlocks).drop
          (numLocallyComputedGpuBlocks / cfg.blockSizeFactor)
      blockIds := ((groupBlocks.take numGpuBlocks).drop numLocallyComputedGpuBlocks).map (·.blockId)
      numPendingGpuBlocks, numLocallyComputedGpuBlocks, numBlocks }

def updateStateAfterAlloc (req : ReqId) (blocks : List (List GpuBlock)) (numExternalTokens : Nat) :
    Except OffloadError (SchedulerState H) :=
  if numExternalTokens = 0 then .ok s
  else do
    let status ← s.statusOf req
    let numCachedTokens := status.numLocallyComputedTokens + numExternalTokens
    let groups := (cfg.kvGroupConfigs.zip status.groupStates).zip blocks
    let loads ← groups.mapM fun entry =>
      loadGroup cfg status.numLocallyComputedTokens numCachedTokens entry.1.1 entry.1.2 entry.2
    let keysToLoad := loads.flatMap (·.keys)
    let spec : GPULoadStoreSpec :=
      { blockIds := loads.flatMap (·.blockIds)
        groupSizes := loads.map (·.numPendingGpuBlocks)
        blockIndices := loads.map (·.numLocallyComputedGpuBlocks) }
    -- A load can only be issued when no other jobs are pending.
    if status.transferJobs ≠ [] then .error .assertion
    else
      let groupStates := if status.blockLevel then
          List.zipWith
            (fun group (load : GroupLoad H) => { group with nextStoredBlockIdx := load.numBlocks })
            status.groupStates loads ++ status.groupStates.drop loads.length
        else status.groupStates
      let allocated := groups.flatMap fun entry =>
        (entry.2.map (·.blockId)).filter (· ≠ 0)
      return { s.addJob req { status with groupStates := groupStates }
          { reqId := req, pendingCount := cfg.numWorkers, keys := keysToLoad, isStore := false } with
        currentBatchLoadJobs := s.currentBatchLoadJobs ++ [(s.jobCounter, ⟨req, spec⟩)]
        currentBatchAllocatedBlockIds := s.currentBatchAllocatedBlockIds ++ allocated }

/-! ### The end of a step -/

/-- What the connector reads off a `SchedulerOutput`. -/
structure SchedulerOutput where
  /-- `yield_req_data`: request, new blocks by group, resumed after a preemption. -/
  reqData : List (ReqId × Option (List (List BlockId)) × Bool)
  numScheduledTokens : List (ReqId × Nat)
  preemptedReqIds : List ReqId

/-- `_sliding_window_groups`, as positions. Their order is for lookups only. -/
def slidingWindowGroups : List Nat :=
  cfg.kvGroupConfigs.zipIdx.filterMap fun (config, i) =>
    if config.slidingWindowSizeInBlocks.isSome then some i else none

/-- The first loop of `_update_req_states` for one request. The table lengths before the
new blocks are noted for the requests that get any. -/
def updateReqState (view : ReqId → RequestView H)
    (acc : SchedulerState H × List (ReqId × List Nat))
    (data : ReqId × Option (List (List BlockId)) × Bool) :
    Except OffloadError (SchedulerState H × List (ReqId × List Nat)) := do
  let (s, ends) := acc
  let (req, newBlockIdGroups, preempted) := data
  let status ← s.statusOf req
  let status := status.updateOffloadKeys cfg (view req).blockHashes
  let status := if preempted then status.clearBlockIds else status
  match newBlockIdGroups with
  | none | some [] => return (s.setStatus req status, ends)
  | some groups =>
    let lengths := status.groupStates.map (·.blockIds.length)
    let status ← status.updateBlockIdGroups groups
    return ({ s.setStatus req status with
        currentBatchAllocatedBlockIds := s.currentBatchAllocatedBlockIds ++
          groups.flatten.filter (· ≠ 0) },
      ends ++ [(req, lengths)])

/-- Zeroes the blocks of a sliding-window table that were handed out again. -/
def zeroStale (allocated : List BlockId) (start stop : Nat) (blockIds : List BlockId) :
    List BlockId :=
  blockIds.mapIdx fun j block => if start ≤ j ∧ j < stop ∧ block ∈ allocated then 0 else block

def updateReqStates (view : ReqId → RequestView H) (out : SchedulerOutput) :
    Except OffloadError (SchedulerState H) := do
  let (s, ends) ← out.reqData.foldlM (updateReqState cfg view) (s, [])
  let allocated := s.currentBatchAllocatedBlockIds
  if slidingWindowGroups cfg = [] ∨ allocated = [] then return s
  else return { s with
    reqStatus := s.reqStatus.mapValues fun req status =>
      { status with
        groupStates := status.groupStates.mapIdx fun i group =>
          if i ∈ slidingWindowGroups cfg then
            let stop := match ends.lookup req with
              | some lengths => lengths.getD i group.blockIds.length
              | none => group.blockIds.length
            { group with
              blockIds := zeroStale allocated (group.nextStoredBlockIdx * cfg.blockSizeFactor) stop
                group.blockIds }
          else group } }

def numOffloadableTokens (status : RequestOffloadState H) (view : RequestView H)
    (numScheduledTokens : Nat) : Nat :=
  let tokens := min (view.numComputedTokens + numScheduledTokens) view.numTokens
  let tokens := match status.maxOffloadTokens with
    | some cap => min tokens cap
    | none => tokens
  if cfg.offloadPromptOnly then min tokens view.numPromptTokens else tokens

/-- The keys of one group that `_build_store_jobs` offers to the manager. Of each
offloaded block the last GPU block is looked at; a zero means skipped or stale. -/
def newOffloadKeys (numTokens : Nat) (config : GroupOffloadConfig) (group : RequestGroupState H) :
    Except OffloadError (List (OffloadKey H)) :=
  let numBlocks := numTokens / config.offloadedBlockSize
  let start := group.nextStoredBlockIdx
  if numBlocks ≤ start then .ok []
  else
    let offloadKeys := (group.offloadKeys.take numBlocks).drop start
    let factor := cfg.blockSizeFactor
    let offloadBlockIds := (List.range' start (numBlocks - start)).filterMap fun k =>
      group.blockIds[k * factor + factor - 1]?
    if offloadKeys.length ≠ offloadBlockIds.length then .error .assertion
    else
      let reachable (k : Nat) : Bool := match config.alignmentBlockCount with
        | none => true
        | some count => decide (count - config.slidingWindowSizeInBlocks.getD 0 ≤ k % count)
      .ok (((offloadKeys.zip offloadBlockIds).zipIdx start).filterMap fun entry =>
        if entry.1.2 ≠ 0 ∧ reachable entry.2 then some entry.1.1 else none)

/-- The GPU blocks that one group contributes to a store job, with their positions in the
table. -/
structure GroupStore where
  isSlidingWindow : Bool
  blocks : List (BlockId × Nat)

/-- `block_ids[i]`, with its position. -/
def blockAt (blockIds : List BlockId) (i : Nat) : Except OffloadError (BlockId × Nat) :=
  match blockIds[i]? with
  | some block => .ok (block, i)
  | none => .error .indexError

/-- The second loop of `_build_store_jobs` for one group. -/
def storeGroup [DecidableEq H] (numTokens : Nat) (keysToStore : List (OffloadKey H))
    (config : GroupOffloadConfig) (group : RequestGroupState H) :
    Except OffloadError GroupStore := do
  let numBlocks := numTokens / config.offloadedBlockSize
  let start := group.nextStoredBlockIdx
  let chosen := (((group.offloadKeys.take numBlocks).drop start).zipIdx start).filter
    (·.1 ∈ keysToStore)
  let blocks ← (chosen.flatMap fun entry =>
      (List.range cfg.blockSizeFactor).map (entry.2 * cfg.blockSizeFactor + ·)).mapM
    (blockAt group.blockIds)
  return ⟨config.slidingWindowSizeInBlocks.isSome, blocks.filter (·.1 ≠ 0)⟩

def blocksOfKind (isSlidingWindow : Bool) (stores : List GroupStore) : List BlockId :=
  (stores.filter (·.isSlidingWindow = isSlidingWindow)).flatMap fun store =>
    store.blocks.map Prod.fst

/-- What the manager answers to `prepare_store`: the keys to store, if it has room. -/
abbrev StoreReply (H : Type) := ReqId → List (OffloadKey H) → Option (List (OffloadKey H))

/-- `assert self._jobs[any_jid].is_store` for one of the jobs, if there are any. -/
def assertStores (transferJobs : List JobId) : Except OffloadError Unit :=
  match transferJobs with
  | [] => .ok ()
  | any :: _ => do
    let job ← s.jobOf any
    if job.isStore then .ok () else .error .assertion

/-- `_build_store_jobs` for one request. A store can only be issued when no load is
pending. -/
def buildStoreJob [DecidableEq H] (view : ReqId → RequestView H) (prepareStore : StoreReply H)
    (acc : SchedulerState H × List (JobId × TransferJob)) (scheduled : ReqId × Nat) :
    Except OffloadError (SchedulerState H × List (JobId × TransferJob)) := do
  let (s, storeJobs) := acc
  let req := scheduled.1
  match s.reqStatus.get? req with
  | none => return (s, storeJobs)
  | some status =>
    let numTokens := numOffloadableTokens cfg status (view req) scheduled.2
    let groups := cfg.kvGroupConfigs.zip status.groupStates
    let offered ← groups.mapM fun entry => newOffloadKeys cfg numTokens entry.1 entry.2
    let advanced := s.setStatus req (status.advanceStoredIdx cfg numTokens)
    if offered.flatten = [] then return (advanced, storeJobs)
    else
      match prepareStore req offered.flatten with
      | none => return (s, storeJobs)
      | some [] => return (advanced, storeJobs)
      | some keysToStore =>
        let stores ← groups.mapM fun entry =>
          storeGroup cfg numTokens keysToStore entry.1 entry.2
        let spec : GPULoadStoreSpec :=
          { blockIds := stores.flatMap fun store => store.blocks.map Prod.fst
            groupSizes := stores.map (·.blocks.length)
            blockIndices := stores.map fun store => (store.blocks.head?.map Prod.snd).getD 0 }
        let job := s.jobCounter
        s.assertStores status.transferJobs
        return ((s.addPendingJob job (blocksOfKind true stores)).addJob req
            (status.advanceStoredIdx cfg numTokens)
            { reqId := req, pendingCount := cfg.numWorkers, keys := keysToStore, isStore := true
              nonSlidingWindowBlockIds := blocksOfKind false stores
              slidingWindowBlockIds := blocksOfKind true stores },
          storeJobs ++ [(job, ⟨req, spec⟩)])

def flushPreempted (s : SchedulerState H) (req : ReqId) : Except OffloadError (SchedulerState H) :=
  match s.reqStatus.get? req with
  | none => .ok s
  | some status => do
    s.assertStores status.transferJobs
    return { s with currentBatchJobsToFlush := s.currentBatchJobsToFlush ++ status.transferJobs }

/-- `OffloadingConnectorMetadata`. -/
structure ConnectorMetadata where
  loadJobs : List (JobId × TransferJob)
  storeJobs : List (JobId × TransferJob)
  jobsToFlush : List JobId
  deriving Repr

def buildConnectorMeta [DecidableEq H] (view : ReqId → RequestView H) (prepareStore : StoreReply H)
    (out : SchedulerOutput) : Except OffloadError (ConnectorMetadata × SchedulerState H) := do
  let s ← s.updateReqStates cfg view out
  let s ← out.preemptedReqIds.foldlM flushPreempted s
  let reused := s.currentBatchAllocatedBlockIds.flatMap fun block =>
    (s.blockIdToPendingJobs.get? block).getD []
  let allFinished := s.reqStatus.entries ≠ [] ∧ s.reqStatus.entries.all (·.2.finished)
  let jobsToFlush := s.currentBatchJobsToFlush ++ reused ++
    if allFinished then s.jobs.keys else []
  let (s, storeJobs) ← out.numScheduledTokens.foldlM (buildStoreJob cfg view prepareStore) (s, [])
  return (⟨s.currentBatchLoadJobs, storeJobs, jobsToFlush⟩,
    { s with
      currentBatchLoadJobs := []
      currentBatchJobsToFlush := []
      currentBatchAllocatedBlockIds := [] })

/-! ### Completion, end of a request, reset -/

/-- The blocks of a completed job need not wait for it any more. Those outside sliding
windows are watched only once the request has finished. -/
def releaseBlocks (s : SchedulerState H) (jobId : JobId) (job : TransferJobStatus H)
    (finished : Bool) : Except OffloadError (SchedulerState H) :=
  if s.blockIdToPendingJobs.entries = [] then .ok s
  else do
    let s ← s.removePendingJob jobId job.slidingWindowBlockIds
    if finished then s.removePendingJob jobId job.nonSlidingWindowBlockIds else .ok s

/-- The last part of `update_connector_output` for a job that all workers reported. -/
def completeJob (s : SchedulerState H) (jobId : JobId) (job : TransferJobStatus H) :
    Except OffloadError (SchedulerState H) := do
  let status ← s.statusOf job.reqId
  let s ← s.releaseBlocks jobId job status.finished
  if jobId ∉ status.transferJobs then .error (.missingTransferJob jobId)
  else
    let transferJobs := status.transferJobs.filter (· ≠ jobId)
    return { s with
      jobs := s.jobs.erase jobId
      reqStatus := if transferJobs = [] ∧ status.finished then s.reqStatus.erase job.reqId
        else s.reqStatus.set job.reqId { status with transferJobs := transferJobs } }

/-- `update_connector_output` for one job: how many workers completed it. -/
def updateJob (s : SchedulerState H) (completed : JobId × Nat) :
    Except OffloadError (SchedulerState H) :=
  if completed.2 = 0 then .error .assertion
  else if completed.1 < s.staleJobThreshold then .ok s
  else do
    let job ← s.jobOf completed.1
    if completed.2 < job.pendingCount then
      return { s with
        jobs := s.jobs.set completed.1 { job with pendingCount := job.pendingCount - completed.2 } }
    else if job.pendingCount < completed.2 then .error .assertion
    else completeJob s completed.1 job

def updateConnectorOutput (completedJobs : List (JobId × Nat)) :
    Except OffloadError (SchedulerState H) :=
  completedJobs.foldlM updateJob s

/-- The jobs of a finished request are noted with their blocks. -/
def watchBlocks (s : SchedulerState H) (job : JobId) : Except OffloadError (SchedulerState H) := do
  let status ← s.jobOf job
  return s.addPendingJob job status.nonSlidingWindowBlockIds

/-- `request_finished`, after the request's status was set. -/
def requestFinished (req : ReqId) : Except OffloadError (SchedulerState H) :=
  match s.reqStatus.get? req with
  | none => .ok s
  | some status =>
    if status.transferJobs = [] then .ok { s with reqStatus := s.reqStatus.erase req }
    else status.transferJobs.foldlM watchBlocks (s.setStatus req { status with finished := true })

def resetCache : Except OffloadError (SchedulerState H) :=
  if s.currentBatchLoadJobs ≠ [] ∨ s.currentBatchJobsToFlush ≠ [] ∨
      s.currentBatchAllocatedBlockIds ≠ [] then .error .assertion
  else .ok { s with
    currentBatchJobsToFlush := s.jobs.keys
    reqStatus := s.reqStatus.mapValues fun _ status =>
      { status with
        groupStates := status.groupStates.map fun group => { group with nextStoredBlockIdx := 0 } }
    staleJobThreshold := s.jobCounter
    jobs := .empty
    blockIdToPendingJobs := .empty }

end SchedulerState

end Vllm.Offload
