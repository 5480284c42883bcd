import Vllm.KVCache.Admission

/-!
The size of the block pool (`vllm/v1/core/kv_cache_utils.py`).

At start-up `get_kv_cache_configs` checks that one request of maximal length fits in
the memory of every worker, and divides that memory into blocks. The pool keeps one of
them as the null block. `servesAlone_iff` says for which memory a request that has the
pool to itself always gets its blocks.
-/

namespace Vllm.KVCache

open Vllm.Lib.Ceil Vllm.Lib.Fallible KVState KVCacheConfig List

/-- What stops `get_kv_cache_configs`: its own errors, failed assertions and divisions
by zero. -/
inductive SizingError where
  | noWorkers
  | pageSizesDiffer
  | pageSizeZero
  | groupSizeZero
  | slidingWindowUnderDcp
  | noAvailableMemory
  | notEnoughMemory
  | noBlocks
  deriving DecidableEq, Repr

/-- A worker: how many layers of each group it has, and its memory for the cache in
bytes. -/
structure Worker where
  numLayers : List Nat
  availableMemory : Int
  deriving Repr

/-- `group_size`: every group is padded to the largest one. -/
def Worker.groupSize (worker : Worker) : Nat := worker.numLayers.foldl max 0

/-- What start-up reads beside the groups. -/
structure StartupConfig where
  workers : List Worker
  numGpuBlocksOverride : Option Nat := none
  decodeContextParallelSize : Nat := 1
  maxNumEncoderInputTokens : Nat := 0
  deriving Repr

namespace StartupConfig

variable (startup : StartupConfig) (cfg : KVCacheConfig)

/-- `max_memory_usage_bytes` of the spec classes. -/
def maxMemoryUsageBytes (spec : KVCacheSpec) : Except SizingError Nat :=
  match spec.kind with
  | .fullAttention =>
    -- Each rank of a context-parallel group stores its share of the tokens.
    let maxModelLen := if 1 < cfg.contextParallelSize
      then cdiv cfg.maxModelLen cfg.contextParallelSize else cfg.maxModelLen
    .ok (cdiv maxModelLen spec.blockSize * spec.pageSizeBytes)
  | .slidingWindow _ =>
    if startup.decodeContextParallelSize ≠ 1 then .error .slidingWindowUnderDcp
    else .ok (((spec.maxAdmissionBlocksPerRequest cfg.maxNumBatchedTokens
      cfg.maxModelLen).getD 0) * spec.pageSizeBytes)
  | .chunkedLocalAttention _ =>
    .ok (((spec.maxAdmissionBlocksPerRequest cfg.maxNumBatchedTokens
      cfg.maxModelLen).getD 0) * spec.pageSizeBytes)
  | .mamba .all k => .ok ((cdiv cfg.maxModelLen spec.blockSize + k) * spec.pageSizeBytes)
  | .mamba .align k => .ok (spec.pageSizeBytes * (2 + k))
  | .mamba .none k => .ok (spec.pageSizeBytes * (1 + k))
  | .crossAttention =>
    .ok (cdiv startup.maxNumEncoderInputTokens spec.blockSize * spec.pageSizeBytes)

/-- `_max_memory_usage_bytes_from_groups`, for a worker with pages of one size. -/
def maxMemoryUsageBytesFromGroups (groupSize pageSize : Nat) : Except SizingError Int := do
  let blocksNeeded ← cfg.kvCacheGroups.foldlM
    (fun sum group => do
      let bytes ← startup.maxMemoryUsageBytes cfg group.kvCacheSpec
      return sum + cdiv bytes pageSize)
    0
  return (groupSize * pageSize * blocksNeeded : Nat)

/-- `available_memory` after `num_gpu_blocks_override`: the memory of that many
blocks. -/
def effectiveMemory (worker : Worker) (pageSize : Nat) : Int :=
  match startup.numGpuBlocksOverride with
  | some numBlocks => (numBlocks * (pageSize * worker.groupSize) : Nat)
  | none => worker.availableMemory

def checkEnoughKVCacheMemory (pageSize : Nat) (worker : Worker) : Except SizingError Unit :=
  if startup.effectiveMemory worker pageSize ≤ 0 then .error .noAvailableMemory
  else do
    let neededMemory ← startup.maxMemoryUsageBytesFromGroups cfg worker.groupSize pageSize
    if startup.effectiveMemory worker pageSize < neededMemory then .error .notEnoughMemory
    else .ok ()

def getNumBlocks (pageSize : Nat) (worker : Worker) : Nat :=
  startup.numGpuBlocksOverride.getD
    (startup.effectiveMemory worker pageSize / pageSize / worker.groupSize).toNat

/-- The blocks of `get_kv_cache_config_from_groups`. The tensors are then scaled by
the number of blocks, which divides by it. -/
def numBlocksOfWorker (pageSize : Nat) (worker : Worker) : Except SizingError Nat :=
  if worker.groupSize = 0 then .error .groupSizeZero
  else if startup.getNumBlocks pageSize worker = 0 then .error .noBlocks
  else .ok (startup.getNumBlocks pageSize worker)

/-- `get_uniform_page_size`. A page of no bytes is divided by. -/
def getUniformPageSize : List KVCacheGroupSpec → Except SizingError Nat
  | [] => .error .pageSizesDiffer
  | group :: rest =>
    if rest.any (·.kvCacheSpec.pageSizeBytes ≠ group.kvCacheSpec.pageSizeBytes) then
      .error .pageSizesDiffer
    else if group.kvCacheSpec.pageSizeBytes = 0 then .error .pageSizeZero
    else .ok group.kvCacheSpec.pageSizeBytes

/-- The blocks of each worker, after the check of all of them. -/
def numBlocksByWorker : Except SizingError (List Nat) :=
  if cfg.kvCacheGroups = [] then .ok (startup.workers.map fun _ => 1)
  else do
    let pageSize ← getUniformPageSize cfg.kvCacheGroups
    startup.workers.forM (startup.checkEnoughKVCacheMemory cfg pageSize)
    startup.workers.mapM (startup.numBlocksOfWorker pageSize)

/-- `get_kv_cache_configs`, from the groups on: the pool has as many blocks as the
smallest worker. -/
def getKVCacheConfigs : Except SizingError KVCacheConfig := do
  match (← startup.numBlocksByWorker cfg).min? with
  | none => .error .noWorkers
  | some numBlocks => .ok { cfg with numBlocks := numBlocks }

/-- The page size of the first group, which is that of all. -/
def pageSize : Nat := (cfg.kvCacheGroups.head?.map (·.kvCacheSpec.pageSizeBytes)).getD 0

/-- The memory of a worker holds `numUsed` blocks and the null block. -/
def CoversOn (pageSize numUsed : Nat) (worker : Worker) : Prop :=
  match startup.numGpuBlocksOverride with
  | some numBlocks => numUsed < numBlocks
  | none => ((numUsed + 1) * (worker.groupSize * pageSize) : Nat) ≤ worker.availableMemory

/-- The memory of every worker does. A model without groups uses no blocks. -/
def Covers (numUsed : Nat) : Prop :=
  if cfg.kvCacheGroups = [] then numUsed = 0
  else ∀ worker ∈ startup.workers, startup.CoversOn (pageSize cfg) numUsed worker

end StartupConfig

/-! ### What start-up guarantees -/

namespace StartupConfig

variable {startup : StartupConfig} {cfg sized : KVCacheConfig}

theorem getUniformPageSize_eq_ok {groups : List KVCacheGroupSpec} {size : Nat}
    (run : getUniformPageSize groups = .ok size) :
    0 < size ∧ size = (groups.head?.map (·.kvCacheSpec.pageSizeBytes)).getD 0 := by
  cases groups with
  | nil => cases run
  | cons group rest =>
    simp only [getUniformPageSize] at run
    split at run
    · cases run
    · obtain ⟨notZero, run⟩ := guard_eq_ok.mp run
      cases run
      exact ⟨Nat.pos_of_ne_zero notZero, rfl⟩

theorem lt_getNumBlocks {size numUsed : Nat} {worker : Worker} (posPage : 0 < size)
    (posGroup : 0 < worker.groupSize) : numUsed < startup.getNumBlocks size worker ↔
      startup.CoversOn size numUsed worker := by
  unfold getNumBlocks effectiveMemory CoversOn
  cases startup.numGpuBlocksOverride with
  | some numBlocks => exact Iff.rfl
  | none =>
    have posPage' : (0 : Int) < size := by exact_mod_cast posPage
    have posGroup' : (0 : Int) < worker.groupSize := by exact_mod_cast posGroup
    simp only [Option.getD_none]
    rw [Int.lt_toNat, ← Int.add_one_le_iff, Int.le_ediv_iff_mul_le posGroup',
      Int.le_ediv_iff_mul_le posPage']
    push_cast
    rw [mul_assoc]

/-- Start-up only sets the number of blocks. -/
theorem getKVCacheConfigs_eq (run : startup.getKVCacheConfigs cfg = .ok sized) :
    ∃ numBlocks, sized = { cfg with numBlocks := numBlocks } := by
  obtain ⟨counts, -, run⟩ := bind_eq_ok.mp run
  split at run
  · cases run
  · cases run
    exact ⟨_, rfl⟩

/-- The pool has more than `numUsed` blocks iff the memory covers them. -/
theorem lt_numBlocks_iff (run : startup.getKVCacheConfigs cfg = .ok sized) (numUsed : Nat) :
    numUsed < sized.numBlocks ↔ startup.Covers cfg numUsed := by
  obtain ⟨counts, counted, run⟩ := bind_eq_ok.mp run
  split at run
  · cases run
  rename_i numBlocks isMin
  cases run
  obtain ⟨isCount, least⟩ := min?_eq_some_iff.mp isMin
  have all : numUsed < numBlocks ↔ ∀ n ∈ counts, numUsed < n :=
    ⟨fun lt n mem => lt.trans_le (least n mem), fun lt => lt numBlocks isCount⟩
  rw [all]
  unfold Covers
  unfold numBlocksByWorker at counted
  split at counted
  · rename_i noGroups
    cases counted
    obtain ⟨worker, mem, -⟩ := mem_map.mp isCount
    rw [if_pos noGroups]
    constructor
    · intro lt
      exact Nat.lt_one_iff.mp (lt 1 (mem_map.mpr ⟨worker, mem, rfl⟩))
    · rintro rfl n memN
      obtain ⟨-, -, rfl⟩ := mem_map.mp memN
      exact Nat.one_pos
  · rename_i someGroups
    rw [if_neg someGroups]
    obtain ⟨size, isSize, counted⟩ := bind_eq_ok.mp counted
    obtain ⟨-, -, counted⟩ := bind_eq_ok.mp counted
    obtain ⟨posPage, rfl⟩ := getUniformPageSize_eq_ok isSize
    obtain ⟨ofCount, ofWorker⟩ := mapM_eq_ok counted
    have each : ∀ {worker n}, startup.numBlocksOfWorker (pageSize cfg) worker = .ok n →
        (numUsed < n ↔ startup.CoversOn (pageSize cfg) numUsed worker) := by
      intro worker n isNumber
      obtain ⟨notEmpty, isNumber⟩ := guard_eq_ok.mp isNumber
      split at isNumber
      · cases isNumber
      cases isNumber
      exact lt_getNumBlocks posPage (Nat.pos_of_ne_zero notEmpty)
    constructor
    · intro lt worker mem
      obtain ⟨n, memN, isNumber⟩ := ofWorker worker mem
      exact (each isNumber).mp (lt n memN)
    · intro covers n memN
      obtain ⟨worker, mem, isNumber⟩ := ofCount n memN
      exact (each isNumber).mpr (covers worker mem)

end StartupConfig

/-! ### A request alone -/

section Alone

variable {H : Type} [DecidableEq H]

/-- The call that admits the only request, from the waiting queue. -/
structure LoneStart (cfg : KVCacheConfig) (reserveFullIsl : Bool) (request : Request H)
    (args : AllocateSlotsArgs) : Prop
    extends Starts cfg (init H cfg.numBlocks) request args where
  pos : 0 < args.numNewTokens
  batched : args.numNewTokens ≤ cfg.maxNumBatchedTokens
  inside : args.numNewComputedTokens + args.numNewTokens ≤ request.numTokens
  fullSequenceMustFit : args.fullSequenceMustFit = reserveFullIsl
  reservedBlocks : args.reservedBlocks = 0

/-- A later call, from the running queue: `k` tokens of the request, which may have grown
by its outputs. -/
structure LoneChunk (cfg : KVCacheConfig) (requestId : RequestId) (request : Request H)
    (n k : Nat) : Prop extends IsChunk cfg request n k where
  sameRequest : request.requestId = requestId
  numComputedTokens : request.numComputedTokens = n
  numTokens : request.numTokens ≤ cfg.maxModelLen
  blockHashes : cfg.enableCaching = true →
    request.numTokens / cfg.hashBlockSize ≤ request.blockHashes.length

/-- `LoneRun cfg request args t n`: the request was admitted, and chunks that got their
blocks lead to `n` computed tokens in `t`. -/
inductive LoneRun (cfg : KVCacheConfig) (request : Request H) (args : AllocateSlotsArgs) :
    KVState H → Nat → Prop
  | admitted {t : KVState H} {newBlocks : List (List BlockId)} :
      cfg.allocateSlots request args (init H cfg.numBlocks) = .ok (some newBlocks, t) →
      LoneRun cfg request args t (args.numNewComputedTokens + args.numNewTokens)
  | newStep {t : KVState H} {n : Nat} :
      LoneRun cfg request args t n → LoneRun cfg request args (cfg.newStepStarts t) n
  | chunk {t u : KVState H} {n k : Nat} {grown : Request H} {newBlocks : List (List BlockId)} :
      LoneRun cfg request args t n → LoneChunk cfg request.requestId grown n k →
      cfg.allocateSlots grown { numNewTokens := k } t = .ok (some newBlocks, u) →
      LoneRun cfg request args u (n + k)

/-- A request that has the fresh pool to itself gets its blocks in every call. -/
def ServesAlone (H : Type) [DecidableEq H] (cfg : KVCacheConfig) (reserveFullIsl : Bool) : Prop :=
  ∀ (request : Request H) (args : AllocateSlotsArgs), LoneStart cfg reserveFullIsl request args →
    (∃ newBlocks t, cfg.allocateSlots request args (init H cfg.numBlocks) =
      .ok (some newBlocks, t)) ∧
    ∀ t n k (grown : Request H), LoneRun cfg request args t n →
      LoneChunk cfg request.requestId grown n k →
      ∃ newBlocks u, cfg.allocateSlots grown { numNewTokens := k } t = .ok (some newBlocks, u)

/-- The blocks of `n + k` tokens without those before the window of the first `n`. -/
def windowBlocks (cfg : KVCacheConfig) (n k : Nat) : Nat :=
  (cfg.managers.map fun m => cdiv (n + k) m.blockSize - m.numSkippedBlocks n).sum

/-- What the full-sequence gate asks for a sequence without hits. -/
def gateBlocks (cfg : KVCacheConfig) (numTokens : Nat) : Nat :=
  (cfg.managers.map fun m => m.numRequiredBlocks numTokens true).sum

variable {cfg : KVCacheConfig} {request : Request H} {args : AllocateSlotsArgs}
  {t : KVState H} {n k : Nat} {full : Bool}

omit [DecidableEq H] in
theorem numFree_init (H : Type) (cfg : KVCacheConfig) :
    (init H cfg.numBlocks).blockPool.getNumFreeBlocks = (cfg.numBlocks : Int) - 1 := rfl

omit [DecidableEq H] in
/-- In a fresh pool a lookup finds null blocks at most. -/
theorem eq_nullBlock_of_init {m : SingleTypeKVCacheManager} (valid : cfg.Valid)
    (passed : cfg.PassesHit (init H cfg.numBlocks) request args) (mem : m ∈ cfg.managers)
    {b : BlockId} (isHit : b ∈ hitsOf (cfg.newComputedBlockList args) m) : b = nullBlock := by
  by_contra notNull
  obtain ⟨i, found⟩ := mem_iff_getElem?.mp isHit
  obtain ⟨hash, -, cached⟩ := (hitSound_of_passesHit valid passed mem).cached found notNull
  exact absurd cached not_mem_nil

omit [DecidableEq H] in
/-- Null blocks are not taken from the free blocks. -/
theorem evictable_eq_zero {p : BlockPool H} {hits : List BlockId}
    (nulls : ∀ b ∈ hits, b = nullBlock) (n : Nat) : getNumEvictableBlocks p (hits.drop n) = 0 :=
  countP_eq_zero.mpr fun b mem => by simp [nulls b (mem_of_mem_drop mem)]

variable {hits : List (List BlockId)} {s : KVState H}

omit [DecidableEq H] in
/-- Hits on null blocks only lower what the request holds. -/
theorem totalChunkBlocks_le (nulls : ∀ m ∈ cfg.managers, ∀ b ∈ hitsOf hits m, b = nullBlock)
    (n k : Nat) :
    totalChunkBlocks cfg s hits n k ≤ windowBlocks cfg n k := by
  refine sum_le_sum fun m mem => ?_
  rw [chunkBlocks, takenOf, tableLength, evictable_eq_zero (nulls m mem)]
  omega

omit [DecidableEq H] in
theorem totalChunkBlocks_eq (none : ∀ m, hitsOf hits m = []) (n k : Nat) :
    totalChunkBlocks cfg s hits n k = windowBlocks cfg n k := by
  refine congrArg sum (map_congr_left fun m mem => ?_)
  rw [chunkBlocks, takenOf, tableLength, none m, drop_nil, length_nil]
  have nothing : getNumEvictableBlocks s.blockPool [] = 0 := rfl
  omega

namespace LoneStart

section

variable (start : LoneStart cfg full request args)
include start

theorem setting (groups : SelfAttention cfg) :
    Setting cfg (init H cfg.numBlocks) (cfg.newComputedBlockList args) :=
  start.toStarts.setting groups (.init H groups.valid.numBlocks)

theorem nulls (valid : cfg.Valid) :
    ∀ m ∈ cfg.managers, ∀ b ∈ hitsOf (cfg.newComputedBlockList args) m, b = nullBlock :=
  fun _ mem _ isHit => eq_nullBlock_of_init valid start.promised.passesHit mem isHit

/-- The gate opens if it would without hits. -/
theorem gate (groups : SelfAttention cfg)
    (covered : full = true → gateBlocks cfg request.numTokens < cfg.numBlocks) :
    cfg.fullSequenceFits request args (init H cfg.numBlocks) = .ok true := by
  unfold fullSequenceFits
  split
  · rename_i mustFit
    have covered := covered (start.fullSequenceMustFit ▸ mustFit)
    have le : (cfg.managers.map (newRequestBlocks (init H cfg.numBlocks)
        (cfg.newComputedBlockList args) request.numTokens args.numNewComputedTokens true)).sum ≤
        gateBlocks cfg request.numTokens := by
      refine sum_le_sum fun m mem => ?_
      rw [newRequestBlocks, evictable_eq_zero (start.nulls groups.valid m mem)]
      omega
    have free := numFree_init H cfg
    have inside := start.inside
    rw [start.toStarts.fullSequenceBlocks groups (by omega)]
    refine congrArg Except.ok (decide_eq_true ?_)
    omega
  · rfl

end

end LoneStart

variable {s : KVState H} {N : Nat}

theorem Prefilling.loneChunk {hits : List (List BlockId)} {grown : Request H} {r : RequestId}
    (prefilling : Prefilling cfg s r hits n t) (setting : Setting cfg s hits)
    (chunk : LoneChunk cfg r grown n k) :
    ((totalChunkBlocks cfg s hits n k : Int) ≤ s.blockPool.getNumFreeBlocks ∧ ∃ newBlocks u,
        cfg.allocateSlots grown { numNewTokens := k } t = .ok (some newBlocks, u) ∧
        Prefilling cfg s r hits (n + k) u) ∨
      (s.blockPool.getNumFreeBlocks < totalChunkBlocks cfg s hits n k ∧
        ∃ u, cfg.allocateSlots grown { numNewTokens := k } t = .ok (none, u)) := by
  obtain rfl := chunk.sameRequest
  exact prefilling.allocateSlots setting (continues_default cfg k) chunk.numComputedTokens
    chunk.pos (chunk.inside.trans chunk.numTokens) chunk.blockHashes rfl

theorem LoneRun.prefilling (run : LoneRun cfg request args t n)
    (start : LoneStart cfg full request args) (groups : SelfAttention cfg) :
    Prefilling cfg (init H cfg.numBlocks) request.requestId
      (cfg.newComputedBlockList args) n t := by
  have setting := start.setting groups
  induction run with
  | admitted admitted => exact start.toStarts.prefilling setting start.inside admitted
  | newStep _ ih => exact ih.newStepStarts
  | chunk _ chunk call ih =>
    rcases ih.loneChunk setting chunk with ⟨-, _, _, served, after⟩ | ⟨-, _, refused⟩
    · rw [served] at call
      cases call
      exact after
    · rw [refused] at call
      cases call

/-! ### When it is served -/

/-- A request of `numTokens` tokens that does not read the prefix cache. -/
def loneRequest (H : Type) [Inhabited H] (numTokens : Nat) : Request H :=
  { requestId := 0
    allTokenIds := replicate numTokens 0
    blockHashes := replicate numTokens default
    skipReadingPrefixCache := true }

/-- Its first call, for `k` tokens. -/
def loneArgs (cfg : KVCacheConfig) (reserveFullIsl : Bool) (k : Nat) : AllocateSlotsArgs :=
  { numNewTokens := k
    newComputedBlocks := some cfg.emptyKVCacheBlocks
    fullSequenceMustFit := reserveFullIsl }

omit [DecidableEq H] in
theorem numTokens_loneRequest [Inhabited H] (numTokens : Nat) :
    (loneRequest H numTokens).numTokens = numTokens := length_replicate

theorem hitsOf_loneArgs (cfg : KVCacheConfig) (full : Bool) (k : Nat)
    (m : SingleTypeKVCacheManager) :
    hitsOf (cfg.newComputedBlockList (loneArgs cfg full k)) m = [] :=
  getD_emptyKVCacheBlocks cfg m.kvCacheGroupId

theorem loneStart [Inhabited H] (pos : 0 < k) (batched : k ≤ cfg.maxNumBatchedTokens)
    (inside : k ≤ N) (fits : N ≤ cfg.maxModelLen) (full : Bool) :
    LoneStart cfg full (loneRequest H N) (loneArgs cfg full k) where
  promised := by
    refine ⟨⟨if_pos (.inr rfl), fun _ => fun m _ => ⟨rfl, rfl⟩⟩, fun m _ b isHit => ?_, fun _ m _ _ =>
      Nat.zero_le _⟩
    have none := hitsOf_loneArgs cfg full k m
    exact absurd (none ▸ isHit : b ∈ []) not_mem_nil
  isNew _ _ := ⟨rfl, rfl⟩
  numComputedTokens := rfl
  numExternalComputedTokens := rfl
  numLookaheadTokens := rfl
  numTokens := by
    rw [numTokens_loneRequest]
    exact fits
  blockHashes _ := by
    have length : (loneRequest H N).blockHashes.length = N := length_replicate
    rw [length, numTokens_loneRequest]
    exact Nat.div_le_self _ _
  pos := pos
  batched := batched
  inside := by
    rw [numTokens_loneRequest]
    exact (Nat.zero_add k).symm ▸ inside
  fullSequenceMustFit := rfl
  reservedBlocks := rfl

omit [DecidableEq H] in
theorem loneChunk [Inhabited H] (pos : 0 < k) (batched : k ≤ cfg.maxNumBatchedTokens)
    (inside : n + k ≤ N) (fits : N ≤ cfg.maxModelLen) :
    LoneChunk cfg 0 { loneRequest H N with numComputedTokens := n } n k := by
  have numTokens := numTokens_loneRequest (H := H) N
  have length : (loneRequest H N).blockHashes.length = N := length_replicate
  refine ⟨⟨pos, batched, ?_⟩, rfl, rfl, ?_, fun _ => ?_⟩
  · exact inside.trans (Nat.le_of_eq numTokens.symm)
  · exact (Nat.le_of_eq numTokens).trans fits
  · exact (Nat.div_le_self _ _).trans (Nat.le_of_eq (numTokens.trans length.symm))

section

variable (serves : ServesAlone H cfg full)
include serves

theorem exists_loneRun [Inhabited H] (batch : 0 < cfg.maxNumBatchedTokens) {d : Nat}
    (inside : d + 1 ≤ N) (fits : N ≤ cfg.maxModelLen) :
    ∃ t, LoneRun cfg (loneRequest H N) (loneArgs cfg full 1) t (d + 1) := by
  have start : LoneStart cfg full (loneRequest H N) (loneArgs cfg full 1) :=
    loneStart Nat.one_pos batch (by omega) fits full
  obtain ⟨⟨newBlocks, t, admitted⟩, continues⟩ := serves _ _ start
  induction d with
  | zero => exact ⟨t, .admitted admitted⟩
  | succ d ih =>
    obtain ⟨u, before⟩ := ih (by omega)
    have chunk := loneChunk (H := H) Nat.one_pos batch inside fits
    obtain ⟨_, v, call⟩ := continues u (d + 1) 1 _ before chunk
    exact ⟨v, .chunk before chunk call⟩

omit serves in
omit [DecidableEq H] in
/-- A call that gets blocks passed the gate. -/
theorem gate_of_allocateSlots [DecidableEq H] {newBlocks : List (List BlockId)}
    (run : cfg.allocateSlots request args s = .ok (some newBlocks, t)) :
    cfg.fullSequenceFits request args s = .ok true := by
  unfold allocateSlots at run
  split at run
  · cases run
  obtain ⟨fits, gate, run⟩ := bind_eq_ok.mp run
  cases fits with
  | true => exact gate
  | false => cases run

/-- The gate has to open for the request without hits. -/
theorem ServesAlone.gateBlocks_lt [Inhabited H] (groups : SelfAttention cfg)
    (batch : 0 < cfg.maxNumBatchedTokens) (reserve : full = true) (pos : 0 < N)
    (fits : N ≤ cfg.maxModelLen) : gateBlocks cfg N < cfg.numBlocks := by
  have start : LoneStart cfg full (loneRequest H N) (loneArgs cfg full 1) :=
    loneStart Nat.one_pos batch pos fits full
  obtain ⟨⟨newBlocks, t, admitted⟩, -⟩ := serves _ _ start
  have opened := gate_of_allocateSlots admitted
  have mustFit : (loneArgs cfg full 1).fullSequenceMustFit = true := reserve
  rw [fullSequenceFits, if_pos mustFit, start.toStarts.fullSequenceBlocks groups (Nat.zero_le _)]
    at opened
  have enough := of_decide_eq_true (Except.ok.inj opened)
  have asked : (cfg.managers.map (newRequestBlocks (init H cfg.numBlocks)
      (cfg.newComputedBlockList (loneArgs cfg full 1)) (loneRequest H N).numTokens 0
      true)).sum = gateBlocks cfg N := by
    refine congrArg sum (map_congr_left fun m mem => ?_)
    have noSkip : m.numSkippedBlocks 0 ≤ 0 := numSkippedBlocks_le groups.valid mem (Nat.zero_le _)
    have nothing : getNumEvictableBlocks (init H cfg.numBlocks).blockPool [] = 0 := rfl
    rw [newRequestBlocks, hitsOf_loneArgs, numTokens_loneRequest, drop_nil, length_nil]
    omega
  have free := numFree_init H cfg
  have computed : (loneArgs cfg full 1).numNewComputedTokens = 0 := rfl
  rw [computed] at enough
  omega

/-- Every chunk of it has to fit. -/
theorem ServesAlone.windowBlocks_lt [Inhabited H] (groups : SelfAttention cfg) (pos : 0 < k)
    (batched : k ≤ cfg.maxNumBatchedTokens) (fits : n + k ≤ cfg.maxModelLen) :
    windowBlocks cfg n k < cfg.numBlocks := by
  have free := numFree_init H cfg
  cases n with
  | zero =>
    have start : LoneStart cfg full (loneRequest H (0 + k))
        (loneArgs cfg full k) := loneStart pos batched (by omega) fits full
    obtain ⟨⟨newBlocks, t, admitted⟩, -⟩ := serves _ _ start
    have same : totalChunkBlocks cfg (init H cfg.numBlocks)
        (cfg.newComputedBlockList (loneArgs cfg full k)) 0 k = windowBlocks cfg 0 k :=
      totalChunkBlocks_eq (hitsOf_loneArgs cfg full k) 0 k
    rcases start.toStarts.allocateSlots (start.setting groups) start.inside start.pos
      start.reservedBlocks (gate_of_allocateSlots admitted) with ⟨enough, -⟩ | ⟨-, u, refused⟩
    · have enough : (totalChunkBlocks cfg (init H cfg.numBlocks)
          (cfg.newComputedBlockList (loneArgs cfg full k)) 0 k : Int) ≤ _ := enough
      omega
    · rw [admitted] at refused
      cases refused
  | succ n =>
    have start : LoneStart cfg full (loneRequest H (n + 1 + k))
        (loneArgs cfg full 1) :=
      loneStart Nat.one_pos (by omega) (by omega) fits full
    obtain ⟨t, run⟩ := exists_loneRun (d := n) serves (by omega) (by omega) fits
    have chunk := loneChunk (H := H) pos batched le_rfl fits
    obtain ⟨newBlocks, u, served⟩ := (serves _ _ start).2 t (n + 1) k _ run chunk
    have same : totalChunkBlocks cfg (init H cfg.numBlocks)
        (cfg.newComputedBlockList (loneArgs cfg full 1)) (n + 1) k =
        windowBlocks cfg (n + 1) k :=
      totalChunkBlocks_eq (hitsOf_loneArgs cfg full 1) (n + 1) k
    rcases (run.prefilling start groups).loneChunk (start.setting groups) chunk
      with ⟨enough, -⟩ | ⟨-, v, refused⟩
    · omega
    · rw [served] at refused
      cases refused

end

/-- A request alone is served iff the pool has a block more than the gate asks for and
than any chunk holds. -/
theorem servesAlone_iff_lt [Inhabited H] (groups : SelfAttention cfg)
    (batch : 0 < cfg.maxNumBatchedTokens) :
    ServesAlone H cfg full ↔
      (full = true → ∀ N, 0 < N → N ≤ cfg.maxModelLen →
        gateBlocks cfg N < cfg.numBlocks) ∧
      ∀ n k, 0 < k → k ≤ cfg.maxNumBatchedTokens → n + k ≤ cfg.maxModelLen →
        windowBlocks cfg n k < cfg.numBlocks := by
  have free := numFree_init H cfg
  constructor
  · intro serves
    exact ⟨fun reserve N pos fits => serves.gateBlocks_lt groups batch reserve pos fits,
      fun n k pos batched fits => serves.windowBlocks_lt groups pos batched fits⟩
  · rintro ⟨gate, chunks⟩ request args start
    have setting := start.setting groups
    have nulls := start.nulls groups.valid
    constructor
    · have opened := start.gate groups fun reserve =>
        gate reserve request.numTokens (by have := start.pos; have := start.inside; omega) start.numTokens
      have covered := chunks args.numNewComputedTokens args.numNewTokens start.pos start.batched
        (start.inside.trans start.numTokens)
      have le := totalChunkBlocks_le (s := init H cfg.numBlocks) nulls
        args.numNewComputedTokens args.numNewTokens
      rcases start.toStarts.allocateSlots setting start.inside start.pos start.reservedBlocks opened
        with ⟨-, newBlocks, t, served, -⟩ | ⟨short, -⟩
      · exact ⟨newBlocks, t, served⟩
      · omega
    · intro t n k grown run chunk
      have covered := chunks n k chunk.pos chunk.batched (chunk.inside.trans chunk.numTokens)
      have le := totalChunkBlocks_le (s := init H cfg.numBlocks) nulls n k
      rcases (run.prefilling start groups).loneChunk setting chunk
        with ⟨-, newBlocks, u, served, -⟩ | ⟨short, -⟩
      · exact ⟨newBlocks, u, served⟩
      · omega

/-- The number of blocks is nothing that the demand depends on. -/
theorem managers_numBlocks (cfg : KVCacheConfig) (numBlocks : Nat) :
    ({ cfg with numBlocks := numBlocks } : KVCacheConfig).managers =
      cfg.managers.map fun m => { m with numGpuBlocks := numBlocks } := by
  rw [managers, managers, map_map]
  rfl

/-- After a successful start-up a request alone is served iff every worker's memory
covers, beside the null block, what the gate asks for and what any chunk holds. -/
theorem servesAlone_iff [Inhabited H] {startup : StartupConfig} {sized : KVCacheConfig}
    (run : startup.getKVCacheConfigs cfg = .ok sized) (groups : SelfAttention sized)
    (batch : 0 < cfg.maxNumBatchedTokens) :
    ServesAlone H sized reserveFullIsl ↔
      (reserveFullIsl = true → ∀ N, 0 < N → N ≤ cfg.maxModelLen →
        startup.Covers cfg (gateBlocks cfg N)) ∧
      ∀ n k, 0 < k → k ≤ cfg.maxNumBatchedTokens → n + k ≤ cfg.maxModelLen →
        startup.Covers cfg (windowBlocks cfg n k) := by
  obtain ⟨numBlocks, rfl⟩ : ∃ numBlocks, sized = { cfg with numBlocks := numBlocks } :=
    StartupConfig.getKVCacheConfigs_eq run
  have sameGate : ∀ N, gateBlocks { cfg with numBlocks := numBlocks } N = gateBlocks cfg N := by
    intro N
    rw [gateBlocks, managers_numBlocks, map_map]
    rfl
  have sameWindow : ∀ n k,
      windowBlocks { cfg with numBlocks := numBlocks } n k = windowBlocks cfg n k := by
    intro n k
    rw [windowBlocks, managers_numBlocks, map_map]
    rfl
  rw [servesAlone_iff_lt groups batch]
  simp only [← StartupConfig.lt_numBlocks_iff run, sameGate, sameWindow]

end Alone

/-! ### Memory that is just enough -/

/-- One layer of full attention, and requests of at most eight tokens. -/
def fullAttentionOnly : KVCacheConfig where
  kvCacheGroups := [⟨⟨.fullAttention, 4, 16, 0, Nat.succ_pos (nat_lit 3)⟩, false⟩]
  numBlocks := 0
  maxModelLen := 8
  maxNumBatchedTokens := 8
  schedulerBlockSize := 4
  hashBlockSize := 4

def twoPages : StartupConfig := { workers := [{ numLayers := [1], availableMemory := 32 }] }

/-- Two pages pass the check for a request of eight tokens, but one of the two blocks is
the null block: a prompt of seven tokens is refused, with and without the gate. -/
theorem twoPages_not_servesAlone : ∃ sized,
    twoPages.getKVCacheConfigs fullAttentionOnly = .ok sized ∧ SelfAttention sized ∧
    ¬ ServesAlone Nat sized true ∧ ¬ ServesAlone Nat sized false := by
  let sized : KVCacheConfig := { fullAttentionOnly with numBlocks := 2 }
  have groups : SelfAttention sized :=
    ⟨⟨by decide, by decide, by decide, by decide, by decide⟩, by decide, by decide⟩
  have refused : ∀ reserve, (sized.allocateSlots (loneRequest Nat 7) (loneArgs sized reserve 7)
      (init Nat 2)).map (·.1) = .ok none := by decide
  have notServed : ∀ reserve, ¬ ServesAlone Nat sized reserve := by
    intro reserve serves
    have start : LoneStart sized reserve (loneRequest Nat 7) (loneArgs sized reserve 7) :=
      loneStart (by decide) (by decide) (by decide) (by decide) reserve
    obtain ⟨⟨newBlocks, t, served⟩, -⟩ := serves _ _ start
    have refused := refused reserve
    rw [served] at refused
    cases refused
  exact ⟨sized, rfl, groups, notServed true, notServed false⟩

def threePages : StartupConfig := { workers := [{ numLayers := [1], availableMemory := 48 }] }

/-- With one page more every request is served. -/
theorem threePages_servesAlone : ∃ sized,
    threePages.getKVCacheConfigs fullAttentionOnly = .ok sized ∧ ServesAlone Nat sized true := by
  let sized : KVCacheConfig := { fullAttentionOnly with numBlocks := 3 }
  have run : threePages.getKVCacheConfigs fullAttentionOnly = .ok sized := rfl
  have groups : SelfAttention sized :=
    ⟨⟨by decide, by decide, by decide, by decide, by decide⟩, by decide, by decide⟩
  refine ⟨sized, run, (servesAlone_iff run groups (by decide)).mpr ⟨fun _ N _ fits => ?_,
    fun n k _ _ fits => ?_⟩⟩
  · have few : ∀ N ≤ 8, gateBlocks fullAttentionOnly N < 3 := by decide
    rw [← StartupConfig.lt_numBlocks_iff run]
    exact few N fits
  · have few : ∀ n ≤ 8, ∀ k ≤ 8, n + k ≤ 8 → windowBlocks fullAttentionOnly n k < 3 := by decide
    have fits : n + k ≤ 8 := fits
    rw [← StartupConfig.lt_numBlocks_iff run]
    exact few n (by omega) k (by omega) fits

end Vllm.KVCache
