import Vllm.KVCache.Accounting
import Vllm.KVCache.HitSound
import Vllm.Lib.Steps

/-!
Runs of the KV cache manager: the calls that the scheduler and the KV connector
make, in any order, on one manager.
-/

namespace Vllm.KVCache

open Vllm.Lib Vllm.Lib.Fallible

variable {H : Type}

inductive Call (H : Type) where
  | getComputedBlocks (request : Request H)
  | allocateSlots (request : Request H) (args : AllocateSlotsArgs)
  | cacheBlocks (request : Request H) (numComputedTokens : Nat)
  | removeSkippedBlocks (requestId : RequestId) (totalComputedTokens : Nat)
  | free (requestId : RequestId)
  | newStepStarts

section Computed

/-! What `allocate_new_computed_blocks` asks of one manager, from the hits by group
and the tokens that they and the connector cover. -/

variable (hits : List (List BlockId)) (numLocal numExternal : Nat)

/-- The hits that manager `m` puts into the table. -/
def windowHits (m : SingleTypeKVCacheManager) : List BlockId :=
  m.hitsInWindow (hits.getD m.kvCacheGroupId []) (numLocal + numExternal)

/-- How many blocks manager `m` takes for external tokens. -/
def numTaken (m : SingleTypeKVCacheManager) : Int :=
  if 0 < m.numExternalInWindow numLocal numExternal then
    m.numExternalBlocks (hits.getD m.kvCacheGroupId []) (numLocal + numExternal)
  else 0

end Computed

/-- What is used of the state after some of a request's blocks were skipped: only its own
tables changed, by positions that became null, and no block got a holder. Which positions
those are and what the free queue is, is not said. -/
structure RequestSkipped (cfg : KVCacheConfig) (r : RequestId) (s s' : KVState H) : Prop where
  others : ∀ key : Nat × RequestId, key.2 ≠ r → s'.reqToBlocks.get key = s.reqToBlocks.get key
  nulled : ∀ key, Nulled (s.reqToBlocks.get key) (s'.reqToBlocks.get key)
  blockHash : s'.blockPool.blockHash = s.blockPool.blockHash
  cached : s'.blockPool.cached = s.blockPool.cached
  refCnt : ∀ b, s'.blockPool.refCnt b ≤ s.blockPool.refCnt b
  numCachedBlock : s'.numCachedBlock = s.numCachedBlock
  lastStateBlockIdx : s'.lastStateBlockIdx = s.lastStateBlockIdx
  allocatedBlockReqs : s'.allocatedBlockReqs = s.allocatedBlockReqs
  cachedBlocksThisStep : s'.cachedBlocksThisStep = s.cachedBlocksThisStep
  pool_of_nil : (∀ m ∈ cfg.managers, m.blocksOf s r = []) → s'.blockPool = s.blockPool

/-- A new step forgets what the last one cached. -/
theorem newStepStarts_eq (cfg : KVCacheConfig) (s : KVState H) : ∃ cachedBlocksThisStep,
    cfg.newStepStarts s = { s with cachedBlocksThisStep := cachedBlocksThisStep } := by
  refine List.foldlRecOn cfg.managers _ (motive := fun t => ∃ c,
    t = { s with cachedBlocksThisStep := c }) ⟨s.cachedBlocksThisStep, rfl⟩ ?_
  rintro _ ⟨c, rfl⟩ m -
  exact ⟨_, rfl⟩

namespace RequestSkipped

variable {cfg : KVCacheConfig} {r : RequestId} {s t u : KVState H}

theorem refl (cfg : KVCacheConfig) (r : RequestId) (s : KVState H) : RequestSkipped cfg r s s where
  others _ _ := rfl
  nulled _ := .refl _
  blockHash := rfl
  cached := rfl
  refCnt _ := Int.le_refl _
  numCachedBlock := rfl
  lastStateBlockIdx := rfl
  allocatedBlockReqs := rfl
  cachedBlocksThisStep := rfl
  pool_of_nil _ := rfl

theorem tail {m : SingleTypeKVCacheManager} (before : RequestSkipped cfg r s t)
    (mem : m ∈ cfg.managers) (skipped : Skipped (m.key r) t u) : RequestSkipped cfg r s u := by
  obtain ⟨blocks, freed, -⟩ := skipped.freed
  have same : ∀ key, key ≠ m.key r → u.reqToBlocks.get key = t.reqToBlocks.get key :=
    fun key ne => skipped.tables.get_of_ne ne
  refine ⟨fun key other => ?_, fun key => ?_, freed.blockHash.trans before.blockHash,
    freed.cached.trans before.cached, fun b => ?_, skipped.numCachedBlock.trans before.numCachedBlock,
    skipped.lastStateBlockIdx.trans before.lastStateBlockIdx,
    skipped.allocatedBlockReqs.trans before.allocatedBlockReqs,
    skipped.cachedBlocksThisStep.trans before.cachedBlocksThisStep, fun empty => ?_⟩
  · have ne : key ≠ m.key r := fun isKey => other (congrArg Prod.snd isKey)
    rw [same key ne]
    exact before.others key other
  · by_cases isKey : key = m.key r
    · rw [isKey]
      exact (before.nulled _).trans skipped.nulled
    · rw [same key isKey]
      exact before.nulled key
  · have := before.refCnt b
    rw [freed.refCnt]
    omega
  · have length := (before.nulled (m.key r)).length
    rw [show s.reqToBlocks.get (m.key r) = [] from empty m mem] at length
    exact (skipped.pool_of_nil (List.length_eq_zero_iff.mp length)).trans (before.pool_of_nil empty)

end RequestSkipped

namespace KVCacheConfig

variable (cfg : KVCacheConfig)

def exec [DecidableEq H] (s : KVState H) : Call H → Except KVError (KVState H)
  | .getComputedBlocks request => do
    let _ ← cfg.getComputedBlocks s request
    return s
  | .allocateSlots request args => do
    let result ← cfg.allocateSlots request args s
    return result.2
  | .cacheBlocks request n => cfg.cacheBlocks s request n
  | .removeSkippedBlocks requestId n => cfg.removeSkippedBlocks s requestId n
  | .free requestId => .ok (cfg.free s requestId)
  | .newStepStarts => .ok (cfg.newStepStarts s)

def step [DecidableEq H] : KVState H → Call H → KVState H → Prop := Steps.succeeds cfg.exec

/-- The hit that a caller of `allocate_slots` passes is none, or what
`get_computed_blocks` returns in the same state. -/
def PassesHit (s : KVState H) (request : Request H) (args : AllocateSlotsArgs) : Prop :=
  match args.newComputedBlocks with
  | none => args.numNewComputedTokens = 0
  | some hits => cfg.getComputedBlocks s request = .ok (hits, args.numNewComputedTokens)

instance decidablePassesHit (s : KVState H) (request : Request H) (args : AllocateSlotsArgs) :
    Decidable (cfg.PassesHit s request args) :=
  match found : args.newComputedBlocks with
  | none => decidable_of_iff (args.numNewComputedTokens = 0) (by rw [PassesHit, found])
  | some hits => decidable_of_iff
      (cfg.getComputedBlocks s request = .ok (hits, args.numNewComputedTokens))
      (by rw [PassesHit, found])

/-- The manager holds nothing for the request. -/
def IsNew (s : KVState H) (requestId : RequestId) : Prop :=
  ∀ m ∈ cfg.managers, m.blocksOf s requestId = [] ∧ s.numCachedBlock (m.key requestId) = none

instance decidableIsNew (s : KVState H) (requestId : RequestId) :
    Decidable (cfg.IsNew s requestId) :=
  inferInstanceAs (Decidable (∀ m ∈ cfg.managers, _ ∧ _))

/-- What every caller of `allocate_slots` promises: the hits are those just looked up,
and only a request that the manager holds nothing for comes with hits or external
tokens. -/
@[mk_iff]
structure AllocatePromised [DecidableEq H] (s : KVState H) (request : Request H)
    (args : AllocateSlotsArgs) : Prop where
  passesHit : cfg.PassesHit s request args
  isNew : cfg.hasNewComputed args = true → cfg.IsNew s request.requestId

instance decidableAllocatePromised [DecidableEq H] (s : KVState H) (request : Request H)
    (args : AllocateSlotsArgs) : Decidable (cfg.AllocatePromised s request args) :=
  decidable_of_iff' _ (allocatePromised_iff cfg s request args)

variable {cfg}

theorem key_ne {m m' : SingleTypeKVCacheManager} (mem : m ∈ cfg.managers) (mem' : m' ∈ cfg.managers)
    (ne : m ≠ m') (r r' : RequestId) : m'.key r' ≠ m.key r := by
  intro same
  exact ne (manager_ext mem mem' (congrArg Prod.fst same).symm)

theorem removeSkippedBlocks_spec {N : Nat} {s s' : KVState H} {r : RequestId} {n : Nat} (wf : Wf N s)
    (run : cfg.removeSkippedBlocks s r n = .ok s') : RequestSkipped cfg r s s' ∧ Wf N s' := by
  refine foldlM_keeps (fun t => RequestSkipped cfg r s t ∧ Wf N t)
    (fun t m mem u before step => ?_) ⟨.refl cfg r s, wf⟩ run
  obtain ⟨skipped, wf'⟩ := SingleTypeKVCacheManager.removeSkippedBlocks_spec before.2 step
  exact ⟨before.1.tail mem skipped, wf'⟩

/-- What `allocate_slots` does, stage by stage. -/
theorem allocateSlots_cases [DecidableEq H] {s s' : KVState H} {request : Request H}
    {args : AllocateSlotsArgs} {result : Option (List (List BlockId))}
    (run : cfg.allocateSlots request args s = .ok (result, s')) :
    (result = none ∧ s' = s) ∨
    ¬ (args.numNewTokens = 0 ∧ args.numExternalComputedTokens = 0) ∧
    ∃ s₁, cfg.removeSkippedBlocks s request.requestId (cfg.totalComputedTokens request args) = .ok s₁ ∧
      ((result = none ∧ s' = s₁) ∨
        ∃ n newBlocks s₂, cfg.numBlocksToAllocate request args s₁ = .ok n ∧
          n ≤ s₁.blockPool.getNumFreeBlocks - args.reservedBlocks ∧
          cfg.allocate request args s₁ = .ok (newBlocks, s₂) ∧
          cfg.commit request args s₂ = .ok s' ∧ result = some newBlocks) := by
  unfold allocateSlots at run
  split at run
  · cases run
  rename_i someNew
  obtain ⟨fits, -, run⟩ := bind_eq_ok.mp run
  split at run
  · obtain ⟨s₁, removed, run⟩ := bind_eq_ok.mp run
    refine .inr ⟨someNew, s₁, removed, ?_⟩
    obtain ⟨n, predicted, run⟩ := bind_eq_ok.mp run
    split at run
    · cases run
      exact .inl ⟨rfl, rfl⟩
    · rename_i enough
      obtain ⟨⟨newBlocks, s₂⟩, allocated, run⟩ := bind_eq_ok.mp run
      obtain ⟨s₃, committed, run⟩ := bind_eq_ok.mp run
      cases run
      exact .inr ⟨n, newBlocks, s₂, predicted, Int.not_lt.mp enough, allocated, committed, rfl⟩
  · cases run
    exact .inl ⟨rfl, rfl⟩

/-- A call with something new has tokens for the model. -/
theorem Valid.numTokensMainModel_pos (valid : cfg.Valid) {request : Request H}
    {args : AllocateSlotsArgs}
    (someNew : ¬ (args.numNewTokens = 0 ∧ args.numExternalComputedTokens = 0)) :
    0 < cfg.numTokensMainModel request args := by
  have := valid.maxModelLen
  unfold numTokensMainModel totalComputedTokens numLocalAndExternalTokens
  omega

end KVCacheConfig

section

variable {cfg : KVCacheConfig} {r : RequestId} {s s' : KVState H}
  (skipped : RequestSkipped cfg r s s')
include skipped

theorem RequestSkipped.length (m : SingleTypeKVCacheManager) (r' : RequestId) :
    (m.blocksOf s' r').length = (m.blocksOf s r').length :=
  (skipped.nulled _).length

theorem RequestSkipped.isNew (isNew : cfg.IsNew s r) : cfg.IsNew s' r := by
  intro m mem
  obtain ⟨empty, notCached⟩ := isNew m mem
  have length := skipped.length m r
  rw [empty] at length
  exact ⟨List.length_eq_zero_iff.mp length, skipped.numCachedBlock ▸ notCached⟩

end

theorem hitSound_of_passesHit {cfg : KVCacheConfig} {s : KVState H} {request : Request H}
    {args : AllocateSlotsArgs} {m : SingleTypeKVCacheManager} (valid : cfg.Valid)
    (passed : cfg.PassesHit s request args) (mem : m ∈ cfg.managers) :
    HitSound s.blockPool request.blockHashes m.scale m.kvCacheGroupId
      ((cfg.newComputedBlockList args).getD m.kvCacheGroupId []) := by
  unfold KVCacheConfig.PassesHit at passed
  unfold KVCacheConfig.newComputedBlockList
  split at passed
  · rename_i noHits
    rw [noHits, Option.getD_none, KVCacheConfig.getD_emptyKVCacheBlocks]
    exact .nil _ _ _ _
  · rename_i hits isHits
    rw [isHits]
    exact KVCacheConfig.getComputedBlocks_hitSound valid passed mem

end Vllm.KVCache
