import Vllm.KVCache.Runs

/-!
The block-count prediction of `allocate_slots`.

`allocate_slots` asks every manager how many blocks it will take, and compares
the sum with the free blocks before it touches anything. The managers then take
blocks for the hits and external tokens of a new request (`computedCost`), and
for the tokens to compute (`newCost`). When no
manager takes more than it announced, and none announces a negative number, the
call does not run out of blocks midway (`allocatesWithin_of_run`).
-/

namespace Vllm.KVCache

open Vllm.Lib Vllm.Lib.Ceil Vllm.Lib.Fallible Vllm.Lib.Steps SingleTypeKVCacheManager KVState List
open KVCacheConfig (numLocalAndExternalTokens numLocalComputedTokens managerNumBlocksToAllocate)

variable {H : Type}

/-! ### What a manager takes -/

namespace SingleTypeKVCacheManager

variable (m : SingleTypeKVCacheManager)

/-- The state block and the speculative blocks that an align-mode table of length
`before` lacks. -/
def numNewStateBlocks (allocated : Bool) (numSpeculativeBlocks numTokensMainModel before : Nat) :
    Nat :=
  let numStates := cdiv numTokensMainModel m.blockSize
  if numStates + numSpeculativeBlocks ≤ before then 0
  else if allocated then 1
  else numStates + numSpeculativeBlocks - max before (numStates - 1)

/-- How many blocks `allocate_new_blocks` takes for a table of length `before`. -/
def numNewBlocks (allocated : Bool) (numTokens numTokensMainModel before : Nat) : Nat :=
  match m.kvCacheSpec.kind with
  | .mamba .align k => m.numNewStateBlocks allocated k numTokensMainModel before
  | .mamba _ k => cdiv (numTokens + m.blockSize * k) m.blockSize - before
  | _ => cdiv numTokens m.blockSize - before

end SingleTypeKVCacheManager

section Costs

variable (cfg : KVCacheConfig) (request : Request H) (args : AllocateSlotsArgs) (s : KVState H)
  (m : SingleTypeKVCacheManager)

def groupHits : List BlockId := (cfg.newComputedBlockList args).getD m.kvCacheGroupId []

/-- The call puts hits or external blocks into the manager's table. -/
def startsTable : Bool := cfg.hasNewComputed args && !m.kvCacheSpec.isCrossAttention

def externalCost : Int :=
  numTaken (cfg.newComputedBlockList args) (numLocalComputedTokens request args)
    args.numExternalComputedTokens m

/-- Blocks that leave the free queue in `allocate_new_computed_blocks`. -/
def computedCost : Int :=
  if startsTable cfg args m then
    getNumEvictableBlocks s.blockPool (windowHits (cfg.newComputedBlockList args)
      (numLocalComputedTokens request args) args.numExternalComputedTokens m) +
      externalCost cfg request args m
  else 0

/-- The length of the manager's table before `allocate_new_blocks`. -/
def lengthBefore : Nat :=
  if startsTable cfg args m then
    (m.hitTable (groupHits cfg args m) (numLocalAndExternalTokens request args)).length +
      (externalCost cfg request args m).toNat
  else (m.blocksOf s request.requestId).length

/-- Blocks that leave the free queue in `allocate_new_blocks`. -/
def newCost : Nat :=
  m.numNewBlocks (s.allocatedBlockReqs (m.key request.requestId))
    (if m.kvCacheSpec.isCrossAttention then args.numEncoderTokens
      else cfg.numTokensNeedSlot request args)
    (cfg.numTokensMainModel request args) (lengthBefore cfg request args s m)

end Costs

/-! ### When the prediction covers it -/

/-- The calls whose prediction covers what they take. -/
@[mk_iff]
structure Predictable (cfg : KVCacheConfig) (s : KVState H) (request : Request H)
    (args : AllocateSlotsArgs) : Prop where
  /-- External tokens stay inside the model's length. -/
  external : 0 < args.numExternalComputedTokens →
    numLocalAndExternalTokens request args ≤ cfg.maxModelLen
  /-- No negative number of blocks is taken for external tokens. -/
  nonneg : ∀ m ∈ cfg.managers, startsTable cfg args m = true → 0 ≤ externalCost cfg request args m
  /-- The predictor counts speculative blocks in blocks of the spec, the allocator in
  blocks of the manager. -/
  speculative : ∀ m ∈ cfg.managers, ∀ mode k, m.kvCacheSpec.kind = .mamba mode k → mode ≠ .align →
    k = 0 ∨ m.blockSize = m.kvCacheSpec.blockSize
  /-- The estimate of an align-mode manager is not negative. -/
  align : ∀ m ∈ cfg.managers, ∀ k, m.kvCacheSpec.kind = .mamba .align k →
    (groupHits cfg args m).length + (m.blocksOf s request.requestId).length ≤
      cdiv (cfg.numTokensMainModel request args) m.blockSize + k
  /-- An align-mode manager that takes a block for external tokens takes no other
  state block. -/
  alignExternal : ∀ m ∈ cfg.managers, ∀ k, m.kvCacheSpec.kind = .mamba .align k →
    startsTable cfg args m = true → 0 < externalCost cfg request args m →
    cdiv (cfg.numTokensMainModel request args) m.blockSize ≤
      cdiv (numLocalAndExternalTokens request args) m.blockSize

/-- What a caller promises about the request: a lookup does not find one block twice,
and without new hits the computed tokens have slots. -/
@[mk_iff]
structure SlotsPromised [DecidableEq H] (cfg : KVCacheConfig) (s : KVState H) (request : Request H)
    (args : AllocateSlotsArgs) : Prop extends cfg.AllocatePromised s request args where
  distinct : ∀ m ∈ cfg.managers, ∀ b ∈ groupHits cfg args m, b ≠ nullBlock →
    (groupHits cfg args m).count b ≤ 1
  slots : cfg.hasNewComputed args = false → ∀ m ∈ cfg.managers,
    m.kvCacheSpec.isCrossAttention = false → numLocalAndExternalTokens request args ≤
      (m.blocksOf s request.requestId).length * m.blockSize

instance decidablePredictable (cfg : KVCacheConfig) (s : KVState H) (request : Request H)
    (args : AllocateSlotsArgs) : Decidable (Predictable cfg s request args) :=
  decidable_of_iff' _ (predictable_iff cfg s request args)

instance decidableSlotsPromised [DecidableEq H] (cfg : KVCacheConfig) (s : KVState H)
    (request : Request H) (args : AllocateSlotsArgs) : Decidable (SlotsPromised cfg s request args) :=
  decidable_of_iff' _ (slotsPromised_iff cfg s request args)

/-- What the stages after the skipped blocks were freed rely on. -/
structure SlotsReady (cfg : KVCacheConfig) (s : KVState H) (request : Request H)
    (args : AllocateSlotsArgs) : Prop where
  isNew : cfg.hasNewComputed args = true → cfg.IsNew s request.requestId
  slots : cfg.hasNewComputed args = false → ∀ m ∈ cfg.managers,
    m.kvCacheSpec.isCrossAttention = false → numLocalAndExternalTokens request args ≤
      (m.blocksOf s request.requestId).length * m.blockSize
  distinct : ∀ m ∈ cfg.managers, ∀ b ∈ groupHits cfg args m, b ≠ nullBlock →
    (groupHits cfg args m).count b ≤ 1
  inRange : ∀ m ∈ cfg.managers, ∀ b ∈ groupHits cfg args m, b ≠ nullBlock → b < cfg.numBlocks

section Manager

variable {cfg : KVCacheConfig} {req : Request H} {args : AllocateSlotsArgs} {s : KVState H}
  {m : SingleTypeKVCacheManager} {r : RequestId}

theorem length_hitTable (m : SingleTypeKVCacheManager) (hits : List BlockId) (n : Nat) :
    (m.hitTable hits n).length = max (m.numSkippedBlocks n) hits.length := by
  simp only [hitTable, hitsInWindow, length_append, length_replicate, length_drop]
  omega

variable {hits : List (List BlockId)} {numTokens total n numLocal numExternal : Nat}

/-- The prediction for a request whose table is empty. -/
theorem base_le_of_fresh {hits : List BlockId} (fresh : m.blocksOf s r = [])
    (notCached : s.numCachedBlock (m.key r) = none)
    (run : m.baseNumBlocksToAllocate s r numTokens hits total false = .ok n) :
    n = cdiv numTokens m.blockSize - (m.hitTable hits total).length +
      getNumEvictableBlocks s.blockPool (m.hitsInWindow hits total) := by
  simp only [baseNumBlocksToAllocate, notCached, fresh] at run
  rw [length_hitTable]
  exact (Except.ok.inj run).symm

/-- The prediction for a request without new hits. -/
theorem base_le_of_running (slots : m.numSkippedBlocks total ≤ (m.blocksOf s r).length)
    (run : m.baseNumBlocksToAllocate s r numTokens [] total false = .ok n) :
    n = cdiv numTokens m.blockSize - (m.blocksOf s r).length := by
  simp only [baseNumBlocksToAllocate, length_nil, drop_nil] at run
  split at run
  · exact (Except.ok.inj run).symm
  · have := Except.ok.inj run
    simp only [getNumEvictableBlocks, countP_nil, numRequiredBlocks] at this
    omega

theorem groupHits_eq_nil (noNew : cfg.hasNewComputed args = false) (m : SingleTypeKVCacheManager) :
    groupHits cfg args m = [] := by
  have empty := (Bool.or_eq_false_iff.mp noNew).1
  rw [any_eq_false] at empty
  rw [groupHits, getD_eq_getElem?_getD]
  cases found : (cfg.newComputedBlockList args)[m.kvCacheGroupId]? with
  | none => rfl
  | some hits =>
    have := empty hits (mem_of_getElem? found)
    simpa using this

theorem external_of_inWindow (pos : 0 < m.numExternalInWindow numLocal numExternal) :
    0 < numExternal := by
  unfold numExternalInWindow at pos
  simp only at pos
  split at pos <;> omega

/-- Only external tokens in the window cost a block. -/
theorem external_of_cost (pos : 0 < numTaken hits numLocal numExternal m) : 0 < numExternal := by
  unfold numTaken at pos
  split at pos
  · exact external_of_inWindow ‹_›
  · omega

theorem numTaken_of_pos (pos : 0 < numTaken hits numLocal numExternal m) :
    numTaken hits numLocal numExternal m = (cdiv (numLocal + numExternal) m.blockSize : Int) -
      (m.hitTable (hits.getD m.kvCacheGroupId []) (numLocal + numExternal)).length := by
  unfold numTaken at pos ⊢
  split
  · rfl
  · omega

/-- A manager that is not in align mode takes what it announced, if the tokens that
get slots include those in the tables. -/
theorem base_cost_le (isTotal : total = numLocalAndExternalTokens req args)
    (isNew : startsTable cfg args m = true → m.blocksOf s req.requestId = [] ∧
      s.numCachedBlock (m.key req.requestId) = none)
    (slots : startsTable cfg args m = false → groupHits cfg args m = [] ∧
      m.numSkippedBlocks total ≤ (m.blocksOf s req.requestId).length)
    (nonneg : startsTable cfg args m = true → 0 ≤ externalCost cfg req args m)
    (covered : 0 < args.numExternalComputedTokens → total ≤ numTokens)
    (run : m.baseNumBlocksToAllocate s req.requestId numTokens (groupHits cfg args m) total false =
      .ok n) :
    computedCost cfg req args s m +
      (cdiv numTokens m.blockSize - lengthBefore cfg req args s m : Nat) ≤ n := by
  unfold computedCost lengthBefore
  by_cases starts : startsTable cfg args m = true
  · obtain ⟨fresh, notCached⟩ := isNew starts
    have predicted := base_le_of_fresh fresh notCached run
    have nonneg := nonneg starts
    rw [if_pos starts, if_pos starts, ← isTotal]
    have window : windowHits (cfg.newComputedBlockList args)
        (numLocalComputedTokens req args) args.numExternalComputedTokens m =
        m.hitsInWindow (groupHits cfg args m) total := by rw [isTotal]; rfl
    rw [window]
    rcases Int.lt_or_eq_of_le nonneg with pos | zero
    · -- The external blocks are part of those that the tokens need.
      have taken := numTaken_of_pos pos
      have le := cdiv_mono m.blockSize_pos (covered (external_of_cost pos))
      have isTaken : externalCost cfg req args m = (cdiv total m.blockSize : Int) -
          (m.hitTable (groupHits cfg args m) total).length := by rw [isTotal]; exact taken
      omega
    · omega
  · have starts := Bool.eq_false_iff.mpr starts
    obtain ⟨noHits, slots⟩ := slots starts
    rw [noHits] at run
    have predicted := base_le_of_running slots run
    rw [starts]
    simp only [Bool.false_eq_true, if_false]
    omega

/-- An align-mode manager takes what it announced. -/
theorem align_cost_le {k : Nat}
    (isNew : startsTable cfg args m = true → m.blocksOf s req.requestId = [])
    (noHits : startsTable cfg args m = false → groupHits cfg args m = [])
    (nonneg : startsTable cfg args m = true → 0 ≤ externalCost cfg req args m)
    (state : s.allocatedBlockReqs (m.key req.requestId) = true →
      k < (m.blocksOf s req.requestId).length)
    (kind : m.kvCacheSpec.kind = .mamba .align k)
    (inside : 0 < args.numExternalComputedTokens →
      numLocalAndExternalTokens req args ≤ cfg.maxModelLen)
    (enough : (groupHits cfg args m).length + (m.blocksOf s req.requestId).length ≤
      cdiv (cfg.numTokensMainModel req args) m.blockSize + k)
    (single : startsTable cfg args m = true → 0 < externalCost cfg req args m →
      cdiv (cfg.numTokensMainModel req args) m.blockSize ≤
        cdiv (numLocalAndExternalTokens req args) m.blockSize) :
    computedCost cfg req args s m +
        m.numNewStateBlocks (s.allocatedBlockReqs (m.key req.requestId)) k
          (cfg.numTokensMainModel req args) (lengthBefore cfg req args s m) ≤
      m.alignNumBlocksToAllocate s req.requestId k (groupHits cfg args m)
        (cfg.numTokensMainModel req args) := by
  have evictable : getNumEvictableBlocks s.blockPool (windowHits (cfg.newComputedBlockList args)
      (numLocalComputedTokens req args) args.numExternalComputedTokens m) ≤
      getNumEvictableBlocks s.blockPool (groupHits cfg args m) :=
    (drop_sublist _ _).countP_le
  unfold computedCost lengthBefore numNewStateBlocks alignNumBlocksToAllocate
  by_cases starts : startsTable cfg args m = true
  · have fresh := isNew starts
    have notAllocated : s.allocatedBlockReqs (m.key req.requestId) = false := by
      rw [Bool.eq_false_iff]
      intro allocated
      have := state allocated
      rw [fresh, length_nil] at this
      omega
    simp only [starts, if_true, notAllocated, fresh, length_nil, Bool.false_eq_true, if_false]
    rw [length_hitTable]
    rcases Int.lt_or_eq_of_le (nonneg starts) with pos | zero
    · -- One block, the last one of the computed tokens, is taken for external tokens.
      have external := external_of_cost pos
      have isMain : numLocalAndExternalTokens req args ≤
          cfg.numTokensMainModel req args := by
        unfold KVCacheConfig.numTokensMainModel KVCacheConfig.totalComputedTokens
        omega
      have statesLe := cdiv_mono m.blockSize_pos isMain
      have single := single starts pos
      have skipped : cdiv (numLocalAndExternalTokens req args) m.blockSize =
          m.numSkippedBlocks (numLocalAndExternalTokens req args) + 1 := by
        have tokens : 0 < numLocalAndExternalTokens req args := by
          unfold numLocalAndExternalTokens
          omega
        simp only [numSkippedBlocks, KVCacheSpec.getNumSkippedTokens, kind]
        exact cdiv_eq_succ_div tokens m.blockSize_pos
      have taken : externalCost cfg req args m =
          (cdiv (numLocalAndExternalTokens req args) m.blockSize : Int) -
            (m.hitTable (groupHits cfg args m) (numLocalAndExternalTokens req args)).length :=
        numTaken_of_pos pos
      rw [length_hitTable] at taken
      split <;> split <;> omega
    · rw [← zero]
      split <;> split <;> omega
  · have starts := Bool.eq_false_iff.mpr starts
    rw [noHits starts] at enough ⊢
    simp only [starts, Bool.false_eq_true, if_false, length_nil]
    cases s.allocatedBlockReqs (m.key req.requestId) with
    | false =>
      split <;> split <;> omega
    | true =>
      split <;> split <;> omega

/-- Tokens with slots have their skipped blocks in the table. -/
theorem numSkippedBlocks_le (valid : cfg.Valid) (mem : m ∈ cfg.managers) {length : Nat}
    (slots : n ≤ length * m.blockSize) : m.numSkippedBlocks n ≤ length := by
  obtain ⟨g, i, at_i, rfl⟩ := KVCacheConfig.mem_managers.mp mem
  have window := valid.window g (mem_of_getElem? at_i)
  have := g.kvCacheSpec.getNumSkippedTokens_le n window
  rw [Nat.mul_comm] at slots
  exact Nat.div_le_of_le_mul (this.trans slots)

variable [DecidableEq H]

variable (mem : m ∈ cfg.managers) (ok : Predictable cfg s req args) {n : Int}
  (run : managerNumBlocksToAllocate s req.requestId (cfg.numTokensNeedSlot req args)
    (cfg.newComputedBlockList args) args.numEncoderTokens (numLocalAndExternalTokens req args)
    (cfg.numTokensMainModel req args) false m = .ok n)
include mem ok run

/-- No manager takes more than it announces, unless it announces that the request has
to wait. -/
theorem cost_le_predicted (valid : cfg.Valid)
    (isNew : cfg.hasNewComputed args = true → cfg.IsNew s req.requestId)
    (slots : cfg.hasNewComputed args = false → m.kvCacheSpec.isCrossAttention = false →
      numLocalAndExternalTokens req args ≤
        (m.blocksOf s req.requestId).length * m.blockSize)
    (state : ∀ k, m.kvCacheSpec.kind = .mamba .align k →
      s.allocatedBlockReqs (m.key req.requestId) = true →
      k < (m.blocksOf s req.requestId).length)
    (notThisStep : ∀ mode k, m.kvCacheSpec.kind = .mamba mode k →
      m.hitsThisStep s (groupHits cfg args m) = false) :
    computedCost cfg req args s m + newCost cfg req args s m ≤ n := by
  unfold managerNumBlocksToAllocate at run
  cases cross : m.kvCacheSpec.isCrossAttention with
  | true =>
    have kind : m.kvCacheSpec.kind = .crossAttention := by
      simpa [KVCacheSpec.isCrossAttention] using cross
    have starts : startsTable cfg args m = false := by simp [startsTable, cross]
    simp only [cross, getNumBlocksToAllocate, kind] at run
    obtain ⟨n', base, run⟩ := bind_eq_ok.mp run
    cases run
    have skipped : m.numSkippedBlocks 0 = 0 := by
      simp [numSkippedBlocks, KVCacheSpec.getNumSkippedTokens, kind]
    have predicted := base_le_of_running (by rw [skipped]; exact Nat.zero_le _) base
    simp only [computedCost, newCost, numNewBlocks, lengthBefore, starts,
      cross, kind, Bool.false_eq_true, if_false, if_true]
    omega
  | false =>
    have isNew' : startsTable cfg args m = true → m.blocksOf s req.requestId = [] ∧
        s.numCachedBlock (m.key req.requestId) = none := by
      intro starts
      exact isNew (by simpa [startsTable, cross] using starts) m mem
    have noNew : startsTable cfg args m = false → cfg.hasNewComputed args = false := by
      simp [startsTable, cross]
    have slots' : startsTable cfg args m = false → groupHits cfg args m = [] ∧
        m.numSkippedBlocks (numLocalAndExternalTokens req args) ≤
          (m.blocksOf s req.requestId).length := by
      intro starts
      exact ⟨groupHits_eq_nil (noNew starts) m,
        numSkippedBlocks_le valid mem (slots (noNew starts) cross)⟩
    have covered : 0 < args.numExternalComputedTokens → ∀ more,
        numLocalAndExternalTokens req args ≤ cfg.numTokensNeedSlot req args + more := by
      intro external more
      have inside := ok.external external
      unfold KVCacheConfig.numTokensNeedSlot KVCacheConfig.numTokensMainModel
        KVCacheConfig.totalComputedTokens
      omega
    have nonneg := ok.nonneg m mem
    rw [cross] at run
    simp only [Bool.false_eq_true, if_false, getNumBlocksToAllocate] at run
    unfold newCost numNewBlocks
    simp only [cross, Bool.false_eq_true, if_false]
    split at run
    · rename_i mode k kind
      rw [show (cfg.newComputedBlockList args).getD m.kvCacheGroupId [] = groupHits cfg args m from rfl,
        notThisStep mode k kind] at run
      simp only [Bool.false_eq_true, if_false] at run
      split at run
      · rename_i isAlign
        subst isAlign
        cases run
        simp only [kind]
        exact align_cost_le (fun starts => (isNew' starts).1) (fun starts => (slots' starts).1)
          nonneg (state k kind) kind ok.external (ok.align m mem k kind) (ok.alignExternal m mem k kind)
      · rename_i notAlign
        obtain ⟨n', base, run⟩ := bind_eq_ok.mp run
        cases run
        have sameTokens : m.kvCacheSpec.blockSize * k = m.blockSize * k := by
          rcases ok.speculative m mem mode k kind notAlign with zero | same
          · rw [zero, Nat.mul_zero, Nat.mul_zero]
          · rw [same]
        rw [sameTokens] at base
        have := base_cost_le rfl isNew' slots' nonneg (fun external => covered external _) base
        cases mode with
        | align => exact absurd rfl notAlign
        | none | all => simpa only [kind] using this
    · rename_i notMamba
      obtain ⟨n', base, run⟩ := bind_eq_ok.mp run
      cases run
      have := base_cost_le rfl isNew' slots' nonneg (fun external => covered external 0) base
      split
      · rename_i k kind
        exact absurd kind (notMamba _ _)
      · rename_i k kind
        exact absurd kind (notMamba _ _)
      · exact this

/-- No estimate is negative, and one that makes the request wait is more than all
blocks. -/
theorem predicted_nonneg :
    0 ≤ n ∧ ∀ mode k, m.kvCacheSpec.kind = .mamba mode k →
      m.hitsThisStep s (groupHits cfg args m) = true → n = cfg.numBlocks + 1 := by
  have numGpuBlocks : m.numGpuBlocks = cfg.numBlocks := by
    obtain ⟨g, i, -, rfl⟩ := KVCacheConfig.mem_managers.mp mem
    rfl
  unfold managerNumBlocksToAllocate getNumBlocksToAllocate at run
  cases kind : m.kvCacheSpec.kind with
  | mamba mode k =>
    have notCross : m.kvCacheSpec.isCrossAttention = false := by
      simp [KVCacheSpec.isCrossAttention, kind]
    simp only [notCross, Bool.false_eq_true, if_false, kind] at run
    rw [show (cfg.newComputedBlockList args).getD m.kvCacheGroupId [] = groupHits cfg args m from rfl]
      at run
    split at run
    · cases run
      rw [numGpuBlocks]
      exact ⟨by omega, fun _ _ _ _ => rfl⟩
    · rename_i notThisStep
      refine ⟨?_, fun _ _ _ isTrue => absurd isTrue notThisStep⟩
      split at run
      · rename_i isAlign
        subst isAlign
        cases run
        have := ok.align m mem k kind
        unfold alignNumBlocksToAllocate
        simp only
        split
        · split <;> omega
        · omega
      · obtain ⟨n', -, run⟩ := bind_eq_ok.mp run
        cases run
        exact Int.natCast_nonneg n'
  | _ =>
    refine ⟨?_, nofun⟩
    simp only [kind] at run
    split at run <;>
    · obtain ⟨n', -, run⟩ := bind_eq_ok.mp run
      cases run
      exact Int.natCast_nonneg n'

end Manager

/-! ### The invariant -/

/-- Pool and tables agree, and an align-mode request with state blocks of its own has
its speculative blocks. -/
structure Accounted (cfg : KVCacheConfig) (s : KVState H) : Prop where
  wf : Wf cfg.numBlocks s
  state : ∀ m ∈ cfg.managers, ∀ k, m.kvCacheSpec.kind = .mamba .align k → ∀ r : RequestId,
    s.allocatedBlockReqs (m.key r) = true → k < (m.blocksOf s r).length

theorem Accounted.of_entry {cfg : KVCacheConfig} {s s' : KVState H} {m : SingleTypeKVCacheManager}
    {r : RequestId} (accounted : Accounted cfg s) (mem : m ∈ cfg.managers)
    (entry : OnlyEntry (m.key r) s s') (wf : Wf cfg.numBlocks s')
    (state : ∀ k, m.kvCacheSpec.kind = .mamba .align k →
      s'.allocatedBlockReqs (m.key r) = true → k < (m.blocksOf s' r).length) : Accounted cfg s' := by
  refine ⟨wf, fun m' mem' k kind r' isTrue => ?_⟩
  by_cases same : m'.key r' = m.key r
  · obtain rfl := KVCacheConfig.manager_ext mem' mem (congrArg Prod.fst same)
    obtain rfl : r' = r := congrArg Prod.snd same
    exact state k kind isTrue
  · rw [entry.allocatedBlockReqs same] at isTrue
    rw [blocksOf, entry.tables.get_of_ne same]
    exact accounted.state m' mem' k kind r' isTrue

section Sums

variable [DecidableEq H] {cfg : KVCacheConfig} {req : Request H} {args : AllocateSlotsArgs}
  {s : KVState H}

/-- A prediction that passes the check covers all that the managers take. -/
theorem costs_le_prediction (accounted : Accounted cfg s) (valid : cfg.Valid)
    (ok : Predictable cfg s req args) (ready : SlotsReady cfg s req args) {n : Int}
    (run : cfg.numBlocksToAllocate req args s = .ok n)
    (enough : n ≤ s.blockPool.getNumFreeBlocks) :
    (cfg.managers.map fun m =>
      computedCost cfg req args s m + newCost cfg req args s m).sum ≤ n := by
  have bound : ∀ cost : SingleTypeKVCacheManager → Int,
      (∀ m ∈ cfg.managers, ∀ k, managerNumBlocksToAllocate s req.requestId
        (cfg.numTokensNeedSlot req args) (cfg.newComputedBlockList args) args.numEncoderTokens
        (numLocalAndExternalTokens req args)
        (cfg.numTokensMainModel req args) false m = .ok k → cost m ≤ k) →
      (cfg.managers.map cost).sum ≤ n := by
    intro cost le
    have := sum_le_foldlM cost le run
    omega
  refine bound _ fun m mem k predicted => ?_
  refine cost_le_predicted mem ok predicted valid ready.isNew (fun noNew => ready.slots noNew m mem)
    (fun k kind => accounted.state m mem k kind req.requestId) (fun mode k kind => ?_)
  -- Otherwise the sum would be more than all blocks.
  rw [Bool.eq_false_iff]
  intro thisStep
  have waits := bound (fun m' => if m' = m then (cfg.numBlocks : Int) + 1 else 0)
    fun m' mem' k' predicted' => by
      obtain ⟨nonneg, waits⟩ := predicted_nonneg mem' ok predicted'
      split
      · rename_i same
        subst same
        exact Int.le_of_eq (waits mode k kind thisStep).symm
      · exact nonneg
  have single := single_le_sum (l := cfg.managers.map fun m' =>
    if m' = m then (cfg.numBlocks : Int) + 1 else 0) (fun x isCost => by
      obtain ⟨m', -, rfl⟩ := mem_map.mp isCost
      split <;> omega) ((cfg.numBlocks : Int) + 1)
    (mem_map.mpr ⟨m, mem, if_pos rfl⟩)
  have := accounted.wf.pool.numFree_le
  omega

end Sums

/-! ### Taking the blocks -/

/-- `Cannot get {num_blocks} free blocks from the pool`. -/
def KVError.isShortage : KVError → Prop
  | .cannotGetFreeBlocks _ => True
  | _ => False

section Take

variable [DecidableEq H] {N : Nat} {s s' : KVState H} {m : SingleTypeKVCacheManager} {r : RequestId}

/-- Blocks are only taken from the queue, and at most `cost` of them. -/
structure Takes (s s' : KVState H) (cost : Int) : Prop where
  refCnt : ∀ b, s.blockPool.refCnt b ≤ s'.blockPool.refCnt b
  queue : s'.blockPool.freeBlockQueue.blocks.Sublist s.blockPool.freeBlockQueue.blocks
  numFree : s.blockPool.getNumFreeBlocks ≤ s'.blockPool.getNumFreeBlocks + cost

omit [DecidableEq H] in
theorem Takes.of_pool (same : s'.blockPool = s.blockPool) : Takes s s' 0 := by
  refine ⟨fun b => ?_, ?_, ?_⟩
  · rw [same]
  · rw [same]
  · rw [same, Int.add_zero]

variable {enableCaching : Bool} {n numTokens k : Nat}

/-- A pool with enough blocks does not refuse. -/
theorem PoolOk.getNewBlocks_ne_error {p : BlockPool H} (ok : PoolOk N p)
    (enough : (n : Int) ≤ p.getNumFreeBlocks) (e : KVError) :
    p.getNewBlocks enableCaching n ≠ .error e := by
  obtain ⟨p', run, -⟩ := ok.getNewBlocks enableCaching enough
  rw [run]
  exact nofun

theorem takes_of_getNewBlocks {p' : BlockPool H} (ok : PoolOk N s.blockPool) {blocks : List BlockId}
    (run : s.blockPool.getNewBlocks enableCaching blocks.length = .ok (blocks, p'))
    (samePool : s'.blockPool = p') : Takes s s' blocks.length := by
  obtain ⟨-, -, -, taken, queue⟩ := ok.of_getNewBlocks (Int.natCast_nonneg _) run
  refine ⟨fun b => ?_, ?_, ?_⟩
  · rw [samePool, taken.refCnt]
    omega
  · rw [samePool, queue]
    exact drop_sublist _ _
  · rw [samePool, BlockPool.getNumFreeBlocks, BlockPool.getNumFreeBlocks, queue]
    simp only [BlockPool.getNumFreeBlocks]
    omega

/-- Adding the hits and external blocks of a new request. -/
theorem addComputedBlocks_ensures (wf : Wf N s) {hits : List BlockId} {numLocal numExternal : Nat}
    (fresh : m.blocksOf s r = [])
    (once : ∀ b, b ≠ nullBlock → (m.hitsInWindow hits (numLocal + numExternal)).count b ≤ 1)
    (inRange : ∀ b ∈ m.hitsInWindow hits (numLocal + numExternal), b ≠ nullBlock → b < N)
    (amount : (n : Int) = if 0 < m.numExternalInWindow numLocal numExternal then
      m.numExternalBlocks hits (numLocal + numExternal) else 0)
    (enough : getNumEvictableBlocks s.blockPool (m.hitsInWindow hits (numLocal + numExternal)) +
      (n : Int) ≤ s.blockPool.getNumFreeBlocks) :
    Ensures KVError.isShortage (fun s' => Wf N s' ∧ OnlyEntry (m.key r) s s' ∧
        s'.allocatedBlockReqs = s.allocatedBlockReqs ∧
        (m.blocksOf s' r).length = (m.hitTable hits (numLocal + numExternal)).length + n ∧
        Takes s s' (getNumEvictableBlocks s.blockPool
          (m.hitsInWindow hits (numLocal + numExternal)) + n))
      (m.addComputedBlocks s r hits numLocal numExternal) := by
  constructor
  · intro s' run
    obtain ⟨p₁, blocks, touched, ok₁, takeRun, length, table, entry, -, -, sameAllocated, -, wf'⟩ :=
      addComputedBlocks_spec wf fresh once inRange
        (fun external => by rw [if_pos external] at amount; omega) run
    have length : blocks.length = n := by omega
    have taken := takes_of_getNewBlocks (s := { s with blockPool := p₁ }) ok₁ takeRun rfl
    refine ⟨wf', entry, sameAllocated, ?_, ?_, ?_, ?_⟩
    · rw [blocksOf, table, length_append, length]
    · intro b
      have := taken.refCnt b
      simp only [touched.refCnt] at this
      omega
    · refine taken.queue.trans ?_
      rw [touched.free]
      exact filter_sublist
    · have := taken.numFree
      have := touched.numFree
      simp only at *
      unfold getNumEvictableBlocks
      omega
  · intro e run
    rcases bind_eq_error.mp run with touchRun | ⟨p₁, touchRun, run⟩
    · unfold touchHits at touchRun
      split at touchRun
      · obtain ⟨p₂, run₂, -⟩ := wf.pool.touch inRange
        rw [run₂] at touchRun
        cases touchRun
      · split at touchRun
        · cases touchRun
          exact id
        · cases touchRun
    · obtain ⟨touched, ok₁⟩ := touchHits_spec wf.pool inRange touchRun
      rcases bind_eq_error.mp run with takeRun | ⟨⟨blocks, p₂⟩, -, run⟩
      · unfold takeExternal at takeRun
        split at takeRun
        · rename_i external
          rw [if_pos external] at amount
          rw [← amount] at takeRun
          refine absurd takeRun (ok₁.getNewBlocks_ne_error ?_ e)
          have := touched.numFree
          unfold getNumEvictableBlocks at enough
          omega
        · cases takeRun
      · cases run

theorem baseAllocateNewBlocks_ensures (wf : Wf N s)
    (enough : ((cdiv numTokens m.blockSize - (m.blocksOf s r).length : Nat) : Int) ≤
      s.blockPool.getNumFreeBlocks) :
    Ensures KVError.isShortage (fun result => Wf N result.2 ∧ OnlyEntry (m.key r) s result.2 ∧
        Takes s result.2 (cdiv numTokens m.blockSize - (m.blocksOf s r).length : Nat))
      (m.baseAllocateNewBlocks s r numTokens) := by
  constructor
  · rintro ⟨blocks, s'⟩ run
    obtain ⟨grown, length, -⟩ := baseAllocateNewBlocks_spec wf run
    refine ⟨wf.grow grown, grown.entry, ?_⟩
    rw [← length]
    exact takes_of_getNewBlocks wf.pool grown.run rfl
  · intro e run
    unfold baseAllocateNewBlocks at run
    simp only at run
    split at run
    · cases run
    · rcases bind_eq_error.mp run with takeRun | ⟨⟨blocks, p⟩, -, run⟩
      · exact absurd takeRun (wf.pool.getNewBlocks_ne_error enough e)
      · cases run

omit [DecidableEq H] in
/-- What an align-mode table lacks. -/
theorem length_alignTable_add
    (state : s.allocatedBlockReqs (m.key r) = true → k < (m.blocksOf s r).length)
    (grows : (m.blocksOf s r).length < cdiv n m.blockSize + k) :
    (m.alignTable s r k n).length + m.numNewStateBlocks (s.allocatedBlockReqs (m.key r)) k n
      (m.blocksOf s r).length = cdiv n m.blockSize + k := by
  rw [length_alignTable state grows, numNewStateBlocks]
  simp only [if_neg (not_le.mpr grows)]
  split <;> omega

theorem alignAllocateNewBlocks_ensures (wf : Wf N s) (pos : 0 < n)
    (state : s.allocatedBlockReqs (m.key r) = true → k < (m.blocksOf s r).length)
    (enough : (m.numNewStateBlocks (s.allocatedBlockReqs (m.key r)) k n
      (m.blocksOf s r).length : Int) ≤ s.blockPool.getNumFreeBlocks) :
    Ensures KVError.isShortage (fun result => Wf N result.2 ∧ OnlyEntry (m.key r) s result.2 ∧
        (result.2.allocatedBlockReqs (m.key r) = true → k < (m.blocksOf result.2 r).length) ∧
        Takes s result.2 (m.numNewStateBlocks (s.allocatedBlockReqs (m.key r)) k n
          (m.blocksOf s r).length))
      (m.alignAllocateNewBlocks s r k n) := by
  constructor
  · rintro ⟨blocks, s'⟩ run
    rcases alignAllocateNewBlocks_spec wf state run with
      ⟨full, rfl⟩ | ⟨grows, newBlocks, grown, length, -⟩
    · refine ⟨wf, .refl _ _, state, ?_⟩
      rw [numNewStateBlocks]
      simp only [if_pos full]
      exact .of_pool rfl
    · have lacks := length_alignTable_add state grows
      have isLength : newBlocks.length = m.numNewStateBlocks (s.allocatedBlockReqs (m.key r)) k n
        (m.blocksOf s r).length := by omega
      refine ⟨wf.grow grown, grown.entry, fun _ => ?_, ?_⟩
      · have : 0 < cdiv n m.blockSize := (lt_cdiv_iff m.blockSize_pos).mpr (by omega)
        rw [blocksOf, grown.table, length_append]
        omega
      · rw [← isLength]
        exact takes_of_getNewBlocks wf.pool grown.run rfl
  · intro e run
    unfold alignAllocateNewBlocks at run
    simp only at run
    split at run
    · cases run
    · rename_i short
      have lacks := length_alignTable_add state (not_le.mp short)
      split at run
      · cases run
        exact id
      · rcases bind_eq_error.mp run with takeRun | ⟨⟨blocks, p⟩, -, run⟩
        · have ask : ((cdiv n m.blockSize + k : Nat) : Int) - (m.alignTable s r k n).length =
              m.numNewStateBlocks (s.allocatedBlockReqs (m.key r)) k n (m.blocksOf s r).length := by
            omega
          rw [ask] at takeRun
          exact absurd takeRun (wf.pool.getNewBlocks_ne_error enough e)
        · cases run

theorem allocateNewBlocks_ensures (wf : Wf N s) {main : Nat} (pos : 0 < main)
    (state : ∀ k, m.kvCacheSpec.kind = .mamba .align k →
      s.allocatedBlockReqs (m.key r) = true → k < (m.blocksOf s r).length)
    (enough : (m.numNewBlocks (s.allocatedBlockReqs (m.key r)) numTokens main
      (m.blocksOf s r).length : Int) ≤ s.blockPool.getNumFreeBlocks) :
    Ensures KVError.isShortage (fun result => Wf N result.2 ∧ OnlyEntry (m.key r) s result.2 ∧
        (∀ k, m.kvCacheSpec.kind = .mamba .align k →
          result.2.allocatedBlockReqs (m.key r) = true → k < (m.blocksOf result.2 r).length) ∧
        Takes s result.2 (m.numNewBlocks (s.allocatedBlockReqs (m.key r)) numTokens main
          (m.blocksOf s r).length))
      (m.allocateNewBlocks s r numTokens main) := by
  unfold allocateNewBlocks
  unfold numNewBlocks at enough ⊢
  cases kind : m.kvCacheSpec.kind with
  | mamba mode k =>
    rw [kind] at enough
    cases mode with
    | align =>
      refine (alignAllocateNewBlocks_ensures wf pos (state k kind) enough).mono ?_
      rintro result ⟨wf', entry, state', takes⟩
      refine ⟨wf', entry, fun k' kind' => ?_, takes⟩
      cases kind'
      exact state'
    | none | all =>
      refine (baseAllocateNewBlocks_ensures wf enough).mono ?_
      rintro result ⟨wf', entry, takes⟩
      exact ⟨wf', entry, (fun _ kind' => by cases kind'), takes⟩
  | _ =>
    rw [kind] at enough
    refine (baseAllocateNewBlocks_ensures wf enough).mono ?_
    rintro result ⟨wf', entry, takes⟩
    exact ⟨wf', entry, (fun _ kind' => by cases kind'), takes⟩

end Take

/-! ### The two loops -/

section Loops

variable (cfg : KVCacheConfig) (request : Request H) (args : AllocateSlotsArgs) (s : KVState H)

/-- `allocate_new_computed_blocks` from `s` on, with the managers `rest` still to come.
`spare` blocks are left after it. -/
structure Computing (spare : Int) (rest : List SingleTypeKVCacheManager) (t : KVState H) : Prop where
  wf : Wf cfg.numBlocks t
  refCnt : ∀ b, s.blockPool.refCnt b ≤ t.blockPool.refCnt b
  queue : t.blockPool.freeBlockQueue.blocks.Sublist s.blockPool.freeBlockQueue.blocks
  left : spare + (rest.map (computedCost cfg request args s)).sum ≤ t.blockPool.getNumFreeBlocks
  nodup : rest.Nodup
  sub : ∀ m ∈ rest, m ∈ cfg.managers
  pending : ∀ m ∈ rest, m.blocksOf t request.requestId = m.blocksOf s request.requestId ∧
    t.numCachedBlock (m.key request.requestId) = s.numCachedBlock (m.key request.requestId)
  done : ∀ m ∈ cfg.managers, m ∉ rest →
    (m.blocksOf t request.requestId).length = lengthBefore cfg request args s m
  others : ∀ key : Nat × RequestId, key.2 ≠ request.requestId →
    t.reqToBlocks.get key = s.reqToBlocks.get key
  allocated : t.allocatedBlockReqs = s.allocatedBlockReqs

/-- `allocate_new_blocks` after it. -/
structure Allocating (spare : Int) (rest : List SingleTypeKVCacheManager) (t : KVState H) : Prop where
  accounted : Accounted cfg t
  queue : t.blockPool.freeBlockQueue.blocks.Sublist s.blockPool.freeBlockQueue.blocks
  left : spare + (rest.map fun m => (newCost cfg request args s m : Int)).sum ≤
    t.blockPool.getNumFreeBlocks
  nodup : rest.Nodup
  sub : ∀ m ∈ rest, m ∈ cfg.managers
  pending : ∀ m ∈ rest,
    (m.blocksOf t request.requestId).length = lengthBefore cfg request args s m ∧
      t.allocatedBlockReqs (m.key request.requestId) = s.allocatedBlockReqs (m.key request.requestId)

theorem sum_newCost_nonneg (rest : List SingleTypeKVCacheManager) :
    0 ≤ (rest.map fun m => (newCost cfg request args s m : Int)).sum := by
  refine sum_nonneg fun x isCost => ?_
  obtain ⟨m, -, rfl⟩ := mem_map.mp isCost
  exact Int.natCast_nonneg _

variable {cfg request args s} {spare : Int} {t : KVState H} {m : SingleTypeKVCacheManager}
  {rest : List SingleTypeKVCacheManager}

/-- Counts that only grow leave fewer blocks to evict. -/
theorem getNumEvictableBlocks_mono {N : Nat} {p p' : BlockPool H} (ok : PoolOk N p)
    (refCnt : ∀ b, p.refCnt b ≤ p'.refCnt b) (hits : List BlockId) :
    getNumEvictableBlocks p' hits ≤ getNumEvictableBlocks p hits := by
  refine countP_mono_left fun b _ evictable => ?_
  simp only [decide_eq_true_eq] at evictable ⊢
  have := ok.nonneg b evictable.2
  have := refCnt b
  exact ⟨by omega, evictable.2⟩

theorem computedCost_nonneg (nonneg : startsTable cfg args m = true → 0 ≤ externalCost cfg request args m) :
    0 ≤ computedCost cfg request args s m := by
  unfold computedCost
  split
  · rename_i starts
    have := nonneg starts
    omega
  · exact le_rfl

theorem sum_computedCost_nonneg (nonneg : ∀ m ∈ cfg.managers,
      startsTable cfg args m = true → 0 ≤ externalCost cfg request args m)
    (sub : ∀ m ∈ rest, m ∈ cfg.managers) :
    0 ≤ (rest.map (computedCost cfg request args s)).sum := by
  refine sum_nonneg fun x isCost => ?_
  obtain ⟨m, mem, rfl⟩ := mem_map.mp isCost
  exact computedCost_nonneg (nonneg m (sub m mem))

variable [DecidableEq H]

theorem Computing.step (computing : Computing cfg request args s spare (m :: rest) t)
    (pool : PoolOk cfg.numBlocks s.blockPool) (spareNonneg : 0 ≤ spare)
    (hasNew : cfg.hasNewComputed args = true) (ready : SlotsReady cfg s request args)
    (nonneg : ∀ m ∈ cfg.managers, startsTable cfg args m = true →
      0 ≤ externalCost cfg request args m) :
    Ensures KVError.isShortage (Computing cfg request args s spare rest)
      (m.allocateNewComputedBlocks t request.requestId (groupHits cfg args m)
        (numLocalComputedTokens request args) args.numExternalComputedTokens) := by
  obtain ⟨notMem, nodup⟩ := nodup_cons.mp computing.nodup
  have mem := computing.sub m (by simp)
  have sub : ∀ m' ∈ rest, m' ∈ cfg.managers := fun m' mem' => computing.sub m' (by simp [mem'])
  have left := computing.left
  rw [map_cons, sum_cons] at left
  unfold allocateNewComputedBlocks
  cases cross : m.kvCacheSpec.isCrossAttention with
  | true =>
    have starts : startsTable cfg args m = false := by simp [startsTable, cross]
    rw [if_pos (.inl rfl)]
    split
    · exact ensures_error.mpr id
    · refine ensures_ok.mpr ⟨computing.wf, computing.refCnt, computing.queue, ?_, nodup, sub,
        fun m' mem' => computing.pending m' (by simp [mem']), fun m' mem' notRest => ?_,
        computing.others, computing.allocated⟩
      · have := computedCost_nonneg (s := s) (nonneg m mem)
        omega
      · by_cases same : m' = m
        · rw [same, lengthBefore, starts, (computing.pending m (by simp)).1]
          rfl
        · exact computing.done m' mem' (by simp [same, notRest])
  | false =>
    have starts : startsTable cfg args m = true := by simp [startsTable, cross, hasNew]
    obtain ⟨sameBlocks, sameCached⟩ := computing.pending m (by simp)
    obtain ⟨fresh, notCached⟩ := ready.isNew hasNew m mem
    rw [fresh] at sameBlocks
    rw [notCached] at sameCached
    simp only [sameCached, sameBlocks]
    obtain ⟨n, isN⟩ := Int.eq_ofNat_of_zero_le (nonneg m mem starts)
    have inGroup : (m.hitsInWindow (groupHits cfg args m)
        (numLocalComputedTokens request args +
          args.numExternalComputedTokens)).Sublist (groupHits cfg args m) := drop_sublist _ _
    have evictable := getNumEvictableBlocks_mono pool computing.refCnt (m.hitsInWindow
      (groupHits cfg args m) (numLocalComputedTokens request args + args.numExternalComputedTokens))
    have cost : computedCost cfg request args s m = getNumEvictableBlocks s.blockPool
        (m.hitsInWindow (groupHits cfg args m) (numLocalComputedTokens request args +
          args.numExternalComputedTokens)) + n := by
      rw [computedCost, if_pos starts, isN]
      rfl
    have restNonneg := sum_computedCost_nonneg (s := s) nonneg sub
    refine (addComputedBlocks_ensures computing.wf sameBlocks (fun b notNull => by
        by_cases isHit : b ∈ groupHits cfg args m
        · exact (inGroup.count_le b).trans (ready.distinct m mem b isHit notNull)
        · rw [count_eq_zero.mpr fun inWindow => isHit (inGroup.subset inWindow)]
          exact Nat.zero_le _)
      (fun b isHit => ready.inRange m mem b (inGroup.subset isHit)) isN.symm (by omega)).mono ?_
    rintro t' ⟨wf', entry, sameAllocated, length, takes⟩
    have ne : ∀ m' ∈ rest, m'.key request.requestId ≠ m.key request.requestId := fun m' mem' =>
      KVCacheConfig.key_ne mem (sub m' mem') (fun same => notMem (same ▸ mem')) _ _
    refine ⟨wf', fun b => Int.le_trans (computing.refCnt b) (takes.refCnt b),
      takes.queue.trans computing.queue, ?_, nodup, sub, fun m' mem' => ?_, fun m' mem' notRest => ?_,
      fun key other => ?_, sameAllocated.trans computing.allocated⟩
    · have := takes.numFree
      omega
    · rw [blocksOf, entry.tables.get_of_ne (ne m' mem'), entry.numCachedBlock (ne m' mem')]
      exact computing.pending m' (by simp [mem'])
    · by_cases same : m' = m
      · rw [same, length, lengthBefore, if_pos starts, isN]
        rfl
      · rw [blocksOf, entry.tables.get_of_ne (KVCacheConfig.key_ne mem mem' (Ne.symm same) _ _)]
        exact computing.done m' mem' (by simp [same, notRest])
    · rw [entry.tables.get_of_ne fun isKey => other (congrArg Prod.snd isKey)]
      exact computing.others key other

theorem Allocating.step (allocating : Allocating cfg request args s spare (m :: rest) t)
    (spareNonneg : 0 ≤ spare) (pos : 0 < cfg.numTokensMainModel request args) :
    Ensures KVError.isShortage (fun result => Allocating cfg request args s spare rest result.2)
      (m.allocateNewBlocks t request.requestId
        (if m.kvCacheSpec.isCrossAttention then args.numEncoderTokens
          else cfg.numTokensNeedSlot request args)
        (cfg.numTokensMainModel request args)) := by
  obtain ⟨notMem, nodup⟩ := nodup_cons.mp allocating.nodup
  have mem := allocating.sub m (by simp)
  have sub : ∀ m' ∈ rest, m' ∈ cfg.managers := fun m' mem' => allocating.sub m' (by simp [mem'])
  obtain ⟨sameLength, sameAllocated⟩ := allocating.pending m (by simp)
  have left := allocating.left
  rw [map_cons, sum_cons] at left
  have restNonneg := sum_newCost_nonneg cfg request args s rest
  have cost : m.numNewBlocks (t.allocatedBlockReqs (m.key request.requestId))
      (if m.kvCacheSpec.isCrossAttention then args.numEncoderTokens
        else cfg.numTokensNeedSlot request args) (cfg.numTokensMainModel request args)
      (m.blocksOf t request.requestId).length = newCost cfg request args s m := by
    rw [sameLength, sameAllocated]
    rfl
  refine (allocateNewBlocks_ensures allocating.accounted.wf pos
    (fun k kind => allocating.accounted.state m mem k kind request.requestId)
    (by rw [cost]; omega)).mono ?_
  rintro ⟨newBlocks, t'⟩ ⟨wf', entry, state, takes⟩
  have ne : ∀ m' ∈ cfg.managers, m' ≠ m → ∀ r, m'.key r ≠ m.key request.requestId :=
    fun m' mem' ne r => KVCacheConfig.key_ne mem mem' (Ne.symm ne) _ r
  refine ⟨allocating.accounted.of_entry mem entry wf' state, takes.queue.trans allocating.queue, ?_,
    nodup, sub, fun m' mem' => ?_⟩
  · have := takes.numFree
    change _ ≤ t'.blockPool.getNumFreeBlocks
    change _ ≤ t'.blockPool.getNumFreeBlocks + _ at this
    omega
  · have ne := ne m' (sub m' mem') (fun same => notMem (same ▸ mem')) request.requestId
    rw [blocksOf, entry.tables.get_of_ne ne, entry.allocatedBlockReqs ne]
    exact allocating.pending m' (by simp [mem'])

/-- The two loops together: what they take is covered by the prediction. -/
theorem allocate_ensures (accounted : Accounted cfg s) (valid : cfg.Valid)
    (someNew : ¬ (args.numNewTokens = 0 ∧ args.numExternalComputedTokens = 0))
    (ok : Predictable cfg s request args) (ready : SlotsReady cfg s request args)
    {n : Int} (predicted : cfg.numBlocksToAllocate request args s = .ok n)
    (enough : n ≤ s.blockPool.getNumFreeBlocks) :
    Ensures KVError.isShortage (fun result => Accounted cfg result.2 ∧
        result.2.blockPool.freeBlockQueue.blocks.Sublist s.blockPool.freeBlockQueue.blocks ∧
        s.blockPool.getNumFreeBlocks ≤ result.2.blockPool.getNumFreeBlocks + n)
      (cfg.allocate request args s) := by
  have costs := costs_le_prediction accounted valid ok ready predicted enough
  have split : (cfg.managers.map fun m => computedCost cfg request args s m +
      newCost cfg request args s m).sum =
      (cfg.managers.map (computedCost cfg request args s)).sum +
        (cfg.managers.map fun m => (newCost cfg request args s m : Int)).sum := by
    rw [← sum_map_add]
  have newNonneg := sum_newCost_nonneg cfg request args s cfg.managers
  -- After the first loop the blocks for the second one are left, and those that the
  -- prediction does not need.
  have first : Ensures KVError.isShortage (Computing cfg request args s
      (s.blockPool.getNumFreeBlocks - n +
        (cfg.managers.map fun m => (newCost cfg request args s m : Int)).sum) [])
      (cfg.allocateComputed request args s) := by
    unfold KVCacheConfig.allocateComputed
    split
    · rename_i hasNew
      refine ensures_foldlM (Computing cfg request args s (s.blockPool.getNumFreeBlocks - n +
        (cfg.managers.map fun m => (newCost cfg request args s m : Int)).sum))
        (fun m rest t computing => computing.step accounted.wf.pool (by omega) hasNew ready ok.nonneg)
        ⟨accounted.wf, fun _ => le_rfl, .refl _, by omega, cfg.managers_nodup, fun _ mem => mem,
          fun _ _ => ⟨rfl, rfl⟩, fun m mem notMem => absurd mem notMem, fun _ _ => rfl, rfl⟩
    · rename_i noNew
      have sums := sum_computedCost_nonneg (s := s) ok.nonneg fun _ mem => mem
      refine ensures_ok.mpr ⟨accounted.wf, fun _ => le_rfl, .refl _, ?_, .nil, nofun, nofun,
        fun m mem _ => ?_, fun _ _ => rfl, rfl⟩
      · simp only [map_nil, sum_nil]
        omega
      · simp [lengthBefore, startsTable, noNew]
  refine first.bind fun t _ computed => ?_
  have start : Allocating cfg request args s (s.blockPool.getNumFreeBlocks - n) cfg.managers t := by
    refine ⟨⟨computed.wf, fun m mem k kind r isTrue => ?_⟩, computed.queue, ?_, cfg.managers_nodup,
      fun _ mem => mem, fun m mem => ⟨computed.done m mem not_mem_nil, by rw [computed.allocated]⟩⟩
    · rw [computed.allocated] at isTrue
      have state := accounted.state m mem k kind r isTrue
      rcases eq_or_ne r request.requestId with rfl | isRequest
      · rw [computed.done m mem not_mem_nil, lengthBefore]
        split
        · rename_i starts
          have hasNew : cfg.hasNewComputed args = true := (Bool.and_eq_true_iff.mp starts).1
          rw [(ready.isNew hasNew m mem).1] at state
          exact absurd state (Nat.not_lt_zero _)
        · exact state
      · rw [blocksOf, computed.others _ isRequest]
        exact state
    · have := computed.left
      simpa using this
  have second : Ensures KVError.isShortage
      (fun result => Allocating cfg request args s (s.blockPool.getNumFreeBlocks - n) [] result.2)
      (cfg.allocateNewBlocks t request.requestId (cfg.numTokensNeedSlot request args)
        (cfg.numTokensMainModel request args) args.numEncoderTokens) := by
    refine ensures_foldlM (fun rest (acc : List (List BlockId) × KVState H) =>
      Allocating cfg request args s (s.blockPool.getNumFreeBlocks - n) rest acc.2)
      (fun m rest acc allocating => ?_) start
    exact (allocating.step (by omega) (valid.numTokensMainModel_pos someNew)).bind fun result _ after => ensures_ok.mpr after
  refine second.mono fun result allocated => ⟨allocated.accounted, allocated.queue, ?_⟩
  have := allocated.left
  simp only [map_nil, sum_nil] at this
  omega

end Loops

/-! ### The stages that take no blocks -/

/-- The computation does not ask the pool for blocks that it does not have. -/
def NoShortage {α : Type} (x : Except KVError α) : Prop :=
  Ensures KVError.isShortage (fun _ => True) x

section NoShortage

variable {α β : Type}

theorem noShortage_ok (a : α) : NoShortage (.ok a : Except KVError α) := ensures_ok.mpr trivial

theorem noShortage_error {e : KVError} :
    NoShortage (.error e : Except KVError α) ↔ ¬ e.isShortage := ensures_error

theorem NoShortage.bind {x : Except KVError α} {f : α → Except KVError β} (first : NoShortage x)
    (second : ∀ a, NoShortage (f a)) : NoShortage (x >>= f) :=
  Ensures.bind first fun a _ _ => second a

theorem noShortage_foldlM {f : β → α → Except KVError β} (step : ∀ b a, NoShortage (f b a))
    (xs : List α) (b : β) : NoShortage (xs.foldlM f b) :=
  ensures_foldlM (fun _ _ => True) (fun a _ b _ => step b a) trivial

variable (cfg : KVCacheConfig) (m : SingleTypeKVCacheManager) (s : KVState H)

theorem freeLastStateBlock_noShortage (r : RequestId) (n : Nat) :
    NoShortage (m.freeLastStateBlock s r n) := by
  unfold freeLastStateBlock
  split
  · exact noShortage_ok _
  · split
    · simp only
      split
      · exact noShortage_error.mpr id
      · split <;> exact noShortage_ok _
    · exact noShortage_ok _

theorem removeSkippedBlocks_noShortage (r : RequestId) (n : Nat) :
    NoShortage (cfg.removeSkippedBlocks s r n) := by
  refine noShortage_foldlM (fun t m => ?_) _ _
  unfold removeSkippedBlocks
  split
  · split
    · exact freeLastStateBlock_noShortage m _ r _
    · exact noShortage_ok _
  · exact noShortage_ok _

variable [DecidableEq H]

omit [DecidableEq H] in
theorem baseNumBlocksToAllocate_noShortage (r : RequestId) (n : Nat) (hits : List BlockId)
    (total : Nat) (cap : Bool) : NoShortage (m.baseNumBlocksToAllocate s r n hits total cap) := by
  unfold baseNumBlocksToAllocate
  split
  · split
    · exact noShortage_error.mpr id
    · exact noShortage_ok _
  · exact noShortage_ok _

theorem managerGetNumBlocksToAllocate_noShortage (r : RequestId) (n : Nat) (hits : List BlockId)
    (total main : Nat) (cap : Bool) :
    NoShortage (m.getNumBlocksToAllocate s r n hits total main cap) := by
  unfold getNumBlocksToAllocate
  split
  · split
    · exact noShortage_ok _
    · split
      · exact noShortage_ok _
      · exact (baseNumBlocksToAllocate_noShortage m s r _ _ _ _).bind fun _ => noShortage_ok _
  · exact (baseNumBlocksToAllocate_noShortage m s r _ _ _ _).bind fun _ => noShortage_ok _

theorem getNumBlocksToAllocate_noShortage (r : RequestId) (n : Nat) (hits : List (List BlockId))
    (encoder total main : Nat) (cap : Bool) :
    NoShortage (cfg.getNumBlocksToAllocate s r n hits encoder total main cap) := by
  refine noShortage_foldlM (fun sum m => NoShortage.bind ?_ fun _ => noShortage_ok _) _ _
  unfold managerNumBlocksToAllocate
  split
  · exact managerGetNumBlocksToAllocate_noShortage m s r _ _ _ _ _
  · exact managerGetNumBlocksToAllocate_noShortage m s r _ _ _ _ _

theorem cacheFullBlocks_noShortage (p : BlockPool H) (blockHashes : List H) (blocks : List BlockId)
    (numCached numFull : Nat) (mask : Option (List Bool)) :
    NoShortage (m.cacheFullBlocks p blockHashes blocks numCached numFull mask) := by
  unfold cacheFullBlocks
  simp only
  split
  · exact noShortage_error.mpr id
  split
  · exact noShortage_error.mpr id
  refine noShortage_foldlM (fun p entry => ?_) _ _
  unfold cacheBlock
  simp only
  split
  · exact noShortage_ok _
  split
  · exact noShortage_error.mpr id
  refine NoShortage.bind ?_ fun _ => noShortage_ok _
  unfold fullBlockHash
  split
  · exact noShortage_ok _
  · exact noShortage_error.mpr id

theorem coordinatorCacheBlocks_noShortage (request : Request H) (n : Nat) :
    NoShortage (cfg.coordinatorCacheBlocks s request n) := by
  have base : ∀ (m : SingleTypeKVCacheManager) (t : KVState H) (n : Nat) (retention : Option Nat),
      NoShortage (m.baseCacheBlocks t request n retention) := by
    intro m t n retention
    unfold baseCacheBlocks
    simp only
    split
    · exact noShortage_ok _
    · exact (cacheFullBlocks_noShortage m _ _ _ _ _ _).bind fun _ => noShortage_ok _
  refine noShortage_foldlM (fun t m => ?_) _ _
  unfold cacheBlocks
  split
  · exact noShortage_error.mpr id
  · exact (base m t _ _).bind fun _ => noShortage_ok _
  · exact base m t _ _

end NoShortage

/-! ### Calls -/

section Calls

variable [DecidableEq H] (cfg : KVCacheConfig)

/-- `allocate_slots` takes at most the blocks that it predicted after freeing the
skipped ones, so it does not find the pool empty; and when it refuses, it has at most
removed the skipped blocks. -/
structure AllocatesWithin (s : KVState H) (request : Request H) (args : AllocateSlotsArgs) : Prop where
  noShortage : ∀ numBlocks, cfg.allocateSlots request args s ≠ .error (.cannotGetFreeBlocks numBlocks)
  within : ∀ newBlocks s', cfg.allocateSlots request args s = .ok (some newBlocks, s') → ∃ s₁ n,
    cfg.removeSkippedBlocks s request.requestId (cfg.totalComputedTokens request args) = .ok s₁ ∧
    cfg.numBlocksToAllocate request args s₁ = .ok n ∧
    s'.blockPool.freeBlockQueue.blocks.Sublist s₁.blockPool.freeBlockQueue.blocks ∧
    (s₁.blockPool.freeBlockQueue.blocks.length : Int) ≤ s'.blockPool.freeBlockQueue.blocks.length + n
  refused : ∀ s', cfg.allocateSlots request args s = .ok (none, s') → s' = s ∨
    cfg.removeSkippedBlocks s request.requestId (cfg.totalComputedTokens request args) = .ok s'

/-- The calls whose promises are kept and whose prediction covers what they take. -/
def CallPredictable (s : KVState H) : Call H → Prop
  | .allocateSlots request args => SlotsPromised cfg s request args ∧ Predictable cfg s request args
  | _ => True

instance decidableCallPredictable (s : KVState H) : (call : Call H) →
    Decidable (CallPredictable cfg s call)
  | .allocateSlots _ _ => inferInstanceAs (Decidable (_ ∧ _))
  | .cacheBlocks _ _ | .getComputedBlocks _ | .removeSkippedBlocks _ _ | .free _ | .newStepStarts =>
    inferInstanceAs (Decidable True)

variable {cfg} {s s' : KVState H} {req request : Request H} {args : AllocateSlotsArgs}
  {r : RequestId}

omit [DecidableEq H] in
theorem Accounted.skip (accounted : Accounted cfg s) (wf : Wf cfg.numBlocks s')
    (skipped : RequestSkipped cfg r s s') : Accounted cfg s' := by
  refine ⟨wf, fun m mem k kind r' isTrue => ?_⟩
  rw [skipped.allocatedBlockReqs] at isTrue
  have state := accounted.state m mem k kind r' isTrue
  rwa [blocksOf, (skipped.nulled _).length]

omit [DecidableEq H] in
theorem inRange_of_passesHit (valid : cfg.Valid) (wf : Wf cfg.numBlocks s)
    (passed : cfg.PassesHit s req args) :
    ∀ m ∈ cfg.managers, ∀ b ∈ groupHits cfg args m, b ≠ nullBlock → b < cfg.numBlocks := by
  intro m mem b isHit notNull
  obtain ⟨i, found⟩ := mem_iff_getElem?.mp isHit
  obtain ⟨hash, -, cached⟩ := (hitSound_of_passesHit valid passed mem).cached found notNull
  exact (wf.pool.hash_inRange b _ ((wf.pool.mem_cached _ b).mp cached)).2

section

variable (accounted : Accounted cfg s)
include accounted

theorem Accounted.coordinatorCacheBlocks {n : Nat}
    (run : cfg.coordinatorCacheBlocks s req n = .ok s') :
    Accounted cfg s' ∧ s'.blockPool.freeBlockQueue = s.blockPool.freeBlockQueue := by
  refine foldlM_keeps (fun t => Accounted cfg t ∧
    t.blockPool.freeBlockQueue = s.blockPool.freeBlockQueue) (fun t m mem u before step => ?_)
    ⟨accounted, rfl⟩ run
  obtain ⟨cached, wf⟩ := cacheBlocks_spec before.1.wf step
  refine ⟨⟨wf, fun m' mem' k kind r isTrue => ?_⟩, cached.pool.freeBlockQueue.trans before.2⟩
  rw [cached.allocatedBlockReqs] at isTrue
  rw [blocksOf, cached.reqToBlocks]
  exact before.1.state m' mem' k kind r isTrue

/-- `allocate_slots` after the skipped blocks were freed. -/
theorem Accounted.allocateIfFree (valid : cfg.Valid)
    (someNew : ¬ (args.numNewTokens = 0 ∧ args.numExternalComputedTokens = 0))
    (ok : Predictable cfg s req args) (ready : SlotsReady cfg s req args) :
    Ensures KVError.isShortage (fun result => Accounted cfg result.2 ∧
        ((result.1 = none ∧ result.2 = s) ∨ ∃ n, cfg.numBlocksToAllocate req args s = .ok n ∧
          result.2.blockPool.freeBlockQueue.blocks.Sublist s.blockPool.freeBlockQueue.blocks ∧
          s.blockPool.getNumFreeBlocks ≤ result.2.blockPool.getNumFreeBlocks + n ∧ result.1.isSome))
      (cfg.allocateIfFree req args s) := by
  have predicts : NoShortage (cfg.numBlocksToAllocate req args s) :=
    getNumBlocksToAllocate_noShortage cfg s _ _ _ _ _ _ _
  refine Ensures.bind predicts fun n predicted _ => ?_
  split
  · exact ensures_ok.mpr ⟨accounted, .inl ⟨rfl, rfl⟩⟩
  · refine (allocate_ensures accounted valid someNew ok ready predicted (by omega)).bind ?_
    rintro ⟨newBlocks, t⟩ - ⟨accounted', queue, numFree⟩
    have commits : NoShortage (cfg.commit req args t) := by
      unfold KVCacheConfig.commit
      split
      · exact noShortage_ok _
      · exact coordinatorCacheBlocks_noShortage cfg t req _
    refine Ensures.bind commits fun u committed _ => ensures_ok.mpr ?_
    obtain ⟨accounted'', sameQueue⟩ : Accounted cfg u ∧
        u.blockPool.freeBlockQueue = t.blockPool.freeBlockQueue := by
      unfold KVCacheConfig.commit at committed
      split at committed
      · cases committed
        exact ⟨accounted', rfl⟩
      · exact accounted'.coordinatorCacheBlocks committed
    refine ⟨accounted'', .inr ⟨n, predicted, ?_, ?_, rfl⟩⟩
    · rw [sameQueue]
      exact queue
    · rw [BlockPool.getNumFreeBlocks, BlockPool.getNumFreeBlocks, sameQueue]
      exact numFree

theorem Accounted.allocateSlots (valid : cfg.Valid) (promised : SlotsPromised cfg s req args)
    (ok : Predictable cfg s req args) :
    Ensures KVError.isShortage (fun result => Accounted cfg result.2 ∧
        ((result.1 = none ∧ (result.2 = s ∨ cfg.removeSkippedBlocks s req.requestId
          (cfg.totalComputedTokens req args) = .ok result.2)) ∨ ∃ s₁ n,
          cfg.removeSkippedBlocks s req.requestId (cfg.totalComputedTokens req args) = .ok s₁ ∧
          cfg.numBlocksToAllocate req args s₁ = .ok n ∧
          result.2.blockPool.freeBlockQueue.blocks.Sublist s₁.blockPool.freeBlockQueue.blocks ∧
          (s₁.blockPool.freeBlockQueue.blocks.length : Int) ≤
            result.2.blockPool.freeBlockQueue.blocks.length + n ∧ result.1.isSome))
      (cfg.allocateSlots req args s) := by
  unfold KVCacheConfig.allocateSlots
  split
  · exact ensures_error.mpr id
  rename_i someNew
  have gate : NoShortage (cfg.fullSequenceFits req args s) := by
    unfold KVCacheConfig.fullSequenceFits
    split
    · refine NoShortage.bind ?_ fun _ => noShortage_ok _
      exact getNumBlocksToAllocate_noShortage cfg s _ _ _ _ _ _ _
    · exact noShortage_ok _
  refine Ensures.bind gate fun fits _ _ => ?_
  split
  · have removes : NoShortage (cfg.removeSkippedBlocks s req.requestId
        (cfg.totalComputedTokens req args)) := removeSkippedBlocks_noShortage cfg s _ _
    refine Ensures.bind removes fun s₁ removed _ => ?_
    obtain ⟨skipped, wf₁⟩ := KVCacheConfig.removeSkippedBlocks_spec accounted.wf removed
    have accounted₁ := accounted.skip wf₁ skipped
    have ok₁ : Predictable cfg s₁ req args :=
      ⟨ok.external, ok.nonneg, ok.speculative, fun m mem k kind => by
        rw [skipped.length]
        exact ok.align m mem k kind, ok.alignExternal⟩
    have ready : SlotsReady cfg s₁ req args := by
      refine ⟨fun hasNew => skipped.isNew (promised.isNew hasNew),
        fun noNew m mem notCross => ?_, promised.distinct,
        inRange_of_passesHit valid accounted.wf promised.passesHit⟩
      rw [skipped.length]
      exact promised.slots noNew m mem notCross
    refine (accounted₁.allocateIfFree valid someNew ok₁ ready).mono ?_
    rintro ⟨result, s'⟩ ⟨accounted', ⟨refused, same⟩ | ⟨n, predicted, queue, numFree, isSome⟩⟩
    · obtain rfl : s' = s₁ := same
      exact ⟨accounted', .inl ⟨refused, .inr removed⟩⟩
    · refine ⟨accounted', .inr ⟨s₁, n, removed, predicted, queue, ?_, isSome⟩⟩
      rw [← accounted₁.wf.pool.numFree, ← accounted'.wf.pool.numFree]
      exact numFree
  · exact ensures_ok.mpr ⟨accounted, .inl ⟨rfl, .inl rfl⟩⟩

theorem Accounted.allocatesWithin (valid : cfg.Valid) (promised : SlotsPromised cfg s req args)
    (ok : Predictable cfg s req args) : AllocatesWithin cfg s req args := by
  obtain ⟨succeeds, fails⟩ := accounted.allocateSlots valid promised ok
  refine ⟨fun numBlocks run => fails _ run trivial, fun newBlocks s' run => ?_, fun s' run => ?_⟩
  · rcases (succeeds _ run).2 with ⟨refused, -⟩ | ⟨s₁, n, removed, predicted, queue, length, -⟩
    · cases refused
    · exact ⟨s₁, n, removed, predicted, queue, length⟩
  · rcases (succeeds _ run).2 with ⟨-, unchanged⟩ | ⟨s₁, n, -, -, -, -, isSome⟩
    · exact unchanged
    · cases isSome

omit [DecidableEq H] in
theorem Accounted.free (r : RequestId) : Accounted cfg (cfg.free s r) := by
  refine foldlRecOn cfg.managers _ accounted fun s accounted m mem => ?_
  refine accounted.of_entry mem (free_onlyEntry m s r)
    (SingleTypeKVCacheManager.free_spec m r accounted.wf).2 fun k kind isTrue => ?_
  simp [SingleTypeKVCacheManager.free] at isTrue

theorem Accounted.step (valid : cfg.Valid) {call : Call H} (ok : CallPredictable cfg s call)
    (run : cfg.step s call s') : Accounted cfg s' := by
  unfold KVCacheConfig.step Steps.succeeds KVCacheConfig.exec at run
  cases call with
  | getComputedBlocks req =>
    obtain ⟨-, -, run⟩ := bind_eq_ok.mp run
    cases run
    exact accounted
  | allocateSlots req args =>
    obtain ⟨⟨result, t⟩, allocated, run⟩ := bind_eq_ok.mp run
    cases run
    exact ((accounted.allocateSlots valid ok.1 ok.2).1 _ allocated).1
  | cacheBlocks req n =>
    unfold KVCacheConfig.cacheBlocks at run
    simp only at run
    split at run
    · exact (accounted.coordinatorCacheBlocks run).1
    · cases run
      exact accounted
  | removeSkippedBlocks r n =>
    obtain ⟨skipped, wf⟩ := KVCacheConfig.removeSkippedBlocks_spec accounted.wf run
    exact accounted.skip wf skipped
  | free r =>
    cases run
    exact accounted.free r
  | newStepStarts =>
    cases run
    obtain ⟨c, eq⟩ := newStepStarts_eq cfg s
    rw [eq]
    exact ⟨accounted.wf.of_pool accounted.wf.pool rfl rfl, accounted.state⟩

end

/-- Pool and tables agree in every state that predictable calls reach. -/
theorem accounted_of_run (valid : cfg.Valid) {calls : List (Call H)}
    (run : Run (guarded (CallPredictable cfg) cfg.step) (init H cfg.numBlocks) calls s) :
    Accounted cfg s := by
  have start : Accounted cfg (init H cfg.numBlocks) :=
    ⟨.init H valid.numBlocks, nofun⟩
  exact run.invariant (Accounted cfg) (fun before step => before.step valid step.1 step.2) start

/-- In every run whose calls are predictable, every predictable `allocate_slots` takes
at most what it predicted. -/
theorem allocatesWithin_of_run (valid : cfg.Valid) {calls : List (Call H)}
    (run : Run (guarded (CallPredictable cfg) cfg.step) (init H cfg.numBlocks) calls s)
    (promised : SlotsPromised cfg s request args) (ok : Predictable cfg s request args) :
    AllocatesWithin cfg s request args :=
  (accounted_of_run valid run).allocatesWithin valid promised ok

end Calls

/-! ### A Mamba group with a connector -/

/-- One Mamba group in align mode over two blocks. -/
def alignOnly : KVCacheConfig where
  kvCacheGroups := [⟨{ kind := .mamba .align 0, blockSize := 1, blockSize_pos := Nat.one_pos }, false⟩]
  numBlocks := 3
  maxModelLen := 8
  maxNumBatchedTokens := 8
  schedulerBlockSize := 1
  hashBlockSize := 1

theorem alignOnly_valid : alignOnly.Valid :=
  ⟨by decide, by decide, by decide, by decide, by decide⟩

def threeTokens (r : RequestId) : Request Nat :=
  { requestId := r, allTokenIds := [1, 2, 3], blockHashes := [10 * r + 1, 10 * r + 2, 10 * r + 3] }

/-- The first request holds one of the two blocks. -/
def firstToken : Call Nat := .allocateSlots (threeTokens 0) { numNewTokens := 1 }

/-- A connector loads the first token, and the second one is computed. -/
def loadThenCompute : AllocateSlotsArgs := { numNewTokens := 1, numExternalComputedTokens := 1 }

/-- One block is predicted for the state after the second token, but the token that
the connector loads takes a block of its own. -/
theorem alignOnly_not_allocatesWithin : alignOnly.Valid ∧ ∃ s,
    Run (guarded (CallPredictable alignOnly) alignOnly.step) (init Nat 3) [firstToken] s ∧
    SlotsPromised alignOnly s (threeTokens 1) loadThenCompute ∧
    alignOnly.numBlocksToAllocate (threeTokens 1) loadThenCompute s = .ok 1 ∧
    ¬ AllocatesWithin alignOnly s (threeTokens 1) loadThenCompute := by
  have final : ([firstToken].foldlM alignOnly.exec (init Nat 3)).map (fun s =>
      (decide (SlotsPromised alignOnly s (threeTokens 1) loadThenCompute),
        alignOnly.numBlocksToAllocate (threeTokens 1) loadThenCompute s,
        (alignOnly.allocateSlots (threeTokens 1) loadThenCompute s).map (·.1))) =
      .ok (true, .ok 1, .error (.cannotGetFreeBlocks 1)) := by rfl
  obtain ⟨s, ends, facts⟩ := map_eq_ok.mp final
  obtain ⟨promised, facts⟩ := Prod.mk.inj facts
  obtain ⟨predicted, raises⟩ := Prod.mk.inj facts
  refine ⟨alignOnly_valid, s, .of_alongOk (by decide) ends, of_decide_eq_true promised, predicted, ?_⟩
  intro within
  cases outcome : alignOnly.allocateSlots (threeTokens 1) loadThenCompute s with
  | ok result =>
    rw [outcome] at raises
    cases raises
  | error e =>
    rw [outcome] at raises
    cases raises
    exact within.noShortage 1 outcome

/-- A connector loads the first token, and nothing is computed yet. -/
def loadOnly : AllocateSlotsArgs := { numNewTokens := 0, numExternalComputedTokens := 1 }

theorem alignOnly_allocatesWithin : ∃ s,
    [firstToken].foldlM alignOnly.exec (init Nat 3) = .ok s ∧
    (alignOnly.allocateSlots (threeTokens 1) loadOnly s).map (·.1) = .ok (some [[]]) ∧
    AllocatesWithin alignOnly s (threeTokens 1) loadOnly := by
  have final : ([firstToken].foldlM alignOnly.exec (init Nat 3)).map (fun s =>
      (decide (CallPredictable alignOnly s (.allocateSlots (threeTokens 1) loadOnly)),
        (alignOnly.allocateSlots (threeTokens 1) loadOnly s).map (·.1))) =
      .ok (true, .ok (some [[]])) := by decide
  obtain ⟨s, ends, facts⟩ := map_eq_ok.mp final
  obtain ⟨predictable, succeeds⟩ := Prod.mk.inj facts
  have predictable : CallPredictable alignOnly s (.allocateSlots (threeTokens 1) loadOnly) :=
    of_decide_eq_true predictable
  exact ⟨s, ends, succeeds, allocatesWithin_of_run alignOnly_valid (.of_alongOk (by decide) ends)
    predictable.1 predictable.2⟩

end Vllm.KVCache
