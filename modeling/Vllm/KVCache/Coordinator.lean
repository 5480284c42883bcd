import Vllm.KVCache.Lookup

/-!
Coordinators (`vllm/v1/core/kv_cache_coordinator.py`): configuration and cache
lookup over all KV cache groups.

`HybridKVCacheCoordinator.find_longest_cache_hit` looks the groups up one spec
after the other, until a round leaves the length as it is. The loop runs on fuel;
every round but the last shortens the hit, so `max_cache_hit_length + 1` are enough.
-/

namespace Vllm.KVCache

open Vllm.Lib.Ceil Vllm.Lib.Fallible

variable {H : Type}

structure KVCacheGroupSpec where
  kvCacheSpec : KVCacheSpec
  isEagleGroup : Bool := false
  deriving DecidableEq, Repr

/-- What the KV cache manager and its coordinator are built from.
`contextParallelSize` is `dcp_world_size * pcp_world_size`. -/
structure KVCacheConfig where
  kvCacheGroups : List KVCacheGroupSpec
  numBlocks : Nat
  maxModelLen : Nat
  maxNumBatchedTokens : Nat
  schedulerBlockSize : Nat
  hashBlockSize : Nat
  enableCaching : Bool := true
  useEagle : Bool := false
  contextParallelSize : Nat := 1
  retentionInterval : Option Nat := none
  deriving Repr

namespace KVCacheConfig

/-- `i in self.eagle_group_ids`: the flagged groups, or all of them when eagle is
used and none is flagged. -/
def isEagle (cfg : KVCacheConfig) (i : Nat) : Bool :=
  if cfg.useEagle ∧ ¬ cfg.kvCacheGroups.any (·.isEagleGroup) then true
  else (cfg.kvCacheGroups[i]?.map (·.isEagleGroup)).getD false

end KVCacheConfig

/-- `SpecGroup`: the groups that share a spec. -/
structure SpecGroup where
  spec : KVCacheSpec
  groupIds : List Nat
  useEagle : Bool
  deriving DecidableEq, Repr

/-- One group of the loop of `verify_and_split_kv_cache_groups`. -/
def addToSpecGroups (spec : KVCacheSpec) (i : Nat) (useEagle : Bool) :
    List SpecGroup → List SpecGroup
  | [] => [⟨spec, [i], useEagle⟩]
  | group :: rest =>
    if group.spec = spec then
      ⟨group.spec, group.groupIds ++ [i], group.useEagle || useEagle⟩ :: rest
    else group :: addToSpecGroups spec i useEagle rest

namespace KVCacheConfig

/-- The groups by spec, in the order in which the specs first occur. -/
def specGroups (cfg : KVCacheConfig) : List SpecGroup :=
  cfg.kvCacheGroups.zipIdx.foldl
    (fun groups g => addToSpecGroups g.1.kvCacheSpec g.2 (cfg.isEagle g.2) groups) []

/-- `attention_groups` after the stable sort that puts full attention first. -/
def attentionGroups (cfg : KVCacheConfig) : List SpecGroup :=
  cfg.specGroups.filter (·.spec.isFullAttention) ++ cfg.specGroups.filter (!·.spec.isFullAttention)

end KVCacheConfig

/-! ### The hybrid lookup -/

/-- Blocks found so far, by group id. -/
abbrev HitBlocks := Nat → Option (List BlockId)

/-- `hit_blocks_by_group` after the rows of a spec group are stored. -/
def HitBlocks.store (blocks : HitBlocks) (groupIds : List Nat) (rows : List Row) : HitBlocks :=
  fun groupId =>
    match groupIds.idxOf? groupId with
    | some j => some (rows.map (·.getD j nullBlock))
    | none => blocks groupId

/-- The variables of the loop of `find_longest_cache_hit`. -/
structure HybridState where
  currHitLength : Nat
  hitBlocks : HitBlocks
  eagleVerified : List Nat

section Hybrid

/- The lookup of one spec group: maximal length and eagle drop to rows. -/
variable (find : SpecGroup → Nat → Bool → Except KVError (List Row)) (maxCacheHitLength : Nat)

/-- The body of the `for` loop over the spec groups. -/
def visitGroup (state : HybridState) (entry : SpecGroup × Nat) : Except KVError HybridState :=
  let group := entry.1
  let blockSize := group.spec.blockSize
  if group.spec.isFullAttention ∧ (state.hitBlocks (group.groupIds.headD 0)).isSome then
    -- Full attention is downward-closed: trim instead of a second lookup.
    .ok { state with currHitLength := state.currHitLength / blockSize * blockSize }
  else do
    let dropEagleBlock := group.useEagle && !state.eagleVerified.contains entry.2
    let maxLength := if dropEagleBlock then min (state.currHitLength + blockSize) maxCacheHitLength
      else state.currHitLength
    let rows ← find group maxLength dropEagleBlock
    let newHitLength := rows.length * blockSize
    return {
      currHitLength := newHitLength
      hitBlocks := state.hitBlocks.store group.groupIds rows
      eagleVerified :=
        if dropEagleBlock then entry.2 :: state.eagleVerified
        else if newHitLength < state.currHitLength then []
        else state.eagleVerified }

/-- The `while True` loop. Returns the hit length and the blocks. -/
def hybridLoop (groups : List SpecGroup) (isSimpleHybrid : Bool) :
    Nat → HybridState → Except KVError (Nat × HitBlocks)
  | 0, state => .ok (state.currHitLength, state.hitBlocks)
  | fuel + 1, state => do
    let next ← groups.zipIdx.foldlM (visitGroup find maxCacheHitLength) state
    if state.currHitLength ≤ next.currHitLength then
      return (state.currHitLength, next.hitBlocks)
    else if isSimpleHybrid then return (next.currHitLength, next.hitBlocks)
    else hybridLoop groups isSimpleHybrid fuel next

/-- The final truncation, of the first spec group only. -/
def truncateFirst (groups : List SpecGroup) (hitLength : Nat) (blocks : HitBlocks) : HitBlocks :=
  match groups with
  | [] => blocks
  | first :: _ =>
    if first.spec.isFullAttention then fun groupId =>
      if groupId ∈ first.groupIds then
        (blocks groupId).map (·.take (hitLength / first.spec.blockSize))
      else blocks groupId
    else blocks

/-- `HybridKVCacheCoordinator.find_longest_cache_hit`, over the lookup of a spec
group. -/
def hybridFind (groups : List SpecGroup) : Except KVError (Nat × HitBlocks) := do
  let isSimpleHybrid := groups.length = 2 && (groups.head?.map (·.spec.isFullAttention)).getD false
  let (hitLength, blocks) ← hybridLoop find maxCacheHitLength groups isSimpleHybrid
    (maxCacheHitLength + 1) ⟨maxCacheHitLength, fun _ => none, []⟩
  return (hitLength, truncateFirst groups hitLength blocks)

end Hybrid

/-- `find_longest_cache_hit` of the coordinator that `get_kv_cache_coordinator`
picks: the blocks by group, and the hit length. -/
def KVCacheConfig.findLongestCacheHit (cfg : KVCacheConfig) (p : BlockPool H)
    (blockHashes : List H) (maxCacheHitLength : Nat) :
    Except KVError (List (List BlockId) × Nat) :=
  if ¬ cfg.enableCaching then .ok (cfg.kvCacheGroups.map fun _ => [], 0)
  else
    match cfg.kvCacheGroups with
    | [group] => do
      let blockSize := group.kvCacheSpec.blockSize * cfg.contextParallelSize
      let rows ← KVCache.findLongestCacheHit p blockHashes cfg.hashBlockSize maxCacheHitLength
        [0] group.kvCacheSpec cfg.contextParallelSize (cfg.isEagle 0) blockSize
      return ([rows.map (·.getD 0 nullBlock)], rows.length * blockSize)
    | groups => do
      let (hitLength, blocks) ← hybridFind
        (fun group maxLength drop => KVCache.findLongestCacheHit p blockHashes cfg.hashBlockSize
          maxLength group.groupIds group.spec 1 drop cfg.schedulerBlockSize)
        maxCacheHitLength cfg.attentionGroups
      return ((List.range groups.length).map fun i => (blocks i).getD [], hitLength)

end Vllm.KVCache
