import Vllm.KVCache.HitLargest
import Vllm.Lib.Steps

/-!
Coherence of the hybrid prefix-cache hit.

`HybridKVCacheCoordinator.find_longest_cache_hit` returns one list of blocks per
group and one hit length, and the scheduler counts the whole length as computed
in every group. `hitCoherent_iff` says for which caches, hashes and maximal lengths
the lists have that length.

A lookup shortens the hit to an aligned length or leaves it as it is, with one exception
(`lengthens_iff`): a Mamba lookup of an eagle group searches one block further without
dropping it afterwards, and with blocks as long as the alignment it can lengthen the hit.
A round that ends where it began and in which no lookup does that found every group
exactly that long (`lastRound_iff`). Full-attention specs are looked up in the first
round only; of these the first is truncated at the end, so that its hit may be longer than
the result but not shorter, and the others have to fit as they are.
-/

namespace Vllm.KVCache

open Vllm.Lib.Fallible Vllm.Lib.Steps KVCacheSpec List

variable {H : Type}

def KVCacheSpec.isMamba (spec : KVCacheSpec) : Bool := spec.kind matches .mamba _ _

theorem KVCacheSpec.kind_of_isMamba {spec : KVCacheSpec} (mamba : spec.isMamba = true) :
    ∃ mode k, spec.kind = .mamba mode k := by
  unfold KVCacheSpec.isMamba at mamba
  split at mamba
  · exact ⟨_, _, ‹_›⟩
  · cases mamba

theorem KVCacheSpec.notFull_of_isMamba {spec : KVCacheSpec} (mamba : spec.isMamba = true) :
    spec.isFullAttention = false := by
  obtain ⟨mode, k, kind⟩ := kind_of_isMamba mamba
  rw [isFullAttention, kind]
  rfl

instance (lookup : Nat → Except KVError (Option Row)) (i : Nat) : Decidable (Hits lookup i) :=
  match found : lookup i with
  | .ok (some row) => .isTrue ⟨row, found⟩
  | .ok none | .error _ => .isFalse fun ⟨_, hit⟩ => nomatch found.symm.trans hit

/-! ### Lengths of the hits -/

/-- The tokens that the blocks of a group hold. -/
def HitBlocks.numTokens (blocks : HitBlocks) (group : SpecGroup) (groupId : Nat) : Nat :=
  ((blocks groupId).getD []).length * group.spec.blockSize

/-- All groups of the spec group have hits of `length` tokens. -/
def HasLength (blocks : HitBlocks) (group : SpecGroup) (length : Nat) : Prop :=
  ∀ groupId ∈ group.groupIds, blocks.numTokens group groupId = length

/-- All groups of the spec group have hits of `length` tokens at least. -/
def HasAtLeast (blocks : HitBlocks) (group : SpecGroup) (length : Nat) : Prop :=
  ∀ groupId ∈ group.groupIds, length ≤ blocks.numTokens group groupId

/-- The hits of the spec group are as long as the result, or, for the spec group that is
truncated to it in the end, as long at least. -/
def FitsLength (blocks : HitBlocks) (entry : SpecGroup × Nat) (length : Nat) : Prop :=
  if entry.2 = 0 ∧ entry.1.spec.isFullAttention then HasAtLeast blocks entry.1 length
  else HasLength blocks entry.1 length

instance (blocks : HitBlocks) (group : SpecGroup) (length : Nat) :
    Decidable (HasLength blocks group length) :=
  inferInstanceAs (Decidable (∀ _ ∈ _, _))

instance (blocks : HitBlocks) (group : SpecGroup) (length : Nat) :
    Decidable (HasAtLeast blocks group length) :=
  inferInstanceAs (Decidable (∀ _ ∈ _, _))

instance (blocks : HitBlocks) (entry : SpecGroup × Nat) (length : Nat) :
    Decidable (FitsLength blocks entry length) :=
  inferInstanceAs (Decidable (ite _ _ _))

section Lengths

variable {blocks blocks' : HitBlocks} {entry : SpecGroup × Nat} {group : SpecGroup} {length : Nat}

theorem HasLength.fits (has : HasLength blocks entry.1 length) : FitsLength blocks entry length := by
  unfold FitsLength
  split
  · exact fun i mem => (has i mem).ge
  · exact has

theorem FitsLength.covers (fits : FitsLength blocks entry length) : HasAtLeast blocks entry.1 length := by
  unfold FitsLength at fits
  split at fits
  · exact fits
  · exact fun i mem => (fits i mem).ge

end Lengths

/-! ### One visit -/

/-- A full-attention spec that has its blocks is not looked up again. -/
def Skips (state : HybridState) (group : SpecGroup) : Prop :=
  group.spec.isFullAttention ∧ (state.hitBlocks (group.groupIds.headD 0)).isSome

instance (state : HybridState) (group : SpecGroup) : Decidable (Skips state group) :=
  inferInstanceAs (Decidable (_ ∧ _))

/-- `drop_eagle_block`: the group has not been verified at this length yet. -/
def dropsEagle (state : HybridState) (entry : SpecGroup × Nat) : Bool :=
  entry.1.useEagle && !state.eagleVerified.contains entry.2

/-- The length that a lookup searches up to. -/
def searchLength (maxLen : Nat) (state : HybridState) (entry : SpecGroup × Nat) : Nat :=
  if dropsEagle state entry then min (state.currHitLength + entry.1.spec.blockSize) maxLen
  else state.currHitLength

/-- The state before the first round. -/
def HybridState.init (maxLen : Nat) : HybridState := ⟨maxLen, fun _ => none, []⟩

/-- The state before a visit: its length is aligned, or nothing is looked up yet. -/
structure Candidate (maxLen align : Nat) (state : HybridState) : Prop where
  le : state.currHitLength ≤ maxLen
  aligned : align ∣ state.currHitLength ∨
    state.currHitLength = maxLen ∧ ∀ i, state.hitBlocks i = none

theorem Candidate.init (maxLen align : Nat) : Candidate maxLen align (.init maxLen) :=
  ⟨Nat.le_refl _, .inr ⟨rfl, fun _ => rfl⟩⟩

section Visits

variable {find : SpecGroup → Nat → Bool → Except KVError (List Row)} {maxLen align : Nat}
  {state next : HybridState} {entry : SpecGroup × Nat} {entries : List (SpecGroup × Nat)}

theorem visitGroup_of_skips (skips : Skips state entry.1) :
    visitGroup find maxLen state entry = .ok { state with
      currHitLength := state.currHitLength / entry.1.spec.blockSize * entry.1.spec.blockSize } :=
  if_pos skips

theorem visitGroup_of_not_skips (looks : ¬ Skips state entry.1) :
    visitGroup find maxLen state entry = (do
      let rows ← find entry.1 (searchLength maxLen state entry) (dropsEagle state entry)
      return {
        currHitLength := rows.length * entry.1.spec.blockSize
        hitBlocks := state.hitBlocks.store entry.1.groupIds rows
        eagleVerified :=
          if dropsEagle state entry then entry.2 :: state.eagleVerified
          else if rows.length * entry.1.spec.blockSize < state.currHitLength then []
          else state.eagleVerified }) :=
  if_neg looks

/-- What a visit can do. -/
theorem visitGroup_inv (step : visitGroup find maxLen state entry = .ok next) :
    Skips state entry.1 ∧ next = { state with
        currHitLength := state.currHitLength / entry.1.spec.blockSize * entry.1.spec.blockSize } ∨
      ¬ Skips state entry.1 ∧ ∃ rows,
        find entry.1 (searchLength maxLen state entry) (dropsEagle state entry) = .ok rows ∧
        next.currHitLength = rows.length * entry.1.spec.blockSize ∧
        next.hitBlocks = state.hitBlocks.store entry.1.groupIds rows := by
  by_cases skips : Skips state entry.1
  · rw [visitGroup_of_skips skips] at step
    exact .inl ⟨skips, (Except.ok.inj step).symm⟩
  · rw [visitGroup_of_not_skips skips] at step
    obtain ⟨rows, found, step⟩ := bind_eq_ok.mp step
    cases step
    exact .inr ⟨skips, rows, found, rfl, rfl⟩

/-- A lookup has found more than the hit had before. -/
def Lengthens (find : SpecGroup → Nat → Bool → Except KVError (List Row)) (maxLen : Nat)
    (state : HybridState) (entry : SpecGroup × Nat) : Prop :=
  ∃ next, visitGroup find maxLen state entry = .ok next ∧ state.currHitLength < next.currHitLength

/-- The visit does no harm: a lookup does not lengthen the hit, and the blocks of a
spec that is not looked up again still fit it. -/
def VisitOk (lengthens : HybridState → SpecGroup × Nat → Prop) (state : HybridState)
    (entry : SpecGroup × Nat) : Prop :=
  if Skips state entry.1 then FitsLength state.hitBlocks entry state.currHitLength
  else ¬ lengthens state entry

instance (lengthens : HybridState → SpecGroup × Nat → Prop)
    [∀ state entry, Decidable (lengthens state entry)] (state : HybridState)
    (entry : SpecGroup × Nat) : Decidable (VisitOk lengthens state entry) :=
  inferInstanceAs (Decidable (ite _ _ _))

/-- What holds after a visit. -/
structure Visited (maxLen align : Nat) (state next : HybridState) (entry : SpecGroup × Nat) :
    Prop where
  le : next.currHitLength ≤ maxLen
  aligned : align ∣ next.currHitLength
  others : ∀ i ∉ entry.1.groupIds, next.hitBlocks i = state.hitBlocks i
  skipped : Skips state entry.1 →
    next.currHitLength = state.currHitLength ∧ next.hitBlocks = state.hitBlocks
  looked : ¬ Skips state entry.1 → HasLength next.hitBlocks entry.1 next.currHitLength
  notMamba : entry.1.spec.isMamba = false → next.currHitLength ≤ state.currHitLength

theorem Visited.candidate (visited : Visited maxLen align state next entry) :
    Candidate maxLen align next :=
  ⟨visited.le, .inl visited.aligned⟩

/-- Without an eagle block to drop, and for every kind but Mamba, the drop makes up for the
block that is searched further. -/
theorem length_le_of_hitLength {rows : List Row} {drop : Bool}
    (length : HitLength entry.1.spec.blockSize align (searchLength maxLen state entry) drop rows)
    (drops : dropsEagle state entry = true → drop = true) :
    rows.length * entry.1.spec.blockSize ≤ state.currHitLength := by
  have bound := length.bound
  unfold searchLength at length bound
  cases isDrop : dropsEagle state entry with
  | false =>
    rw [isDrop] at bound
    exact Nat.mul_le_of_le_div _ _ _ bound
  | true =>
    rw [isDrop] at length
    by_cases empty : rows = []
    · simp [empty]
    · have room : rows.length + 1 ≤ min (state.currHitLength + entry.1.spec.blockSize) maxLen /
          entry.1.spec.blockSize := length.dropped (drops isDrop) empty
      have := Nat.mul_le_of_le_div _ _ _ room
      rw [Nat.succ_mul] at this
      omega

theorem searchLength_le (le : state.currHitLength ≤ maxLen) :
    searchLength maxLen state entry ≤ maxLen := by
  unfold searchLength
  split
  · exact Nat.min_le_right _ _
  · exact le

theorem visited_of_visitGroup
    (findLength : ∀ g maxLen drop rows, find g maxLen drop = .ok rows →
      HitLength g.spec.blockSize align maxLen (drop && !g.spec.isMamba) rows)
    (divides : entry.1.spec.blockSize ∣ align) (candidate : Candidate maxLen align state)
    (step : visitGroup find maxLen state entry = .ok next) :
    Visited maxLen align state next entry := by
  rcases visitGroup_inv step with ⟨skips, rfl⟩ | ⟨looks, rows, found, isLength, isBlocks⟩
  · have aligned : align ∣ state.currHitLength := by
      refine candidate.aligned.resolve_right ?_
      rintro ⟨-, fresh⟩
      have := skips.2
      rw [fresh] at this
      cases this
    have same : state.currHitLength / entry.1.spec.blockSize * entry.1.spec.blockSize =
        state.currHitLength := Nat.div_mul_cancel (Nat.dvd_trans divides aligned)
    simp only [same]
    exact ⟨candidate.le, aligned, fun _ _ => rfl, fun _ => ⟨rfl, rfl⟩,
      fun looks => absurd skips looks, fun _ => Nat.le_refl _⟩
  · have length := findLength _ _ _ _ found
    have within := Nat.mul_le_of_le_div _ _ _ length.bound
    constructor
    case le =>
      rw [isLength]
      exact Nat.le_trans within (searchLength_le candidate.le)
    case aligned =>
      rw [isLength]
      exact length.aligned
    case others =>
      intro i notMem
      rw [isBlocks, store_of_notMem _ _ notMem]
    case skipped => exact fun skips => absurd skips looks
    case looked =>
      intro _ i mem
      obtain ⟨hits, stored, same⟩ := store_of_mem state.hitBlocks rows mem
      rw [isLength, HitBlocks.numTokens, isBlocks, stored, Option.getD_some, same]
    case notMamba =>
      intro notMamba
      rw [isLength]
      exact length_le_of_hitLength length fun drops => by simp [drops, notMamba]

end Visits

/-! ### One round -/

section Rounds

variable {find : SpecGroup → Nat → Bool → Except KVError (List Row)} {maxLen align : Nat}
  {state next : HybridState} {entries : List (SpecGroup × Nat)}
  (visits : ∀ entry ∈ entries, ∀ state next, Candidate maxLen align state →
    visitGroup find maxLen state entry = .ok next → Visited maxLen align state next entry)

include visits

end Rounds

/-! ### All rounds -/

section Loop

variable (find : SpecGroup → Nat → Bool → Except KVError (List Row)) (maxLen : Nat)
  (groups : List SpecGroup) (simple : Bool)

/-- Every visit that is made has the hashes for it, and the visits of the last round do no
harm. What an earlier round has lengthened is looked up again. -/
def LoopOk (reaches lengthens : HybridState → SpecGroup × Nat → Prop) : Nat → HybridState → Prop
  | 0, _ => True
  | fuel + 1, state =>
    WhileOk reaches (visitGroup find maxLen) state groups.zipIdx ∧
      match groups.zipIdx.foldlM (visitGroup find maxLen) state with
      | .error _ => True
      | .ok next =>
        if state.currHitLength ≤ next.currHitLength ∨ simple then
          WhileOk (VisitOk lengthens) (visitGroup find maxLen) state groups.zipIdx
        else LoopOk reaches lengthens fuel next

instance decidableLoopOk (reaches lengthens : HybridState → SpecGroup × Nat → Prop)
    [∀ state entry, Decidable (reaches state entry)]
    [∀ state entry, Decidable (lengthens state entry)] : (fuel : Nat) → (state : HybridState) →
    Decidable (LoopOk find maxLen groups simple reaches lengthens fuel state)
  | 0, _ => inferInstanceAs (Decidable True)
  | fuel + 1, state =>
    have : Decidable (match groups.zipIdx.foldlM (visitGroup find maxLen) state with
        | .error _ => True
        | .ok next =>
          if state.currHitLength ≤ next.currHitLength ∨ simple then
            WhileOk (VisitOk lengthens) (visitGroup find maxLen) state groups.zipIdx
          else LoopOk find maxLen groups simple reaches lengthens fuel next) :=
      match groups.zipIdx.foldlM (visitGroup find maxLen) state with
      | .error _ => inferInstanceAs (Decidable True)
      | .ok next =>
        have := decidableLoopOk reaches lengthens fuel next
        inferInstanceAs (Decidable (ite _ _ _))
    inferInstanceAs (Decidable (_ ∧ _))

variable {find maxLen groups simple} {align : Nat} {state next : HybridState}
  (visits : ∀ entry ∈ groups.zipIdx, ∀ state next, Candidate maxLen align state →
    visitGroup find maxLen state entry = .ok next → Visited maxLen align state next entry)

include visits

omit visits in
/-- Where every visit keeps an invariant under which it does no harm, so does the loop. -/
theorem loopOk_of_invariant {reaches lengthens : HybridState → SpecGroup × Nat → Prop}
    (Inv : HybridState → Prop)
    (holds : ∀ state, ∀ entry ∈ groups.zipIdx, Inv state →
      reaches state entry ∧ VisitOk lengthens state entry)
    (keeps : ∀ state, ∀ entry ∈ groups.zipIdx, ∀ next, Inv state →
      visitGroup find maxLen state entry = .ok next → Inv next) {fuel : Nat} (start : Inv state) :
    LoopOk find maxLen groups simple reaches lengthens fuel state := by
  induction fuel generalizing state with
  | zero => trivial
  | succ fuel ih =>
    refine ⟨whileOk_of_invariant Inv (fun s e mem inv => (holds s e mem inv).1) keeps start, ?_⟩
    cases round : groups.zipIdx.foldlM (visitGroup find maxLen) state with
    | error e => trivial
    | ok next =>
      dsimp only
      split
      · exact whileOk_of_invariant Inv (fun s e mem inv => (holds s e mem inv).2) keeps start
      · exact ih (foldlM_keeps Inv keeps start round)

variable (nonempty : groups ≠ [])

include nonempty

end Loop

/-! ### The truncation -/

section Truncation

variable {first : SpecGroup} {others : List SpecGroup} {length i : Nat} {blocks : HitBlocks}

end Truncation

namespace KVCacheConfig

variable (cfg : KVCacheConfig)

/-- The lookup of a spec group. -/
def findGroup (cfg : KVCacheConfig) (p : BlockPool H) (hashes : List H) (group : SpecGroup)
    (maxLen : Nat) (drop : Bool) : Except KVError (List Row) :=
  KVCache.findLongestCacheHit p hashes cfg.hashBlockSize maxLen group.groupIds group.spec 1 drop
    cfg.schedulerBlockSize

/-- The block hashes reach as far as a lookup from the right starts. Full attention starts
from the left, and a list of a coarser granularity never runs out. -/
def Reaches (cfg : KVCacheConfig) (hashes : List H) (maxLen : Nat) (state : HybridState)
    (entry : SpecGroup × Nat) : Prop :=
  entry.1.spec.isFullAttention = false → entry.1.spec.blockSize / cfg.hashBlockSize = 1 →
    searchLength maxLen state entry / entry.1.spec.blockSize ≤ hashes.length

instance (cfg : KVCacheConfig) (hashes : List H) (maxLen : Nat) (state : HybridState)
    (entry : SpecGroup × Nat) : Decidable (cfg.Reaches hashes maxLen state entry) :=
  inferInstanceAs (Decidable (_ → _ → _))

/-- The Mamba lookup of an eagle group finds the block behind the current length, which it
does not drop. -/
def FindsEagleBlock (cfg : KVCacheConfig) (p : BlockPool H) (hashes : List H) (maxLen : Nat)
    (state : HybridState) (entry : SpecGroup × Nat) : Prop :=
  let blockSize := entry.1.spec.blockSize
  entry.1.spec.isMamba = true ∧ dropsEagle state entry = true ∧ blockSize = cfg.schedulerBlockSize ∧
    state.currHitLength + blockSize ≤ maxLen ∧
    Hits (lookupBlock p hashes (blockSize / cfg.hashBlockSize) entry.1.groupIds)
      (state.currHitLength / blockSize)

instance (cfg : KVCacheConfig) (p : BlockPool H) (hashes : List H) (maxLen : Nat)
    (state : HybridState) (entry : SpecGroup × Nat) :
    Decidable (cfg.FindsEagleBlock p hashes maxLen state entry) :=
  inferInstanceAs (Decidable (_ ∧ _ ∧ _ ∧ _ ∧ _))

/-- `self.is_simple_hybrid`. -/
def isSimpleHybrid (cfg : KVCacheConfig) : Bool :=
  cfg.attentionGroups.length = 2 &&
    (cfg.attentionGroups.head?.map (·.spec.isFullAttention)).getD false

/-- The lookups have the hashes that they ask for, and in the last round no Mamba lookup finds
the block behind the hit and the full-attention hits, which are those of the first round, fit
it. -/
def VisitsOk (cfg : KVCacheConfig) (p : BlockPool H) (hashes : List H) (maxLen : Nat) : Prop :=
  LoopOk (cfg.findGroup p hashes) maxLen cfg.attentionGroups cfg.isSimpleHybrid
    (cfg.Reaches hashes maxLen) (cfg.FindsEagleBlock p hashes maxLen) (maxLen + 1) (.init maxLen)

instance (cfg : KVCacheConfig) (p : BlockPool H) (hashes : List H) (maxLen : Nat) :
    Decidable (cfg.VisitsOk p hashes maxLen) :=
  inferInstanceAs (Decidable (LoopOk ..))

variable {cfg} {p : BlockPool H} {hashes : List H} {maxLen : Nat} {group : SpecGroup}
  {state : HybridState} {entry : SpecGroup × Nat}

theorem findGroup_length {group : SpecGroup} {maxLength : Nat} {drop : Bool} {rows : List Row}
    (run : cfg.findGroup p hashes group maxLength drop = .ok rows) :
    HitLength group.spec.blockSize cfg.schedulerBlockSize maxLength (drop && !group.spec.isMamba)
      rows := by
  have := findLongestCacheHit_length run
  rwa [Nat.mul_one] at this

/-- The loop of Mamba finds the last block of its search if that is cached, and no block is
too short for the alignment. -/
theorem mambaHit_of_hit {lookup : Nat → Except KVError (Option Row)} {numGroups maxLength
    blockSize m : Nat} {row : Row} (blocks : maxLength / blockSize = m + 1)
    (hit : lookup m = .ok (some row)) :
    mambaHit lookup numGroups maxLength blockSize blockSize =
      .ok (replicate m (nullRow numGroups) ++ [row]) := by
  rw [mambaHit, blocks, mambaLoop, hit]
  simp

theorem mambaHit_length_le {lookup : Nat → Except KVError (Option Row)} {numGroups maxLength
    blockSize align m : Nat} {rows : List Row} (blocks : maxLength / blockSize = m + 1)
    (run : mambaHit lookup numGroups maxLength blockSize align = .ok rows)
    (miss : ¬ Hits lookup m) : rows.length ≤ m := by
  rw [mambaHit, blocks] at run
  obtain ⟨hit, looked, run⟩ := bind_eq_ok.mp run
  cases hit with
  | none => exact (mambaLoop_lastRun (.start _ Nat.one_pos) run).le
  | some row => exact absurd ⟨row, looked⟩ miss

/-- A lookup lengthens the hit only for Mamba, and there exactly if it finds the block
behind it. -/
theorem lengthens_iff (divides : entry.1.spec.blockSize ∣ cfg.schedulerBlockSize)
    (pos : 0 < cfg.schedulerBlockSize) (candidate : Candidate maxLen cfg.schedulerBlockSize state) :
    Lengthens (cfg.findGroup p hashes) maxLen state entry ↔
      cfg.FindsEagleBlock p hashes maxLen state entry := by
  have blockPos := entry.1.spec.blockSize_pos
  have blockLe := Nat.le_of_dvd pos divides
  constructor
  · rintro ⟨next, step, longer⟩
    have visited := visited_of_visitGroup (fun _ _ _ _ run => findGroup_length run) divides
      candidate step
    have mamba : entry.1.spec.isMamba = true := by
      by_contra notMamba
      have := visited.notMamba (by simpa using notMamba)
      omega
    rcases visitGroup_inv step with ⟨skips, -⟩ | ⟨-, rows, found, isLength, -⟩
    · have := (visited.skipped skips).1
      omega
    rw [isLength] at longer
    have length := findGroup_length found
    have drops : dropsEagle state entry = true := by
      by_contra keeps
      have := length_le_of_hitLength length fun drops => absurd drops keeps
      omega
    have within := Nat.mul_le_of_le_div _ _ _ length.bound
    rw [searchLength, if_pos drops] at within
    have aligned : cfg.schedulerBlockSize ∣ state.currHitLength := by
      refine candidate.aligned.resolve_right ?_
      rintro ⟨atMax, -⟩
      omega
    -- The next aligned length is a whole alignment further, and the search ends a block further.
    have further := Nat.le_of_dvd (by omega) (Nat.dvd_sub length.aligned aligned)
    refine ⟨mamba, drops, by omega, by omega, ?_⟩
    by_contra miss
    obtain ⟨mode, k, kind⟩ := kind_of_isMamba mamba
    rw [findGroup, findLongestCacheHit_mamba kind, searchLength, if_pos drops,
      Nat.min_eq_left (by omega)] at found
    have le := mambaHit_length_le (Nat.add_div_right _ blockPos) found miss
    have := Nat.mul_le_of_le_div _ _ _ le
    omega
  · rintro ⟨mamba, drops, same, fits, row, hit⟩
    obtain ⟨mode, k, kind⟩ := kind_of_isMamba mamba
    have looks : ¬ Skips state entry.1 := by
      rintro ⟨full, -⟩
      rw [notFull_of_isMamba mamba] at full
      cases full
    have found : cfg.findGroup p hashes entry.1 (searchLength maxLen state entry)
        (dropsEagle state entry) = .ok (replicate (state.currHitLength / entry.1.spec.blockSize)
          (nullRow entry.1.groupIds.length) ++ [row]) := by
      rw [findGroup, findLongestCacheHit_mamba kind, searchLength, if_pos drops,
        Nat.min_eq_left fits, ← same]
      exact mambaHit_of_hit (Nat.add_div_right _ blockPos) hit
    refine ⟨_, by rw [visitGroup_of_not_skips looks, found]; rfl, ?_⟩
    rw [length_append, length_replicate, length_singleton, Nat.mul_comm]
    exact Nat.lt_mul_div_succ _ blockPos

theorem IsHybrid.divides_of_mem (hybrid : cfg.IsHybrid) (mem : group ∈ cfg.attentionGroups) :
    group.spec.blockSize ∣ cfg.schedulerBlockSize := by
  obtain ⟨g, inGroups, same⟩ := mem_map.mp (cfg.attentionGroups_split.specOf group mem)
  exact same ▸ hybrid.divides g inGroups

theorem IsHybrid.visits (hybrid : cfg.IsHybrid) :
    ∀ entry ∈ cfg.attentionGroups.zipIdx, ∀ state next,
      Candidate maxLen cfg.schedulerBlockSize state →
      visitGroup (cfg.findGroup p hashes) maxLen state entry = .ok next →
      Visited maxLen cfg.schedulerBlockSize state next entry :=
  fun _ mem _ _ candidate step => visited_of_visitGroup (fun _ _ _ _ run => findGroup_length run)
    (hybrid.divides_of_mem (fst_mem_of_mem_zipIdx mem)) candidate step

section Hybrid

variable (hybrid : cfg.IsHybrid)
include hybrid

theorem IsHybrid.nonempty : cfg.attentionGroups ≠ [] := by
  intro none
  have := hybrid.twoSpecs
  simp [none] at this

end Hybrid

/-- No Mamba spec group with an eagle group has blocks of the scheduler's size, and there is
one full-attention spec at most. -/
structure CoherentConfig (cfg : KVCacheConfig) : Prop where
  mamba : ∀ g ∈ cfg.attentionGroups, g.useEagle = true → g.spec.isMamba = true →
    g.spec.blockSize ≠ cfg.schedulerBlockSize
  oneFull : ∀ g ∈ cfg.attentionGroups.tail, g.spec.isFullAttention = false

theorem CoherentConfig.not_findsEagleBlock (coherent : cfg.CoherentConfig)
    (mem : entry ∈ cfg.attentionGroups.zipIdx) :
    ¬ cfg.FindsEagleBlock p hashes maxLen state entry := by
  rintro ⟨mamba, drops, same, -⟩
  have useEagle : entry.1.useEagle = true := by simp_all [dropsEagle]
  exact coherent.mamba _ (fst_mem_of_mem_zipIdx mem) useEagle mamba same

/-- In such a configuration, hashes up to the maximal length are all that the lookup needs,
whatever the cache holds. -/
theorem CoherentConfig.visitsOk (hybrid : cfg.IsHybrid) (coherent : cfg.CoherentConfig)
    (p : BlockPool H)
    (reach : ∀ g ∈ cfg.attentionGroups, g.spec.isFullAttention = false →
      g.spec.blockSize / cfg.hashBlockSize = 1 → maxLen / g.spec.blockSize ≤ hashes.length) :
    cfg.VisitsOk p hashes maxLen := by
  have split := cfg.attentionGroups_split
  obtain ⟨first, others, groups⟩ := exists_cons_of_ne_nil hybrid.nonempty
  -- The candidate length has not grown since full attention was looked up.
  refine loopOk_of_invariant (fun state => Candidate maxLen cfg.schedulerBlockSize state ∧
    (Skips state first → HasAtLeast state.hitBlocks first state.currHitLength)) ?_ ?_ ?_
  · rintro state entry mem ⟨candidate, covers⟩
    have inGroups := fst_mem_of_mem_zipIdx mem
    constructor
    · intro notFull one
      exact Nat.le_trans (Nat.div_le_div_right (searchLength_le candidate.le))
        (reach _ inGroups notFull one)
    · unfold VisitOk
      split
      · rename_i skips
        rw [groups, zipIdx_cons] at mem
        rcases mem_cons.mp mem with rfl | later
        · rw [FitsLength, if_pos ⟨rfl, skips.1⟩]
          exact covers skips
        · have isTail : entry.1 ∈ cfg.attentionGroups.tail := by
            rw [groups]
            exact fst_mem_of_mem_zipIdx later
          have := skips.1
          rw [coherent.oneFull _ isTail] at this
          cases this
      · exact coherent.not_findsEagleBlock mem
  · rintro state entry mem next ⟨candidate, covers⟩ step
    have visited := hybrid.visits entry mem state next candidate step
    have le : next.currHitLength ≤ state.currHitLength := by
      refine Nat.le_of_not_lt fun longer => ?_
      have finds := (lengthens_iff (hybrid.divides_of_mem (fst_mem_of_mem_zipIdx mem)) hybrid.pos
        candidate).mp ⟨next, step, longer⟩
      exact coherent.not_findsEagleBlock mem finds
    refine ⟨visited.candidate, fun stored => ?_⟩
    by_cases isFirst : entry.1 = first
    · subst isFirst
      by_cases skips : Skips state entry.1
      · rw [(visited.skipped skips).2]
        exact fun i inFirst => Nat.le_trans le (covers skips i inFirst)
      · exact fun i inFirst => (visited.looked skips i inFirst).ge
    · have inGroups : first ∈ cfg.attentionGroups := by simp [groups]
      have kept : ∀ i ∈ first.groupIds, next.hitBlocks i = state.hitBlocks i := fun i inFirst =>
        visited.others i (split.apart inGroups (fst_mem_of_mem_zipIdx mem) (Ne.symm isFirst) i inFirst)
      have skips : Skips state first := by
        rwa [Skips, ← kept _ (headD_mem (split.nonempty first inGroups))]
      intro i inFirst
      rw [HitBlocks.numTokens, kept i inFirst]
      exact Nat.le_trans le (covers skips i inFirst)
  · exact ⟨.init maxLen _, fun skips => by cases skips.2⟩

/-- Full attention and Mamba with blocks of four tokens, eagle on and no group
flagged. -/
def fullAndMamba : KVCacheConfig where
  kvCacheGroups := [⟨{ kind := .fullAttention, blockSize := 4 }, false⟩,
    ⟨{ kind := .mamba .align 0, blockSize := 4 }, false⟩]
  numBlocks := 10
  maxModelLen := 64
  maxNumBatchedTokens := 64
  schedulerBlockSize := 4
  hashBlockSize := 4
  useEagle := true

end KVCacheConfig

end Vllm.KVCache
