import Vllm.KVCache.HitCoherence

/-!
The hybrid lookup without eagle: the greatest length that all groups take over.

A group that does not accept the candidate length lowers it to the greatest one at which
its lookup stops, never below a length common to all, and a round without change has found
such a length (`Vllm.Lib.Descent`). Full attention accepts every shorter length too.
With one full-attention spec and one other, the first round ends there already
(`hybridLoop_simple`).
-/

namespace Vllm.KVCache

open Vllm.Lib.Descent Vllm.Lib.Fallible Vllm.Lib.RunScan List

variable {H : Type}

/-! ### The loop over plain lookups -/

section Loop

/-- The lookups that the loop runs over: no eagle drop, each the greatest aligned length that
its group accepts. -/
structure PlainLookups (find : SpecGroup → Nat → Bool → Except KVError (List Row)) (align : Nat)
    (accepts : SpecGroup → Nat → Prop) (groups : List SpecGroup) : Prop where
  split : SplitOk groups
  noEagle : ∀ g ∈ groups, g.useEagle = false
  divides : ∀ g ∈ groups, g.spec.blockSize ∣ align
  greatest : ∀ g ∈ groups, ∀ m rows, find g m false = .ok rows →
    Greatest (fun L => align ∣ L ∧ accepts g L) m (rows.length * g.spec.blockSize)
  downward : ∀ g ∈ groups, g.spec.isFullAttention = true → ∀ L L', L' ≤ L → accepts g L → accepts g L'
  again : ∀ g ∈ groups, g.spec.isFullAttention = false → ∀ m rows, find g m false = .ok rows →
    find g (rows.length * g.spec.blockSize) false = .ok rows

/-- A length that every group accepts. -/
def Common (align : Nat) (accepts : SpecGroup → Nat → Prop) (groups : List SpecGroup) (L : Nat) :
    Prop := align ∣ L ∧ ∀ g ∈ groups, accepts g L

def Stored (state : HybridState) (g : SpecGroup) : Prop :=
  (state.hitBlocks (g.groupIds.headD 0)).isSome = true

variable {find : SpecGroup → Nat → Bool → Except KVError (List Row)} {maxLen align : Nat}
  {accepts : SpecGroup → Nat → Prop} {groups : List SpecGroup}

variable {state next : HybridState} {g first : SpecGroup} {rows : List Row} {blocks : HitBlocks}
  {idx fuel reach : Nat} {entries : List (SpecGroup × Nat)}

section

variable (plain : PlainLookups find align accepts groups)
include plain

/-- A visit trims the candidate or looks the group up. -/
theorem visitGroup_cases (mem : g ∈ groups)
    (step : visitGroup find maxLen state (g, idx) = .ok next) :
    (g.spec.isFullAttention = true ∧ Stored state g ∧ next.hitBlocks = state.hitBlocks ∧
      next.currHitLength = state.currHitLength / g.spec.blockSize * g.spec.blockSize) ∨
    (¬ (g.spec.isFullAttention = true ∧ Stored state g) ∧
      ∃ rows, find g state.currHitLength false = .ok rows ∧
        next.currHitLength = rows.length * g.spec.blockSize ∧
        next.hitBlocks = state.hitBlocks.store g.groupIds rows) := by
  unfold visitGroup at step
  dsimp only at step
  split at step
  · rename_i skipped
    cases step
    exact .inl ⟨skipped.1, skipped.2, rfl, rfl⟩
  · rename_i looked
    rw [plain.noEagle g mem] at step
    obtain ⟨rows, found, step⟩ := bind_eq_ok.mp step
    cases step
    exact .inr ⟨looked, rows, found, rfl, rfl⟩

omit plain in
theorem visitGroup_ok (maxLen : Nat) (plain : PlainLookups find align accepts groups)
    (mem : g ∈ groups) (idx : Nat) (found : find g state.currHitLength false = .ok rows) :
    ∃ next, visitGroup find maxLen state (g, idx) = .ok next := by
  unfold visitGroup
  dsimp only
  split
  · exact ⟨_, rfl⟩
  · rw [plain.noEagle g mem, Bool.false_and, if_neg nofun, found]
    exact ⟨_, rfl⟩

/-- What the loop knows of full attention: once looked up, it accepts the candidate. -/
def Known (align : Nat) (accepts : SpecGroup → Nat → Prop) (groups : List SpecGroup)
    (state : HybridState) : Prop :=
  ∀ g ∈ groups, g.spec.isFullAttention = true → Stored state g →
    align ∣ state.currHitLength ∧ accepts g state.currHitLength

/-- After a visit the group accepts the candidate, which is not below a common length. -/
structure Lowered (align : Nat) (accepts : SpecGroup → Nat → Prop) (groups : List SpecGroup)
    (g : SpecGroup) (state next : HybridState) : Prop where
  le : next.currHitLength ≤ state.currHitLength
  accepted : align ∣ next.currHitLength ∧ accepts g next.currHitLength
  above : ∀ m, Above (Common align accepts groups) m state.currHitLength →
    Above (Common align accepts groups) m next.currHitLength
  known : Known align accepts groups next
  stored : Stored next g
  keeps : ∀ g' ∈ groups, Stored state g' → Stored next g'

omit plain in
theorem Known.start (fresh : ∀ i, state.hitBlocks i = none) : Known align accepts groups state := by
  intro g _ _ stored
  rw [Stored, fresh] at stored
  cases stored

theorem visitGroup_lowered (mem : g ∈ groups) (known : Known align accepts groups state)
    (step : visitGroup find maxLen state (g, idx) = .ok next) :
    Lowered align accepts groups g state next := by
  rcases visitGroup_cases plain mem step with ⟨full, stored, blocks, length⟩ |
    ⟨notBoth, rows, found, length, blocks⟩
  · have ⟨aligned, accepted⟩ := known g mem full stored
    have same : next.currHitLength = state.currHitLength := by
      rw [length]
      exact Nat.div_mul_cancel (Nat.dvd_trans (plain.divides g mem) aligned)
    have storedIff : ∀ g', Stored next g' ↔ Stored state g' := by
      intro g'
      rw [Stored, Stored, blocks]
    constructor
    case le => exact le_of_eq same
    case accepted => exact same ▸ ⟨aligned, accepted⟩
    case above => exact fun m above => same ▸ above
    case known =>
      intro g' mem' full' stored'
      rw [same]
      exact known g' mem' full' ((storedIff g').mp stored')
    case stored => exact (storedIff g).mpr stored
    case keeps => exact fun g' _ stored' => (storedIff g').mpr stored'
  · have greatest := plain.greatest g mem _ _ found
    rw [← length] at greatest
    have storedNow : Stored next g := by
      obtain ⟨hits, stored, -⟩ := store_of_mem state.hitBlocks rows
        (headD_mem (plain.split.nonempty g mem))
      rw [Stored, blocks, stored]
      rfl
    have keeps : ∀ g' ∈ groups, Stored state g' → Stored next g' := by
      intro g' _ stored'
      by_cases inside : g'.groupIds.headD 0 ∈ g.groupIds
      · obtain ⟨hits, stored, -⟩ := store_of_mem state.hitBlocks rows inside
        rw [Stored, blocks, stored]
        rfl
      · rw [Stored, blocks, store_of_notMem _ _ inside]
        exact stored'
    constructor
    case le => exact greatest.le
    case accepted => exact greatest.accepted
    case above =>
      exact fun m above => above.lower (fun L common => ⟨common.1, common.2 g mem⟩) greatest
    case known =>
      intro g' mem' full' stored'
      refine ⟨greatest.accepted.1, ?_⟩
      by_cases same : g' = g
      · exact same ▸ greatest.accepted.2
      · -- Another group has its blocks from before, and then accepted the longer candidate.
        have apart : g'.groupIds.headD 0 ∉ g.groupIds :=
          plain.split.apart mem' mem same _ (headD_mem (plain.split.nonempty g' mem'))
        rw [Stored, blocks, store_of_notMem _ _ apart] at stored'
        exact plain.downward g' mem' full' _ _ greatest.le (known g' mem' full' stored').2
    case stored => exact storedNow
    case keeps => exact keeps

/-- A round lowers the candidate; if it does not, every group accepts it. -/
structure Rounded (align : Nat) (accepts : SpecGroup → Nat → Prop) (groups : List SpecGroup)
    (entries : List (SpecGroup × Nat)) (state next : HybridState) : Prop where
  le : next.currHitLength ≤ state.currHitLength
  above : ∀ m, Above (Common align accepts groups) m state.currHitLength →
    Above (Common align accepts groups) m next.currHitLength
  known : Known align accepts groups next
  accepted : next.currHitLength = state.currHitLength →
    ∀ entry ∈ entries, align ∣ next.currHitLength ∧ accepts entry.1 next.currHitLength

theorem round_rounded (among : ∀ entry ∈ entries, entry.1 ∈ groups)
    (known : Known align accepts groups state)
    (run : entries.foldlM (visitGroup find maxLen) state = .ok next) :
    Rounded align accepts groups entries state next := by
  induction entries generalizing state with
  | nil =>
    cases run
    exact ⟨le_rfl, fun _ above => above, known, nofun⟩
  | cons entry rest ih =>
    obtain ⟨mid, step, run⟩ := bind_eq_ok.mp run
    obtain ⟨mem, among⟩ := forall_mem_cons.mp among
    have first := visitGroup_lowered plain mem known step
    have then_ := ih among first.known run
    refine ⟨then_.le.trans first.le, fun m above => then_.above m (first.above m above),
      then_.known, ?_⟩
    intro unchanged other mem
    -- The candidate did not change at the first group nor at the others.
    have restSame : next.currHitLength = mid.currHitLength := by
      have := then_.le
      have := first.le
      omega
    rcases mem_cons.mp mem with rfl | mem
    · rw [restSame]
      exact first.accepted
    · exact then_.accepted restSame other mem

/-- The loop that runs to the fixed point returns the greatest common length. -/
theorem hybridLoop_greatest (some : groups ≠ []) {hitLength : Nat}
    (enough : state.currHitLength < fuel) (known : Known align accepts groups state)
    (above : Above (Common align accepts groups) maxLen state.currHitLength)
    (run : hybridLoop find maxLen groups false fuel state = .ok (hitLength, blocks)) :
    Greatest (Common align accepts groups) maxLen hitLength := by
  induction fuel generalizing state with
  | zero => omega
  | succ fuel ih =>
    obtain ⟨next, round, run⟩ := bind_eq_ok.mp run
    have rounded := round_rounded plain (fun _ => fst_mem_of_mem_zipIdx) known round
    split at run
    · rename_i unchanged
      have same : next.currHitLength = state.currHitLength := le_antisymm rounded.le unchanged
      rw [pure_eq_ok, Except.ok.injEq, Prod.mk.injEq] at run
      rw [← run.1]
      have all : ∀ g ∈ groups, align ∣ state.currHitLength ∧ accepts g state.currHitLength := by
        intro g mem
        obtain ⟨i, lt, at_i⟩ := getElem_of_mem mem
        have entry : (g, i) ∈ groups.zipIdx := by
          rw [mk_mem_zipIdx_iff_getElem?, getElem?_eq_getElem lt, at_i]
        rw [← same]
        exact rounded.accepted same (g, i) entry
      refine above.greatest ⟨?_, fun g mem => (all g mem).2⟩
      obtain ⟨g, mem⟩ := exists_mem_of_ne_nil groups some
      exact (all g mem).1
    · exact ih (by omega) rounded.known (rounded.above maxLen above) run

/-! ### One round is enough with one other spec -/

omit plain in
theorem store_store (blocks : HitBlocks) (groupIds : List Nat) (rows : List Row) :
    (blocks.store groupIds rows).store groupIds rows = blocks.store groupIds rows := by
  funext groupId
  unfold HitBlocks.store
  cases groupIds.idxOf? groupId <;> rfl

/-- A second visit with the length that the first one left changes nothing. -/
theorem visitGroup_again (mem : g ∈ groups) (known : Known align accepts groups state)
    (step : visitGroup find maxLen state (g, idx) = .ok next) {later : HybridState}
    (length : later.currHitLength = next.currHitLength) (blocks : later.hitBlocks = next.hitBlocks) :
    ∃ last, visitGroup find maxLen later (g, idx) = .ok last ∧
      last.currHitLength = next.currHitLength ∧ last.hitBlocks = next.hitBlocks := by
  have lowered := visitGroup_lowered plain mem known step
  have stored : Stored later g := by
    rw [Stored, blocks]
    exact lowered.stored
  by_cases full : g.spec.isFullAttention = true
  · refine ⟨{ later with
      currHitLength := later.currHitLength / g.spec.blockSize * g.spec.blockSize }, ?_, ?_, blocks⟩
    · unfold visitGroup
      rw [if_pos ⟨full, stored⟩]
    · rw [length]
      exact Nat.div_mul_cancel (Nat.dvd_trans (plain.divides g mem) lowered.accepted.1)
  · rcases visitGroup_cases plain mem step with ⟨isFull, -⟩ | ⟨-, rows, found, isLength, isBlocks⟩
    · exact absurd isFull full
    · have again := plain.again g mem (by simpa using full) _ _ found
      rw [← isLength, ← length] at again
      obtain ⟨last, visited⟩ := visitGroup_ok maxLen plain mem idx again
      refine ⟨last, visited, ?_⟩
      rcases visitGroup_cases plain mem visited with ⟨isFull, -⟩ |
        ⟨-, rows', found', isLength', isBlocks'⟩
      · exact absurd isFull full
      · rw [again] at found'
        cases found'
        refine ⟨isLength'.trans isLength.symm, ?_⟩
        rw [isBlocks', blocks, isBlocks, store_store]

end

/-- With full attention and one other spec the loop would find after the first round that
nothing changes any more. -/
theorem hybridLoop_simple {other : SpecGroup}
    (plain : PlainLookups find align accepts [first, other])
    (full : first.spec.isFullAttention = true) (enough : state.currHitLength < fuel)
    (known : Known align accepts [first, other] state) :
    hybridLoop find maxLen [first, other] true fuel state =
      hybridLoop find maxLen [first, other] false fuel state := by
  have firstMem : first ∈ [first, other] := mem_cons_self
  have otherMem : other ∈ [first, other] := mem_cons_of_mem _ mem_cons_self
  obtain ⟨fuel, rfl⟩ : ∃ n, fuel = n + 1 := ⟨fuel - 1, by omega⟩
  unfold hybridLoop
  cases round : [first, other].zipIdx.foldlM (visitGroup find maxLen) state with
  | error e => rfl
  | ok next =>
    rw [ok_bind, ok_bind]
    split
    · rfl
    · rw [if_pos rfl, if_neg Bool.false_ne_true]
      obtain ⟨mid, firstStep, rest⟩ := bind_eq_ok.mp round
      obtain ⟨next', otherStep, rest⟩ := bind_eq_ok.mp rest
      cases rest
      have firstLowered := visitGroup_lowered plain firstMem known firstStep
      have otherLowered := visitGroup_lowered plain otherMem firstLowered.known otherStep
      obtain ⟨fuel, rfl⟩ : ∃ n, fuel = n + 1 := ⟨fuel - 1, by omega⟩
      -- The second round trims full attention to what it is, and finds the other again.
      have trimmed : visitGroup find maxLen next (first, 0) = .ok next := by
        unfold visitGroup
        rw [if_pos ⟨full, otherLowered.keeps first firstMem firstLowered.stored⟩]
        rw [Nat.div_mul_cancel (Nat.dvd_trans (plain.divides first firstMem)
          otherLowered.accepted.1)]
      obtain ⟨last, visited, length, blocks⟩ :=
        visitGroup_again plain otherMem firstLowered.known otherStep rfl rfl
      have second : [first, other].zipIdx.foldlM (visitGroup find maxLen) next = .ok last := by
        rw [zipIdx_cons, foldlM_cons, trimmed, ok_bind]
        rw [zipIdx_cons, foldlM_cons, visited]
        rfl
      unfold hybridLoop
      rw [second, ok_bind, if_pos (le_of_eq length.symm), blocks]

/-! ### The loop comes to an end -/

/-- Every lookup within the hashes succeeds, and no accepted length is beyond them. -/
structure Reaching (find : SpecGroup → Nat → Bool → Except KVError (List Row)) (align : Nat)
    (accepts : SpecGroup → Nat → Prop) (groups : List SpecGroup) (reach : Nat) : Prop where
  ok : ∀ g ∈ groups, ∀ m ≤ reach, ∃ rows, find g m false = .ok rows
  within : ∀ g ∈ groups, ∀ L, align ∣ L → accepts g L → L ≤ reach

theorem round_ok (maxLen : Nat) (plain : PlainLookups find align accepts groups)
    (reaching : Reaching find align accepts groups reach)
    (among : ∀ entry ∈ entries, entry.1 ∈ groups) (known : Known align accepts groups state)
    (within : state.currHitLength ≤ reach) :
    ∃ next, entries.foldlM (visitGroup find maxLen) state = .ok next := by
  induction entries generalizing state with
  | nil => exact ⟨state, rfl⟩
  | cons entry rest ih =>
    obtain ⟨mem, among⟩ := forall_mem_cons.mp among
    obtain ⟨rows, found⟩ := reaching.ok entry.1 mem _ within
    obtain ⟨mid, step⟩ := visitGroup_ok maxLen plain mem entry.2 found
    have lowered := visitGroup_lowered plain mem known step
    obtain ⟨next, run⟩ := ih among lowered.known (lowered.le.trans within)
    refine ⟨next, ?_⟩
    rw [foldlM_cons, step, ok_bind, run]

theorem hybridLoop_ok (maxLen : Nat) (plain : PlainLookups find align accepts groups)
    (reaching : Reaching find align accepts groups reach) (known : Known align accepts groups state)
    (within : state.currHitLength ≤ reach) :
    ∃ out, hybridLoop find maxLen groups false fuel state = .ok out := by
  induction fuel generalizing state with
  | zero => exact ⟨_, rfl⟩
  | succ fuel ih =>
    obtain ⟨next, round⟩ := round_ok maxLen plain reaching
      (fun _ => fst_mem_of_mem_zipIdx) known within
    have rounded := round_rounded plain (fun _ => fst_mem_of_mem_zipIdx) known round
    unfold hybridLoop
    rw [round, ok_bind]
    split
    · exact ⟨_, rfl⟩
    · exact ih rounded.known (rounded.le.trans within)

/-- The first lookup is the only one that can run out of hashes. -/
theorem hybridLoop_ok_iff {others : List SpecGroup}
    (plain : PlainLookups find align accepts (first :: others))
    (reaching : Reaching find align accepts (first :: others) reach)
    (fresh : ∀ i, state.hitBlocks i = none) :
    (∃ out, hybridLoop find maxLen (first :: others) false (fuel + 1) state = .ok out) ↔
      ∃ rows, find first state.currHitLength false = .ok rows := by
  have firstMem : first ∈ first :: others := mem_cons_self
  have known : Known align accepts (first :: others) state := Known.start fresh
  constructor
  · rintro ⟨out, run⟩
    obtain ⟨next, round, -⟩ := bind_eq_ok.mp run
    obtain ⟨mid, step, -⟩ := bind_eq_ok.mp round
    rcases visitGroup_cases plain firstMem step with ⟨-, stored, -⟩ | ⟨-, rows, found, -⟩
    · rw [Stored, fresh] at stored
      cases stored
    · exact ⟨rows, found⟩
  · rintro ⟨rows, found⟩
    obtain ⟨mid, step⟩ := visitGroup_ok maxLen plain firstMem 0 found
    have lowered := visitGroup_lowered plain firstMem known step
    have within : mid.currHitLength ≤ reach :=
      reaching.within first firstMem _ lowered.accepted.1 lowered.accepted.2
    have among : ∀ entry ∈ others.zipIdx 1, entry.1 ∈ first :: others :=
      fun _ mem => mem_cons_of_mem _ (fst_mem_of_mem_zipIdx mem)
    obtain ⟨next, rest⟩ := round_ok maxLen plain reaching among lowered.known within
    have rounded := round_rounded plain among lowered.known rest
    have round : (first :: others).zipIdx.foldlM (visitGroup find maxLen) state = .ok next := by
      rw [zipIdx_cons, foldlM_cons, step, ok_bind, rest]
    unfold hybridLoop
    rw [round, ok_bind]
    split
    · exact ⟨_, rfl⟩
    · exact hybridLoop_ok maxLen plain reaching rounded.known (rounded.le.trans within)

end Loop

/-! ### Groups that share a spec -/

theorem getCachedBlock_isSome_iff (p : BlockPool H) (hash : List H) (groupIds : List Nat) :
    (∃ row, p.getCachedBlock hash groupIds = some row) ↔ ∀ i ∈ groupIds, p.cached ⟨hash, i⟩ ≠ [] := by
  constructor
  · rintro ⟨row, found⟩ i mem
    obtain ⟨b, head⟩ := exists_of_mapM found i mem
    exact ne_nil_of_mem (mem_of_mem_head? head)
  · intro cached
    unfold BlockPool.getCachedBlock
    induction groupIds with
    | nil => exact ⟨[], rfl⟩
    | cons i rest ih =>
      obtain ⟨first, cached⟩ := forall_mem_cons.mp cached
      obtain ⟨row, isRow⟩ := ih cached
      obtain ⟨b, bs, isCons⟩ := exists_cons_of_ne_nil first
      refine ⟨b :: row, ?_⟩
      rw [mapM_cons, isRow, isCons]
      rfl

variable {p : BlockPool H} {hashes : List H} {scale i : Nat} {groupIds : List Nat}

theorem hits_lookupBlock_iff :
    Hits (lookupBlock p hashes scale groupIds) i ↔
      ∃ hash, hashAt hashes scale i = .ok hash ∧ ∀ g ∈ groupIds, p.cached ⟨hash, g⟩ ≠ [] := by
  constructor
  · rintro ⟨row, looked⟩
    obtain ⟨hash, isHash, found⟩ := bind_eq_ok.mp looked
    exact ⟨hash, isHash, (getCachedBlock_isSome_iff p hash groupIds).mp ⟨row, Except.ok.inj found⟩⟩
  · rintro ⟨hash, isHash, cached⟩
    obtain ⟨row, found⟩ := (getCachedBlock_isSome_iff p hash groupIds).mpr cached
    refine ⟨row, ?_⟩
    rw [lookupBlock, isHash, ok_bind, found]
    rfl

/-- A block is found for all groups at once if it is found for each. -/
theorem hits_forall_iff (nonempty : groupIds ≠ []) :
    Hits (lookupBlock p hashes scale groupIds) i ↔
      ∀ g ∈ groupIds, Hits (lookupBlock p hashes scale [g]) i := by
  constructor
  · intro hits g mem
    obtain ⟨hash, isHash, cached⟩ := hits_lookupBlock_iff.mp hits
    refine hits_lookupBlock_iff.mpr ⟨hash, isHash, ?_⟩
    intro g' mem'
    rw [mem_singleton.mp mem']
    exact cached g mem
  · intro each
    obtain ⟨g, mem⟩ := exists_mem_of_ne_nil groupIds nonempty
    obtain ⟨hash, isHash, -⟩ := hits_lookupBlock_iff.mp (each g mem)
    refine hits_lookupBlock_iff.mpr ⟨hash, isHash, ?_⟩
    intro g' mem'
    obtain ⟨hash', isHash', cached⟩ := hits_lookupBlock_iff.mp (each g' mem')
    rw [isHash] at isHash'
    cases isHash'
    exact cached g' mem_cons_self

theorem groupStops_forall_iff (nonempty : groupIds ≠ []) {spec : KVCacheSpec} {L : Nat} :
    GroupStops (lookupBlock p hashes scale groupIds) spec L ↔
      ∀ g ∈ groupIds, GroupStops (lookupBlock p hashes scale [g]) spec L := by
  constructor
  · intro stops g mem i after before
    exact (hits_forall_iff nonempty).mp (stops i after before) g mem
  · intro each i after before
    exact (hits_forall_iff nonempty).mpr fun g mem => each g mem i after before

/-! ### The configuration -/

namespace KVCacheConfig

/-- The lookup of groups with one spec. -/
def groupLookup (cfg : KVCacheConfig) (p : BlockPool H) (blockHashes : List H) (spec : KVCacheSpec)
    (groupIds : List Nat) : Nat → Except KVError (Option Row) :=
  lookupBlock p blockHashes (spec.blockSize / cfg.hashBlockSize) groupIds

/-- A multiple of the scheduler's block size that every group can take over. -/
def CommonLength (cfg : KVCacheConfig) (p : BlockPool H) (blockHashes : List H) (L : Nat) : Prop :=
  cfg.schedulerBlockSize ∣ L ∧ ∀ i g, cfg.kvCacheGroups[i]? = some g →
    GroupAccepts (cfg.groupLookup p blockHashes g.kvCacheSpec [i]) g.kvCacheSpec L

/-- A hybrid coordinator without eagle over full attention, sliding window and Mamba. Its
constructor asserts that the hashes are of a granularity that every group can use. -/
structure PlainHybrid (cfg : KVCacheConfig) : Prop extends cfg.IsHybrid where
  granular : ∀ g ∈ cfg.kvCacheGroups, cfg.hashBlockSize ∣ g.kvCacheSpec.blockSize
  noEagle : ∀ i, cfg.isEagle i = false
  needsRun : ∀ g ∈ cfg.kvCacheGroups, g.kvCacheSpec.needsRun = true

/-- The cache knows whole blocks only. -/
def WholeHashes (cfg : KVCacheConfig) (p : BlockPool H) : Prop :=
  ∀ i g, cfg.kvCacheGroups[i]? = some g → ∀ hash, p.cached ⟨hash, i⟩ ≠ [] →
    hash.length = g.kvCacheSpec.blockSize / cfg.hashBlockSize

/-- The hashes reach as far as the first lookup goes, which full attention does not need. -/
def FirstReaches (cfg : KVCacheConfig) (blockHashes : List H) (maxLength : Nat) : Prop :=
  ∀ first ∈ cfg.attentionGroups.head?, first.spec.isFullAttention = false →
    first.spec.blockSize / cfg.hashBlockSize = 1 →
      maxLength / first.spec.blockSize ≤ blockHashes.length

/-- The last block is cached in every group with a window of one token. -/
def LastCached (cfg : KVCacheConfig) (p : BlockPool H) (blockHashes : List H) (L : Nat) : Prop :=
  ∀ i g w, cfg.kvCacheGroups[i]? = some g → g.kvCacheSpec.kind = .slidingWindow w → w ≤ 1 → 0 < L →
    Hits (cfg.groupLookup p blockHashes g.kvCacheSpec [i]) (L / g.kvCacheSpec.blockSize - 1)

/-- The coordinator's lookup without the shortcut, for `fuel` rounds at most. -/
def fixedPoint (cfg : KVCacheConfig) (p : BlockPool H) (blockHashes : List H)
    (maxCacheHitLength fuel : Nat) : Except KVError (List (List BlockId) × Nat) := do
  let (hitLength, blocks) ← hybridLoop
    (fun group maxLength drop => KVCache.findLongestCacheHit p blockHashes cfg.hashBlockSize
      maxLength group.groupIds group.spec 1 drop cfg.schedulerBlockSize)
    maxCacheHitLength cfg.attentionGroups false fuel ⟨maxCacheHitLength, fun _ => none, []⟩
  let blocks := truncateFirst cfg.attentionGroups hitLength blocks
  return ((range cfg.kvCacheGroups.length).map fun i => (blocks i).getD [], hitLength)

section Groups

variable {cfg : KVCacheConfig} {p : BlockPool H} {hashes : List H} {g : SpecGroup}

theorem useEagle_addToSpecGroups {spec : KVCacheSpec} {i : Nat} {groups : List SpecGroup}
    (none : ∀ g ∈ groups, g.useEagle = false) :
    ∀ g ∈ addToSpecGroups spec i false groups, g.useEagle = false := by
  induction groups with
  | nil =>
    intro g mem
    rw [mem_singleton.mp mem]
  | cons head rest ih =>
    obtain ⟨headNone, restNone⟩ := forall_mem_cons.mp none
    unfold addToSpecGroups
    split
    · exact forall_mem_cons.mpr ⟨(Bool.or_false _).trans headNone, restNone⟩
    · exact forall_mem_cons.mpr ⟨headNone, ih restNone⟩

theorem PlainHybrid.useEagle (plain : cfg.PlainHybrid) (mem : g ∈ cfg.attentionGroups) :
    g.useEagle = false := by
  have all : ∀ g ∈ cfg.specGroups, g.useEagle = false := by
    refine foldlRecOn _ _ (motive := fun groups : List SpecGroup => ∀ g ∈ groups, g.useEagle = false) ?_ ?_
    · intro g mem
      cases mem
    · intro groups none entry _
      rw [plain.noEagle]
      exact useEagle_addToSpecGroups none
  exact all g (cfg.attentionGroups_perm.mem_iff.mp mem)

theorem exists_group (mem : g ∈ cfg.attentionGroups) :
    ∃ group ∈ cfg.kvCacheGroups, group.kvCacheSpec = g.spec :=
  mem_map.mp (cfg.attentionGroups_split.specOf g mem)

theorem PlainHybrid.scale_pos (plain : cfg.PlainHybrid) (mem : g ∈ cfg.attentionGroups) :
    0 < g.spec.blockSize / cfg.hashBlockSize ∧
      g.spec.blockSize / cfg.hashBlockSize * cfg.hashBlockSize = g.spec.blockSize := by
  obtain ⟨group, groupMem, same⟩ := exists_group mem
  have dvd := plain.granular group groupMem
  rw [same] at dvd
  have cancel := Nat.div_mul_cancel dvd
  refine ⟨Nat.pos_of_ne_zero fun zero => ?_, cancel⟩
  rw [zero] at cancel
  exact absurd g.spec.blockSize_pos (by omega)

/-- A block that is found lies within the hashes. -/
theorem WholeHashes.lt (whole : cfg.WholeHashes p) (plain : cfg.PlainHybrid)
    (mem : g ∈ cfg.attentionGroups) {i : Nat}
    (hits : Hits (cfg.groupLookup p hashes g.spec g.groupIds) i) :
    i < hashes.length / (g.spec.blockSize / cfg.hashBlockSize) := by
  have split := cfg.attentionGroups_split
  have pos := (plain.scale_pos mem).1
  obtain ⟨hash, isHash, cached⟩ := hits_lookupBlock_iff.mp hits
  have headMem := headD_mem (split.nonempty g mem)
  have spec := split.spec_at mem headMem
  rw [getElem?_map] at spec
  obtain ⟨group, isGroup, same⟩ := Option.map_eq_some_iff.mp spec
  have length := whole _ group isGroup hash (cached _ headMem)
  rw [same] at length
  rw [Nat.lt_iff_add_one_le, Nat.le_div_iff_mul_le pos]
  unfold hashAt at isHash
  split at isHash
  · rename_i one
    split at isHash
    · rename_i found
      have inside := (List.getElem?_eq_some_iff.mp found).1
      rw [one, Nat.mul_one]
      exact inside
    · cases isHash
  · cases isHash
    rw [length_take, length_drop] at length
    rw [Nat.succ_mul]
    omega

/-- The coordinator's lookup of a spec group. -/
def plainFind (cfg : KVCacheConfig) (p : BlockPool H) (blockHashes : List H) (group : SpecGroup)
    (maxLength : Nat) (drop : Bool) : Except KVError (List Row) :=
  KVCache.findLongestCacheHit p blockHashes cfg.hashBlockSize maxLength group.groupIds group.spec 1
    drop cfg.schedulerBlockSize

/-- Where the lookup of a spec group stops. -/
def Stops (cfg : KVCacheConfig) (p : BlockPool H) (blockHashes : List H) (g : SpecGroup) (L : Nat) :
    Prop :=
  GroupStops (cfg.groupLookup p blockHashes g.spec g.groupIds) g.spec L

section

variable (plain : cfg.PlainHybrid)
include plain

theorem PlainHybrid.needsRun_of_mem (mem : g ∈ cfg.attentionGroups) : g.spec.needsRun = true := by
  obtain ⟨group, groupMem, same⟩ := exists_group mem
  rw [← same]
  exact plain.needsRun group groupMem

theorem PlainHybrid.divides_of_mem (mem : g ∈ cfg.attentionGroups) :
    g.spec.blockSize ∣ cfg.schedulerBlockSize := by
  obtain ⟨group, groupMem, same⟩ := exists_group mem
  rw [← same]
  exact plain.divides group groupMem

theorem PlainHybrid.lookups (whole : cfg.WholeHashes p) :
    PlainLookups (cfg.plainFind p hashes) cfg.schedulerBlockSize (cfg.Stops p hashes)
      cfg.attentionGroups := by
  constructor
  case split => exact cfg.attentionGroups_split.toSplitOk
  case noEagle => exact fun g mem => plain.useEagle mem
  case divides => exact fun g mem => plain.divides_of_mem mem
  case greatest =>
    intro g mem m rows found
    exact findLongestCacheHit_greatest (plain.needsRun_of_mem mem) (plain.divides_of_mem mem)
      (fun i hits => whole.lt plain mem hits) found
  case downward =>
    intro g mem full L L' le stops
    -- All blocks of the longer hit are cached.
    have all : ∀ L, cfg.Stops p hashes g L ↔ ∀ i < L / g.spec.blockSize,
        Hits (cfg.groupLookup p hashes g.spec g.groupIds) i := by
      intro L
      have needed : g.spec.blocksNeeded (L / g.spec.blockSize) = L / g.spec.blockSize := by
        unfold KVCacheSpec.blocksNeeded
        rw [of_decide_eq_true full]
      unfold Stops GroupStops
      rw [needed]
      exact runBefore_iff_all (Nat.le_max_right _ _)
    rw [all] at stops ⊢
    intro i lt
    exact stops i (lt.trans_le (Nat.div_le_div_right le))
  case again =>
    intro g mem notFull m rows found
    exact findLongestCacheHit_again (plain.needsRun_of_mem mem) notFull found

theorem PlainHybrid.reaching (whole : cfg.WholeHashes p) :
    Reaching (cfg.plainFind p hashes) cfg.schedulerBlockSize (cfg.Stops p hashes)
      cfg.attentionGroups (hashes.length * cfg.hashBlockSize) := by
  constructor
  case ok =>
    intro g mem m le
    refine (findLongestCacheHit_ok_iff (plain.needsRun_of_mem mem)).mpr fun _ one => ?_
    have same := (plain.scale_pos mem).2
    rw [one, Nat.one_mul] at same
    rw [same] at le
    exact Nat.div_le_of_le_mul (by rwa [Nat.mul_comm])
  case within =>
    intro g mem L aligned stops
    obtain ⟨n, rfl⟩ := Nat.dvd_trans (plain.divides_of_mem mem) aligned
    have ⟨pos, same⟩ := plain.scale_pos mem
    rcases Nat.eq_zero_or_pos n with zero | positive
    · rw [zero]
      exact Nat.zero_le _
    · unfold Stops GroupStops at stops
      rw [Nat.mul_div_cancel_left n g.spec.blockSize_pos] at stops
      have inside := whole.lt plain mem (stops (n - 1) (by omega) (by omega))
      have blocks : n * (g.spec.blockSize / cfg.hashBlockSize) ≤ hashes.length :=
        (Nat.le_div_iff_mul_le pos).mp (by omega)
      calc g.spec.blockSize * n
          = n * (g.spec.blockSize / cfg.hashBlockSize) * cfg.hashBlockSize := by
            rw [Nat.mul_assoc, same, Nat.mul_comm]
        _ ≤ hashes.length * cfg.hashBlockSize := Nat.mul_le_mul_right _ blocks

/-- The lookups stop at the common lengths whose last block is cached where the window asks
for none. -/
theorem common_iff {L : Nat} :
    Common cfg.schedulerBlockSize (cfg.Stops p hashes) cfg.attentionGroups L ↔
      cfg.CommonLength p hashes L ∧ cfg.LastCached p hashes L := by
  have split := cfg.attentionGroups_split
  -- Spec groups and groups stop at the same lengths.
  have each : (∀ g ∈ cfg.attentionGroups, cfg.Stops p hashes g L) ↔
      ∀ i g, cfg.kvCacheGroups[i]? = some g →
        GroupStops (cfg.groupLookup p hashes g.kvCacheSpec [i]) g.kvCacheSpec L := by
    constructor
    · intro all i g at_i
      obtain ⟨group, mem, inGroup, same⟩ := split.covers i g.kvCacheSpec (by
        rw [getElem?_map, at_i]
        rfl)
      have stops := (groupStops_forall_iff (split.nonempty group mem)).mp (all group mem) i inGroup
      rwa [same] at stops
    · intro all g mem
      refine (groupStops_forall_iff (split.nonempty g mem)).mpr fun i inGroup => ?_
      have spec := split.spec_at mem inGroup
      rw [getElem?_map] at spec
      obtain ⟨group, isGroup, same⟩ := Option.map_eq_some_iff.mp spec
      have stops := all i group isGroup
      rwa [same] at stops
  rw [Common, each, CommonLength, and_assoc]
  apply and_congr_right
  intro aligned
  constructor
  · intro stops
    refine ⟨fun i g at_i => (runBefore_max_one.mp (stops i g at_i)).1, ?_⟩
    intro i g w at_i kind small pos
    have dvd := Nat.dvd_trans (plain.divides g (mem_of_getElem? at_i)) aligned
    refine (runBefore_max_one.mp (stops i g at_i)).2 ?_ ?_
    · unfold KVCacheSpec.blocksNeeded
      rw [kind]
      dsimp only
      rw [show w - 1 = 0 by omega]
      exact Vllm.Lib.Ceil.cdiv_zero g.kvCacheSpec.blockSize_pos
    · exact Nat.div_pos (Nat.le_of_dvd pos dvd) g.kvCacheSpec.blockSize_pos
  · rintro ⟨accepts, last⟩ i g at_i
    refine runBefore_max_one.mpr ⟨accepts i g at_i, fun zero pos => ?_⟩
    have positive : 0 < L := Nat.pos_of_ne_zero fun isZero => by
      rw [isZero, Nat.zero_div] at pos
      omega
    unfold KVCacheSpec.blocksNeeded at zero
    obtain kind | ⟨w, kind⟩ | ⟨mode, k, kind⟩ :=
      KVCacheSpec.kind_of_needsRun (plain.needsRun g (mem_of_getElem? at_i))
    · rw [kind] at zero
      dsimp only at zero
      omega
    · rw [kind] at zero
      have le := (Vllm.Lib.Ceil.cdiv_le_iff g.kvCacheSpec.blockSize_pos).mp (le_of_eq zero)
      exact last i g w at_i kind (by omega) positive
    · rw [kind] at zero
      cases zero

/-- The lookup is the one that runs to the fixed point, however many rounds that is given. -/
theorem PlainHybrid.findLongestCacheHit_eq_fixedPoint (whole : cfg.WholeHashes p)
    (hashes : List H) {maxLen fuel : Nat} (enough : maxLen < fuel) :
    cfg.findLongestCacheHit p hashes maxLen =
      cfg.fixedPoint p hashes maxLen fuel := by
  have lookups : PlainLookups (cfg.plainFind p hashes) cfg.schedulerBlockSize
      (cfg.Stops p hashes) cfg.attentionGroups := plain.lookups whole
  let start : HybridState := ⟨maxLen, fun _ => none, []⟩
  let simple : Bool := cfg.attentionGroups.length = 2 &&
    (cfg.attentionGroups.head?.map (·.spec.isFullAttention)).getD false
  -- The shortcut is taken with two specs, of which the first is full attention.
  have shortcut : hybridLoop (cfg.plainFind p hashes) maxLen cfg.attentionGroups simple
      (maxLen + 1) start =
      hybridLoop (cfg.plainFind p hashes) maxLen cfg.attentionGroups false
        (maxLen + 1) start := by
    cases isSimple : simple with
    | false => rfl
    | true =>
      obtain ⟨two, full⟩ := Bool.and_eq_true_iff.mp isSimple
      obtain ⟨first, other, groups⟩ := length_eq_two.mp (of_decide_eq_true two)
      rw [groups] at lookups full ⊢
      exact hybridLoop_simple lookups full (Nat.lt_succ_self _) (Known.start fun _ => rfl)
  have rounds : hybridLoop (cfg.plainFind p hashes) maxLen cfg.attentionGroups false
      (maxLen + 1) start =
      hybridLoop (cfg.plainFind p hashes) maxLen cfg.attentionGroups false fuel start :=
    hybridLoop_fuel (Nat.lt_succ_self _) enough
  rw [plain.findLongestCacheHit_eq]
  change (do
    let (hitLength, blocks) ← hybridFind (cfg.plainFind p hashes) maxLen cfg.attentionGroups
    return ((range cfg.kvCacheGroups.length).map fun i => (blocks i).getD [], hitLength)) =
    (do
      let (hitLength, blocks) ← hybridLoop (cfg.plainFind p hashes) maxLen
        cfg.attentionGroups false fuel start
      let blocks := truncateFirst cfg.attentionGroups hitLength blocks
      return ((range cfg.kvCacheGroups.length).map fun i => (blocks i).getD [], hitLength))
  rw [← rounds, ← shortcut]
  unfold hybridFind
  rw [bind_assoc]
  rfl

end

end Groups

/-- Without eagle the lookup returns the greatest common length, and the same without its
shortcut, exactly when the first lookup has the hashes it asks for and the greatest common
length does not rest on a window of one token. -/
theorem hybrid_largest_iff {cfg : KVCacheConfig} (plain : cfg.PlainHybrid) {p : BlockPool H}
    (whole : cfg.WholeHashes p) (blockHashes : List H) (maxLength : Nat) :
    (∃ hit, cfg.findLongestCacheHit p blockHashes maxLength = .ok hit ∧
      Greatest (cfg.CommonLength p blockHashes) maxLength hit.2 ∧
      ∀ fuel, maxLength < fuel → cfg.fixedPoint p blockHashes maxLength fuel = .ok hit) ↔
    cfg.FirstReaches blockHashes maxLength ∧
      ∀ L, Greatest (cfg.CommonLength p blockHashes) maxLength L → cfg.LastCached p blockHashes L := by
  have lookups : PlainLookups (cfg.plainFind p blockHashes) cfg.schedulerBlockSize
      (cfg.Stops p blockHashes) cfg.attentionGroups := plain.lookups whole
  have reaching : Reaching (cfg.plainFind p blockHashes) cfg.schedulerBlockSize
      (cfg.Stops p blockHashes) cfg.attentionGroups _ := plain.reaching whole
  let start : HybridState := ⟨maxLength, fun _ => none, []⟩
  have same := plain.findLongestCacheHit_eq_fixedPoint whole blockHashes (Nat.lt_succ_self maxLength)
  have some : cfg.attentionGroups ≠ [] := by
    have two := plain.twoSpecs
    intro none
    rw [none] at two
    exact absurd two (by decide)
  -- What the lookup returns is the greatest length at which all lookups stop.
  have stops : ∀ hit, cfg.findLongestCacheHit p blockHashes maxLength = .ok hit →
      Greatest (Common cfg.schedulerBlockSize (cfg.Stops p blockHashes) cfg.attentionGroups)
        maxLength hit.2 := by
    intro hit run
    rw [same] at run
    obtain ⟨⟨hitLength, blocks⟩, loop, run⟩ := bind_eq_ok.mp run
    cases run
    have known : Known cfg.schedulerBlockSize (cfg.Stops p blockHashes) cfg.attentionGroups start :=
      Known.start fun _ => rfl
    exact hybridLoop_greatest lookups some (Nat.lt_succ_self _) known (Above.start _ _) loop
  have returns : (∃ hit, cfg.findLongestCacheHit p blockHashes maxLength = .ok hit) ↔
      cfg.FirstReaches blockHashes maxLength := by
    rw [same]
    cases groups : cfg.attentionGroups with
    | nil => exact absurd groups some
    | cons first others =>
      have mem : first ∈ cfg.attentionGroups := by
        rw [groups]
        exact mem_cons_self
      have needsRun := plain.needsRun_of_mem mem
      rw [groups] at lookups reaching
      have loops : (∃ out, hybridLoop (cfg.plainFind p blockHashes) maxLength (first :: others)
          false (maxLength + 1) start = .ok out) ↔
          ∃ rows, cfg.plainFind p blockHashes first maxLength false = .ok rows :=
        hybridLoop_ok_iff lookups reaching fun _ => rfl
      have looked : (∃ rows, cfg.plainFind p blockHashes first maxLength false = .ok rows) ↔
          cfg.FirstReaches blockHashes maxLength := by
        refine (findLongestCacheHit_ok_iff needsRun).trans ⟨fun reach g isFirst => ?_, ?_⟩
        · rw [groups] at isFirst
          cases isFirst
          exact reach
        · intro reach
          exact reach first (by rw [groups]; rfl)
      rw [← looked, ← loops]
      constructor
      · rintro ⟨hit, run⟩
        obtain ⟨out, loop, -⟩ := bind_eq_ok.mp run
        rw [groups] at loop
        exact ⟨out, loop⟩
      · rintro ⟨⟨hitLength, blocks⟩, loop⟩
        refine ⟨((range cfg.kvCacheGroups.length).map fun i =>
          (truncateFirst cfg.attentionGroups hitLength blocks i).getD [], hitLength), ?_⟩
        rw [← groups] at loop
        exact bind_eq_ok.mpr ⟨(hitLength, blocks), loop, rfl⟩
  constructor
  · rintro ⟨hit, run, greatest, -⟩
    refine ⟨returns.mp ⟨hit, run⟩, fun L isGreatest => ?_⟩
    rw [isGreatest.unique greatest]
    exact ((common_iff plain).mp (stops hit run).accepted).2
  · rintro ⟨reach, last⟩
    obtain ⟨hit, run⟩ := returns.mpr reach
    have stopped := stops hit run
    have common := ((common_iff plain).mp stopped.accepted).1
    refine ⟨hit, run, ⟨⟨stopped.le, common⟩, ?_⟩, fun fuel enough => ?_⟩
    · rintro L ⟨le, isCommon⟩
      have zero : cfg.CommonLength p blockHashes 0 := by
        refine ⟨Nat.dvd_zero _, fun i g _ j after before => ?_⟩
        rw [Nat.zero_div] at before
        omega
      obtain ⟨greatest, isGreatest⟩ := exists_greatest zero maxLength
      have stop := (common_iff plain).mpr ⟨isGreatest.accepted, last greatest isGreatest⟩
      exact (isGreatest.above le isCommon).trans (stopped.above isGreatest.le stop)
    · rw [← plain.findLongestCacheHit_eq_fixedPoint whole blockHashes enough]
      exact run

def fullAndNarrowWindow : KVCacheConfig where
  kvCacheGroups := [⟨{ kind := .fullAttention, blockSize := 2 }, false⟩,
    ⟨{ kind := .slidingWindow 1, blockSize := 2 }, false⟩]
  numBlocks := 10
  maxModelLen := 64
  maxNumBatchedTokens := 64
  schedulerBlockSize := 2
  hashBlockSize := 2

/-- Full attention has two blocks and the window needs none, but nothing is hit. -/
theorem narrow_window_hit_lost :
    fullAndNarrowWindow.findLongestCacheHit (cachedPrefix 2) [0, 1] 5 = .ok ([[], []], 0) ∧
      ¬ Greatest (fullAndNarrowWindow.CommonLength (cachedPrefix 2) [0, 1]) 5 0 := by
  refine ⟨by decide +kernel, fun greatest => ?_⟩
  have common : fullAndNarrowWindow.CommonLength (cachedPrefix 2) [0, 1] 4 := by
    refine ⟨by decide, fun i g at_i => ?_⟩
    match i, at_i with
    | 0, at_i =>
      cases at_i
      intro j _ before
      have lt : j < 2 := before
      match j, lt with
      | 0, _ => exact ⟨[1], rfl⟩
      | 1, _ => exact ⟨[2], rfl⟩
    | 1, at_i =>
      cases at_i
      intro j after before
      have lt : j < 2 := before
      have ge : 2 ≤ j := after
      omega
    | _ + 2, at_i => cases at_i
  exact absurd (greatest.above (by decide) common) (by decide)

/-- Full attention and Mamba without eagle. -/
def fullAndMambaPlain : KVCacheConfig := { fullAndMamba with useEagle := false }

/-- A cache that holds the first block of a request for both groups. -/
def bothGroupsPool : BlockPool Nat :=
  { BlockPool.init Nat 10 with
    cached := fun key => if key = ⟨[100], 0⟩ then [3] else if key = ⟨[100], 1⟩ then [5] else [] }

/-- Full attention and Mamba with one block each. -/
theorem fullAndMambaPlain_largest :
    ∃ hit, fullAndMambaPlain.findLongestCacheHit bothGroupsPool [100] 5 = .ok hit ∧
      Greatest (fullAndMambaPlain.CommonLength bothGroupsPool [100]) 5 hit.2 ∧
      ∀ fuel, 5 < fuel → fullAndMambaPlain.fixedPoint bothGroupsPool [100] 5 fuel = .ok hit := by
  have plain : fullAndMambaPlain.PlainHybrid := by
    refine ⟨⟨rfl, by decide, by decide, by decide⟩, by decide, fun i => ?_, by decide⟩
    match i with
    | 0 | 1 | _ + 2 => rfl
  have whole : fullAndMambaPlain.WholeHashes bothGroupsPool := by
    intro i g at_i hash cached
    have isHash : hash = [100] := by
      by_contra other
      simp [bothGroupsPool, other] at cached
    rw [isHash]
    match i, at_i with
    | 0, at_i | 1, at_i =>
      cases at_i
      rfl
    | _ + 2, at_i => cases at_i
  refine (hybrid_largest_iff plain whole [100] 5).mpr ⟨fun first isFirst notFull => ?_, ?_⟩
  · cases isFirst
    cases notFull
  · intro L _ i g w at_i kind
    match i, at_i with
    | 0, at_i | 1, at_i =>
      cases at_i
      cases kind
    | _ + 2, at_i => cases at_i

end KVCacheConfig

end Vllm.KVCache
