import Mathlib.Algebra.Group.End
import Mathlib.Data.Finset.Card
import Mathlib.Data.List.GetD
import Mathlib.Data.List.Sort

/-!
`reorder_batch_to_split_decodes_and_prefills` (`vllm/v1/attention/backends/utils.py`).

The misplaced rows, sorted by region, are paired with the misplaced rows in order. This makes a
permutation of the rows, and the swaps follow its cycles: the request at a row has to go where
the permutation takes the row that the request came from (`Pending`).
-/

namespace Vllm.Worker.BatchReorder

open Function

structure Request where
  numScheduledTokens : Nat
  numComputedTokens : Nat
  numPromptTokens : Nat

/-- `req_regions`: decode, short extend, long extend and prefill. -/
def region (decodeThreshold : Int) (r : Request) : Nat :=
  let hasContext := 0 < r.numComputedTokens
  let isBelowThreshold := r.numScheduledTokens ≤ decodeThreshold
  let donePrefilling := r.numPromptTokens ≤ r.numComputedTokens
  if ¬ hasContext then 3
  else if ¬ isBelowThreshold then 2
  else if ¬ donePrefilling then 1
  else 0

/-- `target_regions`. -/
def targetRegions (regions : List Nat) : List Nat :=
  [0, 1, 2, 3].flatMap fun r => List.replicate (regions.count r) r

/-- `src_dest_map`, as far as no value was set in it; a row that is not a key stays. -/
def srcDestMap (srcIndices origIndices : List Nat) (src : Nat) : Nat :=
  origIndices.getD (srcIndices.idxOf src) src

/-- The map, and the calls of `swap_states` so far. -/
abbrev Swapping := (Nat → Nat) × List (Nat × Nat)

/-- `while src != dst`. -/
def followCycle (src : Nat) : (fuel dst : Nat) → Swapping → Option Swapping
  | fuel, dst, s =>
    if src = dst then some s
    else match fuel with
      | 0 => none
      | fuel + 1 => followCycle src fuel (s.1 dst) (update s.1 dst dst, s.2 ++ [(src, dst)])

section

variable (decodeThreshold : Int) (numReqs : Nat) (rows : Nat → Request)

def reqRegions : List Nat := (List.range numReqs).map fun i => region decodeThreshold (rows i)

/-- The rows that need a swap. -/
def origIndices : List Nat :=
  let regions := reqRegions decodeThreshold numReqs rows
  (List.range numReqs).filter fun i => regions.getD i 0 ≠ (targetRegions regions).getD i 0

def srcIndices : List Nat := (origIndices decodeThreshold numReqs rows).mergeSort fun i j =>
  region decodeThreshold (rows i) ≤ region decodeThreshold (rows j)

/-- `reorder_batch_to_split_decodes_and_prefills`: what it returns, and the swaps. -/
def reorderBatch : Option (Bool × List (Nat × Nat)) :=
  let origIndices := origIndices decodeThreshold numReqs rows
  let srcIndices := srcIndices decodeThreshold numReqs rows
  if origIndices = [] then some (false, [])
  else (srcIndices.foldlM (fun s src => followCycle src numReqs (s.1 src) s)
    (srcDestMap srcIndices origIndices, [])).map fun s => (true, s.2)

end

/-- The rows that the requests come from, after swaps. -/
def permOf (swaps : List (Nat × Nat)) : Equiv.Perm Nat :=
  swaps.foldl (fun p swap => p * Equiv.swap swap.1 swap.2) 1

/-! ### Cycles -/

/-- The request at a row goes where the destination is of the row that it comes from, and the
map has it for the rows that were not visited. -/
structure Pending (dest : Nat → Nat) (done : List Nat) (s : Swapping) : Prop where
  mapped : ∀ i ∉ done, s.1 i = dest (permOf s.2 i)
  placed : ∀ i, i ∈ done ∨ dest i = i → dest (permOf s.2 i) = i

theorem permOf_append (swaps : List (Nat × Nat)) (a b i : Nat) :
    permOf (swaps ++ [(a, b)]) i = permOf swaps (Equiv.swap a b i) := by
  rw [permOf, List.foldl_append]
  rfl

section Cycles

variable {dest : Nat → Nat} {done : List Nat} {s : Swapping} {n src dst : Nat}
  (injective : Injective dest) (within : ∀ i, n ≤ i → dest i = i)
include injective within

/-- The rows whose requests are not at their destination. -/
def unplaced (dest : Nat → Nat) (n : Nat) (swaps : List (Nat × Nat)) : Finset Nat :=
  {i ∈ Finset.range n | dest (permOf swaps i) ≠ i}

omit injective within in
theorem pending_of_eq (mapped : ∀ i ∉ src :: done, s.1 i = dest (permOf s.2 i))
    (placed : ∀ i, i ∈ done ∨ dest i = i → dest (permOf s.2 i) = i)
    (isDst : dest (permOf s.2 src) = dst) (same : src = dst) : Pending dest (src :: done) s := by
  refine ⟨mapped, ?_⟩
  rintro i ((_ | ⟨_, isDone⟩) | stays)
  · exact isDst.trans same.symm
  · exact placed i (.inl isDone)
  · exact placed i (.inr stays)

theorem mem_unplaced (placed : ∀ i, i ∈ done ∨ dest i = i → dest (permOf s.2 i) = i)
    (isDst : dest (permOf s.2 src) = dst) (apart : src ≠ dst) : dst ∈ unplaced dest n s.2 := by
  have moves : dest (permOf s.2 dst) ≠ dst := fun stays =>
    apart ((permOf s.2).injective (injective (isDst.trans stays.symm)))
  refine Finset.mem_filter.mpr ⟨Finset.mem_range.mpr ?_, moves⟩
  by_contra outside
  exact moves (placed dst (.inr (within dst (Nat.le_of_not_lt outside))))

theorem followCycle_spec {fuel : Nat} (mapped : ∀ i ∉ src :: done, s.1 i = dest (permOf s.2 i))
    (placed : ∀ i, i ∈ done ∨ dest i = i → dest (permOf s.2 i) = i)
    (isDst : dest (permOf s.2 src) = dst) (enough : (unplaced dest n s.2).card ≤ fuel) :
    ∃ s', followCycle src fuel dst s = some s' ∧ Pending dest (src :: done) s' := by
  induction fuel generalizing dst s with
  | zero =>
    rw [followCycle]
    split
    · exact ⟨s, rfl, pending_of_eq mapped placed isDst ‹_›⟩
    · have mem := mem_unplaced injective within placed isDst ‹_›
      rw [Finset.card_eq_zero.mp (Nat.le_zero.mp enough)] at mem
      exact absurd mem (Finset.notMem_empty dst)
  | succ fuel ih =>
    rw [followCycle]
    split
    · exact ⟨s, rfl, pending_of_eq mapped placed isDst ‹_›⟩
    rename_i apart
    have mem := mem_unplaced injective within placed isDst apart
    have notPlaced : dest (permOf s.2 dst) ≠ dst := (Finset.mem_filter.mp mem).2
    have others : ∀ {i}, i ≠ src → i ≠ dst → permOf (s.2 ++ [(src, dst)]) i = permOf s.2 i := by
      intro i neSrc neDst
      rw [permOf_append, Equiv.swap_apply_of_ne_of_ne neSrc neDst]
    have atDst : dest (permOf (s.2 ++ [(src, dst)]) dst) = dst := by
      rw [permOf_append, Equiv.swap_apply_right, isDst]
    apply ih
    · intro i notMem
      have neSrc := List.ne_of_not_mem_cons notMem
      dsimp only
      rw [update_apply]
      split
      · rename_i same
        rw [same, atDst]
      · rw [others neSrc ‹_›]
        exact mapped i notMem
    · intro i isPlaced
      have old := placed i isPlaced
      rw [others, old]
      · rintro rfl
        exact apart (old.symm.trans isDst)
      · rintro rfl
        exact notPlaced old
    · rw [permOf_append, Equiv.swap_apply_left, mapped]
      rintro (_ | ⟨_, isDone⟩)
      · exact apart rfl
      · exact notPlaced (placed dst (.inl isDone))
    · have fewer : unplaced dest n (s.2 ++ [(src, dst)]) ⊆ (unplaced dest n s.2).erase dst := by
        intro i isUnplaced
        obtain ⟨isRow, moves⟩ := Finset.mem_filter.mp isUnplaced
        have neDst : i ≠ dst := fun same => moves (same ▸ atDst)
        refine Finset.mem_erase.mpr ⟨neDst, Finset.mem_filter.mpr ⟨isRow, ?_⟩⟩
        by_cases same : i = src
        · rw [same, isDst]
          exact Ne.symm apart
        · rwa [others same neDst] at moves
      refine (Finset.card_le_card fewer).trans ?_
      rw [Finset.card_erase_of_mem mem]
      omega

theorem foldlM_followCycle (keys : List Nat) (nodup : (keys.reverse ++ done).Nodup)
    (pending : Pending dest done s) :
    ∃ s', keys.foldlM (fun s src => followCycle src n (s.1 src) s) s = some s' ∧
      Pending dest (keys.reverse ++ done) s' := by
  induction keys generalizing done s with
  | nil => exact ⟨s, rfl, pending⟩
  | cons src rest ih =>
    rw [List.reverse_cons, List.append_assoc] at nodup ⊢
    have notDone : src ∉ done := (List.nodup_cons.mp (List.nodup_append.mp nodup).2.1).1
    obtain ⟨t, first, pending⟩ := followCycle_spec injective within
      (fun i notMem => pending.mapped i (List.not_mem_of_not_mem_cons notMem)) pending.placed
      (pending.mapped src notDone).symm ((Finset.card_filter_le _ _).trans (Finset.card_range n).le)
    obtain ⟨s', others, pending⟩ := ih nodup pending
    exact ⟨s', by rw [List.foldlM_cons, first]; exact others, pending⟩

end Cycles

/-! ### Destinations -/

section Destinations

variable {src orig : List Nat} {i j : Nat} (perm : src.Perm orig)
include perm

theorem srcDestMap_of_notMem (notMem : i ∉ src) : srcDestMap src orig i = i := by
  rw [srcDestMap, List.idxOf_of_notMem notMem, perm.length_eq]
  exact List.getD_eq_default _ _ le_rfl

theorem srcDestMap_of_mem (mem : i ∈ src) :
    orig[src.idxOf i]? = some (srcDestMap src orig i) := by
  have lt : src.idxOf i < orig.length := perm.length_eq ▸ List.idxOf_lt_length_of_mem mem
  rw [srcDestMap, List.getD_eq_getElem _ _ lt, List.getElem?_eq_getElem lt]

theorem srcDestMap_mem (mem : i ∈ src) : srcDestMap src orig i ∈ src :=
  perm.mem_iff.mpr (List.mem_of_getElem? (srcDestMap_of_mem perm mem))

theorem srcDestMap_injective (nodup : orig.Nodup) : Injective (srcDestMap src orig) := by
  intro i j same
  by_cases memI : i ∈ src <;> by_cases memJ : j ∈ src
  · refine (List.idxOf_inj memI).mp ((List.getElem?_inj ?_ nodup).mp ?_)
    · exact perm.length_eq ▸ List.idxOf_lt_length_of_mem memI
    · rw [srcDestMap_of_mem perm memI, srcDestMap_of_mem perm memJ, same]
  · rw [srcDestMap_of_notMem perm memJ] at same
    exact absurd (same ▸ srcDestMap_mem perm memI) memJ
  · rw [srcDestMap_of_notMem perm memI] at same
    exact absurd (same ▸ srcDestMap_mem perm memJ) memI
  · rwa [srcDestMap_of_notMem perm memI, srcDestMap_of_notMem perm memJ] at same

end Destinations

/-! ### Regions -/

section Regions

variable {regions : List Nat}

theorem targetRegions_perm (small : ∀ r ∈ regions, r < 4) : (targetRegions regions).Perm regions := by
  refine List.perm_iff_count.mpr fun r => ?_
  have none : 4 ≤ r → regions.count r = 0 := fun le =>
    List.count_eq_zero_of_not_mem fun mem => absurd (small r mem) (Nat.not_lt.mpr le)
  simp only [targetRegions, List.flatMap_cons, List.flatMap_nil, List.count_append,
    List.count_replicate, List.count_nil, beq_iff_eq]
  grind

theorem targetRegions_sorted (regions : List Nat) : (targetRegions regions).Pairwise (· ≤ ·) := by
  refine List.pairwise_flatMap.mpr ⟨fun r _ => List.pairwise_replicate.mpr (.inr le_rfl), ?_⟩
  refine (by decide : [0, 1, 2, 3].Pairwise (· ≤ ·)).imp fun le x memX y memY => ?_
  rwa [List.eq_of_mem_replicate memX, List.eq_of_mem_replicate memY]

variable {threshold : Int} {n i : Nat} {rows : Nat → Request}

/-- The region that a row is to have. -/
def target (threshold : Int) (n : Nat) (rows : Nat → Request) (i : Nat) : Nat :=
  (targetRegions (reqRegions threshold n rows)).getD i 0

theorem reqRegions_perm :
    (targetRegions (reqRegions threshold n rows)).Perm (reqRegions threshold n rows) := by
  refine targetRegions_perm fun r mem => ?_
  obtain ⟨i, -, rfl⟩ := List.mem_map.mp mem
  unfold region
  grind

theorem map_target : (List.range n).map (target threshold n rows) =
    targetRegions (reqRegions threshold n rows) := by
  have length : (targetRegions (reqRegions threshold n rows)).length = n := by
    rw [reqRegions_perm.length_eq, reqRegions, List.length_map, List.length_range]
  refine List.ext_getElem (by rw [List.length_map, List.length_range, length]) fun i _ lt => ?_
  rw [List.getElem_map, List.getElem_range, target, List.getD_eq_getElem _ _ lt]

theorem origIndices_eq : origIndices threshold n rows = (List.range n).filter fun i =>
    region threshold (rows i) ≠ target threshold n rows i := by
  refine List.filter_congr fun i mem => ?_
  rw [reqRegions, List.getD_eq_getElem _ _ (by simpa using mem), List.getElem_map,
    List.getElem_range]
  rfl

theorem mem_origIndices : i ∈ origIndices threshold n rows ↔
    i < n ∧ region threshold (rows i) ≠ target threshold n rows i := by
  rw [origIndices_eq, List.mem_filter, List.mem_range, decide_eq_true_eq]

theorem srcIndices_perm :
    (srcIndices threshold n rows).Perm (origIndices threshold n rows) :=
  List.mergeSort_perm _ _

/-- Sources and destinations have the same regions, in order. -/
theorem map_srcIndices (threshold : Int) (n : Nat) (rows : Nat → Request) :
    (srcIndices threshold n rows).map (fun i => region threshold (rows i)) =
      (origIndices threshold n rows).map (target threshold n rows) := by
  refine List.Perm.eq_of_pairwise' (r := (· ≤ ·)) ?_ ?_ ((srcIndices_perm.map _).trans ?_)
  · refine List.pairwise_map.mpr ((List.pairwise_mergeSort ?_ ?_ _).imp of_decide_eq_true)
    · grind
    · grind
  · refine (targetRegions_sorted (reqRegions threshold n rows)).sublist ?_
    rw [← map_target]
    exact List.filter_sublist.map _
  · -- The other rows have the regions that they are to have.
    rw [origIndices_eq]
    set moves : Nat → Bool := fun i => decide
      (region threshold (rows i) ≠ target threshold n rows i)
    have halves := fun f : Nat → Nat => (List.filter_append_perm moves (List.range n)).map f
    have stay : ((List.range n).filter fun i => !moves i).map
        (fun i => region threshold (rows i)) = ((List.range n).filter fun i => !moves i).map
        (target threshold n rows) :=
      List.map_congr_left fun i mem => by simpa [moves] using (List.mem_filter.mp mem).2
    have whole := (halves fun i => region threshold (rows i)).trans
      ((map_target ▸ reqRegions_perm.symm).trans (halves (target threshold n rows)).symm)
    rwa [List.map_append, List.map_append, stay, List.perm_append_right_iff] at whole

end Regions

/-! ### The reordered batch -/

section Reordered

variable {threshold : Int} {n i : Nat} {rows : Nat → Request}

/-- Decodes, short extends, long extends and prefills, in this order. -/
def Ordered (threshold : Int) (n : Nat) (rows : Nat → Request) : Prop :=
  ((List.range n).map fun i => region threshold (rows i)).Pairwise (· ≤ ·)

theorem ordered_iff : Ordered threshold n rows ↔ origIndices threshold n rows = [] := by
  have same : origIndices threshold n rows = [] ↔ reqRegions threshold n rows =
      (List.range n).map (target threshold n rows) := by
    rw [origIndices_eq, List.filter_eq_nil_iff, reqRegions, List.map_inj_left]
    simp only [decide_eq_true_eq, not_not]
  rw [same, map_target]
  constructor
  · intro ordered
    exact List.Perm.eq_of_pairwise' ordered (targetRegions_sorted _) reqRegions_perm.symm
  · intro same
    rw [Ordered, ← reqRegions, same]
    exact targetRegions_sorted _

/-- Where the map takes a row at the start. -/
abbrev dest (threshold : Int) (n : Nat) (rows : Nat → Request) : Nat → Nat :=
  srcDestMap (srcIndices threshold n rows) (origIndices threshold n rows)

theorem dest_injective : Injective (dest threshold n rows) :=
  srcDestMap_injective srcIndices_perm (List.nodup_range.filter _)

theorem dest_of_notMem (notMem : i ∉ origIndices threshold n rows) :
    dest threshold n rows i = i :=
  srcDestMap_of_notMem srcIndices_perm (mt srcIndices_perm.mem_iff.mp notMem)

theorem dest_of_le (i : Nat) (le : n ≤ i) : dest threshold n rows i = i :=
  dest_of_notMem fun mem => absurd (mem_origIndices.mp mem).1 (Nat.not_lt.mpr le)

/-- The destination of a row is in its region. -/
theorem target_dest (lt : i < n) : target threshold n rows (dest threshold n rows i) =
    region threshold (rows i) := by
  by_cases mem : i ∈ origIndices threshold n rows
  · have isSource := srcIndices_perm.mem_iff.mpr mem
    have same := congrArg (·[(srcIndices threshold n rows).idxOf i]?)
      (map_srcIndices threshold n rows)
    simp only [List.getElem?_map, List.getElem?_idxOf isSource,
      srcDestMap_of_mem srcIndices_perm isSource] at same
    exact (Option.some.inj same).symm
  · rw [dest_of_notMem mem]
    exact (not_not.mp fun ne => mem (mem_origIndices.mpr ⟨lt, ne⟩)).symm

theorem reorderBatch_of_not_ordered (unordered : ¬ Ordered threshold n rows) :
    ∃ swaps, reorderBatch threshold n rows = some (true, swaps) ∧
      ∀ i, dest threshold n rows (permOf swaps i) = i := by
  have start : Pending (dest threshold n rows) [] (dest threshold n rows, []) :=
    ⟨fun _ _ => rfl, fun i stays => stays.resolve_left List.not_mem_nil⟩
  obtain ⟨s, runs, pending⟩ := foldlM_followCycle dest_injective dest_of_le
    (srcIndices threshold n rows)
    (by simpa using srcIndices_perm.nodup_iff.mpr (List.nodup_range.filter _)) start
  refine ⟨s.2, ?_, fun i => pending.placed i ?_⟩
  · rw [reorderBatch, if_neg (mt ordered_iff.mpr unordered)]
    exact congrArg (Option.map _) runs
  · by_cases mem : i ∈ origIndices threshold n rows
    · rw [List.append_nil, List.mem_reverse]
      exact .inl (srcIndices_perm.mem_iff.mpr mem)
    · exact .inr (dest_of_notMem mem)

/-- The swaps permute the rows of the batch and put the regions in order, and a row keeps its
request if that is of the region that the row ends up in. The call returns `False` just if the
batch was in order, and a second call swaps nothing. -/
theorem reorderBatch_orders (threshold : Int) (n : Nat) (rows : Nat → Request) :
    ∃ changed swaps, reorderBatch threshold n rows = some (changed, swaps) ∧
      (∀ i, n ≤ i → permOf swaps i = i) ∧
      Ordered threshold n (rows ∘ permOf swaps) ∧
      (∀ i < n, region threshold (rows i) = region threshold (rows (permOf swaps i)) →
        permOf swaps i = i) ∧
      (changed = false ↔ Ordered threshold n rows) ∧
      reorderBatch threshold n (rows ∘ permOf swaps) = some (false, []) := by
  have quiet : ∀ {rows}, Ordered threshold n rows →
      reorderBatch threshold n rows = some (false, []) := by
    intro rows ordered
    rw [reorderBatch, if_pos (ordered_iff.mp ordered)]
  by_cases ordered : Ordered threshold n rows
  · exact ⟨false, [], quiet ordered, fun _ _ => rfl, ordered, fun _ _ _ => rfl,
      iff_of_true rfl ordered, quiet ordered⟩
  obtain ⟨swaps, runs, placed⟩ := reorderBatch_of_not_ordered ordered
  have fixed : ∀ i, dest threshold n rows i = i → permOf swaps i = i := fun i isFixed =>
    dest_injective ((placed i).trans isFixed.symm)
  have inTarget : ∀ i < n, region threshold (rows (permOf swaps i)) =
      target threshold n rows i := by
    intro i lt
    have isRow : permOf swaps i < n := by
      by_contra outside
      have same := (permOf swaps).injective (fixed _ (dest_of_le _ (Nat.le_of_not_lt outside)))
      exact outside (same.symm ▸ lt)
    rw [← target_dest isRow, placed]
  have sorted : Ordered threshold n (rows ∘ permOf swaps) := by
    have regions := List.map_congr_left fun i mem => inTarget i (List.mem_range.mp mem)
    rw [Ordered]
    exact (regions.trans map_target).symm ▸ targetRegions_sorted _
  refine ⟨true, swaps, runs, fun i le => fixed i (dest_of_le i le), sorted, ?_,
    iff_of_false Bool.noConfusion ordered, quiet sorted⟩
  intro i lt same
  refine fixed i (dest_of_notMem fun mem => (mem_origIndices.mp mem).2 ?_)
  rw [same, inTarget i lt]

end Reordered

end Vllm.Worker.BatchReorder
