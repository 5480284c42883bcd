import Mathlib

/-!
Array operations over lists: distinct values with the position where each appears
first, sorting positions by a key, the runs of equal keys, binary search.
-/

namespace Vllm.Lib.Arrays

open List

variable {α κ : Type}

/-! ### Distinct values -/

section Unique

variable [LinearOrder α]

/-- The distinct values in increasing order, each with its first position. -/
def unique (xs : List α) : List (α × Nat) :=
  (xs.dedup.insertionSort (· ≤ ·)).map fun v => (v, xs.idxOf v)

variable {xs : List α} {v : α}

theorem mem_unique {i : Nat} : (v, i) ∈ unique xs ↔ v ∈ xs ∧ i = xs.idxOf v := by
  constructor
  · intro mem
    obtain ⟨w, memW, same⟩ := mem_map.mp mem
    cases same
    exact ⟨mem_dedup.mp ((mem_insertionSort _).mp memW), rfl⟩
  · rintro ⟨mem, rfl⟩
    exact mem_map.mpr ⟨v, (mem_insertionSort _).mpr (mem_dedup.mpr mem), rfl⟩

theorem unique_sorted (xs : List α) : (unique xs).Pairwise (·.1 < ·.1) := by
  refine pairwise_map.mpr ?_
  have sorted := pairwise_insertionSort (· ≤ ·) xs.dedup
  have nodup : (xs.dedup.insertionSort (· ≤ ·)).Nodup :=
    (perm_insertionSort _ _).nodup_iff.mpr (nodup_dedup xs)
  exact (sorted.and nodup).imp fun both => lt_of_le_of_ne both.1 both.2

/-- The distinct values in the order of their first positions. -/
def firstAppearances (xs : List α) : List α :=
  (((unique xs).map Prod.snd).insertionSort (· ≤ ·)).filterMap (xs[·]?)

theorem mem_firstAppearances : v ∈ firstAppearances xs ↔ v ∈ xs := by
  constructor
  · intro mem
    obtain ⟨i, -, found⟩ := mem_filterMap.mp mem
    exact mem_of_getElem? found
  · intro mem
    refine mem_filterMap.mpr ⟨xs.idxOf v, ?_, getElem?_idxOf mem⟩
    rw [mem_insertionSort, mem_map]
    exact ⟨(v, xs.idxOf v), mem_unique.mpr ⟨mem, rfl⟩, rfl⟩

/-- In an increasing list the values appear in order. -/
theorem firstAppearances_sorted (sorted : xs.Pairwise (· ≤ ·)) :
    (firstAppearances xs).Pairwise (· < ·) := by
  have positions : (((unique xs).map Prod.snd).insertionSort (· ≤ ·)).Pairwise
      fun i j => i ≤ j ∧ i ≠ j := by
    refine (pairwise_insertionSort _ _).and ?_
    refine (perm_insertionSort _ _).nodup_iff.mpr ?_
    -- Different values have different first positions.
    refine pairwise_map.mpr ((unique_sorted xs).imp_of_mem ?_)
    rintro ⟨v, i⟩ ⟨w, j⟩ memV memW lt same
    obtain ⟨inV, rfl⟩ := mem_unique.mp memV
    obtain ⟨-, rfl⟩ := mem_unique.mp memW
    exact absurd ((idxOf_inj inV).mp same) (ne_of_lt lt)
  refine pairwise_filterMap.mpr (positions.imp_of_mem ?_)
  intro i j memI memJ order v atI w atJ
  rw [mem_insertionSort, mem_map] at memI memJ
  obtain ⟨⟨v', _⟩, memV, rfl⟩ := memI
  obtain ⟨⟨w', _⟩, memW, rfl⟩ := memJ
  obtain ⟨inV, rfl⟩ := mem_unique.mp memV
  obtain ⟨inW, rfl⟩ := mem_unique.mp memW
  simp only [getElem?_idxOf inV, getElem?_idxOf inW, Option.some.injEq] at atI atJ
  subst atI atJ
  have ne : v' ≠ w' := fun same => order.2 (by rw [same])
  have lt : xs.idxOf v' < xs.idxOf w' := lt_of_le_of_ne order.1 order.2
  have le := pairwise_iff_getElem.mp sorted _ _ (idxOf_lt_length_of_mem inV)
    (idxOf_lt_length_of_mem inW) lt
  rw [getElem_idxOf, getElem_idxOf] at le
  exact lt_of_le_of_ne le ne

end Unique

/-! ### Sorting and runs -/

/-- Neighbours with the same key, together. -/
def groupRuns [DecidableEq κ] (key : α → κ) : List α → List (List α)
  | [] => []
  | a :: rest =>
    match groupRuns key rest with
    | (b :: run) :: runs =>
      if key a = key b then (a :: b :: run) :: runs else [a] :: (b :: run) :: runs
    | runs => [a] :: runs

section Runs

variable [LinearOrder κ] {key : α → κ}

/-- The runs of a sorted list: each has all elements with its key, the keys increase,
and no element is left out. -/
structure RunsOf (key : α → κ) (xs : List α) (runs : List (List α)) : Prop where
  whole : ∀ run ∈ runs, ∃ a, run.head? = some a ∧ run = xs.filter (key · = key a)
  ordered : runs.Pairwise fun run later => ∀ a ∈ run, ∀ b ∈ later, key a < key b
  cover : ∀ a ∈ xs, ∃ run ∈ runs, a ∈ run

omit [LinearOrder κ] in
theorem groupRuns_cons [DecidableEq κ] (a : α) (rest : List α) :
    ∃ run runs, groupRuns key (a :: rest) = (a :: run) :: runs := by
  rw [groupRuns]
  split
  · split
    · exact ⟨_, _, rfl⟩
    · exact ⟨_, _, rfl⟩
  · exact ⟨_, _, rfl⟩

variable {a : α} {xs : List α} {runs : List (List α)}

/-- An element with the key of the first run joins it. -/
theorem RunsOf.join {b : α} {run : List α} (same : key a = key b)
    (of : RunsOf key xs ((b :: run) :: runs)) : RunsOf key (a :: xs) ((a :: b :: run) :: runs) := by
  obtain ⟨before, ordered⟩ := pairwise_cons.mp of.ordered
  obtain ⟨c, isHead, first⟩ := of.whole (b :: run) (by simp)
  obtain rfl : b = c := by simpa using isHead
  constructor
  · intro later mem
    rcases mem_cons.mp mem with rfl | mem
    · refine ⟨a, rfl, ?_⟩
      rw [filter_cons_of_pos (by simp), same, ← first]
    · obtain ⟨c, isHead, whole⟩ := of.whole later (by simp [mem])
      refine ⟨c, isHead, ?_⟩
      have lt := before later mem b (by simp) c (mem_of_mem_head? (by rw [isHead]; rfl))
      rw [filter_cons_of_neg (by simpa [same] using ne_of_lt lt)]
      exact whole
  · refine pairwise_cons.mpr ⟨fun later mem x inRun y inLater => ?_, ordered⟩
    rcases mem_cons.mp inRun with rfl | inRun
    · rw [same]
      exact before later mem b (by simp) y inLater
    · exact before later mem x inRun y inLater
  · intro x mem
    rcases mem_cons.mp mem with rfl | mem
    · exact ⟨_, mem_cons_self, mem_cons_self⟩
    · obtain ⟨run', memRun, inRun⟩ := of.cover x mem
      rcases mem_cons.mp memRun with rfl | memRun
      · exact ⟨_, mem_cons_self, mem_cons_of_mem _ inRun⟩
      · exact ⟨run', by simp [memRun], inRun⟩

/-- An element with a smaller key starts a run. -/
theorem RunsOf.start (lt : ∀ b ∈ xs, key a < key b) (of : RunsOf key xs runs) :
    RunsOf key (a :: xs) ([a] :: runs) := by
  have inside : ∀ run ∈ runs, ∀ b ∈ run, b ∈ xs := by
    intro run mem b inRun
    obtain ⟨c, -, whole⟩ := of.whole run mem
    rw [whole] at inRun
    exact (mem_filter.mp inRun).1
  constructor
  · intro run mem
    rcases mem_cons.mp mem with rfl | mem
    · refine ⟨a, rfl, ?_⟩
      rw [filter_cons_of_pos (by simp), filter_eq_nil_iff.mpr]
      intro b inRest
      simpa using ne_of_gt (lt b inRest)
    · obtain ⟨c, isHead, whole⟩ := of.whole run mem
      refine ⟨c, isHead, ?_⟩
      have later := lt c (inside run mem c (mem_of_mem_head? (by rw [isHead]; rfl)))
      rw [filter_cons_of_neg (by simpa using ne_of_lt later)]
      exact whole
  · refine pairwise_cons.mpr ⟨fun run mem x isA y inRun => ?_, of.ordered⟩
    rw [mem_singleton.mp isA]
    exact lt y (inside run mem y inRun)
  · intro x mem
    rcases mem_cons.mp mem with rfl | mem
    · exact ⟨[x], by simp, by simp⟩
    · obtain ⟨run, memRun, inRun⟩ := of.cover x mem
      exact ⟨run, by simp [memRun], inRun⟩

theorem runsOf_groupRuns (sorted : xs.Pairwise (key · ≤ key ·)) :
    RunsOf key xs (groupRuns key xs) := by
  induction xs with
  | nil => exact ⟨by simp [groupRuns], by simp [groupRuns], by simp⟩
  | cons a rest ih =>
    obtain ⟨below, sorted⟩ := pairwise_cons.mp sorted
    have of := ih sorted
    cases rest with
    | nil => exact of.start (by simp)
    | cons b rest =>
      obtain ⟨run, runs, shape⟩ : ∃ run runs, groupRuns key (b :: rest) = (b :: run) :: runs :=
        groupRuns_cons b rest
      rw [groupRuns, shape]
      rw [shape] at of
      simp only
      split
      · rename_i same
        exact of.join same
      · rename_i differ
        refine of.start fun c mem => ?_
        have first : key a < key b := lt_of_le_of_ne (below b (by simp)) differ
        rcases mem_cons.mp mem with rfl | mem
        · exact first
        · exact lt_of_lt_of_le first ((pairwise_cons.mp sorted).1 c mem)

/-- Positions by key, and by position among equal keys. -/
def lexsort (key : Nat → κ) (positions : List Nat) : List Nat :=
  positions.insertionSort fun p q => toLex (key p, p) ≤ toLex (key q, q)

/-- The positions of each key, in order: the slices between the places where the key
of the sorted positions changes. -/
def positionsByKey (key : Nat → κ) (positions : List Nat) : List (List Nat) :=
  groupRuns key (lexsort key positions)

theorem runsOf_positionsByKey {key : Nat → κ} {positions : List Nat}
    (increasing : positions.Pairwise (· < ·)) :
    RunsOf key positions (positionsByKey key positions) := by
  have sorted : (lexsort key positions).Pairwise fun p q =>
      toLex (key p, p) ≤ toLex (key q, q) := pairwise_insertionSort _ _
  have perm : (lexsort key positions).Perm positions := perm_insertionSort _ _
  have byKey : (lexsort key positions).Pairwise (key · ≤ key ·) := by
    refine sorted.imp fun le => ?_
    rcases Prod.Lex.toLex_le_toLex.mp le with lt | ⟨same, -⟩
    · exact lt.le
    · exact same.le
  -- The positions of one key keep their order.
  have ofKey : ∀ k, (lexsort key positions).filter (key · = k) = positions.filter (key · = k) := by
    intro k
    refine List.Perm.eq_of_pairwise' (r := (· ≤ ·)) ?_ ?_ (perm.filter _)
    · refine (sorted.filter _).imp_of_mem ?_
      intro p q memP memQ le
      have keyP : key p = k := by simpa using (mem_filter.mp memP).2
      have keyQ : key q = k := by simpa using (mem_filter.mp memQ).2
      rcases Prod.Lex.toLex_le_toLex.mp le with lt | ⟨-, le⟩
      · rw [keyP, keyQ] at lt
        exact absurd lt (lt_irrefl k)
      · exact le
    · exact (increasing.filter _).imp Nat.le_of_lt
  have of := runsOf_groupRuns byKey
  refine ⟨fun run mem => ?_, of.ordered, fun p mem => of.cover p (perm.mem_iff.mpr mem)⟩
  obtain ⟨p, isHead, whole⟩ := of.whole run mem
  exact ⟨p, isHead, whole.trans (ofKey _)⟩

end Runs

/-! ### Binary search -/

section Search

variable [LinearOrder α]

/-- Where `v` goes in a sorted list. -/
def searchsorted (sorted : List α) (v : α) : Nat := sorted.findIdx (v ≤ ·)

theorem getElem?_searchsorted {sorted : List α} (increasing : sorted.Pairwise (· < ·)) {v : α} :
    sorted[searchsorted sorted v]? = some v ↔ v ∈ sorted := by
  constructor
  · exact mem_of_getElem?
  · intro mem
    unfold searchsorted
    have found : sorted.findIdx (v ≤ ·) < sorted.length :=
      findIdx_lt_length_of_exists ⟨v, mem, by simp⟩
    have notBefore := findIdx_getElem (w := found)
    simp only [decide_eq_true_eq] at notBefore
    rw [getElem?_eq_getElem found, Option.some.injEq]
    refine le_antisymm ?_ notBefore
    obtain ⟨i, inRange, atI⟩ := getElem_of_mem mem
    rcases lt_trichotomy (sorted.findIdx (v ≤ ·)) i with lt | same | gt
    · exact (pairwise_iff_getElem.mp increasing _ _ found inRange lt).le.trans atI.le
    · simp only [same, atI, le_refl]
    · have := not_of_lt_findIdx gt
      simp [atI] at this

end Search

/-! ### Writes -/

section Writes

variable {ι β : Type} {step : (ι → β) → α → ι → β} {xs : List α} {i : ι} {f : ι → β}

/-- A position that no step writes to. -/
theorem foldl_frame (frame : ∀ f, ∀ a ∈ xs, step f a i = f i) : xs.foldl step f i = f i := by
  induction xs generalizing f with
  | nil => rfl
  | cons a rest ih =>
    rw [foldl_cons, ih fun f b mem => frame f b (by simp [mem])]
    exact frame f a (by simp)

/-- A position that some step writes to, where every write puts the same value. -/
theorem foldl_write (key : α → ι) {v : β} (Inv : (ι → β) → Prop)
    (keeps : ∀ f, ∀ a ∈ xs, Inv f → Inv (step f a))
    (frame : ∀ f, ∀ a ∈ xs, key a ≠ i → step f a i = f i)
    (write : ∀ f, ∀ a ∈ xs, Inv f → key a = i → step f a i = v) (start : Inv f)
    (hit : ∃ a ∈ xs, key a = i) : xs.foldl step f i = v := by
  induction xs generalizing f with
  | nil => simp at hit
  | cons a rest ih =>
    rw [foldl_cons]
    by_cases later : ∃ b ∈ rest, key b = i
    · exact ih (fun f b mem => keeps f b (by simp [mem])) (fun f b mem => frame f b (by simp [mem]))
        (fun f b mem => write f b (by simp [mem])) (keeps f a (by simp) start) later
    · have notLater : ∀ b ∈ rest, key b ≠ i := fun b mem same => later ⟨b, mem, same⟩
      rw [foldl_frame fun f b mem => frame f b (by simp [mem]) (notLater b mem)]
      obtain ⟨b, mem, same⟩ := hit
      rcases mem_cons.mp mem with rfl | mem
      · exact write f b (by simp) start same
      · exact absurd same (notLater b mem)

end Writes

/-- Two lists that agree under a reading agree pair by pair. -/
theorem eq_of_mem_zip {β γ : Type} {f : α → γ} {g : β → γ} {xs : List α} {ys : List β}
    (same : xs.map f = ys.map g) {pair : α × β} (mem : pair ∈ xs.zip ys) : f pair.1 = g pair.2 := by
  obtain ⟨i, found⟩ := mem_iff_getElem?.mp mem
  rw [getElem?_zip_eq_some] at found
  have := congrArg (·[i]?) same
  simpa [found.1, found.2] using this

theorem exists_mem_zip {β : Type} {xs : List α} {ys : List β} (same : xs.length = ys.length) {a : α}
    (mem : a ∈ xs) : ∃ b, (a, b) ∈ xs.zip ys := by
  obtain ⟨i, inRange, rfl⟩ := getElem_of_mem mem
  refine ⟨ys[i], mem_iff_getElem?.mpr ⟨i, ?_⟩⟩
  rw [getElem?_zip_eq_some]
  exact ⟨getElem?_eq_getElem _, getElem?_eq_getElem _⟩

/-- The blocks of `f` positions, one after another. -/
theorem flatMap_range'_blocks (start len f : Nat) :
    ((range' start len).flatMap fun k => (range f).map (k * f + ·)) =
      range' (start * f) (len * f) := by
  induction len generalizing start with
  | zero => simp
  | succ len ih =>
    rw [range'_succ, flatMap_cons, ih, range_eq_range', map_add_range',
      Nat.add_zero, Nat.succ_mul start, Nat.succ_mul len, Nat.add_comm (len * f) f,
      range'_append_1]

/-- Reading consecutive positions gives a slice. -/
theorem filterMap_range'_sublist (xs : List α) (start len : Nat) :
    ((range' start len).filterMap (xs[·]?)).Sublist (xs.drop start) := by
  induction len generalizing start with
  | zero => simp
  | succ len ih =>
    rw [range'_succ]
    cases found : xs[start]? with
    | none =>
      rw [filterMap_cons_none found]
      refine (ih (start + 1)).trans ?_
      rw [← drop_drop]
      exact List.drop_sublist 1 _
    | some x =>
      obtain ⟨lt, rfl⟩ := List.getElem?_eq_some_iff.mp found
      rw [filterMap_cons_some found, drop_eq_getElem_cons lt]
      exact (ih (start + 1)).cons_cons _

end Vllm.Lib.Arrays
