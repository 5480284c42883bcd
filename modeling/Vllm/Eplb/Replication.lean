import Mathlib

/-!
How many replicas an expert gets (`DefaultEplbPolicy.replicate_experts`,
`vllm/distributed/eplb/policy/default.py`).

This is one row of the weights. Each further replica goes to the expert whose replicas have the
greatest load. What that leaves behind (`Earned`) is enough to compare the counts with any others
of the same sum (`replicateExperts_optimal`).
-/

namespace Vllm.Eplb

open List

variable {n : Nat}

/-- One further replica, in slot `i`; `np.argmax` is the first greatest. -/
def addReplica (weight : Fin n → ℚ) (acc : List Nat × (Fin n → Nat)) (i : Nat) :
    Option (List Nat × (Fin n → Nat)) := do
  let (phy2log, logcnt) := acc
  let redundant ← (finRange n).argmax fun e => weight e / logcnt e
  return (phy2log.set i redundant, Function.update logcnt redundant (logcnt redundant + 1))

/-- `replicate_experts`: the expert of each slot, and the replicas of each expert. -/
def replicateExperts (weight : Fin n → ℚ) (numPhy : Nat) : Option (List Nat × (Fin n → Nat)) :=
  if numPhy < n then none
  else (range' n (numPhy - n)).foldlM (addReplica weight) (range numPhy, fun _ => 1)

def maxLoad (weight : Fin n → ℚ) (count : Fin n → Nat) : WithBot ℚ :=
  Finset.univ.sup fun e => ((weight e / count e : ℚ) : WithBot ℚ)

/-- Whoever has a second replica had no less load per replica before than anyone has now. -/
def Earned (weight : Fin n → ℚ) (count : Fin n → Nat) : Prop :=
  ∀ f, 1 < count f → ∀ e, weight e / count e ≤ weight f / (count f - 1 : Nat)

variable {weight : Fin n → ℚ} {count : Fin n → Nat}

theorem Earned.maxLoad_le (earned : Earned weight count) {other : Fin n → Nat}
    (positive : ∀ e, 1 ≤ other e) (sum : ∑ e, count e = ∑ e, other e)
    (nonneg : ∀ e, 0 ≤ weight e) : maxLoad weight count ≤ maxLoad weight other := by
  refine Finset.sup_le fun e _ => ?_
  by_contra greater
  rw [not_le, maxLoad, Finset.sup_lt_iff (WithBot.bot_lt_coe _)] at greater
  have less : ∀ f, weight f / other f < weight e / count e := fun f =>
    WithBot.coe_lt_coe.mp (greater f (Finset.mem_univ f))
  -- The counts of `e` are too small, so those of some `f` are too large.
  obtain ⟨f, fewer⟩ : ∃ f, other f < count f := by
    by_contra none
    have all : ∀ f ∈ Finset.univ, count f = other f :=
      (Finset.sum_eq_sum_iff_of_le fun f _ => not_lt.mp fun lt => none ⟨f, lt⟩).mp sum
    exact absurd (less e) (by rw [all e (Finset.mem_univ e)]; exact lt_irrefl _)
  have one := positive f
  have fair := earned f (by omega) e
  have shrinks : weight f / (count f - 1 : Nat) ≤ weight f / other f :=
    div_le_div_of_nonneg_left (nonneg f) (by exact_mod_cast one) (by exact_mod_cast (by omega))
  linarith [less f]

theorem Earned.add (earned : Earned weight count) (positive : ∀ e, 1 ≤ count e)
    (nonneg : ∀ e, 0 ≤ weight e) {g : Fin n}
    (greatest : ∀ e, weight e / count e ≤ weight g / count g) :
    Earned weight (Function.update count g (count g + 1)) := by
  have falls : ∀ e, weight e / (Function.update count g (count g + 1) e : Nat) ≤
      weight e / count e := by
    intro e
    refine div_le_div_of_nonneg_left (nonneg e) (by exact_mod_cast positive e) ?_
    rw [Function.update_apply]
    split
    · rename_i same
      rw [same]
      push_cast
      linarith
    · exact le_rfl
  intro f more e
  refine (falls e).trans ?_
  by_cases same : f = g
  · rw [same, Function.update_self, Nat.add_sub_cancel]
    exact greatest e
  · rw [Function.update_of_ne same] at more ⊢
    exact earned f more e

/-- The slots below `i` are assigned. -/
structure Replicated (weight : Fin n → ℚ) (numPhy i : Nat) (phy2log : List Nat)
    (logcnt : Fin n → Nat) : Prop where
  length : phy2log.length = numPhy
  logical : ∀ x ∈ phy2log.take i, x < n
  count : ∀ e : Fin n, (phy2log.take i).count ↑e = logcnt e
  positive : ∀ e, 1 ≤ logcnt e
  sum : ∑ e, logcnt e = i
  earned : Earned weight logcnt

theorem replicated_start (weight : Fin n → ℚ) {numPhy : Nat} (enough : n ≤ numPhy) :
    Replicated weight numPhy n (range numPhy) fun _ => 1 where
  length := length_range
  logical x mem := by
    rw [take_range, min_eq_left enough] at mem
    exact mem_range.mp mem
  count e := by
    rw [take_range, min_eq_left enough]
    exact count_eq_one_of_mem nodup_range (mem_range.mpr e.isLt)
  positive _ := le_rfl
  sum := by simp
  earned _ more := absurd more (lt_irrefl 1)

variable {numPhy i : Nat} {phy2log : List Nat} {logcnt : Fin n → Nat}

theorem Replicated.addReplica (replicated : Replicated weight numPhy i phy2log logcnt)
    (pos : 0 < n) (room : i < numPhy) (nonneg : ∀ e, 0 ≤ weight e) :
    ∃ phy2log' logcnt', addReplica weight (phy2log, logcnt) i = some (phy2log', logcnt') ∧
      Replicated weight numPhy (i + 1) phy2log' logcnt' := by
  obtain ⟨g, chosen⟩ : ∃ g, (List.finRange n).argmax (fun e => weight e / logcnt e) = some g := by
    refine Option.ne_none_iff_exists'.mp fun none => ?_
    have empty := congrArg List.length (List.argmax_eq_none.mp none)
    rw [length_finRange] at empty
    exact absurd empty pos.ne'
  have greatest : ∀ e, weight e / logcnt e ≤ weight g / logcnt g := fun e =>
    le_of_mem_argmax (f := fun e => weight e / logcnt e) (mem_finRange e) chosen
  have lt : i < phy2log.length := replicated.length.symm ▸ room
  have taken : (phy2log.set i ↑g).take (i + 1) = phy2log.take i ++ [(g : Nat)] := by
    rw [take_add_one, take_set_of_le (le_refl i), getElem?_set_self lt]
    rfl
  refine ⟨_, _, by rw [Eplb.addReplica, chosen]; rfl, ?_⟩
  constructor
  case length => exact (length_set ..).trans replicated.length
  case logical =>
    intro x mem
    rw [taken] at mem
    rcases mem_append.mp mem with old | new
    · exact replicated.logical x old
    · rw [mem_singleton.mp new]
      exact g.isLt
  case count =>
    intro e
    rw [taken, count_append, replicated.count, count_singleton, Function.update_apply]
    by_cases same : e = g
    · simp [same]
    · have ne : ¬ (g : Nat) = e := fun eq => same (Fin.ext eq.symm)
      simp [same, ne]
  case positive =>
    intro e
    have := replicated.positive e
    rw [Function.update_apply]
    split <;> omega
  case sum =>
    have before := replicated.sum
    rw [Finset.sum_eq_add_sum_sdiff_singleton_of_mem (Finset.mem_univ g)] at before
    rw [Finset.sum_update_of_mem (Finset.mem_univ g)]
    omega
  case earned => exact replicated.earned.add replicated.positive nonneg greatest

theorem Replicated.addReplicas (replicated : Replicated weight numPhy i phy2log logcnt)
    (pos : 0 < n) {k : Nat} (room : i + k ≤ numPhy) (nonneg : ∀ e, 0 ≤ weight e) :
    ∃ phy2log' logcnt', (range' i k).foldlM (Eplb.addReplica weight) (phy2log, logcnt) =
        some (phy2log', logcnt') ∧ Replicated weight numPhy (i + k) phy2log' logcnt' := by
  induction k generalizing i phy2log logcnt with
  | zero => exact ⟨_, _, rfl, replicated⟩
  | succ k ih =>
    obtain ⟨_, _, step, replicated₁⟩ := replicated.addReplica pos (by omega) nonneg
    obtain ⟨phy2log₂, logcnt₂, others, replicated₂⟩ := ih replicated₁ (by omega)
    rw [range'_succ, foldlM_cons, step]
    exact ⟨phy2log₂, logcnt₂, others, by rwa [Nat.add_assoc, Nat.add_comm 1] at replicated₂⟩

theorem replicateExperts_spec (pos : 0 < n) (enough : n ≤ numPhy) (nonneg : ∀ e, 0 ≤ weight e) :
    ∃ phy2log logcnt, replicateExperts weight numPhy = some (phy2log, logcnt) ∧
      Replicated weight numPhy numPhy phy2log logcnt := by
  obtain ⟨phy2log, logcnt, run, replicated⟩ := (replicated_start weight enough).addReplicas
    (k := numPhy - n) pos (by omega) nonneg
  rw [Nat.add_sub_of_le enough] at replicated
  exact ⟨phy2log, logcnt, by rw [replicateExperts, if_neg (not_lt.mpr enough), run], replicated⟩

/-- Each expert has a replica, there are as many as slots, and no other counts have a lower
greatest load. -/
theorem replicateExperts_optimal (weight : Fin n → ℚ) (numPhy : Nat) (pos : 1 ≤ n)
    (enough : n ≤ numPhy) (nonneg : ∀ e, 0 ≤ weight e) :
    ∃ phy2log logcnt, replicateExperts weight numPhy = some (phy2log, logcnt) ∧
      (∀ e, 1 ≤ logcnt e) ∧ ∑ e, logcnt e = numPhy ∧ phy2log.length = numPhy ∧
      (∀ e : Fin n, phy2log.count ↑e = logcnt e) ∧
      ∀ count : Fin n → Nat, (∀ e, 1 ≤ count e) → ∑ e, count e = numPhy →
        maxLoad weight logcnt ≤ maxLoad weight count := by
  obtain ⟨phy2log, logcnt, run, replicated⟩ := replicateExperts_spec pos enough nonneg
  refine ⟨phy2log, logcnt, run, replicated.positive, replicated.sum, replicated.length,
    fun e => ?_, fun count positive sum => ?_⟩
  · have counted := replicated.count e
    rwa [take_of_length_le replicated.length.le] at counted
  · exact replicated.earned.maxLoad_le positive (replicated.sum.trans sum.symm) nonneg

theorem replicateExperts_one_spare :
    ∃ phy2log logcnt, replicateExperts ![1, 5] 3 = some (phy2log, logcnt) ∧
      (∀ e, 1 ≤ logcnt e) ∧ ∑ e, logcnt e = 3 ∧ phy2log.length = 3 ∧
      (∀ e : Fin 2, phy2log.count ↑e = logcnt e) ∧
      ∀ count : Fin 2 → Nat, (∀ e, 1 ≤ count e) → ∑ e, count e = 3 →
        maxLoad ![1, 5] logcnt ≤ maxLoad ![1, 5] count :=
  replicateExperts_optimal ![1, 5] 3 (by decide) (by decide) (by decide)

end Vllm.Eplb
