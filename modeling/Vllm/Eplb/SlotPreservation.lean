import Mathlib.Algebra.BigOperators.Group.Finset.Basic
import Mathlib.Algebra.Order.BigOperators.Group.Finset
import Mathlib.Data.Fin.VecNotation
import Mathlib.Data.List.FinRange

/-!
Experts that stay on a GPU keep their slot (`DefaultEplbPolicy.preserve_intragpu_slots`,
`vllm/distributed/eplb/policy/default.py`).

The layers are independent, and each GPU's turn of the loop writes only its own slots. A first
pass gives each slot its old expert back while the new map has one of it that is not yet used
(`keepSlot`), a second one fills the other slots with what remains, in order (`fillSlots`). The
kept experts are those that the old and the new map have in common, counted (`Kept.common`).
-/

namespace Vllm.Eplb

variable {k n : Nat} {ε : Type} [DecidableEq ε]

/-- The slots of one GPU in one layer: `post_phy2log`, `used_new_indices` and
`preserved_positions`. -/
structure Slots (k : Nat) (ε : Type) where
  post : Fin k → ε
  used : Fin k → Bool
  preserved : Fin k → Bool

/-- The first pass, for one slot. -/
def keepSlot (old new : Fin k → ε) (s : Slots k ε) (slot : Fin k) : Slots k ε :=
  match (List.finRange k).find? fun j => new j = old slot ∧ s.used j = false with
  | some j =>
      { post := Function.update s.post slot (new j)
        used := Function.update s.used j true
        preserved := Function.update s.preserved slot true }
  | none => s

/-- The second pass writes the experts at `remaining` to the slots `fill`. -/
def fillSlots (new : Fin k → ε) (post : Fin k → ε) (fill remaining : List (Fin k)) : Fin k → ε :=
  (fill.zip remaining).foldl (fun post slot => Function.update post slot.1 (new slot.2)) post

/-- The slots of one GPU. -/
def preserveLocal (old new : Fin k → ε) : Fin k → ε :=
  let s := (List.finRange k).foldl (keepSlot old new) ⟨new, fun _ => false, fun _ => false⟩
  fillSlots new s.post ((List.finRange k).filter (!s.preserved ·))
    ((List.finRange k).filter (!s.used ·))

/-- `[start:end]` of a row. -/
def localSlots (row : Fin n → ε) (gpu : Nat) (inside : gpu * k + k ≤ n) : Fin k → ε :=
  fun slot => row ⟨gpu * k + slot, by omega⟩

theorem slots_inside {numRanks gpu : Nat} (divides : numRanks ∣ n) (lt : gpu < numRanks) :
    gpu * (n / numRanks) + n / numRanks ≤ n := by
  have le := Nat.mul_le_mul_right (n / numRanks) (Nat.succ_le_of_lt lt)
  rwa [Nat.mul_div_cancel' divides, Nat.succ_mul] at le

theorem slot_gpu_lt {numRanks : Nat} (divides : numRanks ∣ n) (slot : Fin n) :
    slot / (n / numRanks) < numRanks := by
  rw [Nat.div_lt_iff_lt_mul (Nat.pos_of_ne_zero fun zero => ?_), Nat.mul_div_cancel' divides]
  · exact slot.isLt
  · have all := Nat.mul_div_cancel' divides
    rw [zero, Nat.mul_zero] at all
    exact absurd slot.isLt (by omega)

/-- `preserve_intragpu_slots`. -/
def preserveIntragpuSlots {layers : Type} (phy2log : layers → Fin n → ε) (numRanks : Nat)
    (oldPhy2log : layers → Fin n → ε) : layers → Fin n → ε :=
  if divides : numRanks ∣ n then fun layer slot =>
    let inside := slots_inside divides (slot_gpu_lt divides slot)
    preserveLocal (localSlots (oldPhy2log layer) _ inside) (localSlots (phy2log layer) _ inside)
      ⟨slot % (n / numRanks), Nat.mod_lt _ (Nat.pos_of_ne_zero fun zero => by
        have all := Nat.mul_div_cancel' divides
        rw [zero, Nat.mul_zero] at all
        exact absurd slot.isLt (by omega))⟩
  else phy2log

/-! ### The first pass -/

/-- The experts on a GPU, counted. -/
def experts (f : Fin k → ε) : Multiset ε := (List.finRange k).map f

/-- The slots that have the expert they had. -/
def keptSlots (old f : Fin k → ε) : Nat := ((List.finRange k).filter fun i => f i = old i).length

/-- After the first pass has been at the slots `visited`. -/
structure Kept (old new : Fin k → ε) (visited : List (Fin k)) (s : Slots k ε) : Prop where
  post : ∀ i, s.preserved i = true → s.post i = old i
  seen : ∀ i, s.preserved i = true → i ∈ visited
  same : (((List.finRange k).filter s.preserved).map old).Perm
    (((List.finRange k).filter s.used).map new)
  greedy : ∀ i ∈ visited, s.preserved i = false → ∀ j, new j = old i → s.used j = true

variable {old new : Fin k → ε} {visited : List (Fin k)} {s : Slots k ε}

omit [DecidableEq ε] in
theorem filter_update_perm {p : Fin k → Bool} {x : Fin k} (off : p x = false) :
    ((List.finRange k).filter (Function.update p x true)).Perm (x :: (List.finRange k).filter p) := by
  have nodup := (List.nodup_finRange k).filter p
  refine (List.perm_ext_iff_of_nodup ((List.nodup_finRange k).filter _)
    (List.nodup_cons.mpr ⟨by simp [off], nodup⟩)).mpr fun i => ?_
  by_cases same : i = x
  · simp [same]
  · simp [same]

theorem Kept.keepSlot (kept : Kept old new visited s) {slot : Fin k} (fresh : slot ∉ visited) :
    Kept old new (visited ++ [slot]) (keepSlot old new s slot) := by
  have off : s.preserved slot = false := by
    by_contra on
    exact fresh (kept.seen slot (by simpa using on))
  unfold Eplb.keepSlot
  split
  · rename_i j found
    obtain ⟨isOld, unused⟩ : new j = old slot ∧ s.used j = false := by
      simpa using List.find?_some found
    constructor
    case post =>
      intro i on
      dsimp only at on ⊢
      by_cases same : i = slot
      · rw [same, Function.update_self, isOld]
      · rw [Function.update_of_ne same] at on ⊢
        exact kept.post i on
    case seen =>
      intro i on
      dsimp only at on
      by_cases same : i = slot
      · exact List.mem_append_right _ (List.mem_singleton.mpr same)
      · rw [Function.update_of_ne same] at on
        exact List.mem_append_left _ (kept.seen i on)
    case same =>
      refine ((filter_update_perm off).map old).trans
        (.trans ?_ ((filter_update_perm unused).map new).symm)
      rw [List.map_cons, List.map_cons, isOld]
      exact kept.same.cons _
    case greedy =>
      intro i mem notKept j' isI
      dsimp only at notKept ⊢
      have ne : i ≠ slot := fun same => by simp [same] at notKept
      rw [Function.update_of_ne ne] at notKept
      have before := kept.greedy i
        ((List.mem_append.mp mem).resolve_right fun new => ne (List.mem_singleton.mp new)) notKept j' isI
      rw [Function.update_apply, before, ite_self]
  · rename_i none
    refine ⟨kept.post, fun i on => List.mem_append_left _ (kept.seen i on), kept.same, ?_⟩
    intro i mem notKept j isI
    rcases List.mem_append.mp mem with before | here
    · exact kept.greedy i before notKept j isI
    · rw [List.mem_singleton.mp here] at isI
      simpa [isI] using List.find?_eq_none.mp none j (List.mem_finRange j)

theorem Kept.keepSlots (kept : Kept old new visited s) (todo : List (Fin k))
    (nodup : (visited ++ todo).Nodup) :
    Kept old new (visited ++ todo) (todo.foldl (Eplb.keepSlot old new) s) := by
  induction todo generalizing visited s with
  | nil => rwa [List.append_nil]
  | cons slot todo ih =>
    have fresh : slot ∉ visited := fun mem => List.disjoint_of_nodup_append nodup mem (by simp)
    rw [← List.singleton_append, ← List.append_assoc] at nodup ⊢
    exact ih (kept.keepSlot fresh) nodup

omit [DecidableEq ε] in
theorem map_filter_le (f : Fin k → ε) (p : Fin k → Bool) :
    (((List.finRange k).filter p).map f : Multiset ε) ≤ experts f :=
  Multiset.coe_le.mpr (List.filter_sublist.map f).subperm

/-- The kept experts are the ones that both maps have. -/
theorem Kept.common (kept : Kept old new (List.finRange k) s) :
    (((List.finRange k).filter s.preserved).map old : Multiset ε) = experts old ∩ experts new := by
  have same : (((List.finRange k).filter s.preserved).map old : Multiset ε) =
      ((List.finRange k).filter s.used).map new := Quotient.sound kept.same
  refine le_antisymm (Multiset.le_inter (map_filter_le old _) (same ▸ map_filter_le new _))
    (Multiset.le_iff_count.mpr fun e => ?_)
  rw [Multiset.count_inter]
  by_cases some : ∃ i, s.preserved i = false ∧ old i = e
  · -- the new experts `e` are used up
    obtain ⟨i, notKept, rfl⟩ := some
    have all := kept.greedy i (List.mem_finRange i) notKept
    rw [same]
    refine (Nat.min_le_right _ _).trans ?_
    simp only [experts, Multiset.coe_count, List.count_eq_countP, List.countP_map,
      List.countP_filter]
    refine List.countP_mono_left fun j _ isE => ?_
    have isOld : new j = old i := by simpa using isE
    simp [isOld, all j isOld]
  · refine (Nat.min_le_left _ _).trans ?_
    simp only [experts, Multiset.coe_count, List.count_eq_countP, List.countP_map,
      List.countP_filter]
    refine List.countP_mono_left fun i _ isE => ?_
    have isOld : old i = e := by simpa using isE
    have on : s.preserved i = true := by
      by_contra off
      exact some ⟨i, by simpa using off, isOld⟩
    simp [isOld, on]

/-! ### The second pass -/

omit [DecidableEq ε] in
theorem fillSlots_of_notMem (new post : Fin k → ε) {fill : List (Fin k)}
    (remaining : List (Fin k)) {i : Fin k} (notMem : i ∉ fill) :
    fillSlots new post fill remaining i = post i := by
  unfold fillSlots
  induction fill generalizing post remaining with
  | nil => rfl
  | cons slot fill ih =>
    cases remaining with
    | nil => rfl
    | cons j remaining =>
      rw [List.zip_cons_cons, List.foldl_cons, ih _ _ fun mem => notMem (List.mem_cons_of_mem _ mem)]
      exact Function.update_of_ne (List.ne_of_not_mem_cons notMem) _ _

omit [DecidableEq ε] in
theorem map_fillSlots (new post : Fin k → ε) {fill remaining : List (Fin k)} (nodup : fill.Nodup)
    (length : fill.length = remaining.length) :
    fill.map (fillSlots new post fill remaining) = remaining.map new := by
  induction fill generalizing post remaining with
  | nil => rw [List.length_eq_zero_iff.mp length.symm]; rfl
  | cons slot fill ih =>
    cases remaining with
    | nil => cases length
    | cons j remaining =>
      obtain ⟨notMem, nodup⟩ := List.nodup_cons.mp nodup
      have others := ih (Function.update post slot (new j)) nodup (Nat.succ.inj length)
      have here := fillSlots_of_notMem new (Function.update post slot (new j)) remaining notMem
      rw [Function.update_self] at here
      exact congrArg₂ List.cons here others

omit [DecidableEq ε] in
theorem experts_split (f : Fin k → ε) (p : Fin k → Bool) :
    experts f = ((List.finRange k).filter p).map f + ((List.finRange k).filter (!p ·)).map f := by
  rw [Multiset.coe_add, ← List.map_append]
  exact Quotient.sound ((List.filter_append_perm p _).symm.map f)

/-- No arrangement keeps more than what the old and the new experts have in common. -/
theorem keptSlots_le (old f : Fin k → ε) :
    keptSlots old f ≤ Multiset.card (experts old ∩ experts f) := by
  have same : ((List.finRange k).filter fun i => f i = old i).map f =
      ((List.finRange k).filter fun i => f i = old i).map old :=
    List.map_congr_left fun i mem => by simpa using (List.mem_filter.mp mem).2
  have common : (((List.finRange k).filter fun i => f i = old i).map f : Multiset ε) ≤
      experts old ∩ experts f :=
    Multiset.le_inter (same ▸ map_filter_le old _) (map_filter_le f _)
  have card := Multiset.card_le_card common
  rwa [Multiset.coe_card, List.length_map] at card

theorem preserveLocal_spec (old new : Fin k → ε) :
    experts (preserveLocal old new) = experts new ∧
      keptSlots old (preserveLocal old new) = Multiset.card (experts old ∩ experts new) := by
  have start : Kept old new [] ⟨new, fun _ => false, fun _ => false⟩ :=
    ⟨nofun, nofun, by simp, nofun⟩
  have kept := start.keepSlots (List.finRange k) (List.nodup_finRange k)
  rw [List.nil_append] at kept
  unfold preserveLocal
  generalize (List.finRange k).foldl (Eplb.keepSlot old new) _ = s at kept ⊢
  dsimp only
  have length : ((List.finRange k).filter (!s.preserved ·)).length =
      ((List.finRange k).filter (!s.used ·)).length := by
    have keptLength := kept.same.length_eq
    have slots := (List.filter_append_perm s.preserved (List.finRange k)).length_eq
    have news := (List.filter_append_perm s.used (List.finRange k)).length_eq
    simp only [List.length_map, List.length_append] at keptLength slots news
    omega
  have filled := map_fillSlots new s.post ((List.nodup_finRange k).filter (!s.preserved ·)) length
  generalize result : fillSlots new s.post _ _ = r at filled ⊢
  have onKept : ∀ i ∈ (List.finRange k).filter s.preserved, r i = old i := by
    intro i mem
    have on := (List.mem_filter.mp mem).2
    rw [← result, fillSlots_of_notMem _ _ _ (by simp [on]), kept.post i on]
  have all : experts r = experts new := by
    rw [experts_split r s.preserved, experts_split new s.used, filled,
      List.map_congr_left onKept]
    exact congrArg (· + _) (Quotient.sound kept.same)
  refine ⟨all, le_antisymm (all ▸ keptSlots_le old r) ?_⟩
  rw [← kept.common, Multiset.coe_card, List.length_map]
  refine (List.Sublist.length_le ?_)
  refine List.monotone_filter_right _ fun i on => ?_
  simpa using onKept i (List.mem_filter.mpr ⟨List.mem_finRange i, on⟩)

/-! ### All GPUs -/

/-- The experts are those of the new map, and as many slots as possible are kept: for each expert
the lesser of its two counts. -/
structure KeepsSlots (old new result : Fin k → ε) : Prop where
  sameExperts : experts result = experts new
  kept : keptSlots old result =
    ∑ e ∈ (experts new).toFinset, min ((experts old).count e) ((experts new).count e)
  most : ∀ f, experts f = experts new → keptSlots old f ≤ keptSlots old result

theorem keepsSlots_preserveLocal (old new : Fin k → ε) :
    KeepsSlots old new (preserveLocal old new) := by
  obtain ⟨all, kept⟩ := preserveLocal_spec old new
  refine ⟨all, ?_, fun f same => ?_⟩
  · rw [kept, ← Multiset.sum_count_eq_card (s := (experts new).toFinset) fun e mem =>
      Multiset.mem_toFinset.mpr (Multiset.mem_inter.mp mem).2]
    exact Finset.sum_congr rfl fun e _ => Multiset.count_inter e _ _
  · rw [kept, ← same]
    exact keptSlots_le old f

/-- A GPU gets the slots that the two passes give it. -/
theorem localSlots_preserveIntragpuSlots {layers : Type} (phy2log oldPhy2log : layers → Fin n → ε)
    {numRanks gpu : Nat} (divides : numRanks ∣ n) (layer : layers)
    (inside : gpu * (n / numRanks) + n / numRanks ≤ n) :
    localSlots (preserveIntragpuSlots phy2log numRanks oldPhy2log layer) gpu inside =
      preserveLocal (localSlots (oldPhy2log layer) gpu inside)
        (localSlots (phy2log layer) gpu inside) := by
  funext slot
  have pos : 0 < n / numRanks := Nat.lt_of_le_of_lt (Nat.zero_le _) slot.isLt
  have gpuOf : (gpu * (n / numRanks) + slot) / (n / numRanks) = gpu := by
    rw [Nat.mul_comm, Nat.mul_add_div pos, Nat.div_eq_of_lt slot.isLt, Nat.add_zero]
  have slotOf : (gpu * (n / numRanks) + slot) % (n / numRanks) = slot := by
    rw [Nat.mul_comm, Nat.mul_add_mod, Nat.mod_eq_of_lt slot.isLt]
  have here : ∀ (row : Fin n → ε) {g : Nat} (inside' : g * (n / numRanks) + n / numRanks ≤ n),
      g = gpu → localSlots row g inside' = localSlots row gpu inside := by
    rintro row g inside' rfl
    rfl
  simp only [localSlots, preserveIntragpuSlots, dif_pos divides, slotOf]
  exact congrArg₂ (preserveLocal · · slot) (here _ _ gpuOf) (here _ _ gpuOf)

theorem preserveIntragpuSlots_keeps {layers : Type} (phy2log oldPhy2log : layers → Fin n → ε)
    (numRanks : Nat) (divides : numRanks ∣ n) (layer : layers) (gpu : Nat) (lt : gpu < numRanks) :
    KeepsSlots (localSlots (oldPhy2log layer) gpu (slots_inside divides lt))
      (localSlots (phy2log layer) gpu (slots_inside divides lt))
      (localSlots (preserveIntragpuSlots phy2log numRanks oldPhy2log layer) gpu
        (slots_inside divides lt)) := by
  rw [localSlots_preserveIntragpuSlots phy2log oldPhy2log divides]
  exact keepsSlots_preserveLocal _ _

/-- Two GPUs with two slots each. The first had the same two experts the other way round. -/
theorem preserveIntragpuSlots_swapped :
    2 ∣ 4 ∧ keptSlots (localSlots (k := 2) ![0, 1, 2, 4] 0 (by decide))
      (localSlots (preserveIntragpuSlots (fun _ : Fin 1 => ![1, 0, 3, 2]) 2
        (fun _ => ![0, 1, 2, 4]) 0) 0 (by decide)) = 2 := by
  refine ⟨by decide, ?_⟩
  have keeps := preserveIntragpuSlots_keeps (n := 4) (fun _ : Fin 1 => ![1, 0, 3, 2])
    (fun _ => ![0, 1, 2, 4]) 2 (by decide) 0 0 (by decide)
  exact keeps.kept.trans (by decide)

end Vllm.Eplb
