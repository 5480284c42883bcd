import Mathlib

/-!
The greatest value below a bound that several predicates accept, found by lowering a
candidate to what one predicate after the other accepts.

Lowering never goes below a value that all of them accept (`Above.lower`), so a candidate
that a whole round leaves as it is is the greatest common value (`Above.greatest`).
-/

namespace Vllm.Lib.Descent

variable {α : Type} [PartialOrder α] {P Q : α → Prop} {m n l c : α}

/-- The greatest value up to `m` that `P` accepts. -/
def Greatest (P : α → Prop) (m l : α) : Prop := IsGreatest {x | x ≤ m ∧ P x} l

section

variable (greatest : Greatest P m l)
include greatest

theorem Greatest.le : l ≤ m := greatest.1.1

theorem Greatest.accepted : P l := greatest.1.2

theorem Greatest.above (le : c ≤ m) (accepted : P c) : c ≤ l :=
  greatest.2 ⟨le, accepted⟩

theorem Greatest.unique {l' : α} (greatest' : Greatest P m l') : l = l' :=
  IsGreatest.unique greatest greatest'

end

/-- A candidate that no value accepted by `P` exceeds. -/
structure Above (P : α → Prop) (m c : α) : Prop where
  le : c ≤ m
  above : ∀ x, x ≤ m → P x → x ≤ c

theorem Above.start (P : α → Prop) (m : α) : Above P m m := ⟨le_refl m, fun _ le _ => le⟩

theorem Above.lower (candidate : Above P m c) (weaker : ∀ x, P x → Q x)
    (greatest : Greatest Q c n) : Above P m n where
  le := le_trans greatest.le candidate.le
  above x le accepted := greatest.above (candidate.above x le accepted) (weaker x accepted)

theorem Above.greatest (candidate : Above P m c) (accepted : P c) : Greatest P m c :=
  ⟨⟨candidate.le, accepted⟩, fun x ⟨le, accepted⟩ => candidate.above x le accepted⟩

open Classical in
/-- Numbers have a greatest accepted one as soon as zero is accepted. -/
theorem exists_greatest {P : Nat → Prop} (zero : P 0) (m : Nat) : ∃ l, Greatest P m l := by
  refine ⟨Nat.findGreatest P m, ⟨Nat.findGreatest_le m, ?_⟩, ?_⟩
  · exact Nat.findGreatest_spec (Nat.zero_le m) zero
  · rintro x ⟨le, accepted⟩
    exact Nat.le_findGreatest le accepted

end Vllm.Lib.Descent
