import Mathlib

/-!
Borders of the prefixes of a sequence: the first `v` elements of a sequence are also the last `v`
of its first `i`, for `v < i`. This is what the failure function of a string search is about.
-/

namespace Vllm.Lib

variable {α : Type} {f : Nat → α} {i v w : Nat}

/-- The first `v` elements are the last `v` of the first `i`, and not all of them. -/
def Border (f : Nat → α) (i v : Nat) : Prop := v < i ∧ ∀ j < v, f j = f (i - v + j)

namespace Border

theorem zero (pos : 0 < i) : Border f i 0 := ⟨pos, nofun⟩

/-- A longer border is the longer one of one element less, if the next elements agree. -/
theorem succ_iff : Border f (i + 1) (v + 1) ↔ Border f i v ∧ f v = f i := by
  unfold Border
  rw [Nat.add_lt_add_iff_right, and_assoc]
  refine and_congr_right fun lt => ?_
  rw [Nat.forall_lt_succ_right, Nat.add_sub_add_right, Nat.sub_add_cancel lt.le]

/-- The shorter borders are those of the border. -/
theorem iff_of_lt (border : Border f i v) (lt : w < v) : Border f v w ↔ Border f i w := by
  refine and_congr (iff_of_true lt (lt.trans border.1)) (forall₂_congr fun j isLt => ?_)
  have less := border.1
  have same := border.2 (v - w + j) (by omega)
  have index : i - v + (v - w + j) = i - w + j := by omega
  rw [same, index]

end Border

end Vllm.Lib
