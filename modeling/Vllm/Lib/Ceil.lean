import Mathlib

/-!
Ceiling division on natural numbers, and what block counts need of it.
-/

namespace Vllm.Lib.Ceil

/-- `cdiv a b` is `a / b` rounded up. -/
def cdiv (a b : Nat) : Nat := (a + b - 1) / b

variable {a b c : Nat}

section

variable (pos : 0 < b)
include pos

/-- The blocks of size `b` that hold `a` items are at most `c` in number iff `a`
items fit into `c` blocks. -/
theorem cdiv_le_iff : cdiv a b ≤ c ↔ a ≤ c * b := by
  rw [cdiv, ← Nat.lt_succ_iff, Nat.div_lt_iff_lt_mul pos, Nat.succ_mul]
  omega

theorem le_cdiv_mul : a ≤ cdiv a b * b :=
  (cdiv_le_iff pos).mp (Nat.le_refl _)

theorem lt_cdiv_iff : c < cdiv a b ↔ c * b < a := by
  rw [← Nat.not_le, ← Nat.not_le, cdiv_le_iff pos]

@[simp] theorem cdiv_zero : cdiv 0 b = 0 :=
  Nat.le_zero.mp ((cdiv_le_iff pos).mpr (Nat.zero_le _))

theorem cdiv_mono (le : a ≤ c) : cdiv a b ≤ cdiv c b :=
  (cdiv_le_iff pos).mpr (Nat.le_trans le (le_cdiv_mul pos))

@[simp] theorem cdiv_mul_self : cdiv (a * b) b = a := by
  apply Nat.le_antisymm
  · exact (cdiv_le_iff pos).mpr (Nat.le_refl _)
  · have := le_cdiv_mul (a := a * b) pos
    exact Nat.le_of_mul_le_mul_right this pos

theorem div_le_cdiv : a / b ≤ cdiv a b :=
  Nat.div_le_div_right (by omega)

end

theorem cdiv_eq_succ_div (pos : 0 < a) (posB : 0 < b) : cdiv a b = (a - 1) / b + 1 := by
  rw [cdiv, show a + b - 1 = a - 1 + b by omega, Nat.add_div_right _ posB]

end Vllm.Lib.Ceil
