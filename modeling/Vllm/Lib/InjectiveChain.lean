import Mathlib

/-!
Chains of an injective step.

A chain folds a step `f : S → A → S` over a list of inputs, starting at a seed.
When `f` is injective in both arguments, the last state of a chain determines
every input that led to it, given only the number of inputs
(`foldl_inj_of_length_eq`). When moreover no step returns to the seed, the last
state determines the number of inputs too (`foldl_inj_of_seed`).
-/

namespace Vllm.Lib.InjectiveChain

variable {S A : Type*} {f : S → A → S}

/-- Chains of equal length that end in the same state have the same seed and
the same inputs. -/
theorem foldl_inj_of_length_eq (inj : Function.Injective2 f) {s t : S} {xs ys : List A}
    (len : xs.length = ys.length) (same : xs.foldl f s = ys.foldl f t) : s = t ∧ xs = ys := by
  induction xs generalizing s t ys with
  | nil =>
    cases ys with
    | nil => exact ⟨same, rfl⟩
    | cons y ys => simp at len
  | cons x xs ih =>
    cases ys with
    | nil => simp at len
    | cons y ys =>
      have tails : xs.length = ys.length := by simpa using len
      obtain ⟨step, rest⟩ := ih (s := f s x) (t := f t y) tails same
      obtain ⟨seed, input⟩ := inj step
      exact ⟨seed, by rw [input, rest]⟩

/-- If no step returns to the seed, the last state determines all inputs. -/
theorem foldl_inj_of_seed (inj : Function.Injective2 f) {s : S} (fresh : ∀ t a, f t a ≠ s)
    {xs ys : List A} (same : xs.foldl f s = ys.foldl f s) : xs = ys := by
  induction xs using List.reverseRecOn generalizing ys with
  | nil =>
    cases ys using List.reverseRecOn with
    | nil => rfl
    | append_singleton ys y =>
      rw [List.foldl_append] at same
      exact absurd same.symm (fresh _ _)
  | append_singleton xs x ih =>
    cases ys using List.reverseRecOn with
    | nil =>
      rw [List.foldl_append] at same
      exact absurd same (fresh _ _)
    | append_singleton ys y =>
      simp only [List.foldl_append, List.foldl_cons, List.foldl_nil] at same
      obtain ⟨before, input⟩ := inj same
      rw [ih before, input]

end Vllm.Lib.InjectiveChain
