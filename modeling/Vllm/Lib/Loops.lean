import Mathlib

/-!
Loops that may raise or run forever.

`loop` is `while cond: body` with a bound on the rounds; no result means that the
bound was too small. A loop terminates if some bound is large enough
(`loop_terminates`), and runs forever if its state stays in a set in which the
condition holds and the body does not raise (`loop_eq_none`).
-/

namespace Vllm.Lib.Loops

variable {σ ε : Type}

/-- The state after a call, and what the call raised. An exception does not undo
what was done before it. -/
structure Outcome (σ ε : Type) where
  state : σ
  raised : Option ε := none

/-- `while cond: body`, for at most `fuel` rounds. -/
def loop (cond : σ → Bool) (body : σ → Outcome σ ε) : (fuel : Nat) → σ → Option (Outcome σ ε)
  | 0, s => if cond s then none else some ⟨s, none⟩
  | fuel + 1, s =>
    if cond s then
      match body s with
      | ⟨s', none⟩ => loop cond body fuel s'
      | ⟨s', some error⟩ => some ⟨s', some error⟩
    else some ⟨s, none⟩

variable {cond : σ → Bool} {body : σ → Outcome σ ε}

theorem loop_of_not {s : σ} (done : cond s = false) (fuel : Nat) :
    loop cond body fuel s = some ⟨s, none⟩ := by
  cases fuel <;> simp [loop, done]

theorem loop_succ_of_ok {s s' : σ} (goes : cond s = true) (ok : body s = ⟨s', none⟩) (fuel : Nat) :
    loop cond body (fuel + 1) s = loop cond body fuel s' := by
  rw [loop]
  simp [goes, ok]

theorem loop_succ_of_raised {s s' : σ} {error : ε} (goes : cond s = true)
    (raised : body s = ⟨s', some error⟩) (fuel : Nat) :
    loop cond body (fuel + 1) s = some ⟨s', some error⟩ := by
  rw [loop]
  simp [goes, raised]

/-- Every round that does not raise makes the measure smaller: the loop ends. -/
theorem loop_terminates (Inv : σ → Prop) (measure : σ → Nat)
    (progress : ∀ s, Inv s → cond s = true → (body s).raised = none →
      Inv (body s).state ∧ measure (body s).state < measure s) {s : σ} (start : Inv s) :
    ∃ fuel r, loop cond body fuel s = some r := by
  induction n : measure s using Nat.strongRecOn generalizing s with
  | ind n ih =>
    cases goes : cond s with
    | false => exact ⟨0, _, loop_of_not goes 0⟩
    | true =>
      cases same : body s with
      | mk s' raised =>
      cases raised with
      | some error => exact ⟨1, _, loop_succ_of_raised goes same 0⟩
      | none =>
        obtain ⟨inv, less⟩ := progress s start goes (by rw [same])
        rw [same] at inv less
        obtain ⟨fuel, r, ends⟩ := ih (measure s') (n ▸ less) inv rfl
        exact ⟨fuel + 1, r, by rw [loop_succ_of_ok goes same, ends]⟩

/-- What every round keeps, also a round that raises, holds at the end. -/
theorem loop_keeps (Inv : σ → Prop)
    (keeps : ∀ s, Inv s → cond s = true → Inv (body s).state) {fuel : Nat} {s : σ}
    {r : Outcome σ ε} (start : Inv s) (run : loop cond body fuel s = some r) : Inv r.state := by
  induction fuel generalizing s with
  | zero =>
    rw [loop] at run
    split at run
    · cases run
    · cases run
      exact start
  | succ fuel ih =>
    cases goes : cond s with
    | false =>
      rw [loop_of_not goes] at run
      cases run
      exact start
    | true =>
      have inv := keeps s start goes
      cases same : body s with
      | mk s' raised =>
      rw [same] at inv
      cases raised with
      | some error =>
        rw [loop_succ_of_raised goes same] at run
        cases run
        exact inv
      | none =>
        rw [loop_succ_of_ok goes same] at run
        exact ih inv run

/-- A loop that stays where its condition holds never ends. -/
theorem loop_eq_none (Stuck : σ → Prop)
    (stays : ∀ s, Stuck s → cond s = true ∧ ∃ s', body s = ⟨s', none⟩ ∧ Stuck s') {s : σ}
    (start : Stuck s) (fuel : Nat) : loop cond body fuel s = none := by
  induction fuel generalizing s with
  | zero =>
    rw [loop]
    simp [(stays s start).1]
  | succ fuel ih =>
    obtain ⟨goes, s', ok, stuck⟩ := stays s start
    rw [loop_succ_of_ok goes ok]
    exact ih stuck

end Vllm.Lib.Loops
