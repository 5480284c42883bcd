import Mathlib

/-!
Finite runs of a labelled step relation.

A component is a type of states with a relation `step s call s'`; a `Run` is a
sequence of calls. `guarded` keeps the steps whose state and call meet a
condition, so that "in every run whose steps all meet the condition" is a
statement about the runs of the guarded relation.
-/

namespace Vllm.Lib.Steps

variable {σ α : Type}

/-- `Run step s calls s'`: the calls lead from `s` to `s'`. -/
inductive Run (step : σ → α → σ → Prop) : σ → List α → σ → Prop
  | refl (s : σ) : Run step s [] s
  | tail {s t u : σ} {calls : List α} {call : α} :
      Run step s calls t → step t call u → Run step s (calls ++ [call]) u

/-- The steps that meet `ok` before they are taken. -/
def guarded (ok : σ → α → Prop) (step : σ → α → σ → Prop) (s : σ) (call : α) (s' : σ) : Prop :=
  ok s call ∧ step s call s'

/-- The step relation of a total state function. -/
def calls (next : σ → α → σ) (s : σ) (call : α) (s' : σ) : Prop := s' = next s call

variable {step : σ → α → σ → Prop} {s s' : σ} {as : List α}

/-- What every step keeps holds in every state reached. -/
theorem Run.invariant (Inv : σ → Prop)
    (keeps : ∀ {s call s'}, Inv s → step s call s' → Inv s') (start : Inv s)
    (run : Run step s as s') : Inv s' := by
  induction run with
  | refl => exact start
  | tail _ last ih => exact keeps ih last

/-- What every step keeps of the calls so far and the state holds after every run. -/
theorem Run.invariant_calls (Inv : List α → σ → Prop)
    (keeps : ∀ {calls s call s'}, Inv calls s → step s call s' → Inv (calls ++ [call]) s')
    (start : Inv [] s) (run : Run step s as s') : Inv as s' := by
  induction run with
  | refl => exact start
  | tail _ last ih => exact keeps ih last

theorem Run.head {t u : σ} {call : α} (first : step s call t) (run : Run step t as u) :
    Run step s (call :: as) u := by
  induction run with
  | refl => exact .tail (.refl s) first
  | tail _ last ih => exact .tail ih last

/-- A run of steps that are steps of another relation too. -/
theorem Run.imp {step' : σ → α → σ → Prop}
    (weaker : ∀ {s call s'}, step s call s' → step' s call s') (run : Run step s as s') :
    Run step' s as s' := by
  induction run with
  | refl => exact .refl _
  | tail _ last ih => exact .tail ih (weaker last)

/-- Every call meets the condition in the state that the calls before it make. -/
def Along (ok : σ → α → Prop) (next : σ → α → σ) : σ → List α → Prop
  | _, [] => True
  | s, call :: rest => ok s call ∧ Along ok next (next s call) rest

instance decidableAlong (ok : σ → α → Prop) [∀ s call, Decidable (ok s call)]
    (next : σ → α → σ) : (s : σ) → (as : List α) → Decidable (Along ok next s as)
  | _, [] => inferInstanceAs (Decidable True)
  | s, call :: rest =>
    have := decidableAlong ok next (next s call) rest
    inferInstanceAs (Decidable (ok s call ∧ Along ok next (next s call) rest))

variable {ok : σ → α → Prop} {ε : Type}

/-- A total state function runs to the fold of its calls. -/
theorem Run.of_along {next : σ → α → σ} (along : Along ok next s as) :
    Run (guarded ok (calls next)) s as (as.foldl next s) := by
  induction as generalizing s with
  | nil => exact .refl s
  | cons call rest ih => exact .head ⟨along.1, rfl⟩ (ih along.2)

/-- The step relation of a state function that may fail: a failed call has no
successor. -/
def succeeds {ε : Type} (exec : σ → α → Except ε σ) (s : σ) (call : α) (s' : σ) : Prop :=
  exec s call = .ok s'

/-- The step relation of a state function that is not defined for every call. -/
def enabled (exec : σ → α → Option σ) (s : σ) (call : α) (s' : σ) : Prop :=
  exec s call = some s'

theorem Run.of_enabled {exec : σ → α → Option σ} (ends : as.foldlM exec s = some s') :
    Run (enabled exec) s as s' := by
  induction as generalizing s with
  | nil =>
    cases ends
    exact .refl _
  | cons call rest ih =>
    obtain ⟨t, first, others⟩ := Option.bind_eq_some_iff.mp ends
    exact .head first (ih others)

/-- Every call succeeds, and meets the condition in the state before it. -/
def AlongOk {ε : Type} (ok : σ → α → Prop) (exec : σ → α → Except ε σ) : σ → List α → Prop
  | _, [] => True
  | s, call :: rest => ok s call ∧
      match exec s call with
      | .ok t => AlongOk ok exec t rest
      | .error _ => False

instance decidableAlongOk {ε : Type} (ok : σ → α → Prop) [∀ s call, Decidable (ok s call)]
    (exec : σ → α → Except ε σ) : (s : σ) → (as : List α) → Decidable (AlongOk ok exec s as)
  | _, [] => inferInstanceAs (Decidable True)
  | s, call :: rest =>
    have : Decidable (match exec s call with
        | .ok t => AlongOk ok exec t rest
        | .error _ => False) :=
      match exec s call with
      | .ok t => decidableAlongOk ok exec t rest
      | .error _ => inferInstanceAs (Decidable False)
    inferInstanceAs (Decidable (ok s call ∧ _))

variable {exec : σ → α → Except ε σ}

/-- A weaker condition on the calls at hand. -/
theorem AlongOk.imp {ok' : σ → α → Prop} (weaker : ∀ s, ∀ call ∈ as, ok s call → ok' s call)
    (along : AlongOk ok exec s as) :
    AlongOk ok' exec s as := by
  induction as generalizing s with
  | nil => trivial
  | cons call rest ih =>
    obtain ⟨good, along⟩ := along
    refine ⟨weaker s call (by simp) good, ?_⟩
    cases first : exec s call with
    | error e =>
      rw [first] at along
      exact along
    | ok t =>
      rw [first] at along
      exact ih (fun s call mem => weaker s call (by simp [mem])) along

/-- Such calls are a run. -/
theorem Run.of_alongOk (along : AlongOk ok exec s as) (ends : as.foldlM exec s = .ok s') :
    Run (guarded ok (succeeds exec)) s as s' := by
  induction as generalizing s with
  | nil =>
    cases ends
    exact .refl _
  | cons call rest ih =>
    obtain ⟨good, along⟩ := along
    rw [List.foldlM_cons] at ends
    cases first : exec s call with
    | error e =>
      rw [first] at along
      exact along.elim
    | ok t =>
      rw [first] at along ends
      exact .head ⟨good, first⟩ (ih along ends)

/-- The calls succeed and lead to a state that passes the test. -/
def endsIn {ε : Type} (exec : σ → α → Except ε σ) (s : σ) (as : List α) (test : σ → Bool) : Bool :=
  match as.foldlM exec s with
  | .ok t => test t
  | .error _ => false

theorem exists_run_of_endsIn (test : σ → Bool) (along : AlongOk ok exec s as)
    (ends : endsIn exec s as test = true) :
    ∃ t, Run (guarded ok (succeeds exec)) s as t ∧ test t = true := by
  unfold endsIn at ends
  cases reached : as.foldlM exec s with
  | error e =>
    rw [reached] at ends
    cases ends
  | ok t =>
    rw [reached] at ends
    exact ⟨t, Run.of_alongOk along reached, ends⟩

/-- If a condition on the next call decides whether the state after it is good, then all
states that the calls pass through are good exactly if every call meets the condition. -/
theorem forall_reached_iff {Inv Good : σ → Prop} (good : ∀ {s}, Inv s → Good s)
    (keeps : ∀ {s call s'}, Inv s → exec s call = .ok s' → ok s call → Inv s')
    (breaks : ∀ {s call s'}, Inv s → exec s call = .ok s' → ¬ ok s call → ¬ Good s') (start : Inv s)
    (ends : as.foldlM exec s = .ok s') :
    (∀ done t, done <+: as → done.foldlM exec s = .ok t → Good t) ↔ AlongOk ok exec s as := by
  induction as generalizing s with
  | nil =>
    refine ⟨fun _ => trivial, fun _ done t started ends => ?_⟩
    cases List.prefix_nil.mp started
    cases ends
    exact good start
  | cons call rest ih =>
    rw [List.foldlM_cons] at ends
    cases first : exec s call with
    | error e =>
      rw [first] at ends
      cases ends
    | ok u =>
      rw [first] at ends
      simp only [AlongOk, first]
      constructor
      · intro all
        by_cases meets : ok s call
        · refine ⟨meets, (ih (keeps start first meets) ends).mp fun done t started ends => ?_⟩
          apply all (call :: done) t (List.cons_prefix_cons.mpr ⟨rfl, started⟩)
          rw [List.foldlM_cons, first]
          exact ends
        · refine absurd (all [call] u ?_ ?_) (breaks start first meets)
          · exact List.cons_prefix_cons.mpr ⟨rfl, List.nil_prefix⟩
          · rw [List.foldlM_cons, first]
            rfl
      · rintro ⟨meets, along⟩ done t started reached
        cases done with
        | nil =>
          cases reached
          exact good start
        | cons call' done =>
          obtain ⟨rfl, later⟩ := List.cons_prefix_cons.mp started
          rw [List.foldlM_cons, first] at reached
          exact (ih (keeps start first meets) ends).mpr along done t later reached

section WhileOk

/-- Every call that is made meets the condition; a call that fails is the last one made. -/
def WhileOk {σ α ε : Type} (ok : σ → α → Prop) (exec : σ → α → Except ε σ) : σ → List α → Prop
  | _, [] => True
  | s, call :: rest => ok s call ∧
      match exec s call with
      | .ok t => WhileOk ok exec t rest
      | .error _ => True

instance decidableWhileOk {σ α ε : Type} (ok : σ → α → Prop) [∀ s call, Decidable (ok s call)]
    (exec : σ → α → Except ε σ) : (s : σ) → (as : List α) → Decidable (WhileOk ok exec s as)
  | _, [] => inferInstanceAs (Decidable True)
  | s, call :: rest =>
    have : Decidable (match exec s call with
        | .ok t => WhileOk ok exec t rest
        | .error _ => True) :=
      match exec s call with
      | .ok t => decidableWhileOk ok exec t rest
      | .error _ => inferInstanceAs (Decidable True)
    inferInstanceAs (Decidable (ok s call ∧ _))

variable {σ α ε : Type} {ok ok' : σ → α → Prop} {exec : σ → α → Except ε σ} {s t : σ} {call : α}
  {as : List α}

theorem whileOk_of_invariant (Inv : σ → Prop) (holds : ∀ s, ∀ call ∈ as, Inv s → ok s call)
    (keeps : ∀ s, ∀ call ∈ as, ∀ t, Inv s → exec s call = .ok t → Inv t) (start : Inv s) :
    WhileOk ok exec s as := by
  induction as generalizing s with
  | nil => trivial
  | cons call rest ih =>
    refine ⟨holds s call (by simp) start, ?_⟩
    cases step : exec s call with
    | error e => trivial
    | ok t =>
      exact ih (fun s call mem => holds s call (by simp [mem]))
        (fun s call mem => keeps s call (by simp [mem])) (keeps s call (by simp) t start step)

end WhileOk

end Vllm.Lib.Steps
