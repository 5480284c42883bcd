import Vllm.Lib.Dict
import Vllm.Lib.Steps

/-!
`ThinkingBudgetStateHolder.sync_batch` (`vllm/v1/sample/thinking_budget_state.py`): entries by
row of the batch, for the requests that have a `thinking_token_budget`.

A swap does not take the entry away from a row whose new request has none, and a one-way move
does not either. So the entries follow the requests as long as every move is `Safe`.
-/

namespace Vllm.Worker.ThinkingBudget

open Vllm.Lib Vllm.Lib.Steps Function

variable {ρ : Type}

inductive MoveDirectionality
  | unidirectional
  | swap

abbrev Move := Nat × Nat × MoveDirectionality

/-- `BatchUpdate`, for what it says about the requests of the rows. -/
structure BatchUpdate (ρ : Type) where
  removed : List Nat := []
  added : List (Nat × ρ) := []
  moved : List Move := []

/-- The requests of the batch by row, and the entries of the holder by row. An entry is given by
the request that it was created for. -/
structure Holder (ρ : Type) where
  rows : Nat → Option ρ := fun _ => none
  state : Dict Nat ρ := .empty

variable (hasBudget : ρ → Bool)

namespace Holder

def remove (s : Holder ρ) (i : Nat) : Holder ρ :=
  { rows := update s.rows i none, state := s.state.erase i }

def add (s : Holder ρ) (added : Nat × ρ) : Holder ρ :=
  { rows := update s.rows added.1 (some added.2)
    state := if hasBudget added.2 then s.state.set added.1 added.2 else s.state.erase added.1 }

/-- `self._state[i] = state`, if there is a state. -/
def store (state : Dict Nat ρ) (i : Nat) : Option ρ → Dict Nat ρ
  | some entry => state.set i entry
  | none => state

def move (s : Holder ρ) : Move → Holder ρ
  | (i1, i2, .swap) =>
    { rows := update (update s.rows i2 (s.rows i1)) i1 (s.rows i2)
      state := store (store s.state i2 (s.state.get? i1)) i1 (s.state.get? i2) }
  | (i1, i2, .unidirectional) =>
    { rows := update (update s.rows i1 none) i2 (s.rows i1)
      state := store (s.state.erase i1) i2 (s.state.get? i1) }

/-- What `sync_batch` has when it comes to the moves. -/
def syncRequests (s : Holder ρ) (batch : BatchUpdate ρ) : Holder ρ :=
  batch.added.foldl (add hasBudget) (batch.removed.foldl remove s)

/-- `sync_batch`. -/
def syncBatch (s : Holder ρ) (batch : BatchUpdate ρ) : Holder ρ :=
  batch.moved.foldl move (s.syncRequests hasBudget batch)

/-- Both rows of a swap have an entry or neither has, and a row that a request without an entry
moves to has none. -/
def Safe (s : Holder ρ) : Move → Prop
  | (i1, i2, .swap) => (s.state.get? i1).isSome ↔ (s.state.get? i2).isSome
  | (i1, i2, .unidirectional) => (s.state.get? i1).isSome ∨ (s.state.get? i2).isNone

instance (s : Holder ρ) : (move : Move) → Decidable (s.Safe move)
  | (_, _, .swap) => inferInstanceAs (Decidable (_ ↔ _))
  | (_, _, .unidirectional) => inferInstanceAs (Decidable (_ ∨ _))

/-- Every move of an update is safe. -/
def SafeUpdate (s : Holder ρ) (batch : BatchUpdate ρ) : Prop :=
  Along Safe move (s.syncRequests hasBudget batch) batch.moved

instance (s : Holder ρ) (batch : BatchUpdate ρ) : Decidable (s.SafeUpdate hasBudget batch) :=
  decidableAlong ..

/-- A row has an entry if its request has a budget, and the one that was created for it. -/
def Follows (s : Holder ρ) : Prop := ∀ i, s.state.get? i = (s.rows i).filter hasBudget

variable {hasBudget} {s : Holder ρ}

section

variable (follows : s.Follows hasBudget)
include follows

theorem Follows.remove (i : Nat) : (s.remove i).Follows hasBudget := by
  intro j
  simp only [Holder.remove, Dict.get?_erase, update_apply]
  split
  · rfl
  · exact follows j

theorem Follows.add (added : Nat × ρ) : (s.add hasBudget added).Follows hasBudget := by
  intro j
  have isEntry := follows j
  simp only [Holder.add, update_apply]
  split <;> simp only [Dict.get?_set, Dict.get?_erase] <;> split <;> simp_all [Option.filter_some]

omit follows in
theorem get?_store (state : Dict Nat ρ) (i j : Nat) (entry : Option ρ) :
    (store state i entry).get? j = if j = i ∧ entry.isSome then entry else state.get? j := by
  cases entry with
  | none => rw [if_neg (by simp)]; rfl
  | some entry => simp [store, Dict.get?_set]

theorem Follows.move {m : Move} (safe : s.Safe m) : (s.move m).Follows hasBudget := by
  obtain ⟨i1, i2, direct⟩ := m
  intro j
  have atJ := follows j
  have at1 := follows i1
  have at2 := follows i2
  cases direct <;>
    simp only [Holder.move, get?_store, Dict.get?_erase, update_apply, Safe,
      Option.isSome_iff_ne_none, Option.isNone_iff_eq_none] at safe ⊢ <;>
    grind

theorem Follows.syncBatch {batch : BatchUpdate ρ} (safe : s.SafeUpdate hasBudget batch) :
    (s.syncBatch hasBudget batch).Follows hasBudget := by
  have removed := List.foldlRecOn batch.removed Holder.remove follows fun _ f i _ => f.remove i
  have added : (s.syncRequests hasBudget batch).Follows hasBudget :=
    List.foldlRecOn batch.added _ removed fun _ f a _ => f.add a
  refine (Run.of_along safe).invariant (Follows hasBudget) ?_ added
  rintro s m _ follows ⟨safe, rfl⟩
  exact follows.move safe

end

/-- In every run of updates whose moves are all safe, a row has an entry if its request has a
budget, and the one that was created for it. No entry is at two rows then, as no request is. -/
theorem follows_of_run {updates : List (BatchUpdate ρ)}
    (run : Run (guarded (SafeUpdate hasBudget) (calls (syncBatch hasBudget))) {} updates s) :
    (∀ i, s.state.get? i = (s.rows i).filter hasBudget) ∧
    ((∀ i j r, s.rows i = some r → s.rows j = some r → i = j) →
      ∀ i j entry, s.state.get? i = some entry → s.state.get? j = some entry → i = j) := by
  have follows : s.Follows hasBudget := by
    refine run.invariant (Follows hasBudget) ?_ fun _ => rfl
    rintro s batch _ follows ⟨safe, rfl⟩
    exact follows.syncBatch safe
  refine ⟨follows, fun distinct i j entry atI atJ => ?_⟩
  rw [follows, Option.filter_eq_some_iff] at atI atJ
  exact distinct i j entry atI.1 atJ.1

/-- A request with a budget and one without. When they are swapped both rows have the entry of
the first; when the first is removed and the other one moves to its row, that row has it. -/
theorem entry_left_behind :
    let start := syncBatch id {} { added := [(0, true), (1, false)] }
    let swapped := syncBatch id start { moved := [(0, 1, .swap)] }
    let moved := syncBatch id start { moved := [(1, 0, .unidirectional)] }
    swapped.rows 0 = some false ∧ swapped.state.get? 0 = some true ∧
      swapped.state.get? 1 = some true ∧
      moved.rows 0 = some false ∧ moved.state.get? 0 = some true := by
  decide

/-- Two requests with a budget are swapped. -/
theorem entries_swapped : ∃ s : Holder Nat, s.state.get? 0 = some 8 ∧
    ∀ i, s.state.get? i = (s.rows i).filter fun _ => true := by
  have run : Run (guarded (SafeUpdate fun _ => true) (calls (syncBatch fun _ => true))) {}
      [{ added := [(0, 7), (1, 8)] }, { moved := [(0, 1, .swap)] }] _ := .of_along (by decide)
  exact ⟨_, by decide, (follows_of_run run).1⟩

end Holder

end Vllm.Worker.ThinkingBudget
