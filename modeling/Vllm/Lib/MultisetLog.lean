import Mathlib

/-!
Logs of changes to a multiset: items are stored, removed one by one, or all cleared.
A replay fails at the removal of an item that is not there.
-/

namespace Vllm.Lib.MultisetLog

variable {α β : Type}

inductive Op (α : Type) where
  | store (items : List α)
  | remove (items : List α)
  | clear
  deriving DecidableEq

/-- The same entry under another name for the items. -/
def Op.map (f : α → β) : Op α → Op β
  | .store items => .store (items.map f)
  | .remove items => .remove (items.map f)
  | .clear => .clear

variable [DecidableEq α] [DecidableEq β]

/-- The items are there, one after the other. -/
def removeAll : List α → Multiset α → Option (Multiset α)
  | [], contents => some contents
  | a :: rest, contents => if a ∈ contents then removeAll rest (contents.erase a) else none

/-- What an entry makes of the contents. -/
def Op.apply (contents : Multiset α) : Op α → Option (Multiset α)
  | .store items => some (contents + items)
  | .remove items => removeAll items contents
  | .clear => some 0

def replay (log : List (Op α)) : Option (Multiset α) := log.foldlM Op.apply 0

variable {log : List (Op α)} {contents : Multiset α}

theorem replay_concat (before : replay log = some contents) (op : Op α) :
    replay (log ++ [op]) = op.apply contents := by
  unfold replay at before ⊢
  rw [List.foldlM_append, before]
  change (op.apply contents >>= fun after => some after) = _
  cases op.apply contents <;> rfl

theorem removeAll_map (f : α → β) {items : List α} {after : Multiset α}
    (removed : removeAll items contents = some after) :
    removeAll (items.map f) (contents.map f) = some (after.map f) := by
  induction items generalizing contents with
  | nil =>
    cases removed
    rfl
  | cons a rest ih =>
    unfold removeAll at removed
    split at removed
    · rename_i mem
      rw [List.map_cons, removeAll, if_pos (Multiset.mem_map_of_mem f mem),
        ← Multiset.map_erase_of_mem f contents mem]
      exact ih removed
    · cases removed

/-- Renaming the items of a log renames its contents, also where two items get one
name. -/
theorem replay_map (f : α → β) (replayed : replay log = some contents) :
    replay (log.map (Op.map f)) = some (contents.map f) := by
  suffices general : ∀ (log : List (Op α)) (start contents : Multiset α),
      log.foldlM Op.apply start = some contents →
      (log.map (Op.map f)).foldlM Op.apply (start.map f) = some (contents.map f) from
    general log 0 contents replayed
  intro log
  induction log with
  | nil =>
    intro start contents done
    cases done
    rfl
  | cons op rest ih =>
    intro start contents done
    rw [List.foldlM_cons] at done
    obtain ⟨after, first, done⟩ := Option.bind_eq_some_iff.mp done
    have renamed : (op.map f).apply (start.map f) = some (after.map f) := by
      cases op with
      | store items =>
        cases first
        simp [Op.map, Op.apply]
      | remove items => exact removeAll_map f first
      | clear =>
        cases first
        rfl
    rw [List.map_cons, List.foldlM_cons, renamed]
    exact ih after contents done

end Vllm.Lib.MultisetLog
