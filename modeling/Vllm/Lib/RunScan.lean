import Mathlib

/-!
Runs of hits that end at given places, and the scan from the right that finds the last
one.

A place `e` is served by the `need` positions before it, or by all of them where there
are fewer. `LastRun` is the last place up to `m` that is served, zero if there is none.
A scan from the right keeps the length of the run that it is on, and forgets it at a miss:
no place inside a run that is too short is served either (`Scanning.miss`).
-/

namespace Vllm.Lib.RunScan

variable (hit : Nat → Prop) (isEnd : Nat → Prop) (need : Nat)

/-- The `need` positions before `e` are hits, as far as there are so many. -/
def RunBefore (e : Nat) : Prop := ∀ i, e - need ≤ i → i < e → hit i

/-- The last end up to `m` that is served. -/
structure LastRun (m e : Nat) : Prop where
  le : e ≤ m
  ends : 0 < e → isEnd e
  run : RunBefore hit need e
  none_after : ∀ e', e < e' → e' ≤ m → isEnd e' → ¬ RunBefore hit need e'

/-- The scan has looked at the positions from `i` on, and the first `k` of them are a run
that goes up to an end. -/
structure Scanning (m i k : Nat) : Prop where
  le : i + k ≤ m
  run : ∀ j, i ≤ j → j < i + k → hit j
  ends : 0 < k → isEnd (i + k)
  short : k < need
  none_after : ∀ e', i + k < e' → e' ≤ m → isEnd e' → ¬ RunBefore hit need e'

variable {hit isEnd need} {m i k e e' : Nat}

/-- Where there are not more positions than needed, all of them have to be hits. -/
theorem runBefore_iff_all (le : e ≤ need) : RunBefore hit need e ↔ ∀ i < e, hit i :=
  ⟨fun run i before => run i (by omega) before, fun all i _ before => all i before⟩

/-- Needing one position at least only matters where none is needed. -/
theorem runBefore_max_one : RunBefore hit (max 1 need) e ↔
    RunBefore hit need e ∧ (need = 0 → 0 < e → hit (e - 1)) := by
  constructor
  · intro run
    exact ⟨fun i after before => run i (by omega) before,
      fun _ pos => run (e - 1) (by omega) (by omega)⟩
  · rintro ⟨run, last⟩ i after before
    rcases Nat.eq_zero_or_pos need with none | some
    · have hit := last none (by omega)
      rwa [show e - 1 = i by omega] at hit
    · exact run i (by omega) before

section

variable (last : LastRun hit isEnd need m e)
include last

/-- A smaller bound that the last end keeps does not change it. -/
theorem LastRun.lower {m' : Nat} (le : e ≤ m') (lower : m' ≤ m) : LastRun hit isEnd need m' e where
  le := le
  ends := last.ends
  run := last.run
  none_after e' lt le' := last.none_after e' lt (Nat.le_trans le' lower)

/-- The last end is one, if the start is. -/
theorem LastRun.atEnd (start : isEnd 0) : isEnd e := by
  rcases Nat.eq_zero_or_pos e with rfl | pos
  · exact start
  · exact last.ends pos

theorem LastRun.unique (last' : LastRun hit isEnd need m e') : e = e' := by
  rcases Nat.lt_trichotomy e e' with lt | same | lt
  · exact absurd last'.run (last.none_after e' lt last'.le (last'.ends (by omega)))
  · exact same
  · exact absurd last.run (last'.none_after e lt last.le (last.ends (by omega)))

end

theorem Scanning.start (m : Nat) (pos : 0 < need) : Scanning hit isEnd need m m 0 where
  le := Nat.le_refl m
  run j _ _ := by omega
  ends none := absurd none (Nat.lt_irrefl 0)
  short := pos
  none_after e' lt le := by omega

/-- A miss: an end inside the run that breaks here would need the missing position too. -/
theorem Scanning.miss (scan : Scanning hit isEnd need m (i + 1) k) (missed : ¬ hit i) :
    Scanning hit isEnd need m i 0 where
  le := by have := scan.le; omega
  run j _ _ := by omega
  ends none := absurd none (Nat.lt_irrefl 0)
  short := Nat.zero_lt_of_lt scan.short
  none_after e' lt le ends run := by
    have short := scan.short
    rcases Nat.lt_or_ge (i + 1 + k) e' with beyond | inside
    · exact scan.none_after e' beyond le ends run
    · exact missed (run i (by omega) (by omega))

/-- A hit that no end follows does not open a run. -/
theorem Scanning.skip (scan : Scanning hit isEnd need m (i + 1) 0) (notEnd : ¬ isEnd (i + 1)) :
    Scanning hit isEnd need m i 0 where
  le := by have := scan.le; omega
  run j _ _ := by omega
  ends none := absurd none (Nat.lt_irrefl 0)
  short := scan.short
  none_after e' lt le ends run := by
    rcases Nat.lt_or_ge (i + 1) e' with beyond | here
    · exact scan.none_after e' beyond le ends run
    · obtain rfl : e' = i + 1 := by omega
      exact notEnd ends

section

variable (scan : Scanning hit isEnd need m (i + 1) k) (isHit : hit i)
  (opens : k = 0 → isEnd (i + 1))
include scan isHit opens

/-- A hit that opens a run or extends one. -/
theorem Scanning.grows : (∀ j, i ≤ j → j < i + (k + 1) → hit j) ∧ isEnd (i + (k + 1)) := by
  constructor
  · intro j after before
    rcases Nat.eq_or_lt_of_le after with same | later
    · exact same ▸ isHit
    · exact scan.run j later (by omega)
  · rcases Nat.eq_zero_or_pos k with first | longer
    · subst first
      exact opens rfl
    · have := scan.ends longer
      rwa [Nat.add_right_comm, Nat.add_assoc] at this

theorem Scanning.extend (short : k + 1 < need) : Scanning hit isEnd need m i (k + 1) where
  le := by have := scan.le; omega
  run := (scan.grows isHit opens).1
  ends _ := (scan.grows isHit opens).2
  short := short
  none_after e' lt := scan.none_after e' (by omega)

/-- The run is long enough. -/
theorem Scanning.found (enough : need ≤ k + 1) : LastRun hit isEnd need m (i + (k + 1)) where
  le := by have := scan.le; omega
  ends _ := (scan.grows isHit opens).2
  run j after := (scan.grows isHit opens).1 j (by omega)
  none_after e' lt := scan.none_after e' (by omega)

end

/-- The scan has come to the start: the run that it is on has all positions there are. -/
theorem Scanning.finish (scan : Scanning hit isEnd need m 0 k) : LastRun hit isEnd need m k where
  le := by have := scan.le; omega
  ends pos := by
    have := scan.ends pos
    rwa [Nat.zero_add] at this
  run j _ before := scan.run j (Nat.zero_le j) (by omega)
  none_after e' lt := scan.none_after e' (by omega)

end Vllm.Lib.RunScan
