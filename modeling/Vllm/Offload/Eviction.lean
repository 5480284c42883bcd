import Vllm.Offload.TierRuns

/-!
When a cache policy finds as many blocks to evict as it is asked for.

LRU finds every idle block. ARC looks at T1 only while T1 is at least as large as its target,
counting down as blocks are selected: past that, idle blocks of T1 are not found
(`complete_iff`).
-/

namespace Vllm.Offload

open Vllm.Lib ARCCachePolicy List

variable {K F : Type} [DecidableEq K] [PyFloat F]

/-- Eviction fails exactly when there are too few idle blocks, and otherwise takes as many as
asked for and nothing else. A policy that fails is not changed: the result has no new one. -/
structure Complete (p : CachePolicy K F) (n : Nat) (protectedKeys : List K) : Prop where
  fails : p.evict n protectedKeys = none ↔ p.contents.countP (Idle protectedKeys) < n
  takes : ∀ {evicted p'}, p.evict n protectedKeys = some (evicted, p') →
    evicted.length = n ∧ (evicted.map Prod.fst).Nodup ∧
      (∀ entry ∈ evicted, Idle protectedKeys entry) ∧ p.contents = evicted + p'.contents

namespace ARCCachePolicy

variable (p : ARCCachePolicy K F) (protectedKeys : List K) (virtualT1Size : Int)

/-- The blocks of T1 that are selected, if there are that many to select. -/
def fromT1 : List (K × BlockStatus) :=
  (p.t1.entries.filter (Idle protectedKeys)).take
    (virtualT1Size + 1 - PyFloat.toInt p.targetT1Size).toNat

/-- Those of T2. -/
def fromT2 : List (K × BlockStatus) :=
  p.t2.entries.filter
    (Idle (protectedKeys ++ (p.fromT1 protectedKeys virtualT1Size).map Prod.fst))

/-- The number of blocks that ARC can find. -/
def evictable : Nat :=
  (p.fromT1 protectedKeys virtualT1Size).length + (p.fromT2 protectedKeys virtualT1Size).length

end ARCCachePolicy

/-- The number of blocks that a policy can find. -/
def CachePolicy.evictable (protectedKeys : List K) : CachePolicy K F → Nat
  | .lru p => (p.blocks.entries.filter (Idle protectedKeys)).length
  | .arc p => p.evictable protectedKeys p.t1.entries.length

section Idle

variable {d : Dict K BlockStatus} {protectedKeys : List K} {entry : K × BlockStatus}

/-- Protecting more keys leaves fewer blocks. -/
theorem filter_idle_append (entries : List (K × BlockStatus)) (keys : List K) :
    entries.filter (Idle (protectedKeys ++ keys)) =
      (entries.filter (Idle protectedKeys)).filter (·.1 ∉ keys) := by
  rw [filter_filter]
  refine filter_congr fun entry _ => ?_
  rw [← Bool.decide_and]
  exact decide_eq_decide.mpr (by simp only [Idle, mem_append]; tauto)

/-- The first idle block is the only one that its key protects. -/
theorem filter_idle_cons {rest : List (K × BlockStatus)}
    (idle : d.entries.filter (Idle protectedKeys) = entry :: rest) :
    d.entries.filter (Idle (protectedKeys ++ [entry.1])) = rest := by
  have distinct : ((d.entries.filter (Idle protectedKeys)).map Prod.fst).Nodup :=
    d.nodup.sublist (filter_sublist.map _)
  rw [idle, map_cons, nodup_cons] at distinct
  rw [filter_idle_append, idle, filter_cons_of_neg (by simp), filter_eq_self]
  intro other mem
  have ne : other.1 ≠ entry.1 := fun same => distinct.1 (same ▸ mem_map_of_mem mem)
  simpa using ne

end Idle

namespace ARCCachePolicy

variable {p : ARCCachePolicy K F} {protectedKeys : List K} {n : Nat} {virtualT1Size : Int}
  {selected : List (Candidate K)}

/-- A block is selected as long as there is one to find, and there is one less then. -/
theorem candidate_cases (p : ARCCachePolicy K F) (protectedKeys : List K) (virtualT1Size : Int) :
    p.candidate protectedKeys virtualT1Size = none ∧ p.evictable protectedKeys virtualT1Size = 0 ∨
    ∃ c, p.candidate protectedKeys virtualT1Size = some c ∧
      p.evictable protectedKeys virtualT1Size = p.evictable (protectedKeys ++ [c.key])
        (if c.fromT1 then virtualT1Size - 1 else virtualT1Size) + 1 := by
  unfold candidate
  rw [← head?_filter, ← head?_filter]
  by_cases fromT1 : PyFloat.toInt p.targetT1Size ≤ virtualT1Size ∧
      p.t1.entries.filter (Idle protectedKeys) ≠ []
  · obtain ⟨large, some⟩ := fromT1
    obtain ⟨entry, rest, idle⟩ := exists_cons_of_ne_nil some
    refine .inr ⟨⟨entry.1, entry.2, true⟩, by rw [if_pos large, idle]; rfl, ?_⟩
    have size : (virtualT1Size + 1 - PyFloat.toInt p.targetT1Size).toNat =
        (virtualT1Size - 1 + 1 - PyFloat.toInt p.targetT1Size).toNat + 1 := by omega
    simp only [evictable, fromT2, ARCCachePolicy.fromT1, idle, filter_idle_cons idle, size,
      take_succ_cons, map_cons, length_cons, append_assoc, singleton_append, if_true]
    omega
  · -- T1 is not looked at, also not after more keys are protected
    have noT1 : (if PyFloat.toInt p.targetT1Size ≤ virtualT1Size then
        (p.t1.entries.filter (Idle protectedKeys)).head? else none) = none := by
      split
      · rename_i large
        rw [Classical.not_not.mp fun some => fromT1 ⟨large, some⟩]
        rfl
      · rfl
    have onlyT2 : ∀ keys, p.evictable (protectedKeys ++ keys) virtualT1Size =
        (p.t2.entries.filter (Idle (protectedKeys ++ keys))).length := by
      intro keys
      have empty : p.fromT1 (protectedKeys ++ keys) virtualT1Size = [] := by
        rw [ARCCachePolicy.fromT1, filter_idle_append]
        by_cases large : PyFloat.toInt p.targetT1Size ≤ virtualT1Size
        · rw [Classical.not_not.mp fun some => fromT1 ⟨large, some⟩, filter_nil, take_nil]
        · rw [Int.toNat_of_nonpos (by omega), take_zero]
      rw [evictable, fromT2, empty, map_nil, append_nil, length_nil, Nat.zero_add]
    have now := onlyT2 []
    rw [append_nil] at now
    rw [noT1, now]
    cases idle : p.t2.entries.filter (Idle protectedKeys) with
    | nil => exact .inl ⟨rfl, rfl⟩
    | cons entry rest =>
      refine .inr ⟨⟨entry.1, entry.2, false⟩, rfl, ?_⟩
      rw [if_neg Bool.false_ne_true, onlyT2, filter_idle_cons idle, length_cons]

theorem candidates_eq_none_iff : p.candidates protectedKeys n selected virtualT1Size = none ↔
    p.evictable (protectedKeys ++ selected.map (·.key)) virtualT1Size < n := by
  induction n generalizing selected virtualT1Size with
  | zero => simp [candidates]
  | succ n ih =>
    rw [candidates]
    rcases candidate_cases p (protectedKeys ++ selected.map (·.key)) virtualT1Size with
      ⟨none, nothing⟩ | ⟨c, found, one⟩
    · rw [none, nothing]
      simp
    · rw [found, one]
      dsimp only
      rw [ih, map_append, map_singleton, append_assoc]
      omega

end ARCCachePolicy

variable {p : CachePolicy K F} {protectedKeys : List K} {n : Nat}

theorem evict_eq_none_iff : p.evict n protectedKeys = none ↔ p.evictable protectedKeys < n := by
  cases p with
  | lru p =>
    have few : ((p.blocks.entries.filter (Idle protectedKeys)).take n).length < n ↔
        (p.blocks.entries.filter (Idle protectedKeys)).length < n := by
      rw [length_take, min_lt_iff, or_iff_right (lt_irrefl n)]
    rw [CachePolicy.evict, Option.map_eq_none_iff, CachePolicy.evictable, ← few]
    refine ⟨fun none => of_not_not fun enough => ?_, fun short => if_pos short⟩
    cases (if_neg enough).symm.trans none
  | arc p =>
    rw [CachePolicy.evict, Option.map_eq_none_iff, ARCCachePolicy.evict, CachePolicy.evictable]
    split
    · rename_i zero
      simp [zero]
    · rw [Option.map_eq_none_iff, candidates_eq_none_iff, map_nil, append_nil]

/-- A policy never finds more than there is. -/
theorem evictable_le : p.evictable protectedKeys ≤ p.contents.countP (Idle protectedKeys) := by
  cases p with
  | lru p => exact countP_eq_length_filter.symm.le
  | arc p =>
    rw [CachePolicy.contents, ARCCachePolicy.contents, Multiset.countP_add]
    refine Nat.add_le_add ?_ ?_
    · exact (length_take_le' _ _).trans countP_eq_length_filter.symm.le
    · rw [fromT2, filter_idle_append]
      exact (length_filter_le _ _).trans countP_eq_length_filter.symm.le

/-- Eviction is complete unless there are idle blocks that the policy does not come to. -/
theorem complete_iff (p : CachePolicy K F) (n : Nat) (protectedKeys : List K) :
    Complete p n protectedKeys ↔
      n ≤ p.evictable protectedKeys ∨ p.contents.countP (Idle protectedKeys) < n := by
  have le : p.evictable protectedKeys ≤ _ := evictable_le
  constructor
  · intro complete
    have fails := complete.fails
    rw [evict_eq_none_iff] at fails
    omega
  · intro enough
    refine ⟨evict_eq_none_iff.trans (by omega), fun run => ?_⟩
    obtain ⟨contents, length, idle, distinct⟩ := CachePolicy.contents_evict run
    exact ⟨length, distinct, idle, contents⟩

/-- The ghost of key 1 is touched twice, so that T1 may grow to two blocks. The one block in it
is then not found. -/
theorem idle_block_not_found : ∃ evicted p₁, ∃ p : CachePolicy Nat Nat,
    ((CachePolicy.new Nat Nat 2 .arc).insert 1 ⟨0, 0⟩).evict 1 [] = some (evicted, p₁) ∧
    (p₁.touch [1, 1]).insert 2 ⟨0, 0⟩ = p ∧ p.evict 1 [] = none ∧
    p.contents.countP (Idle []) = 1 ∧ ¬ Complete p 1 [] :=
  ⟨_, _, _, rfl, rfl, rfl, rfl, fun complete => absurd (complete.fails.mp rfl) (by decide)⟩

end Vllm.Offload
