import Vllm.KVCache.KVCacheManager

/-!
What a call does not touch: a manager leaves the tables of other groups and of other requests
as they are.
-/

namespace Vllm.KVCache

open Vllm.Lib Vllm.Lib.Fallible SingleTypeKVCacheManager

variable {H : Type} {s s' : KVState H} {r : RequestId}

namespace SingleTypeKVCacheManager

variable {m : SingleTypeKVCacheManager} {key : Nat × RequestId}

/-! ### One manager and the table of another key -/

theorem setBlocks_get_of_ne {blocks : List BlockId} (ne : key ≠ m.key r) :
    (m.setBlocks s r blocks).reqToBlocks.get key = s.reqToBlocks.get key :=
  Dict.get_set_of_ne _ ne _

theorem baseRemoveSkippedBlocks_get_of_ne {n : Nat} (ne : key ≠ m.key r) :
    (m.baseRemoveSkippedBlocks s r n).reqToBlocks.get key = s.reqToBlocks.get key := by
  unfold baseRemoveSkippedBlocks
  split
  · rfl
  · exact setBlocks_get_of_ne ne

/-- `remove_skipped_blocks` is the base class's at some number of tokens. An `align` Mamba group may
also free the request's last state. -/
theorem removeSkippedBlocks_cases {n : Nat} (run : m.removeSkippedBlocks s r n = .ok s') :
    ∃ k, s' = m.baseRemoveSkippedBlocks s r k ∨ ∃ table block, s' =
      { m.setBlocks (m.baseRemoveSkippedBlocks s r k) r table with
        blockPool := (m.baseRemoveSkippedBlocks s r k).blockPool.freeBlocks [block] false } := by
  unfold removeSkippedBlocks at run
  split at run
  · rename_i k kind
    refine ⟨n - k, ?_⟩
    dsimp only at run
    split at run
    · unfold freeLastStateBlock at run
      split at run
      · cases run
        exact .inl rfl
      · split at run
        · dsimp only at run
          split at run
          · cases run
          · split at run
            · cases run
              exact .inr ⟨_, _, rfl⟩
            · cases run
              exact .inl rfl
        · cases run
          exact .inl rfl
    · cases run
      exact .inl rfl
  · cases run
    exact ⟨n, .inl rfl⟩

theorem removeSkippedBlocks_get_of_ne {n : Nat}
    (run : m.removeSkippedBlocks s r n = .ok s') (ne : key ≠ m.key r) :
    s'.reqToBlocks.get key = s.reqToBlocks.get key := by
  obtain ⟨k, rfl | ⟨_, _, rfl⟩⟩ := removeSkippedBlocks_cases run
  · exact baseRemoveSkippedBlocks_get_of_ne ne
  · exact (setBlocks_get_of_ne ne).trans (baseRemoveSkippedBlocks_get_of_ne ne)

variable [DecidableEq H]

theorem allocateNewComputedBlocks_get_of_ne {hits : List BlockId} {numLocal numExternal : Nat}
    (run : m.allocateNewComputedBlocks s r hits numLocal numExternal = .ok s')
    (ne : key ≠ m.key r) : s'.reqToBlocks.get key = s.reqToBlocks.get key := by
  unfold allocateNewComputedBlocks at run
  split at run
  · split at run
    · cases run
    · cases run
      rfl
  · split at run
    · cases run
    · unfold addComputedBlocks at run
      obtain ⟨pool, touched, run⟩ := bind_eq_ok.mp run
      obtain ⟨⟨taken, pool'⟩, external, run⟩ := bind_eq_ok.mp run
      cases run
      exact setBlocks_get_of_ne ne

variable {n : Nat} {blocks : List BlockId} {request : Request H} {retention : Option Nat}

/-- `allocate_new_blocks` keeps the state or appends blocks of the pool to the request's table. -/
theorem allocateNewBlocks_cases {k : Nat}
    (run : m.allocateNewBlocks s r n k = .ok (blocks, s')) :
    s' = s ∨ ∃ num taken table,
      s.blockPool.getNewBlocks m.enableCaching num = .ok (taken, s'.blockPool) ∧
      s'.reqToBlocks = (m.setBlocks s r table).reqToBlocks := by
  unfold allocateNewBlocks alignAllocateNewBlocks baseAllocateNewBlocks at run
  dsimp only at run
  split at run <;> split at run
  case h_1.isFalse =>
    obtain ⟨-, run⟩ := guard_eq_ok.mp run
    obtain ⟨⟨taken, pool⟩, got, run⟩ := bind_eq_ok.mp run
    cases run
    exact .inr ⟨_, _, _, got, rfl⟩
  case h_2.isFalse | h_3.isFalse =>
    obtain ⟨⟨taken, pool⟩, got, run⟩ := bind_eq_ok.mp run
    cases run
    exact .inr ⟨_, _, _, got, rfl⟩
  all_goals
    cases run
    exact .inl rfl

theorem allocateNewBlocks_get_of_ne {k : Nat}
    (run : m.allocateNewBlocks s r n k = .ok (blocks, s')) (ne : key ≠ m.key r) :
    s'.reqToBlocks.get key = s.reqToBlocks.get key := by
  obtain rfl | ⟨_, _, _, -, tables⟩ := allocateNewBlocks_cases run
  · rfl
  · rw [tables, setBlocks_get_of_ne ne]

theorem baseCacheBlocks_tables (run : m.baseCacheBlocks s request n retention = .ok s') :
    s'.reqToBlocks = s.reqToBlocks := by
  unfold baseCacheBlocks at run
  dsimp only at run
  split at run
  · cases run
    rfl
  · obtain ⟨pool, cached, run⟩ := bind_eq_ok.mp run
    cases run
    rfl

theorem cacheBlocks_tables (run : m.cacheBlocks s request n retention = .ok s') :
    s'.reqToBlocks = s.reqToBlocks := by
  unfold cacheBlocks at run
  split at run
  · cases run
  · obtain ⟨t, cached, run⟩ := bind_eq_ok.mp run
    have same := baseCacheBlocks_tables cached
    cases run
    exact same
  · exact baseCacheBlocks_tables run

end SingleTypeKVCacheManager

end Vllm.KVCache
