import Vllm.KVCache.Coordinator

/-!
The spec groups of a hybrid coordinator: `verify_and_split_kv_cache_groups` puts every KV
cache group into the spec group of its spec, and into no other (`attentionGroups_split`).
-/

namespace Vllm.KVCache

open Vllm.Lib.Fallible List

variable {H : Type}

/-- Spec groups do not share group ids, and none is empty. -/
structure SplitOk (groups : List SpecGroup) : Prop where
  nonempty : ∀ g ∈ groups, g.groupIds ≠ []
  disjoint : groups.Pairwise fun a b => ∀ i ∈ a.groupIds, i ∉ b.groupIds

theorem headD_mem {ids : List Nat} (nonempty : ids ≠ []) : ids.headD 0 ∈ ids := by
  cases ids with
  | nil => exact absurd rfl nonempty
  | cons i rest => simp

/-! ### What is stored for a spec group -/

variable {groupIds : List Nat} {groupId : Nat}

theorem store_of_mem (blocks : HitBlocks) (rows : List Row) (mem : groupId ∈ groupIds) :
    ∃ hits, blocks.store groupIds rows groupId = some hits ∧ hits.length = rows.length := by
  obtain ⟨j, found⟩ := Option.isSome_iff_exists.mp (isSome_idxOf?.mpr mem)
  exact ⟨_, by rw [HitBlocks.store, found], by rw [length_map]⟩

theorem store_of_notMem (blocks : HitBlocks) (rows : List Row) (notMem : groupId ∉ groupIds) :
    blocks.store groupIds rows groupId = blocks groupId := by
  rw [HitBlocks.store, idxOf?_eq_none_iff.mpr notMem]

/-- More fuel than the candidate length does not change the result. -/
theorem hybridLoop_fuel {find : SpecGroup → Nat → Bool → Except KVError (List Row)} {maxLen : Nat}
    {groups : List SpecGroup} {simple : Bool} {fuel fuel' : Nat} {state : HybridState}
    (enough : state.currHitLength < fuel) (enough' : state.currHitLength < fuel') :
    hybridLoop find maxLen groups simple fuel state =
      hybridLoop find maxLen groups simple fuel' state := by
  induction fuel generalizing fuel' state with
  | zero => omega
  | succ fuel ih =>
    obtain ⟨fuel', rfl⟩ : ∃ n, fuel' = n + 1 := ⟨fuel' - 1, by omega⟩
    rw [hybridLoop, hybridLoop]
    cases groups.zipIdx.foldlM (visitGroup find maxLen) state with
    | error e => rfl
    | ok next =>
      simp only [ok_bind]
      split
      · rfl
      · split
        · rfl
        · exact ih (by omega) (by omega)

/-! ### The split -/

/-- `groups` is the split of the first `specs.length` KV cache groups. -/
structure SplitOf (specs : List KVCacheSpec) (groups : List SpecGroup) : Prop extends
    SplitOk groups where
  specOf : ∀ g ∈ groups, g.spec ∈ specs
  below : ∀ g ∈ groups, ∀ i ∈ g.groupIds, i < specs.length
  covers : ∀ i spec, specs[i]? = some spec → ∃ g ∈ groups, i ∈ g.groupIds ∧ g.spec = spec

theorem SplitOk.apart {groups : List SpecGroup} (split : SplitOk groups) {g g' : SpecGroup}
    (mem : g ∈ groups) (mem' : g' ∈ groups) (ne : g ≠ g') : ∀ i ∈ g.groupIds, i ∉ g'.groupIds := by
  have symm : Std.Symm fun a b : SpecGroup => ∀ i ∈ a.groupIds, i ∉ b.groupIds :=
    ⟨fun a b apart i inB inA => apart i inA inB⟩
  exact split.disjoint.forall mem mem' ne

theorem SplitOf.spec_at {specs : List KVCacheSpec} {groups : List SpecGroup}
    (split : SplitOf specs groups) {g : SpecGroup} (mem : g ∈ groups) {i : Nat}
    (inGroup : i ∈ g.groupIds) : specs[i]? = some g.spec := by
  have lt := split.below g mem i inGroup
  obtain ⟨other, otherMem, inOther, isSpec⟩ := split.covers i _ (getElem?_eq_getElem lt)
  have same : g = other := by
    by_contra ne
    exact split.apart mem otherMem ne i inGroup inOther
  rw [getElem?_eq_getElem lt, same, isSpec]

section Add

variable {spec : KVCacheSpec} {i : Nat} {useEagle : Bool}

variable {groups : List SpecGroup} {g : SpecGroup}

theorem mem_addToSpecGroups (mem : g ∈ addToSpecGroups spec i useEagle groups) :
    g ∈ groups ∨ g = ⟨spec, [i], useEagle⟩ ∨
      ∃ old ∈ groups, g.groupIds = old.groupIds ++ [i] ∧ g.spec = old.spec := by
  induction groups with
  | nil => exact .inr (.inl (by simpa [addToSpecGroups] using mem))
  | cons head rest ih =>
    rw [addToSpecGroups] at mem
    split at mem
    · rcases mem_cons.mp mem with rfl | mem
      · exact .inr (.inr ⟨head, by simp, rfl, rfl⟩)
      · exact .inl (by simp [mem])
    · rcases mem_cons.mp mem with rfl | mem
      · exact .inl (by simp)
      · rcases ih mem with old | new | ⟨old, oldMem, ids⟩
        · exact .inl (by simp [old])
        · exact .inr (.inl new)
        · exact .inr (.inr ⟨old, by simp [oldMem], ids⟩)

theorem covered_addToSpecGroups (mem : g ∈ groups) {j : Nat} (inGroup : j ∈ g.groupIds) :
    ∃ g' ∈ addToSpecGroups spec i useEagle groups, j ∈ g'.groupIds ∧ g'.spec = g.spec := by
  induction groups with
  | nil => simp at mem
  | cons head rest ih =>
    rw [addToSpecGroups]
    rcases mem_cons.mp mem with rfl | mem
    · split
      · exact ⟨_, mem_cons_self, by simp [inGroup], rfl⟩
      · exact ⟨g, by simp, inGroup, rfl⟩
    · split
      · exact ⟨g, by simp [mem], inGroup, rfl⟩
      · obtain ⟨g', mem', inGroup', same⟩ := ih mem
        exact ⟨g', by simp [mem'], inGroup', same⟩

theorem added_addToSpecGroups (groups : List SpecGroup) :
    ∃ g ∈ addToSpecGroups spec i useEagle groups, i ∈ g.groupIds ∧ g.spec = spec := by
  induction groups with
  | nil => exact ⟨⟨spec, [i], useEagle⟩, by simp [addToSpecGroups], by simp, rfl⟩
  | cons head rest ih =>
    rw [addToSpecGroups]
    split
    · rename_i same
      exact ⟨_, mem_cons_self, by simp, same⟩
    · obtain ⟨g, mem, inGroup, same⟩ := ih
      exact ⟨g, by simp [mem], inGroup, same⟩

theorem disjoint_addToSpecGroups (fresh : ∀ g ∈ groups, i ∉ g.groupIds)
    (disjoint : groups.Pairwise fun a b => ∀ j ∈ a.groupIds, j ∉ b.groupIds) :
    (addToSpecGroups spec i useEagle groups).Pairwise
      fun a b => ∀ j ∈ a.groupIds, j ∉ b.groupIds := by
  induction groups with
  | nil => simp [addToSpecGroups]
  | cons head rest ih =>
    obtain ⟨apart, disjoint⟩ := pairwise_cons.mp disjoint
    rw [addToSpecGroups]
    split
    · refine pairwise_cons.mpr ⟨fun g mem j inHead => ?_, disjoint⟩
      rcases mem_append.mp inHead with inHead | isNew
      · exact apart g mem j inHead
      · rw [mem_singleton.mp isNew]
        exact fresh g (by simp [mem])
    · refine pairwise_cons.mpr
        ⟨fun g mem j inHead => ?_, ih (fun g mem => fresh g (by simp [mem])) disjoint⟩
      have notNew : j ≠ i := fun same => fresh head (by simp) (same ▸ inHead)
      rcases mem_addToSpecGroups mem with old | rfl | ⟨old, oldMem, ids, -⟩
      · exact apart g old j inHead
      · simpa using notNew
      · simp only [ids, mem_append, mem_singleton, not_or]
        exact ⟨apart old oldMem j inHead, notNew⟩

end Add

theorem SplitOf.add {specs : List KVCacheSpec} {groups : List SpecGroup}
    (split : SplitOf specs groups) (spec : KVCacheSpec) (useEagle : Bool) :
    SplitOf (specs ++ [spec]) (addToSpecGroups spec specs.length useEagle groups) where
  nonempty := by
    intro g mem
    rcases mem_addToSpecGroups mem with old | rfl | ⟨old, -, ids, -⟩
    · exact split.nonempty g old
    · simp
    · simp [ids]
  specOf := by
    intro g mem
    rcases mem_addToSpecGroups mem with old | rfl | ⟨old, oldMem, -, same⟩
    · exact mem_append_left _ (split.specOf g old)
    · simp
    · exact same ▸ mem_append_left _ (split.specOf old oldMem)
  disjoint := disjoint_addToSpecGroups
    (fun g mem inGroup => Nat.lt_irrefl _ (split.below g mem _ inGroup)) split.disjoint
  below := by
    intro g mem j inGroup
    rw [length_append, length_singleton]
    rcases mem_addToSpecGroups mem with old | rfl | ⟨old, oldMem, ids, -⟩
    · exact Nat.lt_succ_of_lt (split.below g old j inGroup)
    · have : j = specs.length := by simpa using inGroup
      omega
    · rw [ids] at inGroup
      rcases mem_append.mp inGroup with inOld | isNew
      · exact Nat.lt_succ_of_lt (split.below old oldMem j inOld)
      · have : j = specs.length := by simpa using isNew
        omega
  covers := by
    intro j spec' at_j
    by_cases isOld : j < specs.length
    · rw [getElem?_append_left isOld] at at_j
      obtain ⟨g, mem, inGroup, same⟩ := split.covers j spec' at_j
      obtain ⟨g', mem', inGroup', same'⟩ := covered_addToSpecGroups mem inGroup
      exact ⟨g', mem', inGroup', same'.trans same⟩
    · have isNew : j = specs.length := by
        have := (List.getElem?_eq_some_iff.mp at_j).1
        rw [length_append, length_singleton] at this
        omega
      subst isNew
      have : spec' = spec := by simpa using at_j.symm
      subst this
      exact added_addToSpecGroups groups

namespace KVCacheConfig

variable (cfg : KVCacheConfig)

theorem specGroups_split : SplitOf (cfg.kvCacheGroups.map (·.kvCacheSpec)) cfg.specGroups := by
  suffices ∀ (todo : List KVCacheGroupSpec) (specs : List KVCacheSpec) (groups : List SpecGroup),
      SplitOf specs groups → SplitOf (specs ++ todo.map (·.kvCacheSpec))
        ((todo.zipIdx specs.length).foldl
          (fun groups g => addToSpecGroups g.1.kvCacheSpec g.2 (cfg.isEagle g.2) groups) groups) by
    exact this cfg.kvCacheGroups [] [] ⟨⟨by simp, .nil⟩, by simp, by simp, by simp⟩
  intro todo
  induction todo with
  | nil =>
    simp
  | cons g rest ih =>
    intro specs groups split
    have := ih _ _ (split.add g.kvCacheSpec (cfg.isEagle specs.length))
    simpa using this

theorem attentionGroups_perm : cfg.attentionGroups.Perm cfg.specGroups :=
  filter_append_perm _ _

theorem attentionGroups_split :
    SplitOf (cfg.kvCacheGroups.map (·.kvCacheSpec)) cfg.attentionGroups := by
  have split := cfg.specGroups_split
  have mem : ∀ g, g ∈ cfg.attentionGroups ↔ g ∈ cfg.specGroups := fun g =>
    cfg.attentionGroups_perm.mem_iff
  refine ⟨⟨fun g inGroups => split.nonempty g ((mem g).mp inGroups), ?_⟩,
    fun g inGroups => split.specOf g ((mem g).mp inGroups),
    fun g inGroups => split.below g ((mem g).mp inGroups), fun i spec isSpec => ?_⟩
  · refine (List.Perm.pairwise_iff ?_ cfg.attentionGroups_perm).mpr split.disjoint
    exact fun apart i inB inA => apart i inA inB
  · obtain ⟨g, inGroups, rest⟩ := split.covers i spec isSpec
    exact ⟨g, (mem g).mpr inGroups, rest⟩

/-- The assertions of the hybrid coordinator's constructor that the lookup
relies on: caching is on, there are at least two specs, and every block size
divides the scheduler's. -/
structure IsHybrid (cfg : KVCacheConfig) : Prop where
  caching : cfg.enableCaching = true
  twoSpecs : 1 < cfg.attentionGroups.length
  pos : 0 < cfg.schedulerBlockSize
  divides : ∀ g ∈ cfg.kvCacheGroups, g.kvCacheSpec.blockSize ∣ cfg.schedulerBlockSize

variable {cfg}

/-- More than one spec means more than one group, so the lookup is the hybrid
one. -/
theorem IsHybrid.findLongestCacheHit_eq (hybrid : cfg.IsHybrid) (p : BlockPool H)
    (hashes : List H) (maxLen : Nat) :
    cfg.findLongestCacheHit p hashes maxLen = (do
      let (hitLength, blocks) ← hybridFind
        (fun group maxLen drop => KVCache.findLongestCacheHit p hashes cfg.hashBlockSize
          maxLen group.groupIds group.spec 1 drop cfg.schedulerBlockSize)
        maxLen cfg.attentionGroups
      return ((range cfg.kvCacheGroups.length).map fun i => (blocks i).getD [], hitLength)) := by
  rw [KVCacheConfig.findLongestCacheHit, if_neg (by simp [hybrid.caching])]
  split
  · rename_i group single
    have := hybrid.twoSpecs
    rw [cfg.attentionGroups_perm.length_eq, specGroups, single] at this
    simp [addToSpecGroups] at this
  · rfl

end KVCacheConfig

end Vllm.KVCache
