import Vllm.KVCache.Runs
import Vllm.Hashing.Hasher

/-!
Hashes of the blocks in the tables.

The invariant `Inv`: a block with a hash carries the hash of every position that
holds it, and a block without one has a single holder.

`allocate_new_computed_blocks` goes group by group: it touches a group's hits and
then takes blocks for the group's external tokens from the free queue, where the
hits of the groups behind it still are. `SparesHits` says that it takes none of
those.
-/

namespace Vllm.KVCache

open Vllm.Lib Vllm.Lib.Ceil Vllm.Lib.Fallible Vllm.Lib.Steps SingleTypeKVCacheManager List

variable {H : Type}

/-! ### Hashes of table positions -/

theorem numTokensToCache_le (cfg : KVCacheConfig) (m : SingleTypeKVCacheManager) (n : Nat) :
    cfg.numTokensToCache m n ≤ n := by
  have aligned := Nat.div_mul_le_self n cfg.schedulerBlockSize
  unfold KVCacheConfig.numTokensToCache
  split
  · simp only
    split
    · exact Nat.min_le_left _ _
    · exact aligned
  · exact le_rfl

/-- The key of position `i` of request `r`'s table, given the block hashes of all
requests. -/
def Fits (hashes : RequestId → List H) (m : SingleTypeKVCacheManager) (r : RequestId) (i : Nat)
    (key : BlockHashWithGroupId H) : Prop :=
  key.groupId = m.kvCacheGroupId ∧ 0 < m.scale ∧ (i + 1) * m.scale ≤ (hashes r).length ∧
    key.blockHash = ((hashes r).drop (i * m.scale)).take m.scale

section Slices

variable {hashes : RequestId → List H} {m : SingleTypeKVCacheManager} {r : RequestId}

variable {i : Nat} {blockHashes hash : List H}

/-- A list that starts with another has the same slices inside it. -/
theorem slice_of_known {xs ys : List H} (le : xs <+: ys) {n : Nat} (inside : i + n ≤ xs.length) :
    (ys.drop i).take n = (xs.drop i).take n := by
  obtain ⟨rest, rfl⟩ := le
  rw [drop_append_of_le_length (by omega), take_append_of_le_length]
  rw [length_drop]
  omega

/-- A full-length hash that a lookup computes is the slice of its position. -/
theorem fits_of_hashAt (known : blockHashes <+: hashes r)
    (found : hashAt blockHashes m.scale i = .ok hash) (pos : 0 < m.scale)
    (length : hash.length = m.scale) : Fits hashes m r i ⟨hash, m.kvCacheGroupId⟩ := by
  have inside : (i + 1) * m.scale ≤ blockHashes.length ∧
      hash = (blockHashes.drop (i * m.scale)).take m.scale := by
    unfold hashAt at found
    split at found
    · rename_i one
      split at found
      · rename_i h at_i
        cases found
        obtain ⟨lt, rfl⟩ := List.getElem?_eq_some_iff.mp at_i
        rw [one]
        exact ⟨by omega, by rw [Nat.mul_one, List.drop_eq_getElem_cons lt]; rfl⟩
      · cases found
    · cases found
      rw [length_take, length_drop] at length
      exact ⟨by rw [Nat.succ_mul]; omega, rfl⟩
  refine ⟨rfl, pos, inside.1.trans known.length_le, ?_⟩
  rw [slice_of_known known (by rw [Nat.succ_mul] at inside; exact inside.1)]
  exact inside.2

/-- So is the hash that a block of the table gets. -/
theorem fits_of_fullBlockHash (known : blockHashes <+: hashes r)
    (found : m.fullBlockHash blockHashes i = .ok hash) :
    Fits hashes m r i ⟨hash, m.kvCacheGroupId⟩ ∧ hash.length = m.scale := by
  unfold fullBlockHash at found
  split at found
  · rename_i lt
    cases found
    have pos : 0 < m.scale := by
      by_contra zero
      rw [Nat.eq_zero_of_not_pos zero] at lt
      omega
    have inside : (i + 1) * m.scale ≤ blockHashes.length := (Nat.le_div_iff_mul_le pos).mp lt
    refine ⟨⟨rfl, pos, inside.trans known.length_le, ?_⟩, ?_⟩
    · rw [slice_of_known known (by rw [Nat.succ_mul] at inside; exact inside)]
    · rw [length_take, length_drop]
      rw [Nat.succ_mul] at inside
      omega
  · cases found

/-- With distinct hashes a key belongs to one position of a table. -/
theorem Fits.inj (distinct : (hashes r).Nodup) {j : Nat} {key : BlockHashWithGroupId H}
    (fits : Fits hashes m r i key) (fits' : Fits hashes m r j key) : i = j := by
  obtain ⟨-, pos, inside, hash⟩ := fits
  obtain ⟨-, -, inside', hash'⟩ := fits'
  rw [Nat.succ_mul] at inside inside'
  have first : ∀ k, k * m.scale + m.scale ≤ (hashes r).length →
      (((hashes r).drop (k * m.scale)).take m.scale)[0]? = (hashes r)[k * m.scale]? := by
    intro k le
    rw [getElem?_take_of_lt pos, getElem?_drop, Nat.add_zero]
  have same : (hashes r)[i * m.scale]? = (hashes r)[j * m.scale]? := by
    rw [← first i inside, ← first j inside', ← hash, ← hash']
  exact Nat.eq_of_mul_eq_mul_right pos ((getElem?_inj (by omega) distinct).mp same)

end Slices

variable {blocks : List BlockId} {b : BlockId} {i j : Nat}

theorem count_le_one_of_inj (inj : ∀ i j : Nat, blocks[i]? = some b → blocks[j]? = some b → i = j) :
    blocks.count b ≤ 1 := by
  by_contra twice
  obtain ⟨i, j, lt, at_i, at_j⟩ := duplicate_iff_exists_distinct_get.mp
    (duplicate_iff_two_le_count.mpr (by omega : 2 ≤ blocks.count b))
  have := inj i j (by simp [at_i]) (by simp [at_j])
  exact absurd this (ne_of_lt lt)

theorem two_le_count (at_i : blocks[i]? = some b) (at_j : blocks[j]? = some b) (ne : i ≠ j) :
    2 ≤ blocks.count b := by
  obtain ⟨lt_i, at_i⟩ := List.getElem?_eq_some_iff.mp at_i
  obtain ⟨lt_j, at_j⟩ := List.getElem?_eq_some_iff.mp at_j
  refine duplicate_iff_two_le_count.mp (duplicate_iff_exists_distinct_get.mpr ?_)
  rcases Nat.lt_or_gt_of_ne ne with lt | gt
  · exact ⟨⟨i, lt_i⟩, ⟨j, lt_j⟩, lt, at_i.symm, at_j.symm⟩
  · exact ⟨⟨j, lt_j⟩, ⟨i, lt_i⟩, gt, at_j.symm, at_i.symm⟩

/-- A block with one holder stands at one position. -/
theorem Wf.position_unique {N : Nat} {s : KVState H} (wf : Wf N s) {key key' : Nat × RequestId}
    (at_i : (s.reqToBlocks.get key)[i]? = some b) (at_j : (s.reqToBlocks.get key')[j]? = some b)
    (notNull : b ≠ nullBlock) (single : s.blockPool.refCnt b ≤ 1) : key' = key ∧ j = i := by
  have sameKey : key' = key := by
    by_contra ne
    have both : (s.reqToBlocks.get key).count b + (s.reqToBlocks.get key').count b ≤ s.held b :=
      s.reqToBlocks.weight_get_add_le rfl ne
    have := count_pos_iff.mpr (mem_of_getElem? at_i)
    have := count_pos_iff.mpr (mem_of_getElem? at_j)
    have := wf.refCnt b notNull
    omega
  subst sameKey
  refine ⟨rfl, ?_⟩
  by_contra ne
  have := two_le_count at_j at_i ne
  have := wf.once key' b notNull
  omega

/-! ### The invariant -/

/-- A block with a hash has the hash of each position that holds it, another block
has one holder, and the speculative blocks of an align-mode table have no hash. -/
structure Inv (cfg : KVCacheConfig) (hashes : RequestId → List H) (s : KVState H) : Prop where
  wf : Wf cfg.numBlocks s
  tagged : ∀ m ∈ cfg.managers, ∀ (r : RequestId) (i : Nat) (b : BlockId),
    (m.blocksOf s r)[i]? = some b → b ≠ nullBlock →
      (∀ key, s.blockPool.blockHash b = some key → Fits hashes m r i key) ∧
      (s.blockPool.blockHash b = none → s.blockPool.refCnt b ≤ 1)
  keyed : ∀ b key, s.blockPool.blockHash b = some key → ∃ m ∈ cfg.managers,
    key.groupId = m.kvCacheGroupId ∧ 0 < m.scale ∧ key.blockHash.length = m.scale
  lastState : ∀ key idx, s.lastStateBlockIdx key = some idx → idx < (s.reqToBlocks.get key).length
  state : ∀ m ∈ cfg.managers, ∀ k, m.kvCacheSpec.kind = .mamba .align k → ∀ r : RequestId,
    s.allocatedBlockReqs (m.key r) = true → k < (m.blocksOf s r).length ∧
      ∀ (i : Nat) (b : BlockId), (m.blocksOf s r).length ≤ i + k →
        (m.blocksOf s r)[i]? = some b → b ≠ nullBlock → s.blockPool.blockHash b = none

namespace Inv

variable {cfg : KVCacheConfig} {hashes : RequestId → List H} {s s' : KVState H}
  {m : SingleTypeKVCacheManager} {r : RequestId}

theorem init (hashes : RequestId → List H) (pos : 0 < cfg.numBlocks) :
    Inv cfg hashes (KVState.init H cfg.numBlocks) where
  wf := .init H pos
  tagged m _ r i b found := by cases found
  keyed b key hashed := by cases hashed
  lastState key idx last := by cases last
  state m _ k _ r allocated := by cases allocated

/-- One entry changes, no block gets a hash, and blocks with a holder keep theirs. -/
theorem of_entry (inv : Inv cfg hashes s) (mem : m ∈ cfg.managers) (entry : OnlyEntry (m.key r) s s')
    (wf : Wf cfg.numBlocks s')
    (noHash : ∀ b key, s'.blockPool.blockHash b = some key → s.blockPool.blockHash b = some key)
    (held : ∀ b, b ≠ nullBlock → 1 ≤ s.blockPool.refCnt b →
      s'.blockPool.blockHash b = s.blockPool.blockHash b ∧
      (s.blockPool.blockHash b = none → s'.blockPool.refCnt b ≤ s.blockPool.refCnt b))
    (own : ∀ (i : Nat) (b : BlockId), (m.blocksOf s' r)[i]? = some b → b ≠ nullBlock →
      (∀ key, s'.blockPool.blockHash b = some key → Fits hashes m r i key) ∧
      (s'.blockPool.blockHash b = none → s'.blockPool.refCnt b ≤ 1))
    (last : ∀ idx, s'.lastStateBlockIdx (m.key r) = some idx → idx < (m.blocksOf s' r).length)
    (state : ∀ k, m.kvCacheSpec.kind = .mamba .align k → s'.allocatedBlockReqs (m.key r) = true →
      k < (m.blocksOf s' r).length ∧ ∀ (i : Nat) (b : BlockId), (m.blocksOf s' r).length ≤ i + k →
        (m.blocksOf s' r)[i]? = some b → b ≠ nullBlock → s'.blockPool.blockHash b = none) :
    Inv cfg hashes s' := by
  -- The other entries, with what is known of their blocks.
  have other : ∀ (m' : SingleTypeKVCacheManager) (r' : RequestId), m'.key r' ≠ m.key r →
      m'.blocksOf s' r' = m'.blocksOf s r' := fun m' r' ne => entry.tables.get_of_ne ne
  have hasRef : ∀ (m' : SingleTypeKVCacheManager) (r' : RequestId) (i : Nat) (b : BlockId),
      (m'.blocksOf s r')[i]? = some b → b ≠ nullBlock → 1 ≤ s.blockPool.refCnt b := by
    intro m' r' i b found notNull
    have : b ∈ s.reqToBlocks.get (m'.key r') := mem_of_getElem? found
    exact inv.wf.refCnt_pos this notNull
  refine ⟨wf, fun m' mem' r' i b found notNull => ?_, fun b key hashed => inv.keyed b key
    (noHash b key hashed), fun key idx isLast => ?_, fun m' mem' k kind r' allocated => ?_⟩
  · by_cases same : m'.key r' = m.key r
    · obtain rfl : r' = r := congrArg Prod.snd same
      obtain rfl : m' = m := KVCacheConfig.manager_ext mem' mem (congrArg Prod.fst same)
      exact own i b found notNull
    · rw [other m' r' same] at found
      obtain ⟨fits, single⟩ := inv.tagged m' mem' r' i b found notNull
      obtain ⟨sameHash, le⟩ := held b notNull (hasRef m' r' i b found notNull)
      rw [sameHash]
      exact ⟨fits, fun isNone => Int.le_trans (le isNone) (single isNone)⟩
  · rcases eq_or_ne key (m.key r) with rfl | same
    · exact last idx isLast
    · rw [entry.lastStateBlockIdx same] at isLast
      rw [entry.tables.get_of_ne same]
      exact inv.lastState key idx isLast
  · by_cases same : m'.key r' = m.key r
    · obtain rfl : r' = r := congrArg Prod.snd same
      obtain rfl : m' = m := KVCacheConfig.manager_ext mem' mem (congrArg Prod.fst same)
      exact state k kind allocated
    · rw [entry.allocatedBlockReqs same] at allocated
      rw [other m' r' same]
      obtain ⟨longer, noHashes⟩ := inv.state m' mem' k kind r' allocated
      refine ⟨longer, fun i b le found notNull => ?_⟩
      rw [(held b notNull (hasRef m' r' i b found notNull)).1]
      exact noHashes i b le found notNull

theorem skip (inv : Inv cfg hashes s) (mem : m ∈ cfg.managers) (skipped : Skipped (m.key r) s s')
    (wf : Wf cfg.numBlocks s') : Inv cfg hashes s' := by
  obtain ⟨blocks, freed, -⟩ := skipped.freed
  have le : ∀ b, s'.blockPool.refCnt b ≤ s.blockPool.refCnt b := fun b => by
    rw [freed.refCnt]
    omega
  have length : (m.blocksOf s' r).length = (m.blocksOf s r).length := skipped.nulled.length
  refine inv.of_entry mem skipped.onlyEntry wf (fun b key => ?_) (fun b _ _ => ⟨?_, fun _ => le b⟩)
    (fun i b found notNull => ?_) (fun idx last => ?_) fun k kind allocated => ?_
  · rw [freed.blockHash]
    exact id
  · rw [freed.blockHash]
  · obtain ⟨fits, single⟩ := inv.tagged m mem r i b (skipped.nulled.sub found notNull) notNull
    rw [freed.blockHash]
    exact ⟨fits, fun isNone => Int.le_trans (le b) (single isNone)⟩
  · rw [skipped.lastStateBlockIdx] at last
    rw [length]
    exact inv.lastState _ idx last
  · rw [skipped.allocatedBlockReqs] at allocated
    obtain ⟨longer, noHashes⟩ := inv.state m mem k kind r allocated
    rw [length, freed.blockHash]
    exact ⟨longer, fun i b le found notNull =>
      noHashes i b le (skipped.nulled.sub found notNull) notNull⟩

theorem free (inv : Inv cfg hashes s) (mem : m ∈ cfg.managers) (r : RequestId) :
    Inv cfg hashes (m.free s r) := by
  obtain ⟨freed, wf⟩ := free_spec m r inv.wf
  have empty : m.blocksOf (m.free s r) r = [] := get_free m s r
  refine inv.of_entry mem (free_onlyEntry m s r) wf (fun b key => ?_)
    (fun b _ _ => ⟨by rw [freed.blockHash], fun _ => ?_⟩) (fun i b found => ?_) (fun idx last => ?_)
    fun k kind allocated => ?_
  · rw [freed.blockHash]
    exact id
  · rw [freed.refCnt]
    omega
  · rw [empty] at found
    cases found
  · simp [SingleTypeKVCacheManager.free] at last
  · simp [SingleTypeKVCacheManager.free] at allocated

section Allocation

variable [DecidableEq H]

/-- New blocks at the end of a table. Its old blocks are where they were, or have no
hash. -/
theorem grow (inv : Inv cfg hashes s) (mem : m ∈ cfg.managers) {kept blocks : List BlockId}
    (grown : Grown true (m.key r) s s' kept blocks)
    (placed : ∀ (i : Nat) (b : BlockId), kept[i]? = some b → b ≠ nullBlock →
      (m.blocksOf s r)[i]? = some b ∨ s.blockPool.blockHash b = none)
    (last : ∀ idx, s'.lastStateBlockIdx (m.key r) = some idx → idx < (m.blocksOf s' r).length)
    (state : ∀ k, m.kvCacheSpec.kind = .mamba .align k → s'.allocatedBlockReqs (m.key r) = true →
      k < (m.blocksOf s' r).length ∧ ∀ (i : Nat) (b : BlockId), (m.blocksOf s' r).length ≤ i + k →
        kept[i]? = some b → b ≠ nullBlock → s.blockPool.blockHash b = none) :
    Inv cfg hashes s' := by
  obtain ⟨isBlocks, -, -, taken, -⟩ :=
    inv.wf.pool.of_getNewBlocks (Int.natCast_nonneg _) grown.run
  have free : ∀ b ∈ blocks, s.blockPool.refCnt b = 0 := fun b new =>
    ((inv.wf.pool.mem_free b).mp (mem_of_mem_take (isBlocks ▸ new))).2.2
  have hash : ∀ b, s'.blockPool.blockHash b = if b ∈ blocks then none else s.blockPool.blockHash b :=
    fun b => by simpa using taken.blockHash b
  have old : ∀ b, 1 ≤ s.blockPool.refCnt b → s'.blockPool.blockHash b = s.blockPool.blockHash b ∧
      s'.blockPool.refCnt b = s.blockPool.refCnt b := by
    intro b held
    have notNew : b ∉ blocks := fun new => by
      have := free b new
      omega
    rw [hash, if_neg notNew, taken.refCnt, count_eq_zero.mpr notNew]
    exact ⟨rfl, Int.add_zero _⟩
  -- A block of the old table is in it once, at a position that the invariant knows.
  have inTable : ∀ b ∈ kept, b ≠ nullBlock → ∃ j : Nat, (m.blocksOf s r)[j]? = some b := by
    intro b isKept notNull
    have pos := count_pos_iff.mpr isKept
    rw [grown.same b notNull] at pos
    exact mem_iff_getElem?.mp (count_pos_iff.mp pos)
  have heldOf : ∀ b ∈ kept, b ≠ nullBlock → 1 ≤ s.blockPool.refCnt b := by
    intro b isKept notNull
    obtain ⟨j, at_j⟩ := inTable b isKept notNull
    have : b ∈ s.reqToBlocks.get (m.key r) := mem_of_getElem? at_j
    exact inv.wf.refCnt_pos this notNull
  have table : m.blocksOf s' r = kept ++ blocks := grown.table
  have cases_at : ∀ (i : Nat) (b : BlockId), (m.blocksOf s' r)[i]? = some b →
      kept[i]? = some b ∨ b ∈ blocks := by
    intro i b found
    rw [table] at found
    by_cases lt : i < kept.length
    · rw [getElem?_append_left lt] at found
      exact .inl found
    · rw [getElem?_append_right (not_lt.mp lt)] at found
      exact .inr (mem_of_getElem? found)
  refine inv.of_entry mem grown.entry (inv.wf.grow grown) (fun b key hashed => ?_)
    (fun b _ held => ⟨(old b held).1, fun _ => Int.le_of_eq (old b held).2⟩)
    (fun i b found notNull => ?_) last fun k kind allocated => ?_
  · exact taken.blockHash_of_some hashed
  · rcases cases_at i b found with isKept | new
    · have held := heldOf b (mem_of_getElem? isKept) notNull
      obtain ⟨j, at_j⟩ := inTable b (mem_of_getElem? isKept) notNull
      obtain ⟨-, single⟩ := inv.tagged m mem r j b at_j notNull
      rw [(old b held).1, (old b held).2]
      refine ⟨fun key hashed => ?_, single⟩
      rcases placed i b isKept notNull with same | unhashed
      · exact (inv.tagged m mem r i b same notNull).1 key hashed
      · rw [unhashed] at hashed
        cases hashed
    · have nodup := inv.wf.pool.nodup.sublist (take_sublist ((blocks.length : Int).toNat) _)
      rw [← isBlocks] at nodup
      have count := nodup_iff_count_le_one.mp nodup b
      have := free b new
      rw [hash, if_pos new, taken.refCnt]
      refine ⟨fun key hashed => ?_, fun _ => by omega⟩
      cases hashed
  · obtain ⟨longer, noHashes⟩ := state k kind allocated
    refine ⟨longer, fun i b le found notNull => ?_⟩
    rcases cases_at i b found with isKept | new
    · rw [(old b (heldOf b (mem_of_getElem? isKept) notNull)).1]
      exact noHashes i b le isKept notNull
    · rw [hash, if_pos new]

end Allocation

end Inv

variable {s : KVState H} {m : SingleTypeKVCacheManager} {r : RequestId} {n : Nat}

/-- A block of an align-mode table is where it was, or was one of the speculative
blocks. -/
theorem getElem?_alignTable {k : Nat} (found : (m.alignTable s r k n)[i]? = some b)
    (notNull : b ≠ nullBlock) :
    (m.blocksOf s r)[i]? = some b ∧
      (s.allocatedBlockReqs (m.key r) = true → i < (m.blocksOf s r).length - k) ∨
    s.allocatedBlockReqs (m.key r) = true ∧
      ∃ j, (m.blocksOf s r).length ≤ j + k ∧ (m.blocksOf s r)[j]? = some b := by
  obtain ⟨-, reused⟩ := reuseSpeculativeBlocks_eq
    (if s.allocatedBlockReqs (m.key r) then k else 0) (cdiv n m.blockSize - 1) (m.blocksOf s r)
  rw [alignTable, reused] at found
  generalize m.blocksOf s r = blocks at found ⊢
  cases allocated : s.allocatedBlockReqs (m.key r) with
  | false =>
    simp only [allocated, Bool.false_eq_true, if_false, Nat.sub_zero, drop_length,
      take_nil, length_nil, replicate_zero, append_nil, take_length,
      Nat.add_zero] at found
    by_cases lt : i < blocks.length
    · rw [getElem?_append_left lt] at found
      exact .inl ⟨found, fun used => absurd used Bool.false_ne_true⟩
    · rw [getElem?_append_right (not_lt.mp lt)] at found
      exact absurd (eq_of_mem_replicate (mem_of_getElem? found)) notNull
  | true =>
    simp only [allocated, if_true] at found
    by_cases lt : i < blocks.length - k
    · rw [append_assoc, append_assoc, getElem?_append_left (by simp; omega),
        getElem?_take_of_lt lt] at found
      exact .inl ⟨found, fun _ => lt⟩
    · refine .inr ⟨rfl, ?_⟩
      have inDrop : b ∈ blocks.drop (blocks.length - k) := by
        rw [append_assoc, append_assoc,
          getElem?_append_right (by simp; omega)] at found
        have mem := mem_of_getElem? found
        simp only [mem_append] at mem
        rcases mem with null | (rest | null) | moved
        · exact absurd (eq_of_mem_replicate null) notNull
        · rw [← drop_drop] at rest
          exact mem_of_mem_drop rest
        · exact absurd (eq_of_mem_replicate null) notNull
        · exact mem_of_mem_take moved
      obtain ⟨j, at_j⟩ := mem_iff_getElem?.mp inDrop
      rw [getElem?_drop] at at_j
      exact ⟨_, by omega, at_j⟩

/-- An align-mode table without state blocks of its own is not longer than the
tokens need. -/
def Ready (s : KVState H) (m : SingleTypeKVCacheManager) (r : RequestId)
    (numTokensMainModel : Nat) : Prop :=
  ∀ k, m.kvCacheSpec.kind = .mamba .align k → s.allocatedBlockReqs (m.key r) = false →
    k = 0 ∨ (m.blocksOf s r).length ≤ cdiv numTokensMainModel m.blockSize

/-- An align-mode table has its state block and its speculative blocks. -/
def HasState (s : KVState H) (m : SingleTypeKVCacheManager) (r : RequestId)
    (numTokensMainModel : Nat) : Prop :=
  ∀ k, m.kvCacheSpec.kind = .mamba .align k →
    cdiv numTokensMainModel m.blockSize + k ≤ (m.blocksOf s r).length ∧
      (s.allocatedBlockReqs (m.key r) = true ∨ k = 0)

namespace Inv

variable [DecidableEq H] {cfg : KVCacheConfig} {hashes : RequestId → List H} {s s' : KVState H}
  {m : SingleTypeKVCacheManager} {r : RequestId}

theorem enableCaching_of_mem (mem : m ∈ cfg.managers) : m.enableCaching = cfg.enableCaching := by
  obtain ⟨g, i, -, rfl⟩ := KVCacheConfig.mem_managers.mp mem
  rfl

variable {n : Nat} {blocks : List BlockId}

section

variable (inv : Inv cfg hashes s)
include inv

section

variable (mem : m ∈ cfg.managers)
include mem

section

variable (caching : cfg.enableCaching = true)
include caching

theorem baseAllocateNewBlocks (noState : ∀ k, m.kvCacheSpec.kind ≠ .mamba .align k)
    (run : m.baseAllocateNewBlocks s r n = .ok (blocks, s')) :
    Inv cfg hashes s' ∧ OnlyEntry (m.key r) s s' := by
  obtain ⟨grown, -, sameLast, -⟩ := baseAllocateNewBlocks_spec inv.wf run
  rw [enableCaching_of_mem mem, caching] at grown
  refine ⟨inv.grow mem grown (fun i b found _ => .inl found) (fun idx last => ?_)
    fun k kind => absurd kind (noState k), grown.entry⟩
  rw [sameLast] at last
  have := inv.lastState _ idx last
  have table : m.blocksOf s' r = m.blocksOf s r ++ blocks := grown.table
  rw [table, length_append]
  exact Nat.lt_add_right _ this

theorem alignAllocateNewBlocks {k : Nat} (kind : m.kvCacheSpec.kind = .mamba .align k) (pos : 0 < n)
    (ready : Ready s m r n) (run : m.alignAllocateNewBlocks s r k n = .ok (blocks, s')) :
    Inv cfg hashes s' ∧ OnlyEntry (m.key r) s s' ∧ HasState s' m r n := by
  have blocksPos : 0 < cdiv n m.blockSize := (lt_cdiv_iff m.blockSize_pos).mpr (by omega)
  have spec : s.allocatedBlockReqs (m.key r) = true → k < (m.blocksOf s r).length := fun allocated =>
    (inv.state m mem k kind r allocated).1
  have only : ∀ k', m.kvCacheSpec.kind = .mamba .align k' → k' = k := by
    intro k' kind'
    rw [kind] at kind'
    cases kind'
    rfl
  rcases alignAllocateNewBlocks_spec inv.wf spec run with
    ⟨enough, rfl⟩ | ⟨grows, newBlocks, grown, length, allocated', isLast⟩
  · refine ⟨inv, .refl _ _, fun k' kind' => ?_⟩
    obtain rfl := only k' kind'
    refine ⟨enough, ?_⟩
    cases allocated : s'.allocatedBlockReqs (m.key r) with
    | true => exact .inl rfl
    | false =>
      rcases ready k' kind allocated with zero | le
      · exact .inr zero
      · exact .inr (by omega)
  · rw [enableCaching_of_mem mem, caching] at grown
    have table : m.blocksOf s' r = m.alignTable s r k n ++ newBlocks := grown.table
    have lengthTable : (m.blocksOf s' r).length = cdiv n m.blockSize + k := by
      rw [table, List.length_append, length]
    refine ⟨inv.grow mem grown (fun i b found notNull => ?_) (fun idx last => ?_)
      fun k' kind' _ => ?_, grown.entry, fun k' kind' => ?_⟩
    · rcases getElem?_alignTable found notNull with ⟨same, -⟩ | ⟨allocated, j, le, at_j⟩
      · exact .inl same
      · exact .inr ((inv.state m mem k kind r allocated).2 j b le at_j notNull)
    · rcases isLast idx last with lt | old
      · omega
      · have : idx < (m.blocksOf s r).length := inv.lastState _ idx old
        omega
    · obtain rfl := only k' kind'
      refine ⟨by omega, fun i b le found notNull => ?_⟩
      rcases getElem?_alignTable found notNull with ⟨same, before⟩ | ⟨allocated, j, le, at_j⟩
      · -- Past the state block there is no block of the old table.
        obtain ⟨lt, -⟩ := List.getElem?_eq_some_iff.mp same
        cases allocated : s.allocatedBlockReqs (m.key r) with
        | true =>
          have := before allocated
          omega
        | false =>
          rcases ready k' kind allocated with zero | le'
          · omega
          · omega
      · exact (inv.state m mem k' kind r allocated).2 j b le at_j notNull
    · obtain rfl := only k' kind'
      exact ⟨by omega, .inl allocated'⟩

theorem allocateNewBlocks {main : Nat} (pos : 0 < main) (ready : Ready s m r main)
    (run : m.allocateNewBlocks s r n main = .ok (blocks, s')) :
    Inv cfg hashes s' ∧ OnlyEntry (m.key r) s s' ∧ HasState s' m r main := by
  unfold SingleTypeKVCacheManager.allocateNewBlocks at run
  split at run
  · rename_i k kind
    exact inv.alignAllocateNewBlocks mem caching kind pos ready run
  · rename_i mode k notAlign kind
    have noState : ∀ k', m.kvCacheSpec.kind ≠ .mamba .align k' := by
      intro k' isAlign
      rw [kind] at isAlign
      cases isAlign
      exact notAlign rfl
    obtain ⟨inv', entry⟩ := inv.baseAllocateNewBlocks mem caching noState run
    exact ⟨inv', entry, fun k' isAlign => absurd isAlign (noState k')⟩
  · rename_i notAlign _
    have noState : ∀ k', m.kvCacheSpec.kind ≠ .mamba .align k' := fun k' isAlign => notAlign _ isAlign
    obtain ⟨inv', entry⟩ := inv.baseAllocateNewBlocks mem caching noState run
    exact ⟨inv', entry, fun k' isAlign => absurd isAlign (noState k')⟩

end

omit [DecidableEq H] in
/-- Blocks get the hashes of their positions. -/
theorem cache {request : Request H}
    (known : request.blockHashes <+: hashes request.requestId)
    (cached : SingleTypeKVCacheManager.CachedBlocks m request n s s') (wf : Wf cfg.numBlocks s')
    (room : ∀ k, m.kvCacheSpec.kind = .mamba .align k →
      s.allocatedBlockReqs (m.key request.requestId) = true →
      n / m.blockSize + k ≤ (m.blocksOf s request.requestId).length) : Inv cfg hashes s' := by
  have sameTables : ∀ (m' : SingleTypeKVCacheManager) (r' : RequestId),
      m'.blocksOf s' r' = m'.blocksOf s r' := fun m' r' => by
    rw [blocksOf, cached.reqToBlocks]
    rfl
  -- A block that got a hash stands at one position, in the table that was cached.
  have new : ∀ m' ∈ cfg.managers, ∀ (r' : RequestId) (i : Nat) (b : BlockId)
      (key : BlockHashWithGroupId H), (m'.blocksOf s r')[i]? = some b → b ≠ nullBlock →
      s'.blockPool.blockHash b = some key → s.blockPool.blockHash b = none →
      m' = m ∧ r' = request.requestId ∧ i < n / m.blockSize ∧ Fits hashes m' r' i key := by
    intro m' mem' r' i b key found notNull hashed unhashed
    obtain ⟨j, lt, at_j, -, group, isHash⟩ := cached.pool.new b key hashed unhashed
    obtain ⟨-, single⟩ := inv.tagged m' mem' r' i b found notNull
    have same : m'.key r' = m.key request.requestId ∧ i = j :=
      inv.wf.position_unique at_j found notNull (single unhashed)
    obtain ⟨sameKey, rfl⟩ := same
    obtain rfl : r' = request.requestId := congrArg Prod.snd sameKey
    obtain rfl : m' = m := KVCacheConfig.manager_ext mem' mem (congrArg Prod.fst sameKey)
    refine ⟨rfl, rfl, lt, ?_⟩
    have := (fits_of_fullBlockHash known isHash).1
    rwa [← group] at this
  have unhashed : ∀ b, s'.blockPool.blockHash b = none → s.blockPool.blockHash b = none := by
    intro b isNone
    cases old : s.blockPool.blockHash b with
    | none => rfl
    | some key =>
      rw [cached.pool.kept b key old] at isNone
      cases isNone
  refine ⟨wf, fun m' mem' r' i b found notNull => ?_, fun b key hashed => ?_, fun key idx last => ?_,
    fun m' mem' k kind r' allocated => ?_⟩
  · rw [sameTables] at found
    obtain ⟨fits, single⟩ := inv.tagged m' mem' r' i b found notNull
    refine ⟨fun key hashed => ?_, fun isNone => ?_⟩
    · cases old : s.blockPool.blockHash b with
      | none => exact (new m' mem' r' i b key found notNull hashed old).2.2.2
      | some key₀ =>
        rw [cached.pool.kept b key₀ old] at hashed
        cases hashed
        exact fits _ old
    · rw [cached.pool.refCnt]
      exact single (unhashed b isNone)
  · cases old : s.blockPool.blockHash b with
    | none =>
      obtain ⟨j, -, -, -, group, isHash⟩ := cached.pool.new b key hashed old
      obtain ⟨fits, length⟩ := fits_of_fullBlockHash known isHash
      exact ⟨m, mem, group, fits.2.1, length⟩
    | some key₀ =>
      rw [cached.pool.kept b key₀ old] at hashed
      cases hashed
      exact inv.keyed b _ old
  · rw [cached.lastStateBlockIdx] at last
    rw [cached.reqToBlocks]
    exact inv.lastState key idx last
  · rw [cached.allocatedBlockReqs] at allocated
    rw [sameTables]
    obtain ⟨longer, noHashes⟩ := inv.state m' mem' k kind r' allocated
    refine ⟨longer, fun i b le found notNull => ?_⟩
    cases hashed : s'.blockPool.blockHash b with
    | none => rfl
    | some key =>
      obtain ⟨rfl, rfl, lt, -⟩ := new m' mem' r' i b key found notNull hashed
        (noHashes i b le found notNull)
      have := room k kind allocated
      omega

end

end

end Inv

/-! ### Hits of a new request -/

section Computed

/- The hits by group, and the tokens they and the connector cover. -/
variable (hits : List (List BlockId)) (numLocal numExternal : Nat)

/-- From the free queue on, no manager takes a negative number of blocks for
external tokens, or a block that is a hit of any group; and neither is one of the
`numNew` blocks at the front of the queue that they leave. -/
def SparesHits (numNew : Nat) : List BlockId → List SingleTypeKVCacheManager → Prop
  | queue, [] => ∀ b ∈ queue.take numNew, b ∉ hits.flatten
  | queue, m :: rest =>
    let left := queue.filter fun b => decide (b ∉ windowHits hits numLocal numExternal m)
    0 ≤ numTaken hits numLocal numExternal m ∧
    (∀ b ∈ left.take (numTaken hits numLocal numExternal m).toNat, b ∉ hits.flatten) ∧
    SparesHits numNew (left.drop (numTaken hits numLocal numExternal m).toNat) rest

instance decidableSparesHits (numNew : Nat) : (queue : List BlockId) →
    (ms : List SingleTypeKVCacheManager) →
    Decidable (SparesHits hits numLocal numExternal numNew queue ms)
  | queue, [] => inferInstanceAs (Decidable (∀ b ∈ queue.take numNew, _))
  | queue, m :: rest =>
    have := decidableSparesHits numNew ((queue.filter fun b =>
      decide (b ∉ windowHits hits numLocal numExternal m)).drop
        (numTaken hits numLocal numExternal m).toNat) rest
    inferInstanceAs (Decidable (_ ∧ _ ∧ _))

/-- The hits of `m` carry the hashes of their positions. -/
def HitsHashed (hashes : RequestId → List H) (r : RequestId) (s : KVState H)
    (m : SingleTypeKVCacheManager) : Prop :=
  ∀ (i : Nat) (b : BlockId), (hits.getD m.kvCacheGroupId [])[i]? = some b → b ≠ nullBlock →
    m.numSkippedBlocks (numLocal + numExternal) ≤ i →
    ∃ key, s.blockPool.blockHash b = some key ∧ Fits hashes m r i key

variable {hits numLocal numExternal} [DecidableEq H] {cfg : KVCacheConfig}
  {hashes : RequestId → List H} {s s' : KVState H} {m : SingleTypeKVCacheManager} {r : RequestId}

theorem mem_flatten_of_windowHits (isHit : b ∈ windowHits hits numLocal numExternal m) :
    b ∈ hits.flatten := by
  have inGroup : b ∈ hits.getD m.kvCacheGroupId [] := mem_of_mem_drop isHit
  rw [getD_eq_getElem?_getD] at inGroup
  cases found : hits[m.kvCacheGroupId]? with
  | none => simp [found] at inGroup
  | some group => exact mem_flatten.mpr ⟨group, mem_of_getElem? found, by simpa [found] using inGroup⟩

omit [DecidableEq H] in
theorem HitsHashed.at_window (hashed : HitsHashed hits numLocal numExternal hashes r s m)
    (found : (windowHits hits numLocal numExternal m)[i]? = some b) (notNull : b ≠ nullBlock) :
    ∃ key, s.blockPool.blockHash b = some key ∧
      Fits hashes m r (m.numSkippedBlocks (numLocal + numExternal) + i) key := by
  rw [windowHits, hitsInWindow, getElem?_drop] at found
  exact hashed _ b found notNull (Nat.le_add_right _ _)

omit [DecidableEq H] in
theorem HitsHashed.of_mem (hashed : HitsHashed hits numLocal numExternal hashes r s m)
    (isHit : b ∈ windowHits hits numLocal numExternal m) (notNull : b ≠ nullBlock) :
    ∃ key, s.blockPool.blockHash b = some key := by
  obtain ⟨i, at_i⟩ := mem_iff_getElem?.mp isHit
  obtain ⟨key, isKey, -⟩ := hashed.at_window at_i notNull
  exact ⟨key, isKey⟩

omit [DecidableEq H] in
/-- The null blocks before the window shift the hits to their positions. -/
theorem HitsHashed.at_hitTable (hashed : HitsHashed hits numLocal numExternal hashes r s m)
    (found : (m.hitTable (hits.getD m.kvCacheGroupId []) (numLocal + numExternal))[i]? = some b)
    (notNull : b ≠ nullBlock) :
    ∃ key, s.blockPool.blockHash b = some key ∧ Fits hashes m r i key := by
  change (replicate _ _ ++ windowHits hits numLocal numExternal m)[i]? = _ at found
  by_cases isNull : i < m.numSkippedBlocks (numLocal + numExternal)
  · rw [getElem?_append_left (by simpa using isNull)] at found
    exact absurd (eq_of_mem_replicate (mem_of_getElem? found)) notNull
  · rw [getElem?_append_right (by simpa using isNull), length_replicate] at found
    obtain ⟨key, isKey, fits⟩ := hashed.at_window found notNull
    rw [Nat.add_sub_cancel' (not_lt.mp isNull)] at fits
    exact ⟨key, isKey, fits⟩

omit [DecidableEq H] in
theorem HitsHashed.once (hashed : HitsHashed hits numLocal numExternal hashes r s m)
    (distinct : (hashes r).Nodup) (notNull : b ≠ nullBlock) :
    (windowHits hits numLocal numExternal m).count b ≤ 1 := by
  refine count_le_one_of_inj fun i j at_i at_j => ?_
  obtain ⟨key, isKey, fits⟩ := hashed.at_window at_i notNull
  obtain ⟨key', isKey', fits'⟩ := hashed.at_window at_j notNull
  rw [isKey] at isKey'
  cases isKey'
  have := Fits.inj distinct fits fits'
  omega

omit [DecidableEq H] in
/-- A request without blocks has no state blocks. -/
theorem Inv.not_allocated_of_nil (inv : Inv cfg hashes s) (mem : m ∈ cfg.managers)
    (kind : m.kvCacheSpec.kind = .mamba .align k) (empty : m.blocksOf s r = []) :
    s.allocatedBlockReqs (m.key r) = false := by
  rw [Bool.eq_false_iff]
  intro allocated
  have := (inv.state m mem k kind r allocated).1
  rw [empty] at this
  exact absurd this (Nat.not_lt_zero _)

/-- One manager's part of `allocate_new_computed_blocks`. -/
theorem Inv.addComputedBlocks (inv : Inv cfg hashes s) (mem : m ∈ cfg.managers)
    (caching : cfg.enableCaching = true) (distinct : (hashes r).Nodup) (fresh : m.blocksOf s r = [])
    (hashed : HitsHashed hits numLocal numExternal hashes r s m)
    (nonneg : 0 ≤ numTaken hits numLocal numExternal m)
    (run : m.addComputedBlocks s r (hits.getD m.kvCacheGroupId []) numLocal numExternal = .ok s') :
    let left := s.blockPool.freeBlockQueue.blocks.filter fun b =>
      decide (b ∉ windowHits hits numLocal numExternal m)
    Inv cfg hashes s' ∧ OnlyEntry (m.key r) s s' ∧
      s'.allocatedBlockReqs = s.allocatedBlockReqs ∧
      m.blocksOf s' r = m.hitTable (hits.getD m.kvCacheGroupId []) (numLocal + numExternal) ++
        left.take (numTaken hits numLocal numExternal m).toNat ∧
      ((m.blocksOf s' r).length : Int) =
        (m.hitTable (hits.getD m.kvCacheGroupId []) (numLocal + numExternal)).length +
          numTaken hits numLocal numExternal m ∧
      s'.blockPool.freeBlockQueue.blocks = left.drop (numTaken hits numLocal numExternal m).toNat ∧
      ∀ b, b ∉ left.take (numTaken hits numLocal numExternal m).toNat →
        s'.blockPool.blockHash b = s.blockPool.blockHash b := by
  intro left
  have once : ∀ b, b ≠ nullBlock → (windowHits hits numLocal numExternal m).count b ≤ 1 :=
    fun b notNull => hashed.once distinct notNull
  have inRange : ∀ b ∈ windowHits hits numLocal numExternal m, b ≠ nullBlock → b < cfg.numBlocks := by
    intro b isHit notNull
    obtain ⟨key, isKey⟩ := hashed.of_mem isHit notNull
    exact (inv.wf.pool.hash_inRange b key isKey).2
  obtain ⟨p₁, blocks, touched, ok₁, takeRun, amount, table, entry, -, sameLast, sameAllocated, -, -⟩ :=
    addComputedBlocks_spec inv.wf fresh once inRange
      (fun external => by rwa [numTaken, if_pos external] at nonneg) run
  have amount : (blocks.length : Int) = numTaken hits numLocal numExternal m := amount
  have noLast : ∀ idx, s.lastStateBlockIdx (m.key r) ≠ some idx := by
    intro idx last
    have := inv.lastState _ idx last
    rw [show s.reqToBlocks.get (m.key r) = [] from fresh] at this
    simp at this
  have notAllocated {k} (kind : m.kvCacheSpec.kind = .mamba .align k) :=
    Bool.eq_false_iff.mp (inv.not_allocated_of_nil mem kind fresh)
  -- First the hits enter the table, then the new blocks.
  let hitTable := m.hitTable (hits.getD m.kvCacheGroupId []) (numLocal + numExternal)
  let s₁ : KVState H :=
    { s' with reqToBlocks := (m.setBlocks s r hitTable).reqToBlocks, blockPool := p₁ }
  have entry₁ : OnlyEntry (m.key r) s s₁ := { entry with tables := Dict.updated_set _ _ _ }
  have grown : Grown true (m.key r) s₁ s' hitTable blocks := by
    refine ⟨⟨(Dict.updated_set _ _ _).symm.trans entry.tables, fun _ => rfl, fun _ => rfl,
      fun _ => rfl⟩, table, fun b _ => ?_, ?_, rfl, rfl⟩
    · rw [get_setBlocks]
    · rwa [enableCaching_of_mem mem, caching] at takeRun
  have inv₁ : Inv cfg hashes s₁ := by
    refine inv.of_entry mem entry₁ ((enterHits_wf inv.wf fresh once inRange touched ok₁).of_pool ok₁
      rfl rfl) (fun b key isHash => touched.blockHash ▸ isHash)
      (fun b notNull held => ⟨congrFun touched.blockHash b, fun unhashed => ?_⟩)
      (fun i b found notNull => ?_) (fun idx last => ?_) (fun k kind allocated => ?_)
    · -- A hit has a hash, so an unhashed block was not touched.
      have notHit : b ∉ windowHits hits numLocal numExternal m := fun isHit => by
        obtain ⟨key, isKey⟩ := hashed.of_mem isHit notNull
        rw [unhashed] at isKey
        cases isKey
      rw [show s₁.blockPool = p₁ from rfl, touched.refCnt,
        show (m.hitsInWindow _ _).count b = 0 from count_eq_zero.mpr notHit]
      omega
    · rw [blocksOf, get_setBlocks] at found
      obtain ⟨key, isKey, fits⟩ := hashed.at_hitTable found notNull
      rw [show s₁.blockPool = p₁ from rfl, touched.blockHash, isKey]
      refine ⟨fun key' same => ?_, fun isNone => by cases isNone⟩
      cases same
      exact fits
    · exact absurd (sameLast ▸ last) (noLast idx)
    · exact absurd (sameAllocated ▸ allocated) (notAllocated kind)
  obtain ⟨isBlocks, -, -, taken, queue⟩ := ok₁.of_getNewBlocks (Int.natCast_nonneg _) takeRun
  have isLeft : p₁.freeBlockQueue.blocks = left := touched.free
  rw [isLeft, amount] at isBlocks queue
  refine ⟨inv₁.grow mem grown (fun i b found _ => .inl ?_) (fun idx last => ?_)
    (fun k kind allocated => ?_), entry, sameAllocated, by rw [← isBlocks]; exact table, ?_,
    by rw [queue], fun b notTaken => ?_⟩
  · rw [blocksOf, get_setBlocks]
    exact found
  · exact absurd (sameLast ▸ last) (noLast idx)
  · exact absurd (sameAllocated ▸ allocated) (notAllocated kind)
  · rw [← amount, blocksOf, table, length_append]
    exact Int.natCast_add _ _
  · rw [taken.blockHash, if_neg fun new => notTaken (isBlocks ▸ new.2), touched.blockHash]

/-- All managers' part, for a request that is new to them. -/
theorem Inv.allocateNewComputedBlocks (caching : cfg.enableCaching = true)
    (noCross : ∀ m ∈ cfg.managers, m.kvCacheSpec.isCrossAttention = false)
    (distinct : (hashes r).Nodup) {ms : List SingleTypeKVCacheManager}
    (sub : ∀ m ∈ ms, m ∈ cfg.managers) (nodup : ms.Nodup) (inv : Inv cfg hashes s)
    (isNew : ∀ m ∈ ms, m.blocksOf s r = [] ∧ s.numCachedBlock (m.key r) = none)
    (hashed : ∀ m ∈ ms, HitsHashed hits numLocal numExternal hashes r s m)
    {numNew : Nat}
    (spares : SparesHits hits numLocal numExternal numNew s.blockPool.freeBlockQueue.blocks ms)
    (run : ms.foldlM (fun s m => m.allocateNewComputedBlocks s r (hits.getD m.kvCacheGroupId [])
      numLocal numExternal) s = .ok s') :
    Inv cfg hashes s' ∧
      (∀ m ∈ ms, let hitTable := m.hitTable (hits.getD m.kvCacheGroupId []) (numLocal + numExternal)
        0 ≤ numTaken hits numLocal numExternal m ∧
        ((m.blocksOf s' r).length : Int) =
          hitTable.length + numTaken hits numLocal numExternal m ∧
        ∀ b ∈ (m.blocksOf s' r).drop hitTable.length, b ∉ hits.flatten) ∧
      (∀ b ∈ s'.blockPool.freeBlockQueue.blocks.take numNew, b ∉ hits.flatten) ∧
      s'.allocatedBlockReqs = s.allocatedBlockReqs ∧
      ∀ key : Nat × RequestId, (∀ m ∈ ms, key ≠ m.key r) →
        s'.reqToBlocks.get key = s.reqToBlocks.get key := by
  induction ms generalizing s with
  | nil =>
    cases run
    exact ⟨inv, nofun, spares, rfl, fun _ _ => rfl⟩
  | cons m rest ih =>
    obtain ⟨s₁, first, run⟩ := bind_eq_ok.mp run
    obtain ⟨notMem, nodup⟩ := nodup_cons.mp nodup
    obtain ⟨nonneg, apart, spares⟩ := spares
    obtain ⟨fresh, notCached⟩ := isNew m (by simp)
    have added : m.addComputedBlocks s r (hits.getD m.kvCacheGroupId []) numLocal numExternal =
        .ok s₁ := by
      simpa [allocateNewComputedBlocks, noCross m (sub m (by simp)), notCached, fresh] using first
    obtain ⟨inv₁, entry, allocated₁, table, length, queue, sameHash⟩ := inv.addComputedBlocks (sub m (by simp))
      caching distinct fresh (hashed m (by simp)) nonneg added
    have ne : ∀ m' ∈ rest, ∀ r' : RequestId, m'.key r' ≠ m.key r := fun m' mem' r' =>
      KVCacheConfig.key_ne (sub m (by simp)) (sub m' (by simp [mem']))
        (fun same => notMem (same ▸ mem')) r r'
    have hashed₁ : ∀ m' ∈ rest, HitsHashed hits numLocal numExternal hashes r s₁ m' := by
      intro m' mem' i b found notNull le
      -- The hit is not one of the blocks that `m` took.
      have isHit : b ∈ windowHits hits numLocal numExternal m' := by
        refine mem_of_getElem? (i := i - m'.numSkippedBlocks (numLocal + numExternal)) ?_
        rw [windowHits, hitsInWindow, getElem?_drop, Nat.add_sub_cancel' le]
        exact found
      rw [sameHash b fun taken => apart b taken (mem_flatten_of_windowHits isHit)]
      exact hashed m' (by simp [mem']) i b found notNull le
    obtain ⟨inv', tables, queue', allocated', frame⟩ := ih (fun m' mem' => sub m' (by simp [mem'])) nodup inv₁
      (fun m' mem' => by
        rw [blocksOf, entry.tables.get_of_ne (ne m' mem' r), entry.numCachedBlock (ne m' mem' r)]
        exact isNew m' (by simp [mem'])) hashed₁ (queue ▸ spares) run
    refine ⟨inv', fun m' mem' => ?_, queue', allocated'.trans allocated₁, fun key others => ?_⟩
    · rcases mem_cons.mp mem' with rfl | mem'
      · have same : m'.blocksOf s' r = m'.blocksOf s₁ r :=
          frame (m'.key r) fun m'' mem'' same => ne m'' mem'' r same.symm
        rw [same]
        refine ⟨nonneg, length, ?_⟩
        rw [table, drop_left]
        exact apart
      · exact tables m' mem'
    · exact (frame key fun m' mem' => others m' (by simp [mem'])).trans
        (entry.tables.get_of_ne (others m (by simp)))

end Computed

end Vllm.KVCache
