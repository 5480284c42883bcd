import Vllm.KVCache.KVCacheManager
import Vllm.KVCache.SpecGroups
import Vllm.KVCache.WindowHit

/-!
What a cache lookup finds: first null blocks, then blocks that are cached under
the hash that was looked up for their position, in their own group.
-/

namespace Vllm.KVCache

open Vllm.Lib.Fallible List

variable {H : Type}

/-! ### One spec group -/

section Rows

variable {lookup : Nat → Except KVError (Option Row)} {numGroups : Nat}

/-- Null rows first, then what the lookup found at each index. -/
def RowsSound (lookup : Nat → Except KVError (Option Row)) (numGroups : Nat) (rows : List Row) :
    Prop :=
  ∃ numNull, ∀ (i : Nat) (row : Row), rows[i]? = some row →
    (i < numNull ∧ row = nullRow numGroups) ∨ (numNull ≤ i ∧ lookup i = .ok (some row))

variable {rows : List Row} {n i maxLen blockSize align : Nat} {drop : Bool}

section

variable (sound : RowsSound lookup numGroups rows)
include sound

theorem RowsSound.take (n : Nat) : RowsSound lookup numGroups (rows.take n) := by
  obtain ⟨numNull, sound⟩ := sound
  refine ⟨numNull, fun i row found => ?_⟩
  rw [getElem?_take] at found
  split at found
  · exact sound i row found
  · cases found

theorem RowsSound.trimUnaligned (blockSize align : Nat) :
    RowsSound lookup numGroups (trimUnaligned blockSize align rows) :=
  sound.take _

theorem RowsSound.dropLast : RowsSound lookup numGroups rows.dropLast := by
  rw [dropLast_eq_take]
  exact sound.take _

end

theorem RowsSound.replicate_append
    (sound : ∀ (i : Nat) (row : Row), rows[i]? = some row → lookup (n + i) = .ok (some row)) :
    RowsSound lookup numGroups (replicate n (nullRow numGroups) ++ rows) := by
  refine ⟨n, fun i row found => ?_⟩
  by_cases null : i < n
  · rw [getElem?_append_left (by simpa using null), getElem?_replicate, if_pos null] at found
    exact .inl ⟨null, (Option.some.inj found).symm⟩
  · rw [getElem?_append_right (by simpa using null), length_replicate] at found
    have := sound _ row found
    rw [Nat.add_sub_cancel' (Nat.not_lt.mp null)] at this
    exact .inr ⟨Nat.not_lt.mp null, this⟩

theorem fullAttentionHit_sound {numHashes : Nat}
    (run : fullAttentionHit lookup numHashes maxLen blockSize drop align = .ok rows) :
    RowsSound lookup numGroups rows := by
  obtain ⟨hits, collected, run⟩ := bind_eq_ok.mp run
  cases run
  have sound : RowsSound lookup numGroups hits := ⟨0, fun i row found =>
    .inr ⟨Nat.zero_le i, by simpa using (collectHits_collected collected).found i row found⟩⟩
  refine RowsSound.trimUnaligned ?_ _ _
  cases drop with
  | false => exact sound
  | true => exact sound.dropLast

theorem slidingWindowHit_sound {window : Nat}
    (run : slidingWindowHit lookup numGroups window maxLen blockSize drop align = .ok rows) :
    RowsSound lookup numGroups rows := by
  let q : WindowQuery := ⟨window, blockSize, maxLen, align, drop⟩
  obtain ⟨e, computed, contiguous, found, scanned, rfl⟩ := windowHit_scanned (q := q) run
  have front : RowsSound lookup numGroups (computed.take e) := by
    refine ⟨e - max 1 q.need, fun i row at_i => ?_⟩
    rcases Nat.lt_or_ge i (e - max 1 q.need) with before | after
    · exact .inl ⟨before, scanned.outside i row at_i before⟩
    · exact .inr ⟨after, scanned.inside i row at_i after⟩
  have hits : RowsSound lookup numGroups (if found then computed.take e
      else trimUnaligned blockSize align (computed.take e)) := by
    split
    · exact front
    · exact front.trimUnaligned _ _
  unfold settle
  dsimp only
  split
  · exact hits.dropLast.trimUnaligned _ _
  · exact hits

theorem mambaHit_sound (run : mambaHit lookup numGroups maxLen blockSize align = .ok rows) :
    RowsSound lookup numGroups rows := by
  rw [mambaHit] at run
  generalize maxLen / blockSize = n at run
  induction n with
  | zero =>
    cases run
    exact ⟨0, nofun⟩
  | succ i ih =>
    obtain ⟨hit, looked, run⟩ := bind_eq_ok.mp run
    cases hit with
    | none => exact ih run
    | some last =>
      simp only at run
      split at run
      · exact ih run
      · cases run
        refine RowsSound.replicate_append fun j row found => ?_
        cases j with
        | zero =>
          cases found
          exact looked
        | succ j => cases found

theorem chunkedLocalHit_sound {chunk : Nat}
    (run : chunkedLocalHit lookup numGroups chunk maxLen blockSize drop align = .ok rows) :
    RowsSound lookup numGroups rows := by
  rw [chunkedLocalHit] at run
  split at run
  · cases run
  · obtain ⟨hits, collected, run⟩ := bind_eq_ok.mp run
    cases run
    exact RowsSound.replicate_append (collectHits_collected collected).found

end Rows

variable {p : BlockPool H} {hashes : List H} {groupIds : List Nat} {rows : List Row}
  {scale groupId : Nat} {blocks : List BlockId} {α β : Type}

theorem findLongestCacheHit_sound {hashBlockSize maxLen : Nat} {spec : KVCacheSpec} {cp : Nat}
    {drop : Bool} {align : Nat}
    (run : findLongestCacheHit p hashes hashBlockSize maxLen groupIds spec cp drop align =
      .ok rows) :
    RowsSound (lookupBlock p hashes (spec.blockSize * cp / hashBlockSize) groupIds)
      groupIds.length rows := by
  rw [findLongestCacheHit] at run
  split at run
  · cases run
  cases kind : spec.kind with
  | fullAttention =>
    simp only [kind] at run
    exact fullAttentionHit_sound run
  | slidingWindow w =>
    simp only [kind] at run
    exact slidingWindowHit_sound run
  | chunkedLocalAttention c =>
    simp only [kind] at run
    exact chunkedLocalHit_sound run
  | mamba mode k =>
    simp only [kind] at run
    exact mambaHit_sound run
  | crossAttention =>
    simp only [kind] at run
    cases run

/-! ### Blocks of one group -/

/-- Null blocks first, then blocks that are cached under the hash of their position. -/
def HitSound (p : BlockPool H) (blockHashes : List H) (scale groupId : Nat)
    (blocks : List BlockId) : Prop :=
  ∃ numNull, ∀ (i : Nat) (b : BlockId), blocks[i]? = some b → (i < numNull ∧ b = nullBlock) ∨
    (numNull ≤ i ∧ ∃ hash, hashAt blockHashes scale i = .ok hash ∧ b ∈ p.cached ⟨hash, groupId⟩)

theorem HitSound.nil (p : BlockPool H) (hashes : List H) (scale groupId : Nat) :
    HitSound p hashes scale groupId [] := ⟨0, nofun⟩

theorem HitSound.cached (sound : HitSound p hashes scale groupId blocks) {i : Nat}
    {b : BlockId} (found : blocks[i]? = some b) (notNull : b ≠ nullBlock) :
    ∃ hash, hashAt hashes scale i = .ok hash ∧ b ∈ p.cached ⟨hash, groupId⟩ := by
  obtain ⟨numNull, sound⟩ := sound
  rcases sound i b found with ⟨-, isNull⟩ | ⟨-, cached⟩
  · exact absurd isNull notNull
  · exact cached

theorem HitSound.take (sound : HitSound p hashes scale groupId blocks) (n : Nat) :
    HitSound p hashes scale groupId (blocks.take n) := by
  obtain ⟨numNull, sound⟩ := sound
  refine ⟨numNull, fun i b found => ?_⟩
  rw [getElem?_take] at found
  split at found
  · exact sound i b found
  · cases found

theorem exists_of_mapM {f : α → Option β} {xs : List α} {ys : List β} (run : xs.mapM f = some ys) : ∀ x ∈ xs, ∃ y, f x = some y := by
  induction xs generalizing ys with
  | nil => exact nofun
  | cons a rest ih =>
    rw [mapM_cons] at run
    obtain ⟨y, first, run⟩ := Option.bind_eq_some_iff.mp run
    obtain ⟨zs, restRun, -⟩ := Option.bind_eq_some_iff.mp run
    exact forall_mem_cons.mpr ⟨⟨y, first⟩, ih restRun⟩

theorem RowsSound.hitSound
    (sound : RowsSound (lookupBlock p hashes scale groupIds) groupIds.length rows) {j : Nat}
    (at_j : groupIds[j]? = some groupId) :
    HitSound p hashes scale groupId (rows.map (·.getD j nullBlock)) := by
  obtain ⟨numNull, sound⟩ := sound
  refine ⟨numNull, fun i b found => ?_⟩
  rw [getElem?_map] at found
  obtain ⟨row, at_i, isB⟩ := Option.map_eq_some_iff.mp found
  rcases sound i row at_i with ⟨lt, rfl⟩ | ⟨le, looked⟩
  · refine .inl ⟨lt, ?_⟩
    rw [nullRow, getD_eq_getElem?_getD, getElem?_replicate] at isB
    split at isB <;> exact isB.symm
  · obtain ⟨hash, isHash, cached⟩ := bind_eq_ok.mp looked
    refine .inr ⟨le, hash, isHash, ?_⟩
    have cached : p.getCachedBlock hash groupIds = some row := Except.ok.inj cached
    obtain ⟨first, head⟩ := exists_of_mapM cached groupId (mem_of_getElem? at_j)
    have at_row := getElem?_of_mapM cached j
    rw [at_j, Option.bind_some, head] at at_row
    rw [getD_eq_getElem?_getD, at_row] at isB
    cases isB
    exact mem_of_mem_head? head

/-! ### All groups -/

section Hybrid

variable {p : BlockPool H} {hashes : List H} {scaleOf : Nat → Nat}
  {find : SpecGroup → Nat → Bool → Except KVError (List Row)} {maxLen : Nat}

/-- The blocks found so far are sound in each group. -/
def BlocksSound (p : BlockPool H) (blockHashes : List H) (scaleOf : Nat → Nat)
    (blocks : HitBlocks) : Prop :=
  ∀ groupId hits, blocks groupId = some hits → HitSound p blockHashes (scaleOf groupId) groupId hits

theorem BlocksSound.store {blocks : HitBlocks} (sound : BlocksSound p hashes scaleOf blocks)
    (rowsSound : ∀ groupId ∈ groupIds, RowsSound
      (lookupBlock p hashes (scaleOf groupId) groupIds) groupIds.length rows) :
    BlocksSound p hashes scaleOf (blocks.store groupIds rows) := by
  intro groupId hits found
  rw [HitBlocks.store] at found
  split at found
  · rename_i j isIdx
    cases found
    obtain ⟨lt, at_j, -⟩ := findIdx?_eq_some_iff_getElem.mp isIdx
    have at_j : groupIds[j]? = some groupId := by
      rw [getElem?_eq_getElem lt]
      simpa using at_j
    exact (rowsSound groupId (mem_of_getElem? at_j)).hitSound at_j
  · exact sound groupId hits found

variable {groups : List SpecGroup}
  (findSound : ∀ g ∈ groups, ∀ maxLen drop rows, find g maxLen drop = .ok rows →
    ∀ groupId ∈ g.groupIds, RowsSound
      (lookupBlock p hashes (scaleOf groupId) g.groupIds) g.groupIds.length rows)

include findSound

variable {state : HybridState} {hitLength : Nat} {blocks : HitBlocks}

theorem visitGroup_sound {next : HybridState} {entry : SpecGroup × Nat} (mem : entry.1 ∈ groups)
    (sound : BlocksSound p hashes scaleOf state.hitBlocks)
    (run : visitGroup find maxLen state entry = .ok next) :
    BlocksSound p hashes scaleOf next.hitBlocks := by
  unfold visitGroup at run
  simp only at run
  split at run
  · cases run
    exact sound
  · obtain ⟨rows, found, run⟩ := bind_eq_ok.mp run
    cases run
    exact sound.store (findSound entry.1 mem _ _ rows found)

theorem hybridLoop_sound {simple : Bool} {fuel : Nat}
    (sound : BlocksSound p hashes scaleOf state.hitBlocks)
    (run : hybridLoop find maxLen groups simple fuel state = .ok (hitLength, blocks)) :
    BlocksSound p hashes scaleOf blocks := by
  induction fuel generalizing state with
  | zero =>
    cases run
    exact sound
  | succ fuel ih =>
    obtain ⟨next, round, run⟩ := bind_eq_ok.mp run
    have nextSound : BlocksSound p hashes scaleOf next.hitBlocks := by
      refine foldlM_keeps (fun state => BlocksSound p hashes scaleOf state.hitBlocks)
        (fun state entry mem state' inv step => visitGroup_sound findSound ?_ inv step) sound round
      exact fst_mem_of_mem_zipIdx mem
    split at run
    · cases run
      exact nextSound
    · split at run
      · cases run
        exact nextSound
      · exact ih nextSound run

theorem hybridFind_sound (run : hybridFind find maxLen groups = .ok (hitLength, blocks)) :
    BlocksSound p hashes scaleOf blocks := by
  obtain ⟨⟨length, loopBlocks⟩, loop, run⟩ := bind_eq_ok.mp run
  cases run
  have sound := hybridLoop_sound findSound (fun _ _ found => by cases found) loop
  unfold truncateFirst
  split
  · exact sound
  · split
    · intro groupId hits found
      simp only at found
      split at found
      · obtain ⟨whole, isWhole, rfl⟩ := Option.map_eq_some_iff.mp found
        exact (sound groupId whole isWhole).take _
      · exact sound groupId hits found
    · exact sound

end Hybrid

namespace KVCacheConfig

variable {cfg : KVCacheConfig}

variable {hits : List (List BlockId)} {hitLength : Nat} {m : SingleTypeKVCacheManager}

/-- The blocks that the coordinator's lookup returns are sound in each group. -/
theorem findLongestCacheHit_hitSound (valid : cfg.Valid) {maxLen : Nat}
    (run : cfg.findLongestCacheHit p hashes maxLen = .ok (hits, hitLength))
    (mem : m ∈ cfg.managers) :
    HitSound p hashes m.scale m.kvCacheGroupId (hits.getD m.kvCacheGroupId []) := by
  obtain ⟨g, i, at_i, rfl⟩ := mem_managers.mp mem
  have scale : (cfg.manager g i).scale =
      g.kvCacheSpec.blockSize * cfg.contextParallelSize / cfg.hashBlockSize := by
    rw [SingleTypeKVCacheManager.scale,
      SingleTypeKVCacheManager.blockSize_eq _ valid.contextParallel]
    rfl
  rw [scale]
  simp only [manager]
  have none : ∀ scale, HitSound p hashes scale i [] := fun scale => .nil p hashes scale i
  unfold findLongestCacheHit at run
  split at run
  · cases run
    rw [getD_eq_getElem?_getD, getElem?_map, at_i]
    exact none _
  · rename_i caching
    split at run
    · rename_i group isGroup
      obtain ⟨rows, found, run⟩ := bind_eq_ok.mp run
      cases run
      rw [isGroup] at at_i
      cases i with
      | zero =>
        cases at_i
        exact (findLongestCacheHit_sound found).hitSound rfl
      | succ i => exact none _
    · rename_i groups notOne
      have hybrid : cfg.contextParallelSize = 1 := valid.hybrid (by
        have : cfg.kvCacheGroups.length ≠ 1 := fun one => by
          obtain ⟨group, isGroup⟩ := List.length_eq_one_iff.mp one
          exact notOne group isGroup
        simpa [isHybrid, this] using caching)
      obtain ⟨⟨length, blocks⟩, found, run⟩ := bind_eq_ok.mp run
      cases run
      have split := cfg.attentionGroups_split
      have sound : BlocksSound p hashes (fun i =>
          ((cfg.kvCacheGroups.map (·.kvCacheSpec))[i]?.map
            (·.blockSize * 1 / cfg.hashBlockSize)).getD 0) blocks := by
        refine hybridFind_sound (fun g mem maxLen drop rows isHit groupId inGroup => ?_) found
        rw [split.spec_at mem inGroup]
        exact findLongestCacheHit_sound isHit
      obtain ⟨lt, -⟩ := List.getElem?_eq_some_iff.mp at_i
      rw [getD_eq_getElem?_getD, getElem?_map, getElem?_range lt, Option.map_some]
      cases at_group : blocks i with
      | none => exact none _
      | some list =>
        have := sound i list at_group
        simp only [getElem?_map, at_i] at this
        rw [hybrid]
        exact this

@[simp] theorem getD_emptyKVCacheBlocks (cfg : KVCacheConfig) (i : Nat) :
    (cfg.emptyKVCacheBlocks).getD i [] = [] := by
  rw [emptyKVCacheBlocks, getD_eq_getElem?_getD, getElem?_map]
  cases cfg.kvCacheGroups[i]? <;> rfl

theorem getComputedBlocks_hitSound (valid : cfg.Valid) {s : KVState H} {request : Request H}
    (run : cfg.getComputedBlocks s request = .ok (hits, hitLength)) (mem : m ∈ cfg.managers) :
    HitSound s.blockPool request.blockHashes m.scale m.kvCacheGroupId
      (hits.getD m.kvCacheGroupId []) := by
  unfold getComputedBlocks at run
  split at run
  · cases run
    rw [getD_emptyKVCacheBlocks]
    exact .nil _ _ _ _
  · exact findLongestCacheHit_hitSound valid run mem

end KVCacheConfig

end Vllm.KVCache
