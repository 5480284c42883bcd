import Vllm.Offload.Policies
import Vllm.Lib.Fallible

/-!
The CPU tier of offloaded blocks (`vllm/v1/kv_offload/cpu/manager.py`).

The model is of the manager as `CPUPrimaryTierOffloadingManager` makes it: with the default
`store_threshold`, so that `counts` is `None`. Events are left out.

`TransfersOk` is the invariant, relative to the transfers that are under way: pairs of a key
and a block that are read from (`readers`) or written to (`writers`).
-/

namespace Vllm.Offload

open Vllm.Lib Vllm.Lib.Fallible CachePolicy Multiset

inductive TierError where
  /-- "Block not found in cache". -/
  | notFound
  /-- "Block is not ready for reading". -/
  | notReady
  /-- "Block ref_cnt is already 0". -/
  | refCntZero
  /-- `assert len(self._free_list) >= num_reused`. -/
  | poolExhausted
  /-- "Finished job_id from tier not in _transfer_jobs". -/
  | unknownJob
  deriving DecidableEq, Repr

/-- What is left of an integer in a `c_int32`. -/
def wrapInt32 (n : Int) : Int := n.bmod (2 ^ 32)

/-- `BlockStatus(block_id)`: not ready. -/
def BlockStatus.ofId (blockId : Nat) : BlockStatus := ⟨-1, blockId⟩

/-- `block.ref_cnt += delta`. -/
def BlockStatus.addRef (delta : Int) (block : BlockStatus) : BlockStatus :=
  { block with refCnt := wrapInt32 (block.refCnt + delta) }

structure CPUOffloadingManager (K F : Type) where
  numBlocks : Nat
  numAllocatedBlocks : Nat := 0
  freeList : List Nat := []
  policy : CachePolicy K F

variable {K F : Type} [DecidableEq K]

/-- `PrepareStoreOutput` with the block ids of its store spec. -/
structure PrepareStoreOutput (K : Type) where
  keysToStore : List K
  blockIds : List Nat
  evictedKeys : List K
  deriving DecidableEq, Repr

namespace CPUOffloadingManager

variable (m : CPUOffloadingManager K F)

def new (K F : Type) [PyFloat F] (numBlocks : Nat) (cachePolicy : PolicyKind) :
    CPUOffloadingManager K F :=
  { numBlocks, policy := .new K F numBlocks cachePolicy }

def getNumFreeBlocks : Nat := m.freeList.length + m.numBlocks - m.numAllocatedBlocks

/-- `_allocate_blocks`: fresh ids first, then free ones from the end of the list. -/
def allocateBlocks (numKeys : Nat) :
    Except TierError (List BlockStatus × CPUOffloadingManager K F) :=
  let numFresh := min numKeys (m.numBlocks - m.numAllocatedBlocks)
  let numReused := numKeys - numFresh
  if m.freeList.length < numReused then .error .poolExhausted
  else
    let kept := m.freeList.length - numReused
    .ok ((List.range' m.numAllocatedBlocks numFresh ++ (m.freeList.drop kept).reverse).map
        BlockStatus.ofId,
      { m with
        numAllocatedBlocks := m.numAllocatedBlocks + numFresh
        freeList := m.freeList.take kept })

/-- `lookup`: `none` while the block is being written. -/
def lookup (key : K) : Option Bool :=
  match m.policy.get key with
  | none => some false
  | some block => if block.IsReady then some true else none

/-- `prepare_load` for one key: the block is pinned. -/
def readKey (acc : List Nat × CPUOffloadingManager K F) (key : K) :
    Except TierError (List Nat × CPUOffloadingManager K F) :=
  let (ids, m) := acc
  match m.policy.get key with
  | none => .error .notFound
  | some block =>
    if block.IsReady then
      .ok (ids ++ [block.blockId], { m with policy := m.policy.update key (·.addRef 1) })
    else .error .notReady

/-- `prepare_load`, and `prepare_read` for transfers to a secondary tier. -/
def prepareLoad (keys : List K) : Except TierError (List Nat × CPUOffloadingManager K F) :=
  keys.foldlM readKey ([], m)

def touch [PyFloat F] (keys : List K) : CPUOffloadingManager K F :=
  { m with policy := m.policy.touch keys }

/-- `complete_load` for one key. -/
def unreadKey (m : CPUOffloadingManager K F) (key : K) :
    Except TierError (CPUOffloadingManager K F) :=
  match m.policy.get key with
  | none => .error .notFound
  | some block =>
    if 0 < block.refCnt then .ok { m with policy := m.policy.update key (·.addRef (-1)) }
    else .error .refCntZero

/-- `complete_load`, and `complete_read`. -/
def completeLoad (keys : List K) : Except TierError (CPUOffloadingManager K F) :=
  keys.foldlM unreadKey m

/-- The evicted blocks go to the free list. -/
def evictBlocks [PyFloat F] (numBlocks : Nat) (protectedKeys : List K) :
    Option (List K × CPUOffloadingManager K F) :=
  if numBlocks = 0 then some ([], m)
  else (m.policy.evict numBlocks protectedKeys).map fun (evicted, policy) =>
    (evicted.map Prod.fst, { m with policy, freeList := m.freeList ++ evicted.map (·.2.blockId) })

/-- `prepare_store`, and `prepare_write` for transfers from a secondary tier. `none` if
there is no room. -/
def prepareStore [PyFloat F] (keys : List K) :
    Except TierError (Option (PrepareStoreOutput K) × CPUOffloadingManager K F) :=
  let keysToStore := keys.filter fun key => (m.policy.get key).isNone
  if keysToStore = [] then .ok (some ⟨[], [], []⟩, m)
  else
    match m.evictBlocks (keysToStore.length - m.getNumFreeBlocks) keys with
    | none => .ok (none, m)
    | some (evictedKeys, m) => do
      let (blocks, m) ← m.allocateBlocks keysToStore.length
      let policy := (keysToStore.zip blocks).foldl
        (fun policy entry => policy.insert entry.1 entry.2) m.policy
      return (some ⟨keysToStore, blocks.map (·.blockId), evictedKeys⟩, { m with policy })

/-- `complete_store` for one key, which became readable or is given up. -/
def finishKey (success : Bool) (m : CPUOffloadingManager K F) (key : K) :
    CPUOffloadingManager K F :=
  match m.policy.get key with
  | none => m
  | some block =>
    if block.IsReady then m
    else if success then { m with policy := m.policy.update key ({ · with refCnt := 0 }) }
    else { m with policy := m.policy.remove key, freeList := m.freeList ++ [block.blockId] }

/-- `complete_store`, and `complete_write`. -/
def completeStore (keys : List K) (success : Bool) : CPUOffloadingManager K F :=
  keys.foldl (finishKey success) m

/-! ### The invariant -/

def countOf (transfers : Multiset (K × Nat)) (key : K) : Nat := (transfers.map Prod.fst).count key

variable {m} {m' : CPUOffloadingManager K F} {readers writers : Multiset (K × Nat)} {key : K}
  {block : BlockStatus}

/-- The manager agrees with the transfers that are under way. A block that is read more
often than its counter can hold is no longer ready, so `refCnt` is about ready blocks. -/
structure TransfersOk (m : CPUOffloadingManager K F) (readers writers : Multiset (K × Nat)) :
    Prop where
  distinct : m.policy.Distinct
  partition : (m.freeList : Multiset Nat) + m.policy.contents.map (·.2.blockId) =
    range m.numAllocatedBlocks
  allocated_le : m.numAllocatedBlocks ≤ m.numBlocks
  refCnt : ∀ key block, (key, block) ∈ m.policy.contents → block.IsReady →
    block.refCnt = countOf readers key
  int32 : ∀ key block, (key, block) ∈ m.policy.contents → block.refCnt < 2 ^ 31
  reading : ∀ key id, (key, id) ∈ readers → ∃ block, (key, block) ∈ m.policy.contents ∧
    block.blockId = id
  writing : ∀ key id, (key, id) ∈ writers → ∃ block, (key, block) ∈ m.policy.contents ∧
    block.blockId = id ∧ ¬ block.IsReady
  writersDistinct : (writers.map Prod.fst).Nodup
  apart : ∀ key ∈ writers.map Prod.fst, key ∉ readers.map Prod.fst

theorem transfersOk_new [PyFloat F] (numBlocks : Nat) (cachePolicy : PolicyKind) :
    (new K F numBlocks cachePolicy).TransfersOk 0 0 := by
  have empty : (new K F numBlocks cachePolicy).policy.contents = 0 := by
    cases cachePolicy <;> rfl
  have none : ∀ key block, (key, block) ∉ (new K F numBlocks cachePolicy).policy.contents := by
    intro key block
    rw [empty]
    exact notMem_zero _
  constructor
  · rw [CachePolicy.Distinct, empty]
    exact nodup_zero
  · rw [empty]
    rfl
  · exact Nat.zero_le _
  · exact fun key block mem => absurd mem (none key block)
  · exact fun key block mem => absurd mem (none key block)
  · exact fun key id mem => absurd mem (notMem_zero _)
  · exact fun key id mem => absurd mem (notMem_zero _)
  · exact nodup_zero
  · exact fun key mem => absurd mem (notMem_zero _)

theorem TransfersOk.unique (ok : m.TransfersOk readers writers) {block' : BlockStatus}
    (mem : (key, block) ∈ m.policy.contents) (mem' : (key, block') ∈ m.policy.contents) :
    block = block' := by
  have same := inj_on_of_nodup_map ok.distinct _ mem _ mem' rfl
  exact (Prod.mk.inj same).2

/-- A block that is ready is not written to. -/
theorem TransfersOk.notMem_writers (ok : m.TransfersOk readers writers)
    (mem : (key, block) ∈ m.policy.contents) (ready : block.IsReady) :
    key ∉ writers.map Prod.fst := by
  intro isWriter
  obtain ⟨⟨key', id⟩, memWriter, rfl⟩ := mem_map.mp isWriter
  obtain ⟨other, memOther, -, notReady⟩ := ok.writing key' id memWriter
  rw [ok.unique memOther mem] at notReady
  exact notReady ready

/-- A counter that is still ready after a change did not overflow. -/
theorem wrapInt32_spec {n : Int} (nonneg : 0 ≤ n) (le : n ≤ 2 ^ 31) :
    wrapInt32 n < 2 ^ 31 ∧ (0 ≤ wrapInt32 n → wrapInt32 n = n) := by
  unfold wrapInt32
  rw [Int.bmod_def]
  split
  · omega
  · omega

variable {policy : CachePolicy K F} {ids : List Nat} {id : Nat} {keys : List K}
  {blocks : List BlockStatus}

theorem TransfersOk.ofFewer (ok : m.TransfersOk readers writers) {writers' : Multiset (K × Nat)}
    (fewer : writers' ≤ writers) : m.TransfersOk readers writers' :=
  { ok with
    writing key id mem := ok.writing key id (mem_of_le fewer mem)
    writersDistinct := nodup_of_le (map_le_map fewer) ok.writersDistinct
    apart key mem := ok.apart key (mem_of_le (map_le_map fewer) mem) }

/-- One block's counter is changed, and with it the transfers of its key. -/
theorem TransfersOk.replace (ok : m.TransfersOk readers writers) {rest : Multiset (K × BlockStatus)}
    (before : m.policy.contents = (key, block) ::ₘ rest) {refCnt : Int}
    (after : policy.contents = (key, { block with refCnt }) ::ₘ rest)
    {readers' : Multiset (K × Nat)} (isCount : 0 ≤ refCnt → refCnt = countOf readers' key)
    (small : refCnt < 2 ^ 31)
    (others : ∀ other, other ≠ key → countOf readers' other = countOf readers other)
    (held : ∀ entry ∈ readers', entry ∈ readers ∨ entry = (key, block.blockId))
    (notWriter : key ∉ writers.map Prod.fst) :
    ({ m with policy } : CPUOffloadingManager K F).TransfersOk readers' writers := by
  have distinct : (key ::ₘ rest.map Prod.fst).Nodup := by
    have := ok.distinct
    rwa [CachePolicy.Distinct, before, map_cons] at this
  obtain ⟨absent, -⟩ := nodup_cons.mp distinct
  -- The other blocks are as before.
  have memAfter : ∀ other block', other ≠ key →
      ((other, block') ∈ policy.contents ↔ (other, block') ∈ m.policy.contents) := by
    intro other block' ne
    rw [after, before]
    simp [ne]
  have memKey : ∀ block', (key, block') ∈ policy.contents → block' = { block with refCnt } := by
    intro block' mem
    rw [after, mem_cons] at mem
    rcases mem with same | mem
    · exact (Prod.mk.inj same).2
    · exact absurd (mem_map.mpr ⟨_, mem, rfl⟩) absent
  have self : (key, { block with refCnt }) ∈ policy.contents := by
    rw [after]
    exact mem_cons_self _ _
  constructor
  · rw [CachePolicy.Distinct, after, map_cons]
    exact distinct
  · have := ok.partition
    rw [before, map_cons] at this
    simp only [after, map_cons]
    exact this
  · exact ok.allocated_le
  · intro other block' mem ready
    rcases eq_or_ne other key with rfl | same
    · rw [memKey block' mem] at ready ⊢
      exact isCount ready
    · rw [others other same]
      exact ok.refCnt other block' ((memAfter other block' same).mp mem) ready
  · intro other block' mem
    rcases eq_or_ne other key with rfl | same
    · rw [memKey block' mem]
      exact small
    · exact ok.int32 other block' ((memAfter other block' same).mp mem)
  · intro other id mem
    rcases eq_or_ne other key with rfl | same
    · refine ⟨_, self, ?_⟩
      rcases held _ mem with old | new
      · obtain ⟨block', memOld, isId⟩ := ok.reading other id old
        have memBlock : (other, block) ∈ m.policy.contents := by simp [before]
        rw [← isId, ok.unique memOld memBlock]
      · exact (Prod.mk.inj new).2.symm
    · have old := (held _ mem).resolve_right fun new => same (Prod.mk.inj new).1
      obtain ⟨block', memOld, isId⟩ := ok.reading other id old
      exact ⟨block', (memAfter other block' same).mpr memOld, isId⟩
  · intro other id mem
    obtain ⟨block', memOld, isId, notReady⟩ := ok.writing other id mem
    have ne : other ≠ key := by
      rintro rfl
      exact notWriter (mem_map.mpr ⟨_, mem, rfl⟩)
    exact ⟨block', (memAfter other block' ne).mpr memOld, isId, notReady⟩
  · exact ok.writersDistinct
  · intro other isWriter isReader
    obtain ⟨⟨key', id⟩, memReader, rfl⟩ := mem_map.mp isReader
    rcases held _ memReader with old | new
    · exact ok.apart _ isWriter (mem_map.mpr ⟨_, old, rfl⟩)
    · rw [(Prod.mk.inj new).1] at isWriter
      exact notWriter isWriter

/-- The keys of transfers that are under way. -/
def Busy (readers writers : Multiset (K × Nat)) (key : K) : Prop :=
  key ∈ readers.map Prod.fst ∨ key ∈ writers.map Prod.fst

/-- Blocks that take part in no transfer are given up. -/
theorem TransfersOk.drop (ok : m.TransfersOk readers writers) {evicted : List (K × BlockStatus)}
    (split : m.policy.contents = evicted + policy.contents)
    (idle : ∀ entry ∈ evicted, ¬ Busy readers writers entry.1) :
    ({ m with policy, freeList := m.freeList ++ evicted.map (·.2.blockId) } :
      CPUOffloadingManager K F).TransfersOk readers writers := by
  have sub : ∀ entry ∈ policy.contents, entry ∈ m.policy.contents := by
    intro entry mem
    rw [split]
    exact mem_add.mpr (.inr mem)
  have kept : ∀ key block, Busy readers writers key → (key, block) ∈ m.policy.contents →
      (key, block) ∈ policy.contents := by
    intro key block busy mem
    rw [split, mem_add] at mem
    exact mem.resolve_left fun isEvicted => idle _ isEvicted busy
  constructor
  · have := ok.distinct
    rw [CachePolicy.Distinct, split, map_add] at this
    exact nodup_of_le (le_add_left _ _) this
  · rw [← ok.partition, split, map_add, ← coe_add, add_assoc,
      map_coe]
  · exact ok.allocated_le
  · exact fun key block mem => ok.refCnt key block (sub _ mem)
  · exact fun key block mem => ok.int32 key block (sub _ mem)
  · intro key id mem
    obtain ⟨block, memBlock, isId⟩ := ok.reading key id mem
    exact ⟨block, kept key block (.inl (mem_map.mpr ⟨_, mem, rfl⟩)) memBlock, isId⟩
  · intro key id mem
    obtain ⟨block, memBlock, isId, notReady⟩ := ok.writing key id mem
    exact ⟨block, kept key block (.inr (mem_map.mpr ⟨_, mem, rfl⟩)) memBlock, isId, notReady⟩
  · exact ok.writersDistinct
  · exact ok.apart

/-! ### Reads -/

theorem countOf_cons_self (transfers : Multiset (K × Nat)) (key : K) (id : Nat) :
    countOf ((key, id) ::ₘ transfers) key = countOf transfers key + 1 := by
  rw [countOf, map_cons, count_cons_self]
  rfl

theorem countOf_cons_of_ne (transfers : Multiset (K × Nat)) {other : K} (ne : other ≠ key)
    (id : Nat) : countOf ((key, id) ::ₘ transfers) other = countOf transfers other := by
  rw [countOf, map_cons, count_cons_of_ne ne]
  rfl

/-- A ready block is pinned. -/
theorem TransfersOk.readKey (ok : m.TransfersOk readers writers) {ids' : List Nat}
    (run : readKey (ids, m) key = .ok (ids', m')) :
    ∃ id, ids' = ids ++ [id] ∧ m'.TransfersOk ((key, id) ::ₘ readers) writers := by
  unfold CPUOffloadingManager.readKey at run
  simp only at run
  split at run
  · cases run
  · rename_i block found
    obtain ⟨ready, run⟩ := require_eq_ok.mp run
    cases run
    obtain ⟨rest, before, -, after⟩ := contents_of_get found
    have mem := mem_contents_of_get found
    have count := ok.refCnt key block mem ready
    have small := ok.int32 key block mem
    obtain ⟨bound, exactly⟩ := @wrapInt32_spec (block.refCnt + 1) (by omega) (by omega)
    refine ⟨block.blockId, rfl, ok.replace before (after _) ?_ bound ?_ ?_
      (ok.notMem_writers mem ready)⟩
    · intro nonneg
      rw [exactly nonneg, countOf_cons_self, count]
      rfl
    · exact fun other ne => countOf_cons_of_ne _ ne _
    · intro entry memEntry
      exact (mem_cons.mp memEntry).symm

/-- A read that is under way ends. -/
theorem TransfersOk.unreadKey (ok : m.TransfersOk ((key, id) ::ₘ readers) writers)
    (run : unreadKey m key = .ok m') : m'.TransfersOk readers writers := by
  unfold CPUOffloadingManager.unreadKey at run
  split at run
  · cases run
  · rename_i block found
    obtain ⟨pos, run⟩ := require_eq_ok.mp run
    cases run
    obtain ⟨rest, before, -, after⟩ := contents_of_get found
    have mem := mem_contents_of_get found
    have ready : block.IsReady := le_of_lt pos
    have count := ok.refCnt key block mem ready
    rw [countOf_cons_self] at count
    have small := ok.int32 key block mem
    obtain ⟨bound, exactly⟩ := @wrapInt32_spec (block.refCnt + -1) (by omega) (by omega)
    refine ok.replace before (after _) ?_ bound ?_ ?_ (ok.notMem_writers mem ready)
    · omega
    · exact fun other ne => (countOf_cons_of_ne _ ne _).symm
    · exact fun entry memEntry => .inl (mem_cons_of_mem memEntry)

theorem TransfersOk.readKeys {first : List Nat} (ok : m.TransfersOk readers writers)
    (run : keys.foldlM CPUOffloadingManager.readKey (first, m) = .ok (ids, m')) :
    ∃ new, ids = first ++ new ∧ new.length = keys.length ∧
      m'.TransfersOk (keys.zip new + readers) writers := by
  induction keys generalizing m readers first with
  | nil =>
    cases run
    exact ⟨[], by simp, rfl, by simpa using ok⟩
  | cons key rest ih =>
    obtain ⟨⟨ids₁, m₁⟩, step, run⟩ := bind_eq_ok.mp run
    obtain ⟨id, rfl, ok₁⟩ := ok.readKey step
    obtain ⟨new, rfl, length, ok'⟩ := ih ok₁ run
    refine ⟨id :: new, by simp, by simp [length], ?_⟩
    rw [List.zip_cons_cons, ← cons_coe, cons_add, ← add_cons]
    exact ok'

theorem TransfersOk.prepareLoad (ok : m.TransfersOk readers writers)
    (run : m.prepareLoad keys = .ok (ids, m')) :
    ids.length = keys.length ∧ m'.TransfersOk (keys.zip ids + readers) writers := by
  obtain ⟨new, rfl, length, ok'⟩ := ok.readKeys run
  exact ⟨length, ok'⟩

theorem TransfersOk.completeLoad (length : ids.length = keys.length)
    (ok : m.TransfersOk (keys.zip ids + readers) writers) (run : m.completeLoad keys = .ok m') :
    m'.TransfersOk readers writers := by
  induction keys generalizing m ids with
  | nil =>
    cases run
    simpa using ok
  | cons key rest ih =>
    obtain ⟨id, ids, rfl⟩ := List.exists_cons_of_length_eq_add_one length
    rw [List.zip_cons_cons, ← cons_coe, cons_add] at ok
    obtain ⟨m₁, step, run⟩ := bind_eq_ok.mp run
    exact ih (Nat.succ.inj length) (ok.unreadKey step) run

/-! ### Writes -/

/-- A write that is under way ends. -/
theorem TransfersOk.finishKey (ok : m.TransfersOk readers ((key, id) ::ₘ writers))
    (success : Bool) : (finishKey success m key).TransfersOk readers writers := by
  have isWriter : key ∈ ((key, id) ::ₘ writers).map Prod.fst := by simp
  have notReader := ok.apart key isWriter
  obtain ⟨notWriter, -⟩ : key ∉ writers.map Prod.fst ∧ _ := by
    have := ok.writersDistinct
    rwa [map_cons, nodup_cons] at this
  obtain ⟨block, mem, isId, notReady⟩ := ok.writing key id (mem_cons_self _ _)
  have found := (get_eq_some_iff ok.distinct).mpr mem
  obtain ⟨rest, before, removed, after⟩ := contents_of_get found
  have ok := ok.ofFewer (le_cons_self writers _)
  unfold CPUOffloadingManager.finishKey
  simp only [found]
  rw [if_neg notReady]
  cases success with
  | true =>
    refine ok.replace before (after _) ?_ (by decide) (fun _ _ => rfl) (fun _ => .inl) notWriter
    intro _
    rw [countOf, count_eq_zero_of_notMem notReader]
    rfl
  | false =>
    -- The block is given up: it was not read, and is free now.
    have split : m.policy.contents = [(key, block)] + (m.policy.remove key).contents := by
      rw [before, removed]
      rfl
    refine ok.drop split fun entry mem => ?_
    obtain rfl := List.mem_singleton.mp mem
    exact not_or.mpr ⟨notReader, notWriter⟩

theorem TransfersOk.completeStore (length : ids.length = keys.length)
    (ok : m.TransfersOk readers (keys.zip ids + writers)) (success : Bool) :
    (m.completeStore keys success).TransfersOk readers writers := by
  unfold CPUOffloadingManager.completeStore
  induction keys generalizing m ids with
  | nil => simpa using ok
  | cons key rest ih =>
    obtain ⟨id, ids, rfl⟩ := List.exists_cons_of_length_eq_add_one length
    rw [List.zip_cons_cons, ← cons_coe, cons_add] at ok
    exact ih (Nat.succ.inj length) (ok.finishKey success)

section

variable (ok : m.TransfersOk readers writers)
include ok

/-- A block whose counter is zero takes part in no transfer. -/
theorem TransfersOk.not_busy (mem : (key, block) ∈ m.policy.contents) (zero : block.refCnt = 0) :
    ¬ Busy readers writers key := by
  have ready : block.IsReady := le_of_eq zero.symm
  rintro (isReader | isWriter)
  · have count := ok.refCnt key block mem ready
    have := count_pos.mpr isReader
    rw [countOf] at count
    omega
  · exact ok.notMem_writers mem ready isWriter

theorem TransfersOk.evictBlocks [PyFloat F] {numBlocks : Nat} {protectedKeys evictedKeys : List K}
    (run : m.evictBlocks numBlocks protectedKeys = some (evictedKeys, m')) :
    m'.TransfersOk readers writers ∧ (∀ key ∈ evictedKeys, ¬ Busy readers writers key) ∧
      m'.policy.contents ≤ m.policy.contents := by
  unfold CPUOffloadingManager.evictBlocks at run
  split at run
  · cases run
    exact ⟨ok, nofun, le_refl _⟩
  · obtain ⟨⟨evicted, policy⟩, found, same⟩ := Option.map_eq_some_iff.mp run
    cases same
    obtain ⟨split, -, idle, -⟩ := contents_evict found
    have notBusy : ∀ entry ∈ evicted, ¬ Busy readers writers entry.1 := by
      intro entry mem
      have held : (entry.1, entry.2) ∈ m.policy.contents := by
        rw [split]
        exact mem_add.mpr (.inl mem)
      exact ok.not_busy held (idle entry mem).1
    refine ⟨ok.drop split notBusy, ?_, ?_⟩
    · intro key mem
      obtain ⟨entry, memEntry, rfl⟩ := List.mem_map.mp mem
      exact notBusy entry memEntry
    · rw [split]
      exact le_add_left _ _

end

omit [DecidableEq K] in
/-- Fresh and free ids, none of which is held. -/
theorem allocateBlocks_spec {numKeys : Nat} (run : m.allocateBlocks numKeys = .ok (blocks, m')) :
    m'.policy = m.policy ∧ blocks.length = numKeys ∧ (∀ block ∈ blocks, block.refCnt = -1) ∧
      (m.numAllocatedBlocks ≤ m.numBlocks → m'.numAllocatedBlocks ≤ m'.numBlocks) ∧
      ∀ held : Multiset Nat, (m.freeList : Multiset Nat) + held = range m.numAllocatedBlocks →
        (m'.freeList : Multiset Nat) + (blocks.map (·.blockId) + held) =
          range m'.numAllocatedBlocks := by
  unfold allocateBlocks at run
  simp only at run
  split at run
  · cases run
  · cases run
    refine ⟨rfl, ?_, ?_, ?_, ?_⟩
    · rw [List.length_map, List.length_append, List.length_range', List.length_reverse,
        List.length_drop]
      omega
    · intro block mem
      obtain ⟨id, -, rfl⟩ := List.mem_map.mp mem
      rfl
    · simp only
      omega
    · intro held partition
      set numFresh := min numKeys (m.numBlocks - m.numAllocatedBlocks)
      set kept := m.freeList.length - (numKeys - numFresh)
      have ids : ((List.range' m.numAllocatedBlocks numFresh ++ (m.freeList.drop kept).reverse).map
          BlockStatus.ofId).map (·.blockId) =
          List.range' m.numAllocatedBlocks numFresh ++ (m.freeList.drop kept).reverse := by
        rw [List.map_map]
        exact List.map_id _
      have free : (m.freeList : Multiset Nat) = m.freeList.take kept + m.freeList.drop kept := by
        rw [coe_add, List.take_append_drop]
      have fresh : (List.range' m.numAllocatedBlocks numFresh : Multiset Nat) =
          (range numFresh).map (m.numAllocatedBlocks + ·) := by
        rw [List.range'_eq_map_range]
        rfl
      simp only [ids]
      rw [range_add, ← partition, free, ← fresh, ← coe_add, coe_reverse,
        add_assoc (List.range' _ _ : Multiset Nat), add_comm (List.range' _ _ : Multiset Nat),
        ← add_assoc, ← add_assoc]

theorem contents_insertAll {entries : List (K × BlockStatus)}
    (distinct : (entries.map Prod.fst).Nodup) (new : ∀ entry ∈ entries, policy.get entry.1 = none) :
    (entries.foldl (fun policy entry => policy.insert entry.1 entry.2) policy).contents =
      entries + policy.contents := by
  induction entries generalizing policy with
  | nil => exact (zero_add _).symm
  | cons entry rest ih =>
    obtain ⟨notMem, distinct⟩ := List.nodup_cons.mp distinct
    have inserted : (policy.insert entry.1 entry.2).contents = entry ::ₘ policy.contents :=
      contents_insert (new entry (by simp))
    rw [List.foldl_cons, ih distinct, inserted, add_cons, ← cons_add]
    · rfl
    · intro other mem
      have ne : other.1 ≠ entry.1 := fun same => notMem (same ▸ List.mem_map_of_mem mem)
      cases found : (policy.insert entry.1 entry.2).get other.1 with
      | none => rfl
      | some block =>
        have memOther := mem_contents_of_get found
        rw [inserted, mem_cons] at memOther
        have memOld := memOther.resolve_left fun same => ne (by rw [← same])
        exact absurd memOld (get_eq_none (new other (by simp [mem])))

section

variable (ok : m.TransfersOk readers writers)
include ok

/-- Blocks that are written to for the first time. -/
theorem TransfersOk.addWriters (keysDistinct : keys.Nodup)
    (new : ∀ key ∈ keys, ∀ block, (key, block) ∉ m.policy.contents)
    (length : blocks.length = keys.length) (notReady : ∀ block ∈ blocks, block.refCnt = -1)
    (contents : m'.policy.contents = keys.zip blocks + m.policy.contents)
    (allocated : m'.numAllocatedBlocks ≤ m'.numBlocks)
    (partition : (m'.freeList : Multiset Nat) +
      (blocks.map (·.blockId) + m.policy.contents.map (·.2.blockId)) =
        range m'.numAllocatedBlocks) :
    m'.TransfersOk readers (keys.zip (blocks.map (·.blockId)) + writers) := by
  have lengthIds : (blocks.map (·.blockId)).length = keys.length := by
    rw [List.length_map, length]
  have mem_iff : ∀ key block, (key, block) ∈ m'.policy.contents ↔
      (key, block) ∈ keys.zip blocks ∨ (key, block) ∈ m.policy.contents := by
    intro key block
    rw [contents, mem_add]
    rfl
  have newBlock : ∀ key block, (key, block) ∈ keys.zip blocks → block.refCnt = -1 := by
    intro key block mem
    exact notReady block (List.of_mem_zip mem).2
  constructor
  · rw [CachePolicy.Distinct, contents, map_add, map_coe,
      List.map_fst_zip (le_of_eq length.symm)]
    refine (Multiset.Nodup.add_iff (coe_nodup.mpr keysDistinct) ok.distinct).mpr ?_
    refine disjoint_left.mpr fun {key} mem isOld => ?_
    obtain ⟨⟨key', block⟩, memOld, rfl⟩ := mem_map.mp isOld
    exact new key' mem block memOld
  · have ids : (keys.zip blocks).map (·.2.blockId) = blocks.map (·.blockId) := by
      have := congrArg (List.map (·.blockId)) (List.map_snd_zip (le_of_eq length))
      rwa [List.map_map] at this
    rw [contents, map_add, map_coe, ids]
    exact partition
  · exact allocated
  · intro key block mem ready
    rcases (mem_iff key block).mp mem with isNew | isOld
    · have := newBlock key block isNew
      rw [BlockStatus.IsReady, this] at ready
      cases ready
    · exact ok.refCnt key block isOld ready
  · intro key block mem
    rcases (mem_iff key block).mp mem with isNew | isOld
    · rw [newBlock key block isNew]
      decide
    · exact ok.int32 key block isOld
  · intro key id mem
    obtain ⟨block, memBlock, isId⟩ := ok.reading key id mem
    exact ⟨block, (mem_iff key block).mpr (.inr memBlock), isId⟩
  · intro key id mem
    rcases mem_add.mp mem with isNew | isOld
    · rw [List.zip_map_right] at isNew
      obtain ⟨⟨key', block⟩, memBlock, same⟩ := List.mem_map.mp isNew
      cases same
      refine ⟨block, (mem_iff key' block).mpr (.inl memBlock), rfl, ?_⟩
      rw [BlockStatus.IsReady, newBlock key' block memBlock]
      decide
    · obtain ⟨block, memBlock, isId, isNotReady⟩ := ok.writing key id isOld
      exact ⟨block, (mem_iff key block).mpr (.inr memBlock), isId, isNotReady⟩
  · rw [map_add, map_coe, List.map_fst_zip (le_of_eq lengthIds.symm)]
    refine (Multiset.Nodup.add_iff (coe_nodup.mpr keysDistinct) ok.writersDistinct).mpr ?_
    refine disjoint_left.mpr fun {key} mem isOld => ?_
    obtain ⟨⟨key', id⟩, memOld, rfl⟩ := mem_map.mp isOld
    obtain ⟨block, memBlock, -⟩ := ok.writing key' id memOld
    exact new key' mem block memBlock
  · intro key isWriter isReader
    rw [map_add, map_coe, List.map_fst_zip (le_of_eq lengthIds.symm),
      mem_add] at isWriter
    rcases isWriter with isNew | isOld
    · obtain ⟨⟨key', id⟩, memReader, rfl⟩ := mem_map.mp isReader
      obtain ⟨block, memBlock, -⟩ := ok.reading key' id memReader
      exact new key' isNew block memBlock
    · exact ok.apart key isOld isReader

/-- `prepare_store` starts a write of each new key. What it evicts for that takes part in
no transfer. -/
theorem TransfersOk.prepareStore [PyFloat F] (distinct : keys.Nodup)
    {out : Option (PrepareStoreOutput K)} (run : m.prepareStore keys = .ok (out, m')) :
    (out = none → m' = m) ∧ ∀ stored, out = some stored →
      stored.keysToStore.Sublist keys ∧ stored.blockIds.length = stored.keysToStore.length ∧
      (∀ key ∈ stored.evictedKeys, ¬ Busy readers writers key) ∧
      m'.TransfersOk readers (stored.keysToStore.zip stored.blockIds + writers) := by
  unfold CPUOffloadingManager.prepareStore at run
  simp only at run
  split at run
  · cases run
    refine ⟨(by cases ·), fun stored isStored => ?_⟩
    cases isStored
    exact ⟨List.nil_sublist _, rfl, List.forall_mem_nil _, by simpa using ok⟩
  · split at run
    · cases run
      exact ⟨fun _ => rfl, fun _ isSome => by cases isSome⟩
    · rename_i evictedKeys m₁ evicted
      obtain ⟨⟨blocks, m₂⟩, allocated, run⟩ := bind_eq_ok.mp run
      cases run
      refine ⟨(by cases ·), fun stored isStored => ?_⟩
      cases isStored
      obtain ⟨ok₁, notBusy, fewer⟩ := ok.evictBlocks evicted
      obtain ⟨samePolicy, length, notReady, le, partition⟩ := allocateBlocks_spec allocated
      have part : (keys.filter fun key => (m.policy.get key).isNone).Sublist keys :=
        List.filter_sublist
      have new : ∀ key ∈ keys.filter (fun key => (m.policy.get key).isNone), ∀ block,
          (key, block) ∉ m₁.policy.contents := by
        intro key mem block memBlock
        have absent := Option.isNone_iff_eq_none.mp (List.mem_filter.mp mem).2
        exact get_eq_none absent (mem_of_le fewer memBlock)
      refine ⟨part, by rw [List.length_map, length], notBusy, ?_⟩
      refine ok₁.addWriters (distinct.sublist part) new length notReady ?_ (le ok₁.allocated_le)
        (partition _ ok₁.partition)
      rw [← samePolicy]
      apply contents_insertAll
      · rw [List.map_fst_zip (le_of_eq length.symm)]
        exact distinct.sublist part
      · intro entry mem
        cases found : m₂.policy.get entry.1 with
        | none => rfl
        | some block =>
          have memBlock := mem_contents_of_get found
          rw [samePolicy] at memBlock
          exact absurd memBlock (new entry.1 (List.of_mem_zip mem).1 block)

/-- The free blocks and the stored ones are all blocks. -/
theorem TransfersOk.numFree_add_card :
    m.getNumFreeBlocks + m.policy.contents.card = m.numBlocks := by
  have all := congrArg Multiset.card ok.partition
  rw [card_add, coe_card, card_map, card_range] at all
  have := ok.allocated_le
  unfold getNumFreeBlocks
  omega

/-- `prepare_store` evicts as many blocks as it lacks. -/
theorem TransfersOk.prepareStore_ok [PyFloat F] (keys : List K) :
    ∃ result, m.prepareStore keys = .ok result := by
  have := ok.allocated_le
  unfold CPUOffloadingManager.prepareStore
  dsimp only
  split
  · exact ⟨_, rfl⟩
  · split
    · exact ⟨_, rfl⟩
    · rename_i evicted
      -- so that `_allocate_blocks` finds enough
      rw [allocateBlocks, if_neg]
      · exact ⟨_, rfl⟩
      · unfold getNumFreeBlocks CPUOffloadingManager.evictBlocks at evicted
        split at evicted
        · cases evicted
          omega
        · obtain ⟨⟨blocks, policy⟩, run, same⟩ := Option.map_eq_some_iff.mp evicted
          cases same
          have length := (contents_evict run).2.1
          simp only [List.length_append, List.length_map, length]
          omega

theorem TransfersOk.touch [PyFloat F] (keys : List K) :
    (m.touch keys).TransfersOk readers writers := by
  have split : m.policy.contents = ([] : List (K × BlockStatus)) +
      (m.policy.touch keys).contents := by
    rw [contents_touch ok.distinct]
    exact (zero_add _).symm
  have kept := ok.drop split nofun
  rwa [List.map_nil, List.append_nil] at kept

end

end CPUOffloadingManager

end Vllm.Offload
