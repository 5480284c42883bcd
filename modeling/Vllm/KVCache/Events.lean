import Vllm.Lib.MultisetLog
import Vllm.KVCache.TableHashes
import Vllm.Hashing.Incremental

/-!
KV cache events (`vllm/v1/core/block_pool.py`, `vllm/distributed/kv_events.py`).

With `enable_kv_cache_events` the pool reports every change of its hash map. A
consumer that replays the events over an empty multiset has the hashes of the map
(`mirrors_of_run`). A `BlockStored` event also carries the extra keys of its blocks,
which `cache_full_blocks` computes again; `eventsFaithful_of_run` says when they are
the ones that were hashed.

Events are kept here with the block hashes themselves. `maybe_convert_block_hash`,
which may turn them into 64-bit integers, is a renaming of the items.
-/

namespace Vllm.KVCache

open Vllm.Lib Vllm.Lib.Fallible Vllm.Lib.Steps Vllm.Lib.MultisetLog Vllm.Hashing List
open SingleTypeKVCacheManager

variable {H : Type}

/-! ### Events -/

structure BlockStored (H : Type) where
  blockHashes : List (List H)
  parentBlockHash : Option (List H)
  tokenIds : List TokenId
  blockSize : Nat
  loraId : Option Nat
  loraName : Option String
  extraKeys : Option (List (Option (List ExtraKey)))
  groupIdx : Nat

inductive KVCacheEvent (H : Type) where
  | blockStored (stored : BlockStored H)
  | blockRemoved (blockHashes : List (List H)) (groupIdx : Nat)
  | allBlocksCleared

/-- What a consumer does with an event. -/
def KVCacheEvent.op : KVCacheEvent H → Op (List H × Nat)
  | .blockStored stored => .store (stored.blockHashes.map (·, stored.groupIdx))
  | .blockRemoved blockHashes groupIdx => .remove (blockHashes.map (·, groupIdx))
  | .allBlocksCleared => .clear

/-- A pool with `kv_event_queue`. -/
structure EventPool (H : Type) where
  pool : BlockPool H
  kvEventQueue : List (KVCacheEvent H)

open EventPool

namespace EventPool

def init (H : Type) (numGpuBlocks : Nat) : EventPool H := ⟨.init H numGpuBlocks, []⟩

section Evict

variable [DecidableEq H] (st : EventPool H)

/-- `_maybe_evict_cached_block` with its event. -/
def maybeEvictCachedBlock (block : BlockId) : EventPool H :=
  match st.pool.blockHash block with
  | none => st
  | some key =>
    if block ∈ st.pool.cached key then
      ⟨st.pool.maybeEvictCachedBlock block,
        st.kvEventQueue ++ [.blockRemoved [key.blockHash] key.groupId]⟩
    else st

/-- One block of the loop of `get_new_blocks`. -/
def takeBlock (enableCaching : Bool) (st : EventPool H) (block : BlockId) :
    Except KVError (EventPool H) :=
  let st := if enableCaching then st.maybeEvictCachedBlock block else st
  if st.pool.refCnt block = 0 then
    .ok { st with pool := { st.pool with
      refCnt := Function.update st.pool.refCnt block (st.pool.refCnt block + 1) } }
  else .error (.blockInUse block)

def getNewBlocks (enableCaching : Bool) (numBlocks : Int) :
    Except KVError (List BlockId × EventPool H) :=
  if st.pool.getNumFreeBlocks < numBlocks then .error (.cannotGetFreeBlocks numBlocks)
  else do
    let (ret, queue) ← st.pool.freeBlockQueue.popleftN numBlocks
    let st ← ret.foldlM (takeBlock enableCaching)
      { st with pool := { st.pool with freeBlockQueue := queue } }
    return (ret, st)

def evictBlocks (numGpuBlocks : Nat) (blockIds : List BlockId) : Except KVError (EventPool H) :=
  blockIds.foldlM
    (fun st block => if block < numGpuBlocks then .ok (st.maybeEvictCachedBlock block)
      else .error (.invalidBlockId block))
    st

def resetPrefixCache (numGpuBlocks : Nat) : EventPool H :=
  let result := st.pool.resetPrefixCache numGpuBlocks
  if result.1 then ⟨result.2, st.kvEventQueue ++ [.allBlocksCleared]⟩ else st

end Evict

section Store

variable (m : SingleTypeKVCacheManager) (request : Request H) (blocks : List BlockId)
  (numCachedBlocks numFullBlocks : Nat) (blockMask : Option (List Bool))

/-- The blocks between the two counts with their positions and mask bits. -/
def newFullBlocks : List ((BlockId × Nat) × Bool) :=
  let newFullBlocks := (blocks.zipIdx.take numFullBlocks).drop numCachedBlocks
  newFullBlocks.zip (blockMask.getD (replicate newFullBlocks.length true))

/-- `blk.is_null or (block_mask is not None and not block_mask[i])`. -/
def isSkipped (entry : (BlockId × Nat) × Bool) : Bool :=
  entry.1.1 = nullBlock || entry.2 = false

def newHashes (entries : List ((BlockId × Nat) × Bool)) : Except KVError (List (List H)) :=
  (entries.filter (!isSkipped ·)).mapM fun entry => m.fullBlockHash request.blockHashes entry.1.2

/-- The second loop of `cache_full_blocks`, which carries `curr_mm_idx` along. -/
def extraKeysLoop (blockSize : Nat) : List ((BlockId × Nat) × Bool) → Int →
    List (Option (List ExtraKey))
  | [], _ => []
  | entry :: rest, currMmIdx =>
    if isSkipped entry then extraKeysLoop blockSize rest currMmIdx
    else
      let blockStart := entry.1.2 * blockSize
      let (extraKeys, currMmIdx) :=
        generateBlockHashExtraKeys request blockStart (blockStart + blockSize) currMmIdx
      extraKeys :: extraKeysLoop blockSize rest currMmIdx

def parentBlockHash : Except KVError (Option (List H)) :=
  if numCachedBlocks = 0 then .ok none
  else do
    let parent ← hashAt request.blockHashes m.scale (numCachedBlocks - 1)
    return some parent

variable [DecidableEq H]

def cacheFullBlocks (st : EventPool H) : Except KVError (EventPool H) :=
  if numFullBlocks ≤ numCachedBlocks then .ok st
  else if m.blockSize % m.hashBlockSize ≠ 0 then .error .unalignedBlockSize
  else do
    let pool ← m.cacheFullBlocks st.pool request.blockHashes blocks numCachedBlocks numFullBlocks
      blockMask
    let entries := newFullBlocks blocks numCachedBlocks numFullBlocks blockMask
    let hashes ← newHashes m request entries
    let parent ← parentBlockHash m request numCachedBlocks
    -- The second loop indexes the table up to the last full block.
    if blocks.length < numFullBlocks then .error .indexError
    else
      let extraKeysList := extraKeysLoop request m.blockSize entries 0
      return ⟨pool, st.kvEventQueue ++ [.blockStored {
        blockHashes := hashes
        parentBlockHash := parent
        tokenIds := (request.allTokenIds.take (numFullBlocks * m.blockSize)).drop
          (numCachedBlocks * m.blockSize)
        blockSize := m.blockSize
        loraId := request.loraRequest.map (·.loraIntId)
        loraName := request.loraRequest.map (·.loraName)
        extraKeys := if extraKeysList = [] then none else some extraKeysList
        groupIdx := m.kvCacheGroupId }]⟩

end Store

end EventPool

/-! ### The mirror -/

/-- A replay of the events never removes a pair that is not there, and ends with one
pair for each block of the hash map. -/
def Mirrors [DecidableEq H] (st : EventPool H) : Prop :=
  ∃ contents, replay (st.kvEventQueue.map KVCacheEvent.op) = some contents ∧
    ∀ key, contents.count (key.blockHash, key.groupId) = (st.pool.cached key).length

/-- The same for hashes that `convert` has renamed, where two may have got one name. -/
def MirrorsAs [DecidableEq H] {E : Type} [DecidableEq E] (convert : List H → E) (st : EventPool H) :
    Prop :=
  ∃ contents : Multiset (List H × Nat),
    replay (st.kvEventQueue.map fun event => event.op.map (Prod.map convert id)) =
      some (contents.map (Prod.map convert id)) ∧
    ∀ key, contents.count (key.blockHash, key.groupId) = (st.pool.cached key).length

section Mirror

variable [DecidableEq H] {N : Nat} {st st' : EventPool H}

theorem Mirrors.convert (mirrors : Mirrors st) {E : Type} [DecidableEq E] (convert : List H → E) :
    MirrorsAs convert st := by
  obtain ⟨contents, replayed, counts⟩ := mirrors
  refine ⟨contents, ?_, counts⟩
  rw [← replay_map (Prod.map convert id) replayed, map_map]
  rfl

/-- The hash map is consistent and mirrored. -/
structure Mirrored (numGpuBlocks : Nat) (st : EventPool H) : Prop where
  cacheOk : CacheOk numGpuBlocks st.pool
  mirrors : Mirrors st

theorem Mirrored.init (H : Type) [DecidableEq H] (numGpuBlocks : Nat) :
    Mirrored numGpuBlocks (EventPool.init H numGpuBlocks) where
  cacheOk := by
    refine ⟨?_, ?_, ?_⟩ <;> simp [EventPool.init, BlockPool.init]
  mirrors := ⟨0, rfl, fun _ => rfl⟩

/-- Counts and queue do not show in the events. -/
theorem Mirrored.of_pool (mirrored : Mirrored N st) {pool : BlockPool H}
    (hash : pool.blockHash = st.pool.blockHash) (cached : pool.cached = st.pool.cached) :
    Mirrored N { st with pool := pool } := by
  constructor
  · constructor
    · rw [hash, cached]
      exact mirrored.cacheOk.mem_cached
    · rw [cached]
      exact mirrored.cacheOk.cached_nodup
    · rw [hash]
      exact mirrored.cacheOk.hash_inRange
  · obtain ⟨contents, replayed, counts⟩ := mirrored.mirrors
    exact ⟨contents, replayed, by rw [cached]; exact counts⟩

namespace EventPool

@[simp] theorem maybeEvictCachedBlock_pool (st : EventPool H) (block : BlockId) :
    (st.maybeEvictCachedBlock block).pool = st.pool.maybeEvictCachedBlock block := by
  unfold maybeEvictCachedBlock BlockPool.maybeEvictCachedBlock
  cases st.pool.blockHash block with
  | none => rfl
  | some key =>
    simp only
    split <;> rfl

end EventPool

section

variable (mirrored : Mirrored N st)
include mirrored

theorem Mirrored.maybeEvictCachedBlock (block : BlockId) :
    Mirrored N (st.maybeEvictCachedBlock block) := by
  constructor
  · rw [maybeEvictCachedBlock_pool]
    exact (mirrored.cacheOk.maybeEvictCachedBlock block).1
  unfold EventPool.maybeEvictCachedBlock
  split
  · exact mirrored.mirrors
  rename_i key hash
  split
  case isFalse => exact mirrored.mirrors
  case isTrue mem =>
    obtain ⟨contents, replayed, counts⟩ := mirrored.mirrors
    have there : (key.blockHash, key.groupId) ∈ contents := by
      rw [← Multiset.count_pos, counts]
      exact length_pos_of_mem mem
    refine ⟨contents.erase (key.blockHash, key.groupId), ?_, fun key' => ?_⟩
    · rw [map_append, map_singleton, replay_concat replayed]
      exact if_pos there
    · simp only [BlockPool.maybeEvictCachedBlock, hash, if_pos mem, Function.update_apply]
      split
      · rename_i same
        rw [same, Multiset.count_erase_self, counts, length_erase_of_mem mem]
      · rw [Multiset.count_erase_of_ne, counts]
        cases key
        cases key'
        simp_all

theorem Mirrored.resetPrefixCache : Mirrored N (st.resetPrefixCache N) := by
  unfold EventPool.resetPrefixCache
  simp only
  split
  · rename_i succeeded
    unfold BlockPool.resetPrefixCache at succeeded ⊢
    split at succeeded
    · cases succeeded
    · rename_i unused
      rw [if_neg unused]
      obtain ⟨contents, replayed, -⟩ := mirrored.mirrors
      refine ⟨⟨?_, ?_, ?_⟩, 0, ?_, fun _ => rfl⟩
      · simp
      · simp
      · simp
      · rw [map_append, map_singleton, replay_concat replayed]
        rfl
  · exact mirrored

end

/-! ### Storing -/

/-- The pairs of the new hashes are those that the loop adds to the map. -/
theorem length_cached_of_cacheBlocks {m : SingleTypeKVCacheManager} {request : Request H}
    {entries : List ((BlockId × Nat) × Bool)} {p p' : BlockPool H} {hashes : List (List H)}
    (ok : CacheOk N p) (inRange : ∀ entry ∈ entries, entry.1.1 < N)
    (cached : entries.foldlM (m.cacheBlock request.blockHashes) p = .ok p')
    (listed : newHashes m request entries = .ok hashes) :
    CacheOk N p' ∧ ∀ key, (p'.cached key).length = (p.cached key).length +
      Multiset.count (key.blockHash, key.groupId) (hashes.map (·, m.kvCacheGroupId) : List _) := by
  induction entries generalizing p hashes with
  | nil =>
    cases cached
    cases listed
    exact ⟨ok, fun _ => rfl⟩
  | cons entry rest ih =>
    obtain ⟨⟨block, i⟩, reachable⟩ := entry
    obtain ⟨p₁, first, cached⟩ := bind_eq_ok.mp cached
    have inRest : ∀ entry ∈ rest, entry.1.1 < N := fun entry mem => inRange entry (by simp [mem])
    simp only [cacheBlock] at first
    split at first
    · rename_i skip
      cases first
      have skipped : isSkipped ((block, i), reachable) = true := by
        simpa [isSkipped] using skip
      rw [newHashes, filter_cons_of_neg (by simp [skipped])] at listed
      exact ih ok inRest cached listed
    · rename_i kept
      have notSkipped : isSkipped ((block, i), reachable) = false := by
        simpa [isSkipped] using kept
      obtain ⟨unhashed, first⟩ := guard_eq_ok.mp first
      rw [Option.not_isSome_iff_eq_none] at unhashed
      obtain ⟨hash, isHash, first⟩ := bind_eq_ok.mp first
      cases first
      rw [newHashes, filter_cons_of_pos (by simp [notSkipped]), mapM_cons]
        at listed
      obtain ⟨hash', isHash', listed⟩ := bind_eq_ok.mp listed
      obtain ⟨others, restListed, done⟩ := bind_eq_ok.mp listed
      cases done
      rw [isHash, Except.ok.injEq] at isHash'
      subst isHash'
      have fresh : block ∉ p.cached ⟨hash, m.kvCacheGroupId⟩ := by
        rw [ok.mem_cached, unhashed]
        intro none
        cases none
      have notNull : block ≠ nullBlock := fun null => kept (.inl null)
      obtain ⟨ok', lengths⟩ := ih
        (ok.insertCached _ unhashed ⟨notNull, inRange ((block, i), reachable) (by simp)⟩) inRest
        cached restListed
      refine ⟨ok', fun key => ?_⟩
      rw [lengths, BlockPool.insertCached, map_cons, ← Multiset.cons_coe, Multiset.count_cons]
      simp only [Function.update_apply]
      split
      · rename_i same
        subst same
        rw [if_pos rfl, length_append, length_singleton]
        omega
      · cases key
        simp_all

namespace EventPool

variable {m : SingleTypeKVCacheManager} {req : Request H} {blocks : List BlockId}
  {done full : Nat} {blockMask : Option (List Bool)}

theorem cacheFullBlocks_cases
    (run : cacheFullBlocks m req blocks done full blockMask st = .ok st') :
    st' = st ∨ ∃ pool stored, m.hashBlockSize ∣ m.blockSize ∧
      (newFullBlocks blocks done full blockMask).foldlM
        (m.cacheBlock req.blockHashes) st.pool = .ok pool ∧
      newHashes m req (newFullBlocks blocks done full blockMask) =
        .ok stored.blockHashes ∧
      stored.groupIdx = m.kvCacheGroupId ∧
      (∀ keys, stored.extraKeys = some keys → keys = extraKeysLoop req m.blockSize
        (newFullBlocks blocks done full blockMask) 0) ∧
      st' = ⟨pool, st.kvEventQueue ++ [.blockStored stored]⟩ := by
  unfold cacheFullBlocks at run
  split at run
  · cases run
    exact .inl rfl
  split at run
  · cases run
  rename_i aligned
  obtain ⟨pool, cached, run⟩ := bind_eq_ok.mp run
  obtain ⟨hashes, listed, run⟩ := bind_eq_ok.mp run
  obtain ⟨parent, -, run⟩ := bind_eq_ok.mp run
  split at run
  · cases run
  cases run
  obtain ⟨-, cached⟩ := guard_eq_ok.mp cached
  split at cached
  · cases cached
  refine .inr ⟨pool, _, Nat.dvd_of_mod_eq_zero (Decidable.not_not.mp aligned), cached, listed, rfl,
    fun keys present => ?_, rfl⟩
  split at present
  · cases present
  · exact (Option.some.inj present).symm

theorem mem_newFullBlocks {entry : (BlockId × Nat) × Bool}
    (mem : entry ∈ newFullBlocks blocks done full blockMask) :
    blocks[entry.1.2]? = some entry.1.1 := by
  have mem := mem_of_mem_take (mem_of_mem_drop (of_mem_zip mem).1)
  exact mem_zipIdx_iff_getElem?.mp mem

end EventPool

/-- A store adds the pairs of the blocks that get a hash. -/
theorem Mirrored.cacheFullBlocks {m : SingleTypeKVCacheManager} {request : Request H}
    {blocks : List BlockId} {numCachedBlocks numFullBlocks : Nat} {blockMask : Option (List Bool)}
    (mirrored : Mirrored N st) (inPool : ∀ b ∈ blocks, b < N)
    (run : cacheFullBlocks m request blocks numCachedBlocks numFullBlocks blockMask st =
      .ok st') : Mirrored N st' := by
  rcases cacheFullBlocks_cases run with
    rfl | ⟨pool, stored, -, cached, listed, groupIdx, -, rfl⟩
  · exact mirrored
  · obtain ⟨ok, lengths⟩ := length_cached_of_cacheBlocks mirrored.cacheOk
      (fun entry mem => inPool _ (mem_of_getElem? (mem_newFullBlocks mem)))
      cached listed
    obtain ⟨contents, replayed, counts⟩ := mirrored.mirrors
    refine ⟨ok, contents + (stored.blockHashes.map (·, m.kvCacheGroupId) : List _), ?_, ?_⟩
    · rw [map_append, map_singleton, replay_concat replayed, ← groupIdx]
      rfl
    · intro key
      rw [Multiset.count_add, counts, lengths]

end Mirror

/-! ### Runs -/

inductive PoolCall (H : Type) where
  | cacheFullBlocks (m : SingleTypeKVCacheManager) (request : Request H) (blocks : List BlockId)
      (numCachedBlocks numFullBlocks : Nat) (blockMask : Option (List Bool))
  | getNewBlocks (numBlocks : Int)
  | touch (blocks : List BlockId)
  | freeBlocks (blocks : List BlockId) (prepend : Bool)
  | evictBlocks (blockIds : List BlockId)
  | resetPrefixCache

def EventPool.exec [DecidableEq H] (numGpuBlocks : Nat) (enableCaching : Bool) (st : EventPool H) :
    PoolCall H → Except KVError (EventPool H)
  | .cacheFullBlocks m request blocks numCachedBlocks numFullBlocks blockMask =>
    st.cacheFullBlocks m request blocks numCachedBlocks numFullBlocks blockMask
  | .getNewBlocks numBlocks => do
    let (_, st) ← st.getNewBlocks enableCaching numBlocks
    return st
  | .touch blocks => do
    let pool ← st.pool.touch blocks
    return { st with pool := pool }
  | .freeBlocks blocks prepend => .ok { st with pool := st.pool.freeBlocks blocks prepend }
  | .evictBlocks blockIds => st.evictBlocks numGpuBlocks blockIds
  | .resetPrefixCache => .ok (st.resetPrefixCache numGpuBlocks)

/-- The blocks of a call are blocks of the pool, and the pool's `hash_block_size` is
that of the hasher. -/
def OfPool (B : BlockHasher H) (numGpuBlocks : Nat) : PoolCall H → Prop
  | .cacheFullBlocks m _ blocks _ _ _ =>
    m.hashBlockSize = B.blockSize ∧ ∀ b ∈ blocks, b < numGpuBlocks
  | _ => True

section Keeps

variable [DecidableEq H] {N : Nat} {enableCaching : Bool} {st st' : EventPool H}
  (Q : EventPool H → Prop) (evict : ∀ st block, Q st → Q (st.maybeEvictCachedBlock block))
  (ofPool : ∀ st pool, pool.blockHash = st.pool.blockHash → pool.cached = st.pool.cached → Q st →
    Q { st with pool := pool }) (start : Q st)
include evict ofPool start

/-- What evictions and changes of the reference counts and the free queue keep, `get_new_blocks`
keeps. -/
theorem EventPool.getNewBlocks_keeps {n : Int} {ret : List BlockId}
    (run : st.getNewBlocks enableCaching n = .ok (ret, st')) : Q st' := by
  unfold getNewBlocks at run
  split at run
  · cases run
  obtain ⟨⟨popped, queue⟩, -, run⟩ := bind_eq_ok.mp run
  obtain ⟨st₁, taken, run⟩ := bind_eq_ok.mp run
  cases run
  have popped := ofPool st { st.pool with freeBlockQueue := queue } rfl rfl start
  refine foldlM_keeps Q (fun st block _ st' before step => ?_) popped taken
  have evicted : Q (if enableCaching then st.maybeEvictCachedBlock block else st) := by
    split
    · exact evict st block before
    · exact before
  unfold takeBlock at step
  generalize (if enableCaching then st.maybeEvictCachedBlock block else st) = st₁ at step evicted
  simp only at step
  split at step
  · cases step
    exact ofPool st₁ _ rfl rfl evicted
  · cases step

/-- What moreover a reset and the stores keep, every call keeps. -/
theorem EventPool.exec_keeps {call : PoolCall H} (reset : Q (st.resetPrefixCache N))
    (store : ∀ m request blocks numCachedBlocks numFullBlocks blockMask,
      call = .cacheFullBlocks m request blocks numCachedBlocks numFullBlocks blockMask →
      st.cacheFullBlocks m request blocks numCachedBlocks numFullBlocks blockMask = .ok st' → Q st')
    (run : st.exec N enableCaching call = .ok st') : Q st' := by
  cases call with
  | cacheFullBlocks => exact store _ _ _ _ _ _ rfl run
  | getNewBlocks numBlocks =>
    obtain ⟨⟨ret, st₁⟩, taken, run⟩ := bind_eq_ok.mp run
    cases run
    exact getNewBlocks_keeps Q evict ofPool start taken
  | touch blocks =>
    obtain ⟨pool, touched, run⟩ := bind_eq_ok.mp run
    cases run
    obtain ⟨hash, cached⟩ : pool.blockHash = st.pool.blockHash ∧ pool.cached = st.pool.cached := by
      refine foldlM_keeps
        (fun p => p.blockHash = st.pool.blockHash ∧ p.cached = st.pool.cached) ?_ ⟨rfl, rfl⟩ touched
      intro p block _ p' before step
      unfold BlockPool.touchBlock at step
      split at step
      · obtain ⟨queue, -, step⟩ := bind_eq_ok.mp step
        cases step
        exact before
      · cases step
        exact before
    exact ofPool st pool hash cached start
  | freeBlocks blocks prepend =>
    cases run
    exact ofPool st _ rfl rfl start
  | evictBlocks blockIds =>
    refine foldlM_keeps Q (fun st block _ st' before step => ?_) start run
    split at step
    · cases step
      exact evict st block before
    · cases step
  | resetPrefixCache =>
    cases run
    exact reset

end Keeps

theorem Mirrored.exec [DecidableEq H] {B : BlockHasher H} {N : Nat} {enableCaching : Bool}
    {st st' : EventPool H} {call : PoolCall H} (mirrored : Mirrored N st) (ofPool : OfPool B N call)
    (run : st.exec N enableCaching call = .ok st') : Mirrored N st' := by
  refine exec_keeps (Mirrored N) (fun _ block before => before.maybeEvictCachedBlock block)
    (fun _ _ hash cached before => before.of_pool hash cached) mirrored mirrored.resetPrefixCache ?_
    run
  rintro m request blocks numCachedBlocks numFullBlocks blockMask rfl run
  exact mirrored.cacheFullBlocks ofPool.2 run

/-! ### The extra keys -/

/-- `extra_keys`, when present, has one entry for each block hash: the keys that were
hashed. A block that spans several hash blocks has the same keys in each of them. -/
def KeysMatch (B : BlockHasher H) (stored : BlockStored H) : Prop :=
  ∀ keys, stored.extraKeys = some keys →
    List.Forall₂ (fun blockHash extraKeys => ∀ hash ∈ blockHash, ∃ parent tokens,
      hash = B.hashFn (parent, tokens, extraKeys)) stored.blockHashes keys

/-- The tokens `[start, stop)` have no keys but the LoRA name. -/
@[mk_iff]
structure PlainBlock (request : Request H) (start stop : Nat) : Prop where
  clear : ∀ item ∈ request.mmFeatures, item.stop ≤ start ∨ stop ≤ item.offset
  embeds : request.promptEmbeds.isNone = true
  salt : start = 0 → genCacheSaltKeys request 0 = []

instance (request : Request H) (start stop : Nat) : Decidable (PlainBlock request start stop) :=
  decidable_of_iff' _ (plainBlock_iff request start stop)

/-- The hashes of the request are those of its tokens and items, and the blocks that
`cache_full_blocks` reports are hash blocks, or plain. -/
def KeysRecoverable [DecidableEq H] (B : BlockHasher H) : PoolCall H → Prop
  | .cacheFullBlocks m request blocks numCachedBlocks numFullBlocks blockMask =>
    request.blockHashes <+: B.oneShotHashes request ∧
      (m.blockSize = B.blockSize ∨
        ∀ entry ∈ newFullBlocks blocks numCachedBlocks numFullBlocks blockMask,
          isSkipped entry = false →
            PlainBlock request (entry.1.2 * m.blockSize) (entry.1.2 * m.blockSize + m.blockSize))
  | _ => True

instance (B : BlockHasher H) (numGpuBlocks : Nat) :
    (call : PoolCall H) → Decidable (OfPool B numGpuBlocks call)
  | .cacheFullBlocks .. => inferInstanceAs (Decidable (_ ∧ _))
  | .getNewBlocks _ | .touch _ | .freeBlocks _ _ | .evictBlocks _ | .resetPrefixCache =>
    inferInstanceAs (Decidable True)

instance [DecidableEq H] (B : BlockHasher H) : (call : PoolCall H) → Decidable (KeysRecoverable B call)
  | .cacheFullBlocks .. => inferInstanceAs (Decidable (_ ∧ _))
  | .getNewBlocks _ | .touch _ | .freeBlocks _ _ | .evictBlocks _ | .resetPrefixCache =>
    inferInstanceAs (Decidable True)

section Keys

variable {req : Request H} {start stop : Nat}

theorem PlainBlock.inside (plain : PlainBlock req start stop) {s e : Nat} (after : start ≤ s)
    (before : e ≤ stop) : PlainBlock req s e where
  clear item mem := (plain.clear item mem).imp (fun ended => by omega) fun later => by omega
  embeds := plain.embeds
  salt zero := plain.salt (by omega)

/-- A plain block has the keys of every other. -/
theorem PlainBlock.extraKeys (plain : PlainBlock req start stop) (idx : Int) :
    (generateBlockHashExtraKeys req start stop idx).1 =
      if genLoraExtraHashKeys req = [] then none else some (genLoraExtraHashKeys req) := by
  have mm := genMmExtraHashKeys_of_clear plain.clear idx
  have embeds : genPromptEmbedsExtraHashKeys req start stop = [] := by
    simp only [genPromptEmbedsExtraHashKeys, Option.isNone_iff_eq_none.mp plain.embeds]
  have salt : genCacheSaltKeys req start = [] := by
    rcases Nat.eq_zero_or_pos start with rfl | pos
    · exact plain.salt rfl
    · unfold genCacheSaltKeys
      split
      · rfl
      · rw [if_neg (fun both => by omega)]
  simp only [generateBlockHashExtraKeys, mm, embeds, salt, append_nil]

/-- The keys of the loop are those of a scan of all items, if the blocks come in
order. -/
theorem extraKeysLoop_eq {blockSize : Nat} (pos : 0 < blockSize)
    {entries : List ((BlockId × Nat) × Bool)} (ordered : entries.Pairwise (·.1.2 < ·.1.2)) {idx : Int}
    (passed : ∀ entry ∈ entries, Passed req.mmFeatures (entry.1.2 * blockSize) idx) :
    extraKeysLoop req blockSize entries idx =
      (entries.filter (!EventPool.isSkipped ·)).map fun entry =>
        (generateBlockHashExtraKeys req (entry.1.2 * blockSize)
          (entry.1.2 * blockSize + blockSize) 0).1 := by
  induction entries generalizing idx with
  | nil => rfl
  | cons entry rest ih =>
    obtain ⟨before, ordered⟩ := pairwise_cons.mp ordered
    rw [extraKeysLoop]
    split
    · rename_i skipped
      rw [filter_cons_of_neg (by simp [skipped])]
      exact ih ordered fun entry mem => passed entry (by simp [mem])
    · rename_i kept
      have lt : entry.1.2 * blockSize < entry.1.2 * blockSize + blockSize := by omega
      obtain ⟨sameKeys, next⟩ := genMmExtraHashKeys_of_passed lt (passed entry (by simp))
      rw [filter_cons_of_pos (by simpa using kept)]
      refine cons_eq_cons.mpr ⟨?_, ?_⟩
      · simp only [generateBlockHashExtraKeys, sameKeys]
      · refine ih ordered fun entry' mem => next.mono ?_
        calc entry.1.2 * blockSize + blockSize = (entry.1.2 + 1) * blockSize := by
              rw [Nat.succ_mul]
          _ ≤ entry'.1.2 * blockSize := Nat.mul_le_mul_right _ (before entry' mem)

theorem newFullBlocks_ordered (blocks : List BlockId) (done full : Nat)
    (blockMask : Option (List Bool)) :
    (newFullBlocks blocks done full blockMask).Pairwise
      (·.1.2 < ·.1.2) := by
  have positions : (blocks.zipIdx.map Prod.snd).Pairwise (· < ·) := by
    rw [zipIdx_map_snd]
    exact pairwise_lt_range'
  have table : ((blocks.zipIdx.take full).drop done).Pairwise (·.2 < ·.2) :=
    (pairwise_map.mp positions).sublist ((drop_sublist _ _).trans (take_sublist _ _))
  unfold newFullBlocks
  rw [pairwise_iff_getElem] at table ⊢
  intro i j inI inJ lt
  simp only [length_zip, Nat.lt_min] at inI inJ
  simp only [getElem_zip]
  exact table i j inI.1 inJ.1 lt

variable {B : BlockHasher H} {m : SingleTypeKVCacheManager}

/-- The hash blocks of a full block and the keys that went into them. -/
theorem hashed_of_fullBlockHash (hashes : req.blockHashes <+: B.oneShotHashes req)
    (aligned : m.blockSize = m.scale * B.blockSize) {i : Nat} {blockHash : List H}
    (isHash : m.fullBlockHash req.blockHashes i = .ok blockHash) {hash : H}
    (mem : hash ∈ blockHash) :
    ∃ start parent tokens, i * m.blockSize ≤ start ∧
      start + B.blockSize ≤ i * m.blockSize + m.blockSize ∧
      hash = B.hashFn (parent, tokens,
        (generateBlockHashExtraKeys req start (start + B.blockSize) 0).1) := by
  unfold fullBlockHash at isHash
  split at isHash
  case isFalse => cases isHash
  cases isHash
  obtain ⟨j, found⟩ := List.mem_iff_getElem?.mp mem
  rw [getElem?_take] at found
  split at found
  case isFalse => cases found
  rw [getElem?_drop] at found
  -- The position among the hash blocks.
  generalize position : i * m.scale + j = k at found
  obtain ⟨later, whole⟩ := hashes
  have inRange := (List.getElem?_eq_some_iff.mp found).1
  have found : (req.blockHashes ++ later)[k]? = some hash := by
    rw [getElem?_append_left inRange]
    exact found
  rw [whole] at found
  have full : k < B.numFullBlocks req := by
    rw [← B.length_oneShotHashes, ← whole, length_append]
    omega
  rw [B.getElem?_oneShotHashes req full, Option.some.injEq, range_succ, map_append,
    foldl_append] at found
  refine ⟨k * B.blockSize, _, _, ?_, ?_, found.symm⟩
  · rw [aligned, ← Nat.mul_assoc]
    exact Nat.mul_le_mul_right _ (by omega)
  · rw [aligned, ← Nat.mul_assoc, ← Nat.add_mul, ← Nat.succ_mul]
    exact Nat.mul_le_mul_right _ (by omega)

/-- Every event of the queue has the keys that were hashed. -/
def KeysFaithful (B : BlockHasher H) (st : EventPool H) : Prop :=
  ∀ stored, .blockStored stored ∈ st.kvEventQueue → KeysMatch B stored

theorem KeysFaithful.concat {st : EventPool H} (faithful : KeysFaithful B st) {pool : BlockPool H}
    {event : KVCacheEvent H} (new : ∀ stored, event = .blockStored stored → KeysMatch B stored) :
    KeysFaithful B ⟨pool, st.kvEventQueue ++ [event]⟩ := by
  intro stored mem
  rcases mem_append.mp mem with mem | mem
  · exact faithful stored mem
  · exact new stored (mem_singleton.mp mem).symm

variable [DecidableEq H] {N : Nat} {enableCaching : Bool} {st st' : EventPool H}

theorem KeysFaithful.cacheFullBlocks {blocks : List BlockId} {done full : Nat}
    {blockMask : Option (List Bool)} (faithful : KeysFaithful B st)
    (hashBlockSize : m.hashBlockSize = B.blockSize)
    (recoverable : KeysRecoverable B
      (.cacheFullBlocks m req blocks done full blockMask))
    (run : cacheFullBlocks m req blocks done full blockMask st =
      .ok st') : KeysFaithful B st' := by
  obtain ⟨hashes, plain⟩ := recoverable
  rcases cacheFullBlocks_cases run with
    rfl | ⟨pool, stored, divides, -, listed, -, isKeys, rfl⟩
  · exact faithful
  refine faithful.concat ?_
  rintro _ ⟨⟩ keys present
  have aligned : m.blockSize = m.scale * B.blockSize := by
    rw [scale, ← hashBlockSize, Nat.div_mul_cancel divides]
  rw [isKeys keys present, extraKeysLoop_eq m.blockSize_pos (newFullBlocks_ordered _ _ _ _)
    fun _ _ => passed_zero _ _, forall₂_map_right_iff]
  have each := (forall₂_and_left _ _).mpr ⟨fun entry mem => mem_filter.mp mem,
    forall₂_of_mapM listed⟩
  refine List.Forall₂.flip (each.imp fun entry blockHash facts hash mem => ?_)
  obtain ⟨⟨inTable, kept⟩, isHash⟩ := facts
  obtain ⟨start, parent, tokens, after, before, isHash⟩ :=
    hashed_of_fullBlockHash hashes aligned isHash mem
  refine ⟨parent, tokens, ?_⟩
  rcases plain with same | plain
  · -- One hash block: it starts where the block starts.
    have startEq : start = entry.1.2 * m.blockSize := by omega
    rw [isHash, startEq, same]
  · have plain := plain entry inTable (by simpa using kept)
    rw [isHash, (plain.inside after before).extraKeys, plain.extraKeys]

theorem KeysFaithful.maybeEvictCachedBlock (faithful : KeysFaithful B st) (block : BlockId) :
    KeysFaithful B (st.maybeEvictCachedBlock block) := by
  unfold EventPool.maybeEvictCachedBlock
  split
  · exact faithful
  · split
    · exact faithful.concat nofun
    · exact faithful

theorem KeysFaithful.exec {call : PoolCall H} (faithful : KeysFaithful B st)
    (ofPool : OfPool B N call) (recoverable : KeysRecoverable B call)
    (run : st.exec N enableCaching call = .ok st') : KeysFaithful B st' := by
  refine exec_keeps (KeysFaithful B) (fun _ block before => before.maybeEvictCachedBlock block)
    (fun _ _ _ _ before => before) faithful ?_ ?_ run
  · unfold resetPrefixCache
    simp only
    split
    · exact faithful.concat nofun
    · exact faithful
  · rintro m req blocks done full blockMask rfl run
    exact faithful.cacheFullBlocks ofPool.1 recoverable run

/-- In every run the events mirror the hash map, under any naming of the hashes. If
the calls meet the condition, their extra keys are those that were hashed. -/
theorem eventsFaithful_of_run {calls : List (PoolCall H)}
    (run : Run (guarded (fun _ call => OfPool B N call ∧ KeysRecoverable B call)
      (succeeds (exec N enableCaching))) (init H N) calls st) :
    Mirrors st ∧ (∀ (E : Type) [DecidableEq E] (convert : List H → E), MirrorsAs convert st) ∧
      KeysFaithful B st := by
  have both : Mirrored N st ∧ KeysFaithful B st := by
    refine run.invariant (fun st => Mirrored N st ∧ KeysFaithful B st) ?_ ⟨.init H N, nofun⟩
    rintro st call st' ⟨mirrored, faithful⟩ ⟨⟨ofPool, recoverable⟩, step⟩
    exact ⟨mirrored.exec ofPool step, faithful.exec ofPool recoverable step⟩
  exact ⟨both.1.mirrors, fun E _ convert => both.1.mirrors.convert convert, both.2⟩

end Keys

/-! ### Two images in one block -/

/-- Blocks of four tokens, in the cache and in the hasher. -/
def fourTokenManager : SingleTypeKVCacheManager where
  kvCacheSpec := { kind := .fullAttention, blockSize := 4, blockSize_pos := Nat.succ_pos (nat_lit 3) }
  kvCacheGroupId := 0
  enableCaching := true
  schedulerBlockSize := 4
  hashBlockSize := 4
  numGpuBlocks := 4
  contextParallelSize := 1
  maxAdmissionBlocksPerRequest := none
  useEagle := false

def fourTokenHasher : BlockHasher SymbolicHash := symbolicHasher 4 (Nat.succ_pos (nat_lit 3))

def storeTwoBlocks (request : Request SymbolicHash) : List (PoolCall SymbolicHash) :=
  [.getNewBlocks 2, .cacheFullBlocks fourTokenManager request [1, 2] 0 2 none]

/-- The block that two appended tokens fill was hashed with the second image only, and
the event has the keys of both. -/
theorem twoImages_not_keysFaithful : ∃ st,
    Run (guarded (fun _ call => OfPool fourTokenHasher 4 call) (succeeds (exec 4 true)))
      (init SymbolicHash 4)
      (storeTwoBlocks (appendOutputTokenIds fourTokenHasher (freshRequest fourTokenHasher twoImages)
        [7, 8])) st ∧
    ¬ KeysFaithful fourTokenHasher st := by
  have final : ∃ stored first parent tokens,
      ((storeTwoBlocks (appendOutputTokenIds fourTokenHasher
        (freshRequest fourTokenHasher twoImages) [7, 8])).foldlM (exec 4 true)
          (init SymbolicHash 4)).map kvEventQueue =
        .ok [.blockStored stored] ∧
      stored.blockHashes = [first, [.node parent tokens (some [.mm "B" 1])]] ∧
      stored.extraKeys = some [none, some [.mm "A" 0, .mm "B" 1]] :=
    ⟨_, _, _, _, rfl, rfl, rfl⟩
  obtain ⟨stored, first, parent, tokens, ends, hashes, keys⟩ := final
  obtain ⟨st, ends, queue⟩ := map_eq_ok.mp ends
  refine ⟨st, .of_alongOk (by decide) ends, fun faithful => ?_⟩
  have matched := faithful stored (by simp [queue]) _ keys
  rw [hashes, forall₂_cons, forall₂_cons] at matched
  obtain ⟨parent', tokens', same⟩ := matched.2.1 _ (mem_singleton.mpr rfl)
  simp [fourTokenHasher, symbolicHasher] at same

/-- The same tokens hashed at once. The blocks are then evicted, one of them by
`evict_blocks` and the other when it is handed out again. -/
def storeAndEvict : List (PoolCall SymbolicHash) :=
  storeTwoBlocks (freshRequest fourTokenHasher
      { twoImages with allTokenIds := [1, 2, 3, 4, 5, 6, 7, 8] }) ++
    [.freeBlocks [2, 1] false, .evictBlocks [1], .getNewBlocks 3]

theorem twoImages_events_faithful : ∃ st,
    storeAndEvict.foldlM (exec 4 true) (init SymbolicHash 4) = .ok st ∧
    st.kvEventQueue.length = 3 ∧
    Mirrors st ∧ (∀ (E : Type) [DecidableEq E] (convert : List SymbolicHash → E),
      MirrorsAs convert st) ∧ KeysFaithful fourTokenHasher st := by
  have final : (storeAndEvict.foldlM (exec 4 true) (init SymbolicHash 4)).map (fun st =>
      st.kvEventQueue.length) = .ok 3 := by rfl
  obtain ⟨st, ends, length⟩ := map_eq_ok.mp final
  exact ⟨st, ends, length, eventsFaithful_of_run (.of_alongOk (by decide) ends)⟩

end Vllm.KVCache
