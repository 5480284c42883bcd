import Vllm.KVCache.BlockPool

/-!
`BlockHashToBlockMap` (`vllm/v1/core/block_pool.py`) as it is stored: a block under
its key on its own, and a dict of blocks only once a key has two.

Over any calls the map answers as a list of blocks for each key (`answers_of_calls`). So a pool
with this map (`StoredPool`) does the same over any calls as one with the lists
(`toPool_of_calls`), lookups included (`getCachedBlock_of_calls`).
-/

namespace Vllm.KVCache

open Vllm.Lib.Fallible
open Function (update)

variable {H : Type} [DecidableEq H]

/-- What is stored under a key. A dict is its ids in insertion order; it has one at
least. -/
inductive CachedEntry where
  | single (block : BlockId)
  | dict (first : BlockId) (rest : List BlockId)
  deriving DecidableEq, Repr

/-- `_cache`. -/
abbrev BlockHashToBlockMap (H : Type) := BlockHashWithGroupId H → Option CachedEntry

def CachedEntry.blocks : CachedEntry → List BlockId
  | .single block => [block]
  | .dict first rest => first :: rest

namespace BlockHashToBlockMap

variable (map : BlockHashToBlockMap H) (key : BlockHashWithGroupId H)

/-- The blocks under a key, as the pool sees them. -/
def blocks : List BlockId := ((map key).map CachedEntry.blocks).getD []

def getOneBlock : Option BlockId :=
  match map key with
  | none => none
  | some (.single block) => some block
  | some (.dict first _) => some first

/-- `insert`. A dict keeps the place of an id that it has. -/
def insert (block : BlockId) : BlockHashToBlockMap H :=
  update map key <| some <|
    match map key with
    | none => .single block
    | some (.single old) => .dict old (if block = old then [] else [block])
    | some (.dict first rest) =>
      .dict first (if block ∈ first :: rest then rest else rest ++ [block])

/-- The dict after `blocks.pop`: an empty one is not put back. -/
def ofBlocks : List BlockId → Option CachedEntry
  | [] => none
  | first :: rest => some (.dict first rest)

/-- `pop`: the block, if it was there, and the map without it. -/
def pop (block : BlockId) : Option BlockId × BlockHashToBlockMap H :=
  match map key with
  | none => (none, map)
  | some (.single old) =>
    if old = block then (some old, update map key none) else (none, map)
  | some (.dict first rest) =>
    (if block ∈ first :: rest then some block else none,
      update map key (ofBlocks ((first :: rest).erase block)))

variable {map key}

theorem blocks_ofBlocks (ids : List BlockId) :
    ((ofBlocks ids).map CachedEntry.blocks).getD [] = ids := by
  cases ids <;> rfl

omit [DecidableEq H] in
/-- A lookup takes the oldest block. -/
theorem get_one_block_eq : map.getOneBlock key = (map.blocks key).head? := by
  unfold getOneBlock blocks
  rcases map key with _ | (_ | _) <;> rfl

theorem blocks_update (entry : Option CachedEntry) : blocks (update map key entry) =
    update map.blocks key ((entry.map CachedEntry.blocks).getD []) :=
  Function.comp_update (fun entry : Option CachedEntry => (entry.map CachedEntry.blocks).getD [])
    map key entry

/-- `insert` appends a block that is not there. -/
theorem insert_blocks (block : BlockId) : (map.insert key block).blocks =
    update map.blocks key
      (if block ∈ map.blocks key then map.blocks key else map.blocks key ++ [block]) := by
  rw [insert, blocks_update]
  congr 1
  unfold blocks
  rcases map key with _ | (old | ⟨first, rest⟩)
  · rfl
  · by_cases isOld : block = old <;> simp [CachedEntry.blocks, isOld]
  · dsimp only [CachedEntry.blocks, Option.map_some, Option.getD_some]
    split_ifs with mem
    · exact (if_pos mem).symm
    · exact (if_neg mem).symm

/-- `pop` finds the blocks of the key. -/
theorem pop_eq (block : BlockId) :
    (map.pop key block).1 = if block ∈ map.blocks key then some block else none := by
  unfold pop blocks
  rcases map key with _ | (old | ⟨first, rest⟩)
  · rfl
  · by_cases same : old = block
    · simp [same, CachedEntry.blocks]
    · simp [same, Ne.symm same, CachedEntry.blocks]
  · rfl

/-- `pop` takes the block out of its key. -/
theorem pop_blocks (block : BlockId) : (map.pop key block).2.blocks =
    update map.blocks key ((map.blocks key).erase block) := by
  have isBlocks : map.blocks key = ((map key).map CachedEntry.blocks).getD [] := rfl
  unfold pop
  rcases entry : map key with _ | (old | ⟨first, rest⟩) <;> rw [entry] at isBlocks
  · simp [isBlocks]
  · by_cases isOld : old = block
    · simp [isOld, isBlocks, blocks_update, CachedEntry.blocks]
    · simp [isOld, isBlocks, CachedEntry.blocks]
  · rw [isBlocks, blocks_update, blocks_ofBlocks]
    rfl

/-- A change of the map. -/
inductive MapCall (H : Type) where
  | insert (key : BlockHashWithGroupId H) (block : BlockId)
  | pop (key : BlockHashWithGroupId H) (block : BlockId)

def exec (map : BlockHashToBlockMap H) : MapCall H → BlockHashToBlockMap H
  | .insert key block => map.insert key block
  | .pop key block => (map.pop key block).2

/-- The same call on lists of blocks, oldest first. -/
def execLists (lists : BlockHashWithGroupId H → List BlockId) :
    MapCall H → BlockHashWithGroupId H → List BlockId
  | .insert key block => update lists key
      (if block ∈ lists key then lists key else lists key ++ [block])
  | .pop key block => update lists key ((lists key).erase block)

/-- After any calls, lookups and pops answer as for the lists. -/
theorem answers_of_calls (calls : List (MapCall H)) (key : BlockHashWithGroupId H) (block : BlockId) :
    (calls.foldl exec (fun _ => none)).getOneBlock key =
        (calls.foldl execLists (fun _ => []) key).head? ∧
      ((calls.foldl exec (fun _ => none)).pop key block).1 =
        if block ∈ calls.foldl execLists (fun _ => []) key then some block else none := by
  have same : calls.foldl execLists (blocks fun _ => none) =
      blocks (calls.foldl exec (fun _ => none : BlockHashToBlockMap H)) := by
    refine List.foldl_hom blocks ?_
    rintro map (⟨key, block⟩ | ⟨key, block⟩)
    · exact (insert_blocks block).symm
    · exact (pop_blocks block).symm
  rw [get_one_block_eq, pop_eq, ← same]
  exact ⟨rfl, rfl⟩

end BlockHashToBlockMap

/-! ### The pool -/

/-- `BlockPool` with the map as it is stored. -/
structure StoredPool (H : Type) where
  refCnt : BlockId → Int
  blockHash : BlockId → Option (BlockHashWithGroupId H)
  freeBlockQueue : FreeKVCacheBlockQueue
  cachedBlockHashToBlock : BlockHashToBlockMap H

namespace StoredPool

open BlockHashToBlockMap

/-- The pool with the lists of blocks in place of the map. -/
def toPool (s : StoredPool H) : BlockPool H where
  refCnt := s.refCnt
  blockHash := s.blockHash
  freeBlockQueue := s.freeBlockQueue
  cached := s.cachedBlockHashToBlock.blocks

def init (H : Type) (numGpuBlocks : Nat) : StoredPool H where
  refCnt := fun _ => 0
  blockHash := fun _ => none
  freeBlockQueue := ⟨(List.range numGpuBlocks).tail, (numGpuBlocks : Int) - 1⟩
  cachedBlockHashToBlock := fun _ => none

def getCachedBlock (s : StoredPool H) (blockHash : List H) (groupIds : List Nat) :
    Option (List BlockId) :=
  groupIds.mapM fun g => s.cachedBlockHashToBlock.getOneBlock ⟨blockHash, g⟩

/-- What leaves the map and the hashes alone. -/
def withCounts (s : StoredPool H) (p : BlockPool H) : StoredPool H :=
  { s with refCnt := p.refCnt, freeBlockQueue := p.freeBlockQueue }

def insertCached (s : StoredPool H) (key : BlockHashWithGroupId H) (block : BlockId) :
    StoredPool H :=
  { s with
    blockHash := update s.blockHash block (some key)
    cachedBlockHashToBlock := s.cachedBlockHashToBlock.insert key block }

def maybeEvictCachedBlock (s : StoredPool H) (block : BlockId) : StoredPool H :=
  match s.blockHash block with
  | none => s
  | some key =>
    let (popped, map) := s.cachedBlockHashToBlock.pop key block
    { s with
      blockHash := if popped.isSome then update s.blockHash block none else s.blockHash
      cachedBlockHashToBlock := map }

def takeBlock (enableCaching : Bool) (s : StoredPool H) (block : BlockId) :
    Except KVError (StoredPool H) :=
  let s := if enableCaching then s.maybeEvictCachedBlock block else s
  if s.refCnt block = 0 then
    .ok { s with refCnt := update s.refCnt block (s.refCnt block + 1) }
  else .error (.blockInUse block)

/-- A call of the pool; `insert` is for one block of `cache_full_blocks`. -/
inductive StoredCall (H : Type) where
  | insert (key : BlockHashWithGroupId H) (block : BlockId)
  | getNewBlocks (numBlocks : Int)
  | evictBlocks (blockIds : List BlockId)
  | resetPrefixCache
  | touch (blocks : List BlockId)
  | freeBlocks (blocks : List BlockId) (prepend : Bool)

variable (numGpuBlocks : Nat) (enableCaching : Bool)

def exec (s : StoredPool H) : StoredCall H → Except KVError (StoredPool H)
  | .insert key block =>
    if (s.blockHash block).isSome then .error (.blockAlreadyCached block)
    else .ok (s.insertCached key block)
  | .getNewBlocks numBlocks =>
    if s.freeBlockQueue.numFreeBlocks < numBlocks then .error (.cannotGetFreeBlocks numBlocks)
    else do
      let (ret, queue) ← s.freeBlockQueue.popleftN numBlocks
      ret.foldlM (takeBlock enableCaching) { s with freeBlockQueue := queue }
  | .evictBlocks blockIds =>
    blockIds.foldlM
      (fun s block => if block < numGpuBlocks then .ok (s.maybeEvictCachedBlock block)
        else .error (.invalidBlockId block))
      s
  | .resetPrefixCache =>
    if (numGpuBlocks : Int) - s.freeBlockQueue.numFreeBlocks ≠ 1 then .ok s
    else .ok { s with cachedBlockHashToBlock := fun _ => none, blockHash := fun _ => none }
  | .touch blocks => do
    let p ← s.toPool.touch blocks
    return s.withCounts p
  | .freeBlocks blocks prepend => .ok (s.withCounts (s.toPool.freeBlocks blocks prepend))

/-- The call on a pool with lists. -/
def execLists (p : BlockPool H) : StoredCall H → Except KVError (BlockPool H)
  | .insert key block =>
    if (p.blockHash block).isSome then .error (.blockAlreadyCached block)
    else .ok (p.insertCached key block)
  | .getNewBlocks numBlocks => do
    let (_, p) ← p.getNewBlocks enableCaching numBlocks
    return p
  | .evictBlocks blockIds => p.evictBlocks numGpuBlocks blockIds
  | .resetPrefixCache => .ok (p.resetPrefixCache numGpuBlocks).2
  | .touch blocks => p.touch blocks
  | .freeBlocks blocks prepend => .ok (p.freeBlocks blocks prepend)

variable {numGpuBlocks enableCaching} (s : StoredPool H)

omit [DecidableEq H] in
theorem getCachedBlock_eq (blockHash : List H) (groupIds : List Nat) :
    s.getCachedBlock blockHash groupIds = s.toPool.getCachedBlock blockHash groupIds := by
  unfold getCachedBlock BlockPool.getCachedBlock
  simp only [get_one_block_eq, toPool]

theorem toPool_insertCached (key : BlockHashWithGroupId H) (block : BlockId) :
    (s.insertCached key block).toPool = s.toPool.insertCached key block := by
  unfold insertCached BlockPool.insertCached toPool
  rw [insert_blocks]

theorem toPool_maybeEvictCachedBlock (block : BlockId) :
    (s.maybeEvictCachedBlock block).toPool = s.toPool.maybeEvictCachedBlock block := by
  unfold maybeEvictCachedBlock BlockPool.maybeEvictCachedBlock
  cases hash : s.blockHash block with
  | none => simp [toPool, hash]
  | some key =>
    by_cases mem : block ∈ s.cachedBlockHashToBlock.blocks key
    · simp [toPool, hash, mem, pop_eq, pop_blocks]
    · simp [toPool, hash, mem, pop_eq, pop_blocks, List.erase_of_not_mem mem]

theorem toPool_takeBlock (block : BlockId) :
    (s.takeBlock enableCaching block).map toPool = s.toPool.takeBlock enableCaching block := by
  have evicted : (if enableCaching then s.maybeEvictCachedBlock block else s).toPool =
      if enableCaching then s.toPool.maybeEvictCachedBlock block else s.toPool := by
    split
    · exact s.toPool_maybeEvictCachedBlock block
    · rfl
  unfold takeBlock BlockPool.takeBlock
  rw [← evicted]
  generalize (if enableCaching then s.maybeEvictCachedBlock block else s) = t
  dsimp only [toPool]
  split
  · rfl
  · rfl

omit [DecidableEq H] in
/-- `touch` leaves the map and the hashes alone. -/
theorem toPool_touch {blocks : List BlockId} {p : BlockPool H} (run : s.toPool.touch blocks = .ok p) :
    (s.withCounts p).toPool = p := by
  have same : p.blockHash = s.blockHash ∧ p.cached = s.cachedBlockHashToBlock.blocks := by
    refine foldlM_keeps (fun p => p.blockHash = s.blockHash ∧
      p.cached = s.cachedBlockHashToBlock.blocks) (fun p b _ p' same step => ?_) ⟨rfl, rfl⟩ run
    unfold BlockPool.touchBlock at step
    split at step
    · obtain ⟨queue, -, step⟩ := bind_eq_ok.mp step
      cases step
      exact same
    · cases step
      exact same
  rw [withCounts, toPool, ← same.1, ← same.2]

/-- A call does the same on the map and on the lists. -/
theorem toPool_exec (call : StoredCall H) :
    (s.exec numGpuBlocks enableCaching call).map toPool =
      execLists numGpuBlocks enableCaching s.toPool call := by
  cases call with
  | insert key block =>
    unfold exec execLists
    dsimp only
    rw [apply_ite (Except.map toPool), ← toPool_insertCached]
    rfl
  | getNewBlocks numBlocks =>
    unfold exec execLists BlockPool.getNewBlocks
    dsimp only
    by_cases short : s.freeBlockQueue.numFreeBlocks < numBlocks
    · rw [if_pos short, if_pos (show s.toPool.getNumFreeBlocks < numBlocks from short)]
      rfl
    · rw [if_neg short, if_neg (show ¬ s.toPool.getNumFreeBlocks < numBlocks from short)]
      dsimp only [toPool]
      cases s.freeBlockQueue.popleftN numBlocks with
      | error e => rfl
      | ok popped =>
        have taken : (popped.1.foldlM (takeBlock enableCaching)
            { s with freeBlockQueue := popped.2 }).map toPool = _ :=
          map_foldlM toPool_takeBlock popped.1 _
        rw [ok_bind, ok_bind]
        refine taken.trans ?_
        cases run : popped.1.foldlM (BlockPool.takeBlock enableCaching)
            (toPool { s with freeBlockQueue := popped.2 }) with
        | error e =>
          dsimp only [toPool] at run
          rw [run]
          rfl
        | ok p =>
          dsimp only [toPool] at run
          rw [run]
          rfl
  | evictBlocks blockIds =>
    refine map_foldlM (fun s block => ?_) blockIds s
    rw [apply_ite (Except.map toPool), ← toPool_maybeEvictCachedBlock]
    rfl
  | resetPrefixCache =>
    unfold exec execLists BlockPool.resetPrefixCache
    dsimp only
    rw [apply_ite (Except.map toPool), apply_ite Prod.snd, apply_ite Except.ok]
    rfl
  | touch blocks =>
    unfold exec execLists
    dsimp only
    cases run : s.toPool.touch blocks with
    | error e => rfl
    | ok p => exact congrArg Except.ok (s.toPool_touch run)
  | freeBlocks blocks prepend => rfl

/-- So do all calls from the start. -/
theorem toPool_of_calls (calls : List (StoredCall H)) :
    (calls.foldlM (exec numGpuBlocks enableCaching) (init H numGpuBlocks)).map toPool =
      calls.foldlM (execLists numGpuBlocks enableCaching) (BlockPool.init H numGpuBlocks) :=
  map_foldlM toPool_exec calls _

/-- After any calls a lookup finds the same blocks. -/
theorem getCachedBlock_of_calls {s : StoredPool H} {calls : List (StoredCall H)}
    (run : calls.foldlM (exec numGpuBlocks enableCaching) (init H numGpuBlocks) = .ok s)
    (blockHash : List H) (groupIds : List Nat) :
    ∃ p, calls.foldlM (execLists numGpuBlocks enableCaching) (BlockPool.init H numGpuBlocks) =
        .ok p ∧ s.getCachedBlock blockHash groupIds = p.getCachedBlock blockHash groupIds := by
  refine ⟨s.toPool, ?_, s.getCachedBlock_eq blockHash groupIds⟩
  rw [← toPool_of_calls, run]
  rfl

end StoredPool

end Vllm.KVCache
