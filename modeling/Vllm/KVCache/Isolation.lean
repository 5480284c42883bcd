import Vllm.KVCache.Prediction
import Vllm.KVCache.TableHashes

/-!
Isolation of block tables.

A block that stands in two table positions is a prefix-cache hit in both: the
positions are of one group and were looked up under one hash (`Isolated`), and no
call hands out a block that is one of its hits (`HandsOutFresh`). `isolated_of_run` is
about the runs in which no call takes a hit of its own from the free queue;
`externalTakesHit_not_isolated` is a run with such a call.
-/

namespace Vllm.KVCache

open Vllm.Lib Vllm.Lib.Ceil Vllm.Lib.Fallible Vllm.Lib.Steps Vllm.Hashing SingleTypeKVCacheManager KVCacheConfig

variable {H : Type}

/-! ### Calls -/

/-- The invariant between calls: moreover an align-mode table without state blocks
of its own is empty, unless there are no speculative blocks. -/
structure Stable (cfg : KVCacheConfig) (hashes : RequestId → List H) (s : KVState H) : Prop extends
    Inv cfg hashes s where
  settled : ∀ m ∈ cfg.managers, ∀ k, m.kvCacheSpec.kind = .mamba .align k → ∀ r : RequestId,
    s.allocatedBlockReqs (m.key r) = false → k = 0 ∨ m.blocksOf s r = []

section Coordinator

variable {cfg : KVCacheConfig} {hashes : RequestId → List H} {s s' : KVState H}
  {m : SingleTypeKVCacheManager} {r : RequestId}

section

variable (stable : Stable cfg hashes s)
include stable

theorem Stable.removeSkippedBlocks {n : Nat} (run : cfg.removeSkippedBlocks s r n = .ok s') :
    Stable cfg hashes s' ∧ RequestSkipped cfg r s s' := by
  obtain ⟨inv, skipped⟩ : Inv cfg hashes s' ∧ RequestSkipped cfg r s s' := by
    refine foldlM_keeps (fun t => Inv cfg hashes t ∧ RequestSkipped cfg r s t)
      (fun t m mem u before step => ?_) ⟨stable.toInv, .refl cfg r s⟩ run
    obtain ⟨skipped, wf⟩ := removeSkippedBlocks_spec before.1.wf step
    exact ⟨before.1.skip mem skipped wf, before.2.tail mem skipped⟩
  refine ⟨⟨inv, fun m mem k kind r' isFalse => ?_⟩, skipped⟩
  rw [skipped.allocatedBlockReqs] at isFalse
  refine (stable.settled m mem k kind r' isFalse).imp id fun empty => ?_
  have length := (skipped.nulled (m.key r')).length
  rw [show s.reqToBlocks.get (m.key r') = [] from empty] at length
  exact List.length_eq_zero_iff.mp length

theorem Stable.free (r : RequestId) : Stable cfg hashes (cfg.free s r) := by
  refine List.foldlRecOn cfg.managers _ stable fun s stable m mem => ?_
  refine ⟨stable.toInv.free mem r, fun m' mem' k kind r' isFalse => ?_⟩
  have entry := free_onlyEntry m s r
  by_cases same : m'.key r' = m.key r
  · rw [blocksOf, same]
    exact .inr (get_free m s r)
  · rw [blocksOf, entry.tables.get_of_ne same]
    rw [entry.allocatedBlockReqs same] at isFalse
    exact stable.settled m' mem' k kind r' isFalse

theorem Stable.newStepStarts : Stable cfg hashes (cfg.newStepStarts s) := by
  obtain ⟨c, eq⟩ := newStepStarts_eq cfg s
  rw [eq]
  exact ⟨⟨stable.wf.of_pool stable.wf.pool rfl rfl, stable.tagged, stable.keyed, stable.lastState,
    stable.state⟩, stable.settled⟩

end

variable [DecidableEq H]

variable {request : Request H} {n : Nat}

/-- `cache_blocks` of the coordinator, when it stays away from speculative blocks. -/
theorem Stable.coordinatorCacheBlocks (stable : Stable cfg hashes s)
    (known : request.blockHashes <+: hashes request.requestId)
    (room : ∀ m ∈ cfg.managers, ∀ k, m.kvCacheSpec.kind = .mamba .align k →
      s.allocatedBlockReqs (m.key request.requestId) = true →
      n / m.blockSize + k ≤ (m.blocksOf s request.requestId).length)
    (run : cfg.coordinatorCacheBlocks s request n = .ok s') :
    Stable cfg hashes s' ∧ s'.reqToBlocks = s.reqToBlocks := by
  obtain ⟨inv, sameTables, sameAllocated⟩ : Inv cfg hashes s' ∧ s'.reqToBlocks = s.reqToBlocks ∧
      s'.allocatedBlockReqs = s.allocatedBlockReqs := by
    refine foldlM_keeps (fun t => Inv cfg hashes t ∧ t.reqToBlocks = s.reqToBlocks ∧
      t.allocatedBlockReqs = s.allocatedBlockReqs) (fun t m mem u before step => ?_)
      ⟨stable.toInv, rfl, rfl⟩ run
    obtain ⟨inv, sameTables, sameAllocated⟩ := before
    obtain ⟨cached, wf⟩ := cacheBlocks_spec inv.wf step
    refine ⟨inv.cache mem known cached wf fun k kind allocated => ?_,
      cached.reqToBlocks.trans sameTables, cached.allocatedBlockReqs.trans sameAllocated⟩
    rw [sameAllocated] at allocated
    have := room m mem k kind allocated
    have : cfg.numTokensToCache m n / m.blockSize ≤ n / m.blockSize :=
      Nat.div_le_div_right (numTokensToCache_le cfg m n)
    rw [blocksOf, sameTables]
    rw [blocksOf] at *
    omega
  refine ⟨⟨inv, fun m mem k kind r isFalse => ?_⟩, sameTables⟩
  rw [sameAllocated] at isFalse
  rw [blocksOf, sameTables]
  exact stable.settled m mem k kind r isFalse

theorem Inv.coordinatorAllocateNewBlocks (inv : Inv cfg hashes s)
    (caching : cfg.enableCaching = true) {main encoder : Nat} (pos : 0 < main)
    (ready : ∀ m ∈ cfg.managers, Ready s m r main) {blocks : List (List BlockId)}
    (run : cfg.allocateNewBlocks s r n main encoder = .ok (blocks, s')) :
    (Inv cfg hashes s' ∧ ∀ key : Nat × RequestId, key.2 ≠ r →
      s'.reqToBlocks.get key = s.reqToBlocks.get key ∧
        s'.allocatedBlockReqs key = s.allocatedBlockReqs key) ∧
      ∀ m ∈ cfg.managers, HasState s' m r main := by
  have loop : Ensures (fun _ : KVError => False) (fun acc => (Inv cfg hashes acc.2 ∧
      ∀ key : Nat × RequestId, key.2 ≠ r → acc.2.reqToBlocks.get key = s.reqToBlocks.get key ∧
        acc.2.allocatedBlockReqs key = s.allocatedBlockReqs key) ∧
      ∀ m ∈ cfg.managers, HasState acc.2 m r main)
      (cfg.allocateNewBlocks s r n main encoder) := by
    refine ensures_foldlM_each (fun acc : List (List BlockId) × KVState H => Inv cfg hashes acc.2 ∧ _)
      (fun m acc => Ready acc.2 m r main) (fun m acc => HasState acc.2 m r main)
      cfg.managers_nodup ?_ ⟨inv, fun _ _ => ⟨rfl, rfl⟩⟩ ready
    rintro acc m mem ⟨inv, frame⟩ ready -
    refine ⟨fun acc' step => ?_, fun _ _ => id⟩
    obtain ⟨⟨newBlocks, t⟩, allocated, step⟩ := bind_eq_ok.mp step
    cases step
    obtain ⟨inv', entry, has⟩ := inv.allocateNewBlocks mem caching pos ready allocated
    refine ⟨⟨inv', fun key other => ?_⟩, has, fun m' mem' ne => ?_⟩
    · have ne : key ≠ m.key r := fun isKey => other (congrArg Prod.snd isKey)
      rw [entry.tables.get_of_ne ne, entry.allocatedBlockReqs ne]
      exact frame key other
    · have ne := key_ne mem mem' ne.symm r r
      unfold Ready HasState
      rw [entry.allocatedBlockReqs ne, blocksOf, blocksOf, entry.tables.get_of_ne ne]
      exact ⟨id, id⟩
  exact loop.1 _ run

section Front

variable {N : Nat}

/-- What a manager puts into the request's table is the front of the free queue, and stands
behind what the table had. -/
structure TakesFront (N : Nat) (m : SingleTypeKVCacheManager) (r : RequestId) (s s' : KVState H)
    (taken : List BlockId) : Prop where
  wf : Wf N s'
  entry : OnlyEntry (m.key r) s s'
  queue : s.blockPool.freeBlockQueue.blocks = taken ++ s'.blockPool.freeBlockQueue.blocks
  behind : ∀ (i : Nat) (b : BlockId), (m.blocksOf s' r)[i]? = some b → b ≠ nullBlock →
    (m.blocksOf s r)[i]? = some b ∨ b ∈ taken

theorem TakesFront.of_grown {enableCaching : Bool} {kept blocks : List BlockId} (wf : Wf N s)
    (grown : Grown enableCaching (m.key r) s s' kept blocks)
    (old : ∀ (i : Nat) (b : BlockId), kept[i]? = some b → b ≠ nullBlock →
      (m.blocksOf s r)[i]? = some b) : TakesFront N m r s s' blocks := by
  refine ⟨wf.grow grown, grown.entry, ?_, fun i b found notNull => ?_⟩
  · obtain ⟨isBlocks, -, -, -, queue⟩ := wf.pool.of_getNewBlocks (Int.natCast_nonneg _) grown.run
    rw [Int.toNat_natCast] at isBlocks queue
    rw [queue, ← List.take_append_drop blocks.length s.blockPool.freeBlockQueue.blocks, ← isBlocks]
    simp
  · rw [blocksOf, grown.table, List.getElem?_append] at found
    split at found
    · exact .inl (old i b found notNull)
    · exact .inr (List.mem_of_getElem? found)

/-- `allocate_new_blocks` for a table without state blocks of its own. -/
theorem allocateNewBlocks_front (wf : Wf N s)
    (noState : ∀ k, m.kvCacheSpec.kind = .mamba .align k → s.allocatedBlockReqs (m.key r) = false)
    {main : Nat} {blocks : List BlockId}
    (run : m.allocateNewBlocks s r n main = .ok (blocks, s')) :
    ∃ taken, TakesFront N m r s s' taken ∧ taken.length =
      m.numNewBlocks (s.allocatedBlockReqs (m.key r)) n main (m.blocksOf s r).length := by
  have base : ∀ {tokens : Nat}, m.baseAllocateNewBlocks s r tokens = .ok (blocks, s') →
      ∃ taken, TakesFront N m r s s' taken ∧
        taken.length = cdiv tokens m.blockSize - (m.blocksOf s r).length := fun run =>
    have spec := baseAllocateNewBlocks_spec wf run
    ⟨blocks, .of_grown wf spec.1 fun _ _ found _ => found, spec.2.1⟩
  unfold SingleTypeKVCacheManager.allocateNewBlocks at run
  unfold numNewBlocks
  cases kind : m.kvCacheSpec.kind with
  | mamba mode k =>
    rw [kind] at run
    cases mode with
    | none | all => exact base run
    | align =>
      have isFalse := noState k kind
      have state : s.allocatedBlockReqs (m.key r) = true → k < (m.blocksOf s r).length := by
        simp [isFalse]
      rcases alignAllocateNewBlocks_spec wf state run with
        ⟨full, rfl⟩ | ⟨grows, newBlocks, grown, length, -⟩
      · refine ⟨[], ⟨wf, .refl _ _, rfl, fun _ _ found _ => .inl found⟩, ?_⟩
        simp [numNewStateBlocks, full]
      · have lacks := length_alignTable_add state grows
        refine ⟨newBlocks, .of_grown wf grown fun i b old notNull => ?_, by simp only; omega⟩
        rcases getElem?_alignTable old notNull with ⟨same, -⟩ | ⟨isTrue, -⟩
        · exact same
        · rw [isFalse] at isTrue
          cases isTrue
  | _ =>
    rw [kind] at run
    exact base run

/-- All managers' part. -/
theorem coordinatorAllocateNewBlocks_front {main encoder : Nat}
    {ms : List SingleTypeKVCacheManager} (sub : ∀ m ∈ ms, m ∈ cfg.managers) (nodup : ms.Nodup)
    {blocks blocks' : List (List BlockId)} (wf : Wf N s)
    (noState : ∀ m ∈ ms, ∀ k, m.kvCacheSpec.kind = .mamba .align k →
      s.allocatedBlockReqs (m.key r) = false)
    (run : ms.foldlM (fun acc m => do
      let (newBlocks, s) ← m.allocateNewBlocks acc.2 r
        (if m.kvCacheSpec.isCrossAttention then encoder else n) main
      return (acc.1 ++ [newBlocks], s)) (blocks, s) = .ok (blocks', s')) :
    (∀ m ∈ ms, ∀ (i : Nat) (b : BlockId), (m.blocksOf s' r)[i]? = some b → b ≠ nullBlock →
      (m.blocksOf s r)[i]? = some b ∨ b ∈ s.blockPool.freeBlockQueue.blocks.take
        (ms.map fun m => m.numNewBlocks (s.allocatedBlockReqs (m.key r))
          (if m.kvCacheSpec.isCrossAttention then encoder else n) main
          (m.blocksOf s r).length).sum) ∧
      ∀ key : Nat × RequestId, (∀ m ∈ ms, key ≠ m.key r) →
        s'.reqToBlocks.get key = s.reqToBlocks.get key := by
  induction ms generalizing s blocks with
  | nil =>
    cases run
    exact ⟨nofun, fun _ _ => rfl⟩
  | cons m rest ih =>
    obtain ⟨⟨_, s₁⟩, step, run⟩ := bind_eq_ok.mp run
    obtain ⟨⟨newBlocks, _⟩, allocated, step⟩ := bind_eq_ok.mp step
    cases step
    obtain ⟨taken, front, length⟩ := allocateNewBlocks_front wf (noState m (by simp)) allocated
    obtain ⟨notMem, nodup⟩ := List.nodup_cons.mp nodup
    have ne : ∀ m' ∈ rest, m'.key r ≠ m.key r := fun m' mem' =>
      key_ne (sub m (by simp)) (sub m' (by simp [mem'])) (fun same => notMem (same ▸ mem')) r r
    have same : ∀ m' ∈ rest, m'.blocksOf s₁ r = m'.blocksOf s r ∧
        s₁.allocatedBlockReqs (m'.key r) = s.allocatedBlockReqs (m'.key r) := fun m' mem' =>
      ⟨front.entry.tables.get_of_ne (ne m' mem'), front.entry.allocatedBlockReqs (ne m' mem')⟩
    obtain ⟨tables, frame⟩ := ih (fun m' mem' => sub m' (by simp [mem'])) nodup front.wf
      (fun m' mem' k kind => (same m' mem').2.trans (noState m' (by simp [mem']) k kind)) run
    rw [List.map_congr_left fun m' mem' => by rw [(same m' mem').1, (same m' mem').2]] at tables
    rw [List.map_cons, List.sum_cons, ← length, front.queue, List.take_length_add_append]
    refine ⟨fun m' mem' i b found notNull => ?_, fun key others => ?_⟩
    · rw [List.mem_append]
      rcases List.mem_cons.mp mem' with rfl | mem'
      · rw [blocksOf, frame (m'.key r) fun m'' mem'' same => ne m'' mem'' same.symm] at found
        exact (front.behind i b found notNull).imp id .inl
      · rw [← (same m' mem').1]
        exact (tables m' mem' i b found notNull).imp id .inr
    · exact (frame key fun m' mem' => others m' (by simp [mem'])).trans
        (front.entry.tables.get_of_ne (others m (by simp)))

end Front

omit [DecidableEq H] in
/-- A hit of a lookup carries the hash of its position. -/
theorem fits_of_passesHit (ok : CacheOk cfg.numBlocks s.blockPool)
    (keyed : ∀ b key, s.blockPool.blockHash b = some key → ∃ m ∈ cfg.managers,
      key.groupId = m.kvCacheGroupId ∧ 0 < m.scale ∧ key.blockHash.length = m.scale)
    (valid : cfg.Valid) (known : request.blockHashes <+: hashes request.requestId)
    {args : AllocateSlotsArgs} (passed : cfg.PassesHit s request args) (mem : m ∈ cfg.managers)
    {i : Nat} {b : BlockId} (notNull : b ≠ nullBlock)
    (found : ((cfg.newComputedBlockList args).getD m.kvCacheGroupId [])[i]? = some b) :
    ∃ key, s.blockPool.blockHash b = some key ∧ Fits hashes m request.requestId i key := by
  obtain ⟨hash, isHash, cached⟩ := (hitSound_of_passesHit valid passed mem).cached found notNull
  have isKey := (ok.mem_cached _ b).mp cached
  obtain ⟨m', mem', sameGroup, pos, length⟩ := keyed b _ isKey
  obtain rfl := manager_ext mem mem' sameGroup
  exact ⟨_, isKey, fits_of_hashAt known isHash pos length⟩

end Coordinator

section Calls

variable [DecidableEq H] (cfg : KVCacheConfig) (hashes : RequestId → List H)

/-- What the callers promise; moreover the block hashes of a request only grow,
towards `hashes`. -/
def Promised (s : KVState H) : Call H → Prop
  | .allocateSlots request args =>
    request.blockHashes <+: hashes request.requestId ∧ cfg.AllocatePromised s request args
  | .cacheBlocks request _ => request.blockHashes <+: hashes request.requestId
  | _ => True

/-- The hits and the external blocks of a call fit into the align-mode tables
before the speculative blocks. -/
def LeavesStateRoom (request : Request H) (args : AllocateSlotsArgs) : Prop :=
  ∀ m ∈ cfg.managers, ∀ k, m.kvCacheSpec.kind = .mamba .align k → k = 0 ∨
    ((m.hitTable ((cfg.newComputedBlockList args).getD m.kvCacheGroupId [])
      (numLocalAndExternalTokens request args)).length : Int) +
      numTaken (cfg.newComputedBlockList args) (numLocalComputedTokens request args)
        args.numExternalComputedTokens m ≤ cdiv (cfg.numTokensMainModel request args) m.blockSize

/-- No call takes a hit of its own for external or new tokens, and hits and cached
blocks stay away from the speculative blocks of an align-mode table. -/
def KeepsApart (s : KVState H) : Call H → Prop
  | .allocateSlots request args => cfg.hasNewComputed args = true →
      SparesHits (cfg.newComputedBlockList args) (numLocalComputedTokens request args)
        args.numExternalComputedTokens (cfg.managers.map (newCost cfg request args s)).sum
        s.blockPool.freeBlockQueue.blocks cfg.managers ∧
      LeavesStateRoom cfg request args
  | .cacheBlocks request n => ∀ m ∈ cfg.managers, ∀ k, m.kvCacheSpec.kind = .mamba .align k →
      s.allocatedBlockReqs (m.key request.requestId) = true →
      n / m.blockSize + k ≤ (m.blocksOf s request.requestId).length
  | _ => True

/-- What a call hands out stands behind its hits in the request's tables, and is no hit of
the call in any group. -/
def HandsOutFresh (request : Request H) (args : AllocateSlotsArgs) (s : KVState H) : Prop :=
  ∀ m ∈ cfg.managers, ∀ b ∈ (m.blocksOf s request.requestId).drop
      (m.hitTable (groupHits cfg args m) (numLocalAndExternalTokens request args)).length,
    b ≠ nullBlock → b ∉ (cfg.newComputedBlockList args).flatten

instance decidablePromised (s : KVState H) : (call : Call H) → Decidable (Promised cfg hashes s call)
  | .allocateSlots _ _ => inferInstanceAs (Decidable (_ ∧ _))
  | .cacheBlocks request _ =>
    inferInstanceAs (Decidable (request.blockHashes <+: hashes request.requestId))
  | .getComputedBlocks _ | .removeSkippedBlocks _ _ | .free _ | .newStepStarts =>
    inferInstanceAs (Decidable True)

instance decidableLeavesStateRoom (request : Request H) (args : AllocateSlotsArgs) :
    Decidable (LeavesStateRoom cfg request args) :=
  inferInstanceAs (Decidable (∀ m ∈ cfg.managers, ∀ k, m.kvCacheSpec.kind = .mamba .align k → _ ∨ _))

instance decidableKeepsApart (s : KVState H) : (call : Call H) → Decidable (KeepsApart cfg s call)
  | .allocateSlots _ _ => inferInstanceAs (Decidable (_ → _ ∧ _))
  | .cacheBlocks request n => inferInstanceAs (Decidable (∀ m ∈ cfg.managers, ∀ k,
      m.kvCacheSpec.kind = .mamba .align k →
      (s.allocatedBlockReqs (m.key request.requestId) = true →
        n / m.blockSize + k ≤ (m.blocksOf s request.requestId).length)))
  | .getComputedBlocks _ | .removeSkippedBlocks _ _ | .free _ | .newStepStarts =>
    inferInstanceAs (Decidable True)

variable {cfg hashes} {s s' : KVState H}

variable {request : Request H} {args : AllocateSlotsArgs}

section

variable (stable : Stable cfg hashes s)
include stable

/-- The stage of `allocate_slots` that puts hits and external blocks into the
tables. -/
theorem Stable.computed (caching : cfg.enableCaching = true)
    (noCross : ∀ m ∈ cfg.managers, m.kvCacheSpec.isCrossAttention = false)
    (distinct : (hashes request.requestId).Nodup)
    (hashed : ∀ m ∈ cfg.managers, HitsHashed (cfg.newComputedBlockList args)
      (numLocalComputedTokens request args) args.numExternalComputedTokens hashes
      request.requestId s m)
    (isNew : cfg.hasNewComputed args = true → cfg.IsNew s request.requestId)
    (apart : KeepsApart cfg s (.allocateSlots request args))
    (run : cfg.allocateComputed request args s = .ok s') :
    Inv cfg hashes s' ∧
      (∀ m ∈ cfg.managers, Ready s' m request.requestId (cfg.numTokensMainModel request args)) ∧
      s'.allocatedBlockReqs = s.allocatedBlockReqs ∧
      (∀ key : Nat × RequestId, key.2 ≠ request.requestId →
        s'.reqToBlocks.get key = s.reqToBlocks.get key) ∧
      (cfg.hasNewComputed args = true → HandsOutFresh cfg request args s' ∧
        (∀ b ∈ s'.blockPool.freeBlockQueue.blocks.take
          (cfg.managers.map (newCost cfg request args s)).sum,
            b ∉ (cfg.newComputedBlockList args).flatten) ∧
        ∀ m ∈ cfg.managers, lengthBefore cfg request args s m =
          (m.blocksOf s' request.requestId).length) := by
  unfold allocateComputed at run
  split at run
  · rename_i someNew
    obtain ⟨spares, room⟩ := apart someNew
    obtain ⟨inv, tables, queue, sameAllocated, frame⟩ := stable.toInv.allocateNewComputedBlocks caching
      noCross distinct (fun _ mem => mem) cfg.managers_nodup (isNew someNew) hashed spares run
    refine ⟨inv, fun m mem k kind _ => (room m mem k kind).imp id fun le => ?_, sameAllocated,
      fun key other => ?_, fun _ => ⟨fun m mem b new _ => (tables m mem).2.2 b new, queue,
      fun m mem => ?_⟩⟩
    · have := (tables m mem).2.1
      rw [numLocalAndExternalTokens] at le
      omega
    · exact frame key fun m _ isKey => other (congrArg Prod.snd isKey)
    · obtain ⟨nonneg, length, -⟩ := tables m mem
      have starts : startsTable cfg args m = true := by simp [startsTable, someNew, noCross m mem]
      rw [lengthBefore, if_pos starts, groupHits, externalCost, numLocalAndExternalTokens]
      omega
  · rename_i noNew
    cases run
    refine ⟨stable.toInv, fun m mem k kind isFalse => ?_, rfl, fun _ _ => rfl,
      fun someNew => absurd someNew noNew⟩
    refine (stable.settled m mem k kind request.requestId isFalse).imp id fun empty => ?_
    rw [empty]
    exact Nat.zero_le _

theorem Stable.allocateSlots (valid : cfg.Valid) (caching : cfg.enableCaching = true)
    (noCross : ∀ m ∈ cfg.managers, m.kvCacheSpec.isCrossAttention = false)
    (distinct : (hashes request.requestId).Nodup)
    (promised : Promised cfg hashes s (.allocateSlots request args))
    (apart : KeepsApart cfg s (.allocateSlots request args)) {result : Option (List (List BlockId))}
    (run : cfg.allocateSlots request args s = .ok (result, s')) :
    Stable cfg hashes s' ∧ (result.isSome = true → HandsOutFresh cfg request args s') := by
  obtain ⟨known, ⟨passed, isNew⟩⟩ := promised
  rcases allocateSlots_cases run with ⟨rfl, rfl⟩ | ⟨someNew, s₁, removed, rest⟩
  · exact ⟨stable, nofun⟩
  obtain ⟨stable₁, skipped⟩ := stable.removeSkippedBlocks removed
  rcases rest with ⟨rfl, rfl⟩ | ⟨n, newBlocks, s₃, -, -, allocated, committed, -⟩
  · exact ⟨stable₁, nofun⟩
  obtain ⟨s₂, computed, allocated⟩ := bind_eq_ok.mp allocated
  -- A request that comes with hits has no blocks to skip, so its hits are still where
  -- the lookup found them.
  have samePool : cfg.hasNewComputed args = true → s₁.blockPool = s.blockPool := fun hasNew =>
    skipped.pool_of_nil fun m mem => (isNew hasNew m mem).1
  have apart₁ : KeepsApart cfg s₁ (.allocateSlots request args) := by
    intro hasNew
    have sameCost : newCost cfg request args s₁ = newCost cfg request args s := by
      funext m
      rw [newCost, newCost, lengthBefore, lengthBefore, skipped.allocatedBlockReqs, skipped.length]
    rw [samePool hasNew, sameCost]
    exact apart hasNew
  have hashed : ∀ m ∈ cfg.managers, HitsHashed (cfg.newComputedBlockList args)
      (numLocalComputedTokens request args) args.numExternalComputedTokens hashes
      request.requestId s₁ m := by
    intro m mem
    unfold HitsHashed
    rw [skipped.blockHash]
    exact fun i b found notNull _ => fits_of_passesHit stable.wf.pool.toCacheOk stable.keyed valid
      known passed mem notNull found
  have isNew₁ : cfg.hasNewComputed args = true → cfg.IsNew s₁ request.requestId := fun hasNew =>
    skipped.isNew (isNew hasNew)
  obtain ⟨inv₂, ready, sameAllocated₂, frame₂, starts⟩ :=
    stable₁.computed caching noCross distinct hashed isNew₁ apart₁ computed
  obtain ⟨⟨inv₃, frame₃⟩, has⟩ := inv₂.coordinatorAllocateNewBlocks caching
    (valid.numTokensMainModel_pos someNew) ready allocated
  have stable₃ : Stable cfg hashes s₃ := by
    refine ⟨inv₃, fun m mem k kind r isFalse => ?_⟩
    rcases eq_or_ne r request.requestId with rfl | isRequest
    · rcases (has m mem k kind).2 with isTrue | zero
      · rw [isTrue] at isFalse
        cases isFalse
      · exact .inl zero
    · obtain ⟨sameTable₃, sameAllocated₃⟩ := frame₃ (m.key r) isRequest
      rw [blocksOf, sameTable₃, frame₂ (m.key r) isRequest]
      rw [sameAllocated₃, sameAllocated₂] at isFalse
      exact stable₁.settled m mem k kind r isFalse
  have fresh₃ : HandsOutFresh cfg request args s₃ := by
    intro m mem b new notNull isHit
    have hasNew : cfg.hasNewComputed args = true := by
      obtain ⟨group, memGroup, isHit⟩ := List.mem_flatten.mp isHit
      refine Bool.or_eq_true_iff.mpr (.inl (List.any_eq_true.mpr ⟨group, memGroup, ?_⟩))
      simpa using List.ne_nil_of_mem isHit
    obtain ⟨fresh₂, queue, lengths⟩ := starts hasNew
    have noState : ∀ m ∈ cfg.managers, ∀ k, m.kvCacheSpec.kind = .mamba .align k →
        s₂.allocatedBlockReqs (m.key request.requestId) = false := by
      intro m mem k kind
      rw [sameAllocated₂]
      exact stable₁.not_allocated_of_nil mem kind (isNew₁ hasNew m mem).1
    obtain ⟨i, at_i⟩ := List.mem_iff_getElem?.mp new
    rw [List.getElem?_drop] at at_i
    rcases (coordinatorAllocateNewBlocks_front (fun _ mem => mem) cfg.managers_nodup inv₂.wf noState
      allocated).1 m mem _ b at_i notNull with old | taken
    · rw [← List.getElem?_drop] at old
      exact fresh₂ m mem b (List.mem_of_getElem? old) notNull isHit
    · refine queue b ?_ isHit
      rwa [List.map_congr_left fun m mem => by
        rw [newCost, lengths m mem, ← sameAllocated₂]]
  unfold commit at committed
  split at committed
  · cases committed
    exact ⟨stable₃, fun _ => fresh₃⟩
  · suffices cached : Stable cfg hashes s' ∧ s'.reqToBlocks = s₃.reqToBlocks by
      refine ⟨cached.1, fun _ => ?_⟩
      unfold HandsOutFresh SingleTypeKVCacheManager.blocksOf
      rw [cached.2]
      exact fresh₃
    refine stable₃.coordinatorCacheBlocks known (fun m mem k kind _ => ?_) committed
    have le : cfg.numTokensToCommit request args / m.blockSize ≤
        cdiv (cfg.numTokensMainModel request args) m.blockSize :=
      (Nat.div_le_div_right (Nat.min_le_left _ _)).trans (div_le_cdiv m.blockSize_pos)
    have := (has m mem k kind).1
    omega

theorem Stable.step (valid : cfg.Valid) (caching : cfg.enableCaching = true)
    (noCross : ∀ m ∈ cfg.managers, m.kvCacheSpec.isCrossAttention = false)
    (distinct : ∀ r, (hashes r).Nodup) {call : Call H} (promised : Promised cfg hashes s call)
    (apart : KeepsApart cfg s call) (run : cfg.step s call s') : Stable cfg hashes s' := by
  unfold KVCacheConfig.step Steps.succeeds KVCacheConfig.exec at run
  cases call with
  | getComputedBlocks request =>
    obtain ⟨-, -, run⟩ := bind_eq_ok.mp run
    cases run
    exact stable
  | allocateSlots request args =>
    obtain ⟨⟨result, t⟩, allocated, run⟩ := bind_eq_ok.mp run
    cases run
    exact (stable.allocateSlots valid caching noCross (distinct _) promised apart allocated).1
  | cacheBlocks request n =>
    simp only [KVCacheConfig.cacheBlocks, caching] at run
    exact (stable.coordinatorCacheBlocks promised apart run).1
  | removeSkippedBlocks r n => exact (stable.removeSkippedBlocks run).1
  | free r =>
    cases run
    exact stable.free r
  | newStepStarts =>
    cases run
    exact stable.newStepStarts

end

end Calls

/-! ### Isolation -/

section Isolation

variable (cfg : KVCacheConfig) (hashes : RequestId → List H)

/-- A block at two positions is a hit of both: they are of one group, and the block
is cached under the hash that both look up. -/
def Isolated (s : KVState H) : Prop :=
  ∀ m ∈ cfg.managers, ∀ m' ∈ cfg.managers, ∀ (r r' : RequestId) (i i' : Nat) (b : BlockId),
    (m.blocksOf s r)[i]? = some b → (m'.blocksOf s r')[i']? = some b → b ≠ nullBlock →
    (m.kvCacheGroupId, r, i) ≠ (m'.kvCacheGroupId, r', i') →
    m.kvCacheGroupId = m'.kvCacheGroupId ∧ ∃ hash,
      s.blockPool.blockHash b = some ⟨hash, m.kvCacheGroupId⟩ ∧
      hashAt (hashes r) m.scale i = .ok hash ∧ hashAt (hashes r') m'.scale i' = .ok hash

/-- One request holds a block at one position of one group. -/
def HoldsOnce (s : KVState H) : Prop :=
  ∀ m ∈ cfg.managers, ∀ m' ∈ cfg.managers, ∀ (r : RequestId) (i i' : Nat) (b : BlockId),
    (m.blocksOf s r)[i]? = some b → (m'.blocksOf s r)[i']? = some b → b ≠ nullBlock →
    m.kvCacheGroupId = m'.kvCacheGroupId ∧ i = i'

variable {cfg hashes}

theorem Fits.hashAt_eq {m : SingleTypeKVCacheManager} {r : RequestId} {i : Nat}
    {key : BlockHashWithGroupId H} (fits : Fits hashes m r i key) :
    hashAt (hashes r) m.scale i = .ok key.blockHash := by
  obtain ⟨-, -, inside, hash⟩ := fits
  unfold hashAt
  split
  · rename_i one
    rw [one] at inside
    rw [one, Nat.mul_one, List.drop_eq_getElem_cons (by omega)] at hash
    rw [List.getElem?_eq_getElem (by omega), hash]
    rfl
  · rw [hash]

variable {s : KVState H}

theorem Inv.isolated (inv : Inv cfg hashes s) : Isolated cfg hashes s := by
  intro m mem m' mem' r r' i i' b at_i at_i' notNull ne
  obtain ⟨fits, single⟩ := inv.tagged m mem r i b at_i notNull
  cases isHash : s.blockPool.blockHash b with
  | none =>
    obtain ⟨sameKey, sameIdx⟩ := inv.wf.position_unique at_i at_i' notNull (single isHash)
    have group : m'.kvCacheGroupId = m.kvCacheGroupId := congrArg Prod.fst sameKey
    have request : r' = r := congrArg Prod.snd sameKey
    exact absurd (by rw [group, request, sameIdx]) ne
  | some key =>
    have fits := fits key isHash
    have fits' := (inv.tagged m' mem' r' i' b at_i' notNull).1 key isHash
    refine ⟨fits.1.symm.trans fits'.1, key.blockHash, ?_, fits.hashAt_eq, fits'.hashAt_eq⟩
    rw [← fits.1]

theorem Inv.holdsOnce (inv : Inv cfg hashes s) (distinct : ∀ r, (hashes r).Nodup) :
    HoldsOnce cfg s := by
  intro m mem m' mem' r i i' b at_i at_i' notNull
  obtain ⟨fits, single⟩ := inv.tagged m mem r i b at_i notNull
  cases isHash : s.blockPool.blockHash b with
  | none =>
    obtain ⟨sameKey, sameIdx⟩ := inv.wf.position_unique at_i at_i' notNull (single isHash)
    exact ⟨(congrArg Prod.fst sameKey).symm, sameIdx.symm⟩
  | some key =>
    have fits := fits key isHash
    have fits' := (inv.tagged m' mem' r i' b at_i' notNull).1 key isHash
    have sameGroup := fits.1.symm.trans fits'.1
    obtain rfl := manager_ext mem mem' sameGroup
    exact ⟨rfl, Fits.inj (distinct r) fits fits'⟩

variable [DecidableEq H]

/-- In every run in which the callers keep their promises and no call takes a hit of
its own, block tables are isolated, and what a call hands out is none of its hits. -/
theorem isolated_of_run {B : BlockHasher H} (inj : Function.Injective B.hashFn)
    (fresh : ∀ input, B.hashFn input ≠ B.noneHash) (valid : cfg.Valid)
    (caching : cfg.enableCaching = true)
    (noCross : ∀ m ∈ cfg.managers, m.kvCacheSpec.isCrossAttention = false)
    (chained : ∀ r, B.Chained (hashes r)) {calls : List (Call H)}
    (run : Run (guarded (fun s call => Promised cfg hashes s call ∧ KeepsApart cfg s call) cfg.step)
      (KVState.init H cfg.numBlocks) calls s) :
    Isolated cfg hashes s ∧ HoldsOnce cfg s ∧ ∀ (request : Request H) (args : AllocateSlotsArgs),
      Promised cfg hashes s (.allocateSlots request args) →
      KeepsApart cfg s (.allocateSlots request args) → ∀ newBlocks s',
      cfg.allocateSlots request args s = .ok (some newBlocks, s') →
      HandsOutFresh cfg request args s' := by
  have distinct : ∀ r, (hashes r).Nodup := fun r => (chained r).nodup inj fresh
  have start : Stable cfg hashes (KVState.init H cfg.numBlocks) :=
    ⟨.init hashes valid.numBlocks, fun m _ k _ r _ => .inr rfl⟩
  have stable : Stable cfg hashes s := by
    refine run.invariant (Stable cfg hashes) (fun stable step => ?_) start
    obtain ⟨⟨promised, apart⟩, step⟩ := step
    exact stable.step valid caching noCross distinct promised apart step
  refine ⟨stable.toInv.isolated, stable.toInv.holdsOnce distinct, ?_⟩
  intro request args promised apart newBlocks s' run
  exact (stable.allocateSlots valid caching noCross (distinct _) promised apart run).2 rfl

end Isolation

/-! ### An external block that is a hit -/

def fullGroup : KVCacheGroupSpec := ⟨⟨.fullAttention, 1, 1, 0, Nat.one_pos⟩, false⟩

def windowGroup : KVCacheGroupSpec := ⟨⟨.slidingWindow 4, 1, 1, 0, Nat.one_pos⟩, false⟩

/-- A full-attention group and a sliding-window group over four blocks. -/
def fullAndWindow : KVCacheConfig where
  kvCacheGroups := [fullGroup, windowGroup]
  numBlocks := 5
  maxModelLen := 8
  maxNumBatchedTokens := 8
  schedulerBlockSize := 1
  hashBlockSize := 1

theorem fullAndWindow_valid : fullAndWindow.Valid :=
  ⟨by decide, by decide, by decide, fun _ => rfl, by decide⟩

/-- The tokens of three requests; the last one starts with the first one's. -/
def tokensOf : RequestId → List TokenId
  | 0 => [7]
  | 1 => [5]
  | _ => [7, 8, 9]

def tokenRequest (r : RequestId) : Request SymbolicHash :=
  (symbolicHasher 1 Nat.one_pos).updateBlockHashes
    { requestId := r, allTokenIds := tokensOf r, promptTokenIds := tokensOf r }

def tokenHashes (r : RequestId) : List SymbolicHash := (tokenRequest r).blockHashes

/-- The third request hits its first token in both groups, and a connector loads its
second token. -/
def loadSecondToken : AllocateSlotsArgs :=
  { numNewTokens := 0, numNewComputedTokens := 1, newComputedBlocks := some [[1], [2]],
    numExternalComputedTokens := 1, delayCacheBlocks := true }

/-- The first request's blocks are the first in the free queue. -/
def externalTakesHit : List (Call SymbolicHash) :=
  [.allocateSlots (tokenRequest 0) { numNewTokens := 1 },
    .allocateSlots (tokenRequest 1) { numNewTokens := 1 }, .free 0, .free 1,
    .allocateSlots (tokenRequest 2) loadSecondToken]

/-- The full-attention group takes the sliding-window group's hit for the external
token, so that block 2 holds two different tokens of one request. -/
theorem externalTakesHit_not_isolated :
    fullAndWindow.Valid ∧ fullAndWindow.enableCaching = true ∧
      ∃ s, Run (guarded (Promised fullAndWindow tokenHashes) fullAndWindow.step)
        (KVState.init SymbolicHash 5) externalTakesHit s ∧
      ¬ Isolated fullAndWindow tokenHashes s ∧ ¬ HoldsOnce fullAndWindow s ∧
      ¬ HandsOutFresh fullAndWindow (tokenRequest 2) loadSecondToken s := by
  have final : (externalTakesHit.foldlM fullAndWindow.exec (KVState.init SymbolicHash 5)).map
      (fun s => ((fullAndWindow.manager fullGroup 0).blocksOf s 2,
        (fullAndWindow.manager windowGroup 1).blocksOf s 2)) = .ok ([1, 2], [2, 3]) := by decide
  obtain ⟨s, ends, tables⟩ := map_eq_ok.mp final
  obtain ⟨full, window⟩ := Prod.mk.inj tables
  have memFull : fullAndWindow.manager fullGroup 0 ∈ fullAndWindow.managers :=
    List.mem_cons_self
  have memWindow : fullAndWindow.manager windowGroup 1 ∈ fullAndWindow.managers :=
    List.mem_cons_of_mem _ List.mem_cons_self
  refine ⟨fullAndWindow_valid, rfl, s, .of_alongOk (by decide) ends, fun isolated => ?_,
    fun once => ?_, fun fresh => ?_⟩
  · have sameGroup := (isolated _ memFull _ memWindow 2 2 1 0 2 (by rw [full]; rfl)
      (by rw [window]; rfl) (by decide) (by decide)).1
    exact absurd sameGroup (by decide)
  · have sameGroup := (once _ memFull _ memWindow 2 1 0 2 (by rw [full]; rfl)
      (by rw [window]; rfl) (by decide)).1
    exact absurd sameGroup (by decide)
  · refine fresh _ memFull 2 ?_ (by decide) (by decide)
    rw [show (fullAndWindow.manager fullGroup 0).blocksOf s (tokenRequest 2).requestId = _ from full]
    decide

/-- The third request comes while the first one holds its blocks. -/
theorem externalTakesFresh_isolated :
    ∃ s newBlocks t, [.allocateSlots (tokenRequest 0) { numNewTokens := 1 }].foldlM
        fullAndWindow.exec (KVState.init SymbolicHash 5) = .ok s ∧
      fullAndWindow.allocateSlots (tokenRequest 2) loadSecondToken s = .ok (some newBlocks, t) ∧
      (fullAndWindow.manager fullGroup 0).blocksOf t 0 = [1] ∧
      (fullAndWindow.manager fullGroup 0).blocksOf t 2 = [1, 3] ∧
      HandsOutFresh fullAndWindow (tokenRequest 2) loadSecondToken t := by
  have final : ([.allocateSlots (tokenRequest 0) { numNewTokens := 1 }].foldlM fullAndWindow.exec
      (KVState.init SymbolicHash 5)).map (fun s => (
        decide (Promised fullAndWindow tokenHashes s (.allocateSlots (tokenRequest 2) loadSecondToken) ∧
          KeepsApart fullAndWindow s (.allocateSlots (tokenRequest 2) loadSecondToken)),
        (fullAndWindow.allocateSlots (tokenRequest 2) loadSecondToken s).map fun result =>
          (result.1, (fullAndWindow.manager fullGroup 0).blocksOf result.2 0,
            (fullAndWindow.manager fullGroup 0).blocksOf result.2 2))) =
      .ok (true, .ok (some [[], []], [1], [1, 3])) := by rfl
  obtain ⟨s, ends, facts⟩ := map_eq_ok.mp final
  obtain ⟨meets, facts⟩ := Prod.mk.inj facts
  obtain ⟨promised, apart⟩ := of_decide_eq_true meets
  obtain ⟨⟨result, t⟩, allocated, facts⟩ := map_eq_ok.mp facts
  obtain ⟨rfl, tables⟩ := Prod.mk.inj facts
  obtain ⟨first, third⟩ := Prod.mk.inj tables
  have chained : ∀ r, (symbolicHasher 1 Nat.one_pos).Chained (tokenHashes r) := fun r =>
    .updateBlockHashes (BlockHasher.chained_nil _)
  have safe := isolated_of_run (symbolicHasher_injective 1 _) nofun fullAndWindow_valid rfl (by decide)
    chained (.of_alongOk (by decide) ends)
  exact ⟨s, _, t, ends, allocated, first, third, safe.2.2 _ _ promised apart _ _ allocated⟩

end Vllm.KVCache
