import Vllm.Offload.Tiering
import Vllm.Lib.Steps

/-!
Runs of the tiered offloading manager.

A run is seen together with the loads and stores of the GPU that are under way. The
callers complete each of them once, with the keys that it was prepared for; the secondary
tiers report jobs in any order, successful or not. `tiers_safe_of_run` says that no block of the
CPU tier is reused under a transfer.
-/

namespace Vllm.Offload

open Vllm.Lib Vllm.Lib.Fallible Vllm.Lib.Steps TieringOffloadingManager Multiset

variable {K F : Type}

/-! ### Runs -/

/-- The calls of the manager, with what the secondary tiers answer to them. -/
inductive TierCall (K : Type) where
  | lookup (key : K) (req : ReqId) (answers : List (Option Bool)) (finished : List (JobId × Bool))
  | prepareLoad (keys : List K) (finished : List (JobId × Bool))
  | completeLoad (keys : List K)
  | prepareStore (keys : List K) (req : ReqId) (finished : List (JobId × Bool))
  | completeStore (keys : List K) (success : Bool)
  | onScheduleEnd (finished : List (JobId × Bool))
  | touch (keys : List K)
  | onNewRequest (req : ReqId) (tiers : List TierIdx)
  | onRequestFinished (req : ReqId)

/-- The manager and the transfers of the GPU that are under way. -/
structure TierState (K F : Type) where
  manager : TieringOffloadingManager K F
  gpuLoads : List (Transfer K) := []
  gpuStores : List (Transfer K) := []

namespace TierState

variable [DecidableEq K]

def init (K F : Type) [PyFloat F] (numBlocks : Nat) (cachePolicy : PolicyKind)
    (numSecondaryTiers : Nat) : TierState K F :=
  ⟨{ primaryTier := .new K F numBlocks cachePolicy, numSecondaryTiers }, [], []⟩

/-- The transfers without the first one of these keys. -/
def complete (transfers : List (Transfer K)) (keys : List K) : List (Transfer K) :=
  transfers.eraseP fun transfer => transfer.keys = keys

def exec [PyFloat F] (s : TierState K F) : TierCall K → Except TierError (TierState K F)
  | .lookup key req answers finished => do
    let (_, manager) ← s.manager.lookup key req answers finished
    return { s with manager }
  | .prepareLoad keys finished => do
    let (blockIds, manager) ← s.manager.prepareLoad keys finished
    return { s with manager, gpuLoads := ⟨keys, blockIds⟩ :: s.gpuLoads }
  | .completeLoad keys => do
    let manager ← s.manager.completeLoad keys
    return { s with manager, gpuLoads := complete s.gpuLoads keys }
  | .prepareStore keys req finished => do
    let (out, manager) ← s.manager.prepareStore keys req finished
    match out with
    | none => return { s with manager }
    | some out =>
      return { s with manager, gpuStores := ⟨out.keysToStore, out.blockIds⟩ :: s.gpuStores }
  | .completeStore keys success => do
    let manager ← s.manager.completeStore keys success
    return { s with manager, gpuStores := complete s.gpuStores keys }
  | .onScheduleEnd finished => do
    let manager ← s.manager.onScheduleEnd finished
    return { s with manager }
  | .touch keys => .ok { s with manager := s.manager.touch keys }
  | .onNewRequest req tiers => .ok { s with manager := s.manager.onNewRequest req tiers }
  | .onRequestFinished req => .ok { s with manager := s.manager.onRequestFinished req }

/-- The keys of a call are distinct, and each completion is of something under way. -/
def Allowed (s : TierState K F) : TierCall K → Prop
  | .prepareLoad keys _ | .prepareStore keys _ _ => keys.Nodup
  | .completeLoad keys => ∃ transfer ∈ s.gpuLoads, transfer.keys = keys
  | .completeStore keys _ => ∃ transfer ∈ s.gpuStores, transfer.keys = keys
  | _ => True

/-- All transfers that are under way: those of the GPU, the jobs of the secondary tiers,
and the promotions that wait for the end of the step. -/
def outstanding (s : TierState K F) : List (Transfer K) :=
  s.gpuLoads ++ s.gpuStores ++ s.manager.transferJobs.entries.map (·.2.toTransfer) ++
    s.manager.pendingLoadSubmissions.entries.flatMap fun tier => tier.2.entries.map (·.2)

/-- Blocks of the CPU tier are not reused under a transfer. -/
structure Safe (s : TierState K F) : Prop where
  /-- An allocated block is free, or one key holds it. -/
  partition : ∀ id < s.manager.primaryTier.numAllocatedBlocks,
    (id ∈ s.manager.primaryTier.freeList ∧
      ∀ key block, s.manager.primaryTier.policy.get key = some block → block.blockId ≠ id) ∨
    (id ∉ s.manager.primaryTier.freeList ∧
      ∃! key, ∃ block, s.manager.primaryTier.policy.get key = some block ∧ block.blockId = id)
  /-- The counter of a ready block is the number of its loads and cascades. -/
  refCnt : ∀ key block, s.manager.primaryTier.policy.get key = some block → block.IsReady →
    block.refCnt = (s.gpuLoads.filter (key ∈ ·.keys)).length +
      (s.manager.transferJobs.entries.filter fun entry =>
        entry.2.isPromotion = false ∧ key ∈ entry.2.keys).length
  /-- The keys of a transfer hold its blocks. -/
  pinned : ∀ transfer ∈ s.outstanding,
    List.Forall₂ (fun key id => ∃ block, s.manager.primaryTier.policy.get key = some block ∧
      block.blockId = id) transfer.keys transfer.blockIds

/-! ### The invariant of runs -/

/-- A transfer of distinct keys, with a block for each. -/
structure WellFormed (transfer : Transfer K) : Prop where
  aligned : transfer.blockIds.length = transfer.keys.length
  distinct : transfer.keys.Nodup

def pairsOf (transfers : List (Transfer K)) : Multiset (K × Nat) :=
  (transfers : Multiset (Transfer K)).bind Transfer.pairs

structure Ok (s : TierState K F) : Prop where
  tiersOk : s.manager.TiersOk (pairsOf s.gpuLoads) (pairsOf s.gpuStores)
  loads : ∀ transfer ∈ s.gpuLoads, WellFormed transfer
  stores : ∀ transfer ∈ s.gpuStores, WellFormed transfer

variable {s s' : TierState K F}

theorem ok_init [PyFloat F] (numBlocks : Nat) (cachePolicy : PolicyKind) (numSecondaryTiers : Nat) :
    (init K F numBlocks cachePolicy numSecondaryTiers).Ok := by
  refine ⟨⟨?_, ?_⟩, nofun, nofun⟩
  · constructor
    all_goals exact fun _ _ found => by simp [init] at found
  · exact CPUOffloadingManager.transfersOk_new numBlocks cachePolicy

omit [DecidableEq K] in
theorem pairsOf_cons (transfer : Transfer K) (transfers : List (Transfer K)) :
    pairsOf (transfer :: transfers) = transfer.pairs + pairsOf transfers := by
  rw [pairsOf, ← cons_coe, cons_bind, pairsOf]

variable {transfers : List (Transfer K)} {keys : List K} {transfer : Transfer K}

/-- A completed transfer is one of those under way. -/
theorem pairsOf_complete (matching : ∃ transfer ∈ transfers, transfer.keys = keys) :
    ∃ transfer ∈ transfers, transfer.keys = keys ∧
      pairsOf transfers = transfer.pairs + pairsOf (complete transfers keys) := by
  obtain ⟨found, memFound, isKeys⟩ := matching
  obtain ⟨transfer, before, after, -, isFirst, split, erased⟩ :=
    List.exists_of_eraseP (p := fun transfer : Transfer K => decide (transfer.keys = keys)) memFound
      (by simpa using isKeys)
  refine ⟨transfer, by simp [split], by simpa using isFirst, ?_⟩
  have perm : (transfers : Multiset (Transfer K)) = (transfer :: (before ++ after) : List _) := by
    rw [split]
    exact coe_eq_coe.mpr List.perm_middle
  rw [pairsOf, perm, complete, erased]
  exact pairsOf_cons transfer (before ++ after)

theorem Ok.exec [PyFloat F] (ok : s.Ok) {call : TierCall K} (allowed : s.Allowed call)
    (run : s.exec call = .ok s') : s'.Ok := by
  cases call with
  | lookup key req answers finished =>
    obtain ⟨⟨answer, manager⟩, found, run⟩ := bind_eq_ok.mp run
    cases run
    exact ⟨ok.tiersOk.lookup found, ok.loads, ok.stores⟩
  | prepareLoad keys finished =>
    obtain ⟨⟨blockIds, manager⟩, prepared, run⟩ := bind_eq_ok.mp run
    cases run
    obtain ⟨aligned, tiersOk⟩ := ok.tiersOk.prepareLoad prepared
    refine ⟨by rw [pairsOf_cons]; exact tiersOk, ?_, ok.stores⟩
    exact List.forall_mem_cons.mpr ⟨⟨aligned, allowed⟩, ok.loads⟩
  | completeLoad keys =>
    obtain ⟨manager, completed, run⟩ := bind_eq_ok.mp run
    cases run
    obtain ⟨transfer, mem, rfl, pairs⟩ := pairsOf_complete allowed
    have tiersOk := ok.tiersOk
    rw [pairs] at tiersOk
    exact ⟨tiersOk.completeLoad (ok.loads transfer mem).aligned completed,
      fun other memOther => ok.loads other (List.mem_of_mem_eraseP memOther), ok.stores⟩
  | prepareStore keys req finished =>
    obtain ⟨⟨out, manager⟩, prepared, run⟩ := bind_eq_ok.mp run
    obtain ⟨isNone, isSome⟩ := ok.tiersOk.prepareStore allowed prepared
    cases out with
    | none =>
      cases run
      exact ⟨isNone rfl, ok.loads, ok.stores⟩
    | some out =>
      cases run
      obtain ⟨distinct, aligned, tiersOk⟩ := isSome out rfl
      refine ⟨by rw [pairsOf_cons]; exact tiersOk, ok.loads, ?_⟩
      exact List.forall_mem_cons.mpr ⟨⟨aligned, distinct⟩, ok.stores⟩
  | completeStore keys success =>
    obtain ⟨manager, completed, run⟩ := bind_eq_ok.mp run
    cases run
    obtain ⟨transfer, mem, rfl, pairs⟩ := pairsOf_complete allowed
    have tiersOk := ok.tiersOk
    rw [pairs] at tiersOk
    have wellFormed := ok.stores transfer mem
    exact ⟨tiersOk.completeStore wellFormed.distinct wellFormed.aligned completed, ok.loads,
      fun other memOther => ok.stores other (List.mem_of_mem_eraseP memOther)⟩
  | onScheduleEnd finished =>
    obtain ⟨manager, ended, run⟩ := bind_eq_ok.mp run
    cases run
    exact ⟨ok.tiersOk.onScheduleEnd ended, ok.loads, ok.stores⟩
  | touch keys =>
    cases run
    exact ⟨ok.tiersOk.setPrimary (ok.tiersOk.transfers.touch keys), ok.loads, ok.stores⟩
  | onNewRequest req tiers =>
    cases run
    refine ⟨?_, ok.loads, ok.stores⟩
    unfold onNewRequest
    split
    · exact ok.tiersOk
    · exact ⟨{ ok.tiersOk.jobsWf with }, ok.tiersOk.transfers⟩
  | onRequestFinished req =>
    cases run
    exact ⟨⟨{ ok.tiersOk.jobsWf with }, ok.tiersOk.transfers⟩, ok.loads, ok.stores⟩

/-! ### What the invariant says -/

open CPUOffloadingManager (TransfersOk countOf)

/-- An id is in one place only. -/
theorem partition_of_transfersOk {m : CPUOffloadingManager K F} {readers writers : Multiset (K × Nat)}
    (ok : m.TransfersOk readers writers) {id : Nat} (lt : id < m.numAllocatedBlocks) :
    (id ∈ m.freeList ∧ ∀ key block, m.policy.get key = some block → block.blockId ≠ id) ∨
    (id ∉ m.freeList ∧ ∃! key, ∃ block, m.policy.get key = some block ∧ block.blockId = id) := by
  have nodup : ((m.freeList : Multiset Nat) + m.policy.contents.map (·.2.blockId)).Nodup := by
    rw [ok.partition]
    exact nodup_range _
  obtain ⟨-, distinctIds, disjoint⟩ := nodup_add.mp nodup
  have notBoth : ∀ id ∈ m.freeList, id ∉ m.policy.contents.map (·.2.blockId) :=
    fun id isFree => disjoint_left.mp disjoint isFree
  have mem : id ∈ (m.freeList : Multiset Nat) + m.policy.contents.map (·.2.blockId) := by
    rw [ok.partition]
    exact mem_range.mpr lt
  rcases mem_add.mp mem with isFree | isHeld
  · left
    refine ⟨isFree, fun key block found same => notBoth id isFree ?_⟩
    exact mem_map.mpr ⟨(key, block), CachePolicy.mem_contents_of_get found, same⟩
  · right
    refine ⟨fun isFree => notBoth id isFree isHeld, ?_⟩
    obtain ⟨⟨key, block⟩, memBlock, rfl⟩ := mem_map.mp isHeld
    refine ⟨key, ⟨block, (CachePolicy.get_eq_some_iff ok.distinct).mpr memBlock, rfl⟩, ?_⟩
    rintro other ⟨block', found, same⟩
    have both := inj_on_of_nodup_map distinctIds _
      (CachePolicy.mem_contents_of_get found) _ memBlock same
    exact (Prod.mk.inj both).1

theorem countOf_add (a b : Multiset (K × Nat)) (key : K) :
    countOf (a + b) key = countOf a key + countOf b key := by
  rw [countOf, map_add, count_add]
  rfl

/-- A transfer of distinct keys is of a key once or not at all. -/
theorem countOf_pairs (wellFormed : WellFormed transfer) (key : K) :
    countOf transfer.pairs key = if key ∈ transfer.keys then 1 else 0 := by
  rw [countOf, Transfer.pairs, map_coe,
    List.map_fst_zip (le_of_eq wellFormed.aligned.symm), coe_count,
    wellFormed.distinct.count]

theorem countOf_pairsOf (wellFormed : ∀ transfer ∈ transfers, WellFormed transfer) (key : K) :
    countOf (pairsOf transfers) key = (transfers.filter (key ∈ ·.keys)).length := by
  induction transfers with
  | nil => rfl
  | cons transfer rest ih =>
    rw [pairsOf_cons, countOf_add, countOf_pairs (wellFormed transfer (by simp)),
      ih fun other mem => wellFormed other (by simp [mem])]
    by_cases isKey : key ∈ transfer.keys
    · rw [if_pos isKey, List.filter_cons_of_pos (by simpa using isKey), List.length_cons, Nat.add_comm]
    · rw [if_neg isKey, List.filter_cons_of_neg (by simpa using isKey), Nat.zero_add]

open TieringOffloadingManager (jobPairs)

theorem countOf_cascades {jobs : List (JobId × JobMetadata K)}
    (wellFormed : ∀ entry ∈ jobs, entry.2.isPromotion = false → WellFormed entry.2.toTransfer)
    (key : K) :
    countOf ((jobs : Multiset (JobId × JobMetadata K)).bind fun entry => jobPairs false entry.2) key =
      (jobs.filter fun entry => entry.2.isPromotion = false ∧ key ∈ entry.2.keys).length := by
  have cascades : (jobs : Multiset (JobId × JobMetadata K)).bind (fun entry => jobPairs false entry.2) =
      pairsOf ((jobs.filter (·.2.isPromotion = false)).map (·.2.toTransfer)) := by
    clear wellFormed
    induction jobs with
    | nil => rfl
    | cons entry rest ih =>
      rw [← cons_coe, cons_bind, ih, jobPairs, List.filter_cons]
      split <;> simp_all [pairsOf_cons]
  rw [cascades, countOf_pairsOf, List.filter_map, List.length_map, List.filter_filter]
  · simp [Bool.and_comm]
  · intro transfer mem
    obtain ⟨entry, isFiltered, rfl⟩ := List.mem_map.mp mem
    obtain ⟨isJob, isCascade⟩ := List.mem_filter.mp isFiltered
    exact wellFormed entry isJob (by simpa using isCascade)

/-- A transfer has a block for each key, and is read from or written to. -/
theorem Ok.of_mem_outstanding (ok : s.Ok) (mem : transfer ∈ s.outstanding) :
    transfer.blockIds.length = transfer.keys.length ∧ ∀ entry ∈ transfer.pairs,
      entry ∈ pairsOf s.gpuLoads + s.manager.cascadePairs ∨
        entry ∈ pairsOf s.gpuStores + s.manager.promotionPairs := by
  unfold outstanding at mem
  simp only [List.mem_append, List.mem_map, List.mem_flatMap] at mem
  simp only [mem_add, cascadePairs, promotionPairs]
  rcases mem with ((isLoad | isStore) | ⟨⟨id, job⟩, memJob, rfl⟩) |
    ⟨⟨tier, reqs⟩, memTier, ⟨req, pending⟩, memPending, rfl⟩
  · refine ⟨(ok.loads transfer isLoad).aligned, fun entry memEntry => ?_⟩
    exact .inl (.inl (mem_bind.mpr ⟨transfer, isLoad, memEntry⟩))
  · refine ⟨(ok.stores transfer isStore).aligned, fun entry memEntry => ?_⟩
    exact .inr (.inl (mem_bind.mpr ⟨transfer, isStore, memEntry⟩))
  · refine ⟨ok.tiersOk.jobsWf.aligned id job (Dict.mem_contents.mp memJob), fun entry memEntry => ?_⟩
    have moved : entry ∈ jobPairs job.isPromotion job := by
      rw [jobPairs, if_pos rfl]
      exact memEntry
    cases isPromotion : job.isPromotion with
    | false =>
      rw [isPromotion] at moved
      exact .inl (.inr (mem_bind.mpr ⟨(id, job), memJob, moved⟩))
    | true =>
      rw [isPromotion] at moved
      exact .inr (.inr (.inl (mem_bind.mpr ⟨(id, job), memJob, moved⟩)))
  · refine ⟨ok.tiersOk.jobsWf.pendingAligned tier reqs (Dict.mem_contents.mp memTier) req pending
      (Dict.mem_contents.mp memPending), fun entry memEntry => ?_⟩
    refine .inr (.inr (.inr (mem_bind.mpr ⟨(tier, reqs), memTier, ?_⟩)))
    exact mem_bind.mpr ⟨(req, pending), memPending, memEntry⟩

theorem Ok.safe (ok : s.Ok) : s.Safe where
  partition id lt := partition_of_transfersOk ok.tiersOk.transfers lt
  refCnt key block found ready := by
    have mem := CachePolicy.mem_contents_of_get found
    rw [ok.tiersOk.transfers.refCnt key block mem ready, countOf_add, countOf_pairsOf ok.loads]
    have cascades : countOf s.manager.cascadePairs key = _ :=
      countOf_cascades (fun entry memEntry isCascade =>
        ⟨ok.tiersOk.jobsWf.aligned entry.1 entry.2 (Dict.mem_contents.mp memEntry),
          ok.tiersOk.jobsWf.distinct entry.1 entry.2 (Dict.mem_contents.mp memEntry) isCascade⟩) key
    rw [cascades]
    rfl
  pinned transfer mem := by
    obtain ⟨aligned, moved⟩ := ok.of_mem_outstanding mem
    refine List.forall₂_iff_zip.mpr ⟨aligned.symm, fun {key id} memPair => ?_⟩
    have held : ∃ block, (key, block) ∈ s.manager.primaryTier.policy.contents ∧ block.blockId = id := by
      rcases moved _ memPair with isReader | isWriter
      · exact ok.tiersOk.transfers.reading key id isReader
      · obtain ⟨block, memBlock, isId, -⟩ := ok.tiersOk.transfers.writing key id isWriter
        exact ⟨block, memBlock, isId⟩
    obtain ⟨block, memBlock, isId⟩ := held
    exact ⟨block, (CachePolicy.get_eq_some_iff ok.tiersOk.transfers.distinct).mpr memBlock, isId⟩

/-- In every run, blocks of the CPU tier are not reused under a transfer. -/
theorem tiers_safe_of_run [PyFloat F] {numBlocks : Nat} {cachePolicy : PolicyKind} {numSecondaryTiers : Nat}
    {calls : List (TierCall K)}
    (run : Run (guarded Allowed (succeeds exec)) (init K F numBlocks cachePolicy numSecondaryTiers)
      calls s) : s.Safe := by
  refine Ok.safe (run.invariant Ok ?_ (ok_init numBlocks cachePolicy numSecondaryTiers))
  rintro s call s' ok ⟨allowed, step⟩
  exact ok.exec allowed step

/-- In every run no block of the CPU tier is lost, and the assertion of `prepare_store` holds. -/
theorem room_of_run [PyFloat F] {numBlocks : Nat} {cachePolicy : PolicyKind}
    {numSecondaryTiers : Nat} {calls : List (TierCall K)}
    (run : Run (guarded Allowed (succeeds exec)) (init K F numBlocks cachePolicy numSecondaryTiers)
      calls s) :
    let tier := s.manager.primaryTier
    tier.getNumFreeBlocks + tier.policy.contents.card = tier.numBlocks ∧
      ∀ keys, ∃ result, tier.prepareStore keys = .ok result := by
  have ok := run.invariant Ok (fun ok step => ok.exec step.1 step.2)
    (ok_init numBlocks cachePolicy numSecondaryTiers)
  exact ⟨ok.tiersOk.transfers.numFree_add_card, ok.tiersOk.transfers.prepareStore_ok⟩

/-! ### A block under a load is not reused -/

instance decidableAllowed (s : TierState K F) : (call : TierCall K) → Decidable (s.Allowed call)
  | .prepareLoad keys _ | .prepareStore keys _ _ => inferInstanceAs (Decidable keys.Nodup)
  | .completeLoad keys =>
    inferInstanceAs (Decidable (∃ transfer ∈ s.gpuLoads, transfer.keys = keys))
  | .completeStore keys _ =>
    inferInstanceAs (Decidable (∃ transfer ∈ s.gpuStores, transfer.keys = keys))
  | .lookup _ _ _ _ | .onScheduleEnd _ | .touch _ | .onNewRequest _ _ | .onRequestFinished _ =>
    inferInstanceAs (Decidable True)

end TierState

/-- Whole numbers instead of floats. -/
instance wholeNumbers : PyFloat Nat where
  ofNat := id
  trueDiv := Nat.div
  add := Nat.add
  sub := Nat.sub
  max := Nat.max
  min := Nat.min
  toInt := Int.ofNat

/-- Two blocks and one secondary tier. Keys 1 and 2 are stored and cascaded, and key 1 is
loaded. Key 3 then takes the block of key 2, and there is no room to promote key 2 until
the load of key 1 is complete. -/
def storeLoadPromote : List (TierCall Nat) :=
  [.prepareStore [1, 2] 0 [], .completeStore [1, 2] true, .touch [1], .prepareLoad [1] [],
    .onScheduleEnd [], .onScheduleEnd [(0, true)], .prepareStore [3] 0 [],
    .lookup 2 1 [some true] [], .completeLoad [1], .lookup 2 1 [some true] [],
    .onScheduleEnd [], .onScheduleEnd [(1, false)]]

theorem TierState.storeLoadPromote_safe : ∃ s : TierState Nat Nat,
    storeLoadPromote.foldlM TierState.exec (.init Nat Nat 2 .arc 1) = .ok s ∧
    s.manager.primaryTier.freeList = [0] ∧ s.gpuStores = [⟨[3], [1]⟩] ∧ s.Safe := by
  have final : ∃ s : TierState Nat Nat,
      storeLoadPromote.foldlM TierState.exec (.init Nat Nat 2 .arc 1) = .ok s ∧
      s.manager.primaryTier.freeList = [0] ∧ s.gpuStores = [⟨[3], [1]⟩] := ⟨_, rfl, rfl, rfl⟩
  obtain ⟨s, ends, free, stores⟩ := final
  exact ⟨s, ends, free, stores, tiers_safe_of_run (.of_alongOk (by decide) ends)⟩

theorem TierState.storeLoadPromote_room : ∃ s : TierState Nat Nat,
    storeLoadPromote.foldlM TierState.exec (.init Nat Nat 2 .arc 1) = .ok s ∧
    ∃ result, s.manager.primaryTier.prepareStore [4] = .ok result := by
  obtain ⟨s, ends⟩ : ∃ s : TierState Nat Nat,
      storeLoadPromote.foldlM TierState.exec (.init Nat Nat 2 .arc 1) = .ok s := ⟨_, rfl⟩
  exact ⟨s, ends, (room_of_run (.of_alongOk (by decide) ends)).2 [4]⟩

end Vllm.Offload
