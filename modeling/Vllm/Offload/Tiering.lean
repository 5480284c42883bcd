import Vllm.Offload.CpuManager
import Vllm.Offload.Scheduler

/-!
The tiered offloading manager (`vllm/v1/kv_offload/tiering/manager.py`).

Blocks are stored from the GPU to the CPU tier and from there to every secondary tier
(a cascade), and are promoted from a secondary tier to the CPU tier when they are looked
up. The caller completes its own loads and stores later, and the secondary tiers report
their jobs when they are polled.

The secondary tiers are outside: what they answer to `lookup`, which of them ask for the
request-level policy, and which jobs they report are arguments of the calls.
-/

namespace Vllm.Offload

open Vllm.Lib Vllm.Lib.Fallible Dict Multiset

/-- Keys and the blocks of the CPU tier that data is moved from or to. -/
structure Transfer (K : Type) where
  keys : List K
  blockIds : List Nat
  deriving DecidableEq, Repr

open Transfer

/-- `JobMetadata`. A promotion writes to the CPU tier, a cascade reads from it. -/
structure JobMetadata (K : Type) extends Transfer K where
  isPromotion : Bool
  deriving Repr

abbrev PendingPromotion (K : Type) := Transfer K

/-- A secondary tier, by its position in `secondary_tiers`. -/
abbrev TierIdx := Nat

structure TieringOffloadingManager (K F : Type) where
  primaryTier : CPUOffloadingManager K F
  numSecondaryTiers : Nat
  jobIdCounter : JobId := 0
  transferJobs : Dict JobId (JobMetadata K) := .empty
  pendingLoadSubmissions : Dict TierIdx (Dict ReqId (PendingPromotion K)) := .empty
  processedJobsThisStep : Bool := false
  requestLevelTiers : Dict ReqId (List TierIdx) := .empty

variable {K F : Type}

namespace TieringOffloadingManager

variable [DecidableEq K] [PyFloat F] (t : TieringOffloadingManager K F)

/-- A job under a fresh id. -/
def addJob (job : JobMetadata K) : TieringOffloadingManager K F :=
  { t with
    jobIdCounter := t.jobIdCounter + 1
    transferJobs := t.transferJobs.set t.jobIdCounter job }

/-- `_process_finished_jobs` for one reported job. -/
def processFinishedJob (t : TieringOffloadingManager K F) (result : JobId × Bool) :
    Except TierError (TieringOffloadingManager K F) :=
  match t.transferJobs.get? result.1 with
  | none => .error .unknownJob
  | some job =>
    let t := { t with transferJobs := t.transferJobs.erase result.1 }
    if job.isPromotion then
      .ok { t with primaryTier := t.primaryTier.completeStore job.keys result.2 }
    else do
      let primaryTier ← t.primaryTier.completeLoad job.keys
      return { t with primaryTier }

/-- `_maybe_process_finished_jobs`. The tiers are polled once a step; `finished` is what
they would report. -/
def maybeProcessFinishedJobs (finished : List (JobId × Bool)) :
    Except TierError (TieringOffloadingManager K F) :=
  if t.processedJobsThisStep then .ok t
  else finished.foldlM processFinishedJob { t with processedJobsThisStep := true }

/-- A promoted block joins what its tier is to load for the request. -/
def addPending (tier : TierIdx) (req : ReqId) (new : Transfer K) : TieringOffloadingManager K F :=
  let tierPending := (t.pendingLoadSubmissions.get? tier).getD .empty
  let entry := (tierPending.get? req).getD ⟨[], []⟩
  { t with
    pendingLoadSubmissions := t.pendingLoadSubmissions.put tier
      (tierPending.put req ⟨entry.keys ++ new.keys, entry.blockIds ++ new.blockIds⟩) }

def initiatePromotion (tier : TierIdx) (key : K) (req : ReqId) :
    Except TierError (Bool × TieringOffloadingManager K F) := do
  let (out, primaryTier) ← t.primaryTier.prepareStore [key]
  let t := { t with primaryTier }
  match out with
  | none => return (false, t)
  | some out => return (true, t.addPending tier req ⟨out.keysToStore, out.blockIds⟩)

/-- The secondary tiers are asked one after another, until one has the block. -/
def lookupTiers (key : K) (req : ReqId) : List (Option Bool × TierIdx) → Bool →
    Except TierError (Option Bool × TieringOffloadingManager K F)
  | [], anyNone => .ok (if anyNone then none else some false, t)
  | (some true, tier) :: _, _ => do
    let (initiated, t) ← t.initiatePromotion tier key req
    return (if initiated then none else some false, t)
  | (none, _) :: rest, _ => lookupTiers key req rest true
  | (some false, _) :: rest, anyNone => lookupTiers key req rest anyNone

/-- `lookup`. `answers` is what the secondary tiers say, in their order. -/
def lookup (key : K) (req : ReqId) (answers : List (Option Bool)) (finished : List (JobId × Bool)) :
    Except TierError (Option Bool × TieringOffloadingManager K F) := do
  let t ← t.maybeProcessFinishedJobs finished
  match t.primaryTier.lookup key with
  | some true => return (some true, t)
  | none => return (none, t)
  | some false => t.lookupTiers key req answers.zipIdx false

def prepareLoad (keys : List K) (finished : List (JobId × Bool)) :
    Except TierError (List Nat × TieringOffloadingManager K F) := do
  let t ← t.maybeProcessFinishedJobs finished
  let (blockIds, primaryTier) ← t.primaryTier.prepareLoad keys
  return (blockIds, { t with primaryTier })

def touch (keys : List K) : TieringOffloadingManager K F :=
  { t with primaryTier := t.primaryTier.touch keys }

def completeLoad (keys : List K) : Except TierError (TieringOffloadingManager K F) := do
  let primaryTier ← t.primaryTier.completeLoad keys
  return { t with primaryTier }

/-- The keys are read for one secondary tier. -/
def submitStore (keys : List K) (t : TieringOffloadingManager K F) :
    Except TierError (TieringOffloadingManager K F) := do
  let (blockIds, primaryTier) ← t.primaryTier.prepareLoad keys
  return { t with primaryTier }.addJob { keys, blockIds, isPromotion := false }

/-- `submit_store` for a number of tiers. -/
def cascade (keys : List K) (numTiers : Nat) : Except TierError (TieringOffloadingManager K F) :=
  (List.range numTiers).foldlM (fun t _ => submitStore keys t) t

/-- `_cascade_existing_blocks_to_request_level_tiers`. -/
def cascadeExistingBlocks (keys : List K) (requestLevelTiers : List TierIdx) :
    Except TierError (TieringOffloadingManager K F) :=
  let readyKeys := keys.filter fun key => t.primaryTier.lookup key = some true
  if readyKeys = [] then .ok t else t.cascade readyKeys requestLevelTiers.length

/-- The blocks that are in the CPU tier already go to the tiers with the request-level
policy. -/
def cascadeForRequest (keys keysToStore : List K) (req : ReqId) :
    Except TierError (TieringOffloadingManager K F) :=
  match t.requestLevelTiers.get? req with
  | none => .ok t
  | some tiers =>
    let keysAlreadyInPrimary := keys.filter fun key => key ∉ keysToStore
    if keysAlreadyInPrimary = [] then .ok t else t.cascadeExistingBlocks keysAlreadyInPrimary tiers

def prepareStore (keys : List K) (req : ReqId) (finished : List (JobId × Bool)) :
    Except TierError (Option (PrepareStoreOutput K) × TieringOffloadingManager K F) := do
  let t ← t.maybeProcessFinishedJobs finished
  let (out, primaryTier) ← t.primaryTier.prepareStore keys
  let t := { t with primaryTier }
  match out with
  | none => return (none, t)
  | some out => do
    let t ← t.cascadeForRequest keys out.keysToStore req
    return (some out, t)

def completeStore (keys : List K) (success : Bool) :
    Except TierError (TieringOffloadingManager K F) :=
  let t := { t with primaryTier := t.primaryTier.completeStore keys success }
  if success then t.cascade keys t.numSecondaryTiers else .ok t

/-- `on_new_request`. `tiers` are those that ask for the request-level policy. -/
def onNewRequest (req : ReqId) (tiers : List TierIdx) : TieringOffloadingManager K F :=
  if tiers = [] then t
  else
    let old := (t.requestLevelTiers.get? req).getD []
    { t with requestLevelTiers := t.requestLevelTiers.set req (old ++ tiers.filter (· ∉ old)) }

def onRequestFinished (req : ReqId) : TieringOffloadingManager K F :=
  { t with requestLevelTiers := t.requestLevelTiers.erase req }

def flushPendingPromotions : TieringOffloadingManager K F :=
  let pending := t.pendingLoadSubmissions.entries.flatMap fun tier => tier.2.entries.map (·.2)
  { pending.foldl (fun t entry => t.addJob { entry with isPromotion := true }) t with
    pendingLoadSubmissions := .empty }

def onScheduleEnd (finished : List (JobId × Bool)) :
    Except TierError (TieringOffloadingManager K F) := do
  let t ← t.maybeProcessFinishedJobs finished
  return { t with processedJobsThisStep := false }.flushPendingPromotions

end TieringOffloadingManager

/-! ### Transfers under way -/

def Transfer.pairs (transfer : Transfer K) : Multiset (K × Nat) :=
  transfer.keys.zip transfer.blockIds

namespace TieringOffloadingManager

def jobPairs (isPromotion : Bool) (job : JobMetadata K) : Multiset (K × Nat) :=
  if job.isPromotion = isPromotion then job.pairs else 0

variable (t : TieringOffloadingManager K F)

/-- What is read for secondary tiers. -/
def cascadePairs : Multiset (K × Nat) := t.transferJobs.collect (jobPairs false)

/-- What is or will be written by secondary tiers. -/
def promotionPairs : Multiset (K × Nat) :=
  t.transferJobs.collect (jobPairs true) +
    t.pendingLoadSubmissions.collect fun reqs => reqs.collect pairs

structure JobsWf : Prop where
  issued : ∀ id job, t.transferJobs.get? id = some job → id < t.jobIdCounter
  aligned : ∀ id job, t.transferJobs.get? id = some job → job.blockIds.length = job.keys.length
  distinct : ∀ id job, t.transferJobs.get? id = some job → job.isPromotion = false → job.keys.Nodup
  pendingAligned : ∀ tier reqs, t.pendingLoadSubmissions.get? tier = some reqs →
    ∀ req entry, reqs.get? req = some entry → entry.blockIds.length = entry.keys.length

/-- The manager agrees with the loads and stores of the GPU that are under way. -/
structure TiersOk [DecidableEq K] (loads stores : Multiset (K × Nat)) : Prop where
  jobsWf : t.JobsWf
  transfers : t.primaryTier.TransfersOk (loads + t.cascadePairs) (stores + t.promotionPairs)

variable {t} {t' : TieringOffloadingManager K F} {loads stores : Multiset (K × Nat)}

theorem JobsWf.addJob (wf : t.JobsWf) {job : JobMetadata K}
    (aligned : job.blockIds.length = job.keys.length)
    (distinct : job.isPromotion = false → job.keys.Nodup) : (t.addJob job).JobsWf := by
  have cases : ∀ id job', (t.addJob job).transferJobs.get? id = some job' →
      id = t.jobIdCounter ∧ job' = job ∨ t.transferJobs.get? id = some job' := by
    intro id job' found
    exact (get?_set_eq_some found).imp (fun ⟨new, eq⟩ => ⟨new, eq.symm⟩) And.right
  constructor
  · intro id job' found
    rcases cases id job' found with ⟨rfl, -⟩ | old
    · exact Nat.lt_succ_self _
    · exact Nat.lt_succ_of_lt (wf.issued id job' old)
  · intro id job' found
    rcases cases id job' found with ⟨-, rfl⟩ | old
    · exact aligned
    · exact wf.aligned id job' old
  · intro id job' found
    rcases cases id job' found with ⟨-, rfl⟩ | old
    · exact distinct
    · exact wf.distinct id job' old
  · exact wf.pendingAligned

theorem collect_addJob (wf : t.JobsWf) (job : JobMetadata K) (isPromotion : Bool) :
    (t.addJob job).transferJobs.collect (jobPairs isPromotion) =
      jobPairs isPromotion job + t.transferJobs.collect (jobPairs isPromotion) := by
  have absent : t.transferJobs.get? t.jobIdCounter = none := by
    cases found : t.transferJobs.get? t.jobIdCounter with
    | none => rfl
    | some old => exact absurd (wf.issued _ old found) (lt_irrefl _)
  rw [addJob, collect_set, collect_eq_add _ t.transferJobs t.jobIdCounter, absent,
    Option.elim_none, zero_add]

theorem JobsWf.erase (wf : t.JobsWf) (id : JobId) :
    ({ t with transferJobs := t.transferJobs.erase id } : TieringOffloadingManager K F).JobsWf := by
  have old : ∀ id' job, (t.transferJobs.erase id).get? id' = some job →
      t.transferJobs.get? id' = some job :=
    fun id' job found => (get?_erase_eq_some found).2
  constructor
  · exact fun id' job found => wf.issued id' job (old id' job found)
  · exact fun id' job found => wf.aligned id' job (old id' job found)
  · exact fun id' job found => wf.distinct id' job (old id' job found)
  · exact wf.pendingAligned

variable [DecidableEq K]

variable {finished : List (JobId × Bool)} {new transfer : Transfer K} {key : K} {req : ReqId}
  {answer : Option Bool} {keys : List K}

section

variable (ok : t.TiersOk loads stores)
include ok

/-- A reported job leaves, and its reads or writes are over. -/
theorem TiersOk.processFinishedJob {result : JobId × Bool}
    (run : processFinishedJob t result = .ok t') : t'.TiersOk loads stores := by
  unfold TieringOffloadingManager.processFinishedJob at run
  split at run
  · cases run
  · rename_i job found
    have aligned := ok.jobsWf.aligned _ job found
    have wf := ok.jobsWf.erase result.1
    have cascades := t.transferJobs.collect_eq_add (jobPairs false) result.1
    have promotions := t.transferJobs.collect_eq_add (jobPairs true) result.1
    rw [found, Option.elim_some] at cascades promotions
    have transfers := ok.transfers
    rw [cascadePairs, promotionPairs, cascades, promotions] at transfers
    split at run
    · rename_i isPromotion
      cases run
      refine ⟨{ wf with }, ?_⟩
      simp only [jobPairs, isPromotion, Bool.true_eq_false, if_false, if_true, zero_add] at transfers
      rw [add_assoc job.pairs, add_left_comm stores] at transfers
      exact transfers.completeStore aligned result.2
    · rename_i isCascade
      obtain ⟨primaryTier, completed, run⟩ := bind_eq_ok.mp run
      cases run
      refine ⟨{ wf with }, ?_⟩
      simp only [jobPairs, isCascade, Bool.false_eq_true, if_false, zero_add] at transfers
      rw [add_left_comm loads] at transfers
      exact transfers.completeLoad aligned completed

theorem TiersOk.maybeProcessFinishedJobs (run : t.maybeProcessFinishedJobs finished = .ok t') :
    t'.TiersOk loads stores := by
  unfold TieringOffloadingManager.maybeProcessFinishedJobs at run
  split at run
  · cases run
    exact ok
  · exact foldlM_keeps (fun t => t.TiersOk loads stores)
      (fun _ _ _ _ before step => before.processFinishedJob step) ⟨{ ok.jobsWf with }, ok.transfers⟩ run

end

/-! ### Promotions -/

omit [DecidableEq K] in
theorem pairs_append {entry : Transfer K} (aligned : entry.blockIds.length = entry.keys.length) :
    pairs ⟨entry.keys ++ new.keys, entry.blockIds ++ new.blockIds⟩ =
      entry.pairs + new.pairs := by
  rw [pairs, List.zip_append aligned.symm]
  rfl

omit [DecidableEq K] in
/-- What is pending for a tier and a request, none if nothing is. -/
theorem aligned_pending (wf : t.JobsWf) (tier : TierIdx) (req : ReqId) :
    ((((t.pendingLoadSubmissions.get? tier).getD .empty).get? req).getD ⟨[], []⟩).blockIds.length =
      ((((t.pendingLoadSubmissions.get? tier).getD .empty).get? req).getD ⟨[], []⟩).keys.length := by
  cases found : t.pendingLoadSubmissions.get? tier with
  | none => rfl
  | some reqs =>
    rw [Option.getD_some]
    cases found' : reqs.get? req with
    | none => rfl
    | some entry => exact wf.pendingAligned tier reqs found req entry found'

omit [DecidableEq K] in
theorem collect_addPending (wf : t.JobsWf) (tier : TierIdx) (req : ReqId) (new : Transfer K) :
    ((t.addPending tier req new).pendingLoadSubmissions.collect fun reqs => reqs.collect pairs) =
      new.pairs + t.pendingLoadSubmissions.collect fun reqs => reqs.collect pairs := by
  simp only [addPending, collect_put]
  have noPairs : pairs (⟨[], []⟩ : Transfer K) = 0 := rfl
  rw [pairs_append (aligned_pending wf tier req),
    collect_eq_getD_add _ t.pendingLoadSubmissions tier (collect_empty _),
    collect_eq_getD_add _ ((t.pendingLoadSubmissions.get? tier).getD _) req noPairs]
  abel

omit [DecidableEq K] in
theorem JobsWf.addPending (wf : t.JobsWf) (tier : TierIdx) (req : ReqId)
    (aligned : new.blockIds.length = new.keys.length) : (t.addPending tier req new).JobsWf := by
  constructor
  · exact wf.issued
  · exact wf.aligned
  · exact wf.distinct
  · intro tier' reqs found req' entry found'
    have grown := aligned_pending wf tier req
    rcases eq_or_ne tier' tier with rfl | sameTier
    · simp only [TieringOffloadingManager.addPending, get?_put_self, Option.some.injEq] at found
      subst found
      rcases eq_or_ne req' req with rfl | sameReq
      · rw [get?_put_self, Option.some.injEq] at found'
        subst found'
        simp only [List.length_append, grown, aligned]
      · rw [get?_put_of_ne _ sameReq] at found'
        cases old : t.pendingLoadSubmissions.get? tier' with
        | none =>
          rw [old] at found'
          simp at found'
        | some reqs =>
          rw [old] at found'
          exact wf.pendingAligned tier' reqs old req' entry found'
    · simp only [TieringOffloadingManager.addPending] at found
      rw [get?_put_of_ne _ sameTier] at found
      exact wf.pendingAligned tier' reqs found req' entry found'

section

variable (ok : t.TiersOk loads stores)
include ok

/-- A promotion takes a block of the CPU tier at once. -/
theorem TiersOk.initiatePromotion [PyFloat F] {tier : TierIdx} {initiated : Bool}
    (run : t.initiatePromotion tier key req = .ok (initiated, t')) :
    t'.TiersOk loads stores := by
  obtain ⟨⟨out, primaryTier⟩, prepared, run⟩ := bind_eq_ok.mp run
  obtain ⟨unchanged, stored⟩ := ok.transfers.prepareStore (List.nodup_singleton key) prepared
  cases out with
  | none =>
    cases run
    rw [unchanged rfl]
    exact ok
  | some out =>
    cases run
    obtain ⟨-, aligned, -, transfers⟩ := stored out rfl
    have wf : ({ t with primaryTier } : TieringOffloadingManager K F).JobsWf := { ok.jobsWf with }
    refine ⟨wf.addPending tier req aligned, ?_⟩
    have pairs := collect_addPending wf tier req ⟨out.keysToStore, out.blockIds⟩
    rw [promotionPairs, pairs]
    have shape : ∀ a b c d : Multiset (K × Nat), a + (b + (c + d)) = c + (a + (b + d)) := by
      intro a b c d
      abel
    rw [shape]
    exact transfers

theorem TiersOk.lookupTiers [PyFloat F] {answers : List (Option Bool × TierIdx)} {anyNone : Bool}
    (run : t.lookupTiers key req answers anyNone = .ok (answer, t')) : t'.TiersOk loads stores := by
  fun_induction TieringOffloadingManager.lookupTiers t key req answers anyNone with
  | case1 =>
    cases run
    exact ok
  | case2 =>
    obtain ⟨⟨initiated, t₁⟩, promoted, run⟩ := bind_eq_ok.mp run
    cases run
    exact ok.initiatePromotion promoted
  | case3 _ _ _ ih | case4 _ _ _ ih => exact ih run

theorem TiersOk.lookup [PyFloat F] {answers : List (Option Bool)}
    (run : t.lookup key req answers finished = .ok (answer, t')) : t'.TiersOk loads stores := by
  obtain ⟨t₁, polled, run⟩ := bind_eq_ok.mp run
  have ok₁ := ok.maybeProcessFinishedJobs polled
  split at run
  · cases run
    exact ok₁
  · cases run
    exact ok₁
  · exact ok₁.lookupTiers run

/-! ### Loads, stores and cascades -/

/-- Another CPU tier, with other loads and stores. -/
theorem TiersOk.setPrimary {primaryTier : CPUOffloadingManager K F}
    {loads' stores' : Multiset (K × Nat)}
    (transfers : primaryTier.TransfersOk (loads' + t.cascadePairs) (stores' + t.promotionPairs)) :
    ({ t with primaryTier } : TieringOffloadingManager K F).TiersOk loads' stores' :=
  ⟨{ ok.jobsWf with }, transfers⟩

theorem TiersOk.prepareLoad {blockIds : List Nat}
    (run : t.prepareLoad keys finished = .ok (blockIds, t')) :
    blockIds.length = keys.length ∧ t'.TiersOk (pairs ⟨keys, blockIds⟩ + loads) stores := by
  obtain ⟨t₁, polled, run⟩ := bind_eq_ok.mp run
  obtain ⟨⟨ids, primaryTier⟩, prepared, run⟩ := bind_eq_ok.mp run
  cases run
  have ok₁ := ok.maybeProcessFinishedJobs polled
  obtain ⟨aligned, transfers⟩ := ok₁.transfers.prepareLoad prepared
  refine ⟨aligned, ok₁.setPrimary ?_⟩
  rw [add_assoc]
  exact transfers

end

theorem TiersOk.completeLoad (aligned : transfer.blockIds.length = transfer.keys.length)
    (ok : t.TiersOk (transfer.pairs + loads) stores) (run : t.completeLoad transfer.keys = .ok t') :
    t'.TiersOk loads stores := by
  obtain ⟨primaryTier, completed, run⟩ := bind_eq_ok.mp run
  cases run
  have transfers := ok.transfers
  rw [add_assoc] at transfers
  exact ok.setPrimary (transfers.completeLoad aligned completed)

section

variable (ok : t.TiersOk loads stores)
include ok

section

variable (distinct : keys.Nodup)
include distinct

theorem TiersOk.submitStore (run : submitStore keys t = .ok t') : t'.TiersOk loads stores := by
  obtain ⟨⟨blockIds, primaryTier⟩, prepared, run⟩ := bind_eq_ok.mp run
  cases run
  obtain ⟨aligned, transfers⟩ := ok.transfers.prepareLoad prepared
  have wf : ({ t with primaryTier } : TieringOffloadingManager K F).JobsWf := { ok.jobsWf with }
  refine ⟨wf.addJob aligned fun _ => distinct, ?_⟩
  rw [cascadePairs, promotionPairs, collect_addJob wf, collect_addJob wf]
  simp only [jobPairs, Bool.false_eq_true, if_false, zero_add]
  rw [add_left_comm]
  exact transfers

theorem TiersOk.cascade {numTiers : Nat} (run : t.cascade keys numTiers = .ok t') :
    t'.TiersOk loads stores :=
  foldlM_keeps (fun t => t.TiersOk loads stores)
    (fun _ _ _ _ before step => before.submitStore distinct step) ok run

theorem TiersOk.cascadeForRequest {keysToStore : List K}
    (run : t.cascadeForRequest keys keysToStore req = .ok t') : t'.TiersOk loads stores := by
  unfold TieringOffloadingManager.cascadeForRequest at run
  split at run
  · cases run
    exact ok
  · simp only at run
    split at run
    · cases run
      exact ok
    · unfold cascadeExistingBlocks at run
      simp only at run
      split at run
      · cases run
        exact ok
      · exact ok.cascade ((distinct.filter _).filter _) run

theorem TiersOk.prepareStore [PyFloat F] {out : Option (PrepareStoreOutput K)}
    (run : t.prepareStore keys req finished = .ok (out, t')) :
    (out = none → t'.TiersOk loads stores) ∧ ∀ stored, out = some stored →
      stored.keysToStore.Nodup ∧ stored.blockIds.length = stored.keysToStore.length ∧
      t'.TiersOk loads (pairs ⟨stored.keysToStore, stored.blockIds⟩ + stores) := by
  obtain ⟨t₁, polled, run⟩ := bind_eq_ok.mp run
  obtain ⟨⟨out₁, primaryTier⟩, prepared, run⟩ := bind_eq_ok.mp run
  have ok₁ := ok.maybeProcessFinishedJobs polled
  obtain ⟨unchanged, isStored⟩ := ok₁.transfers.prepareStore distinct prepared
  cases out₁ with
  | none =>
    cases run
    refine ⟨fun _ => ?_, nofun⟩
    rw [unchanged rfl]
    exact ok₁
  | some stored =>
    obtain ⟨t₂, cascaded, run⟩ := bind_eq_ok.mp run
    cases run
    refine ⟨nofun, fun stored' same => ?_⟩
    cases same
    obtain ⟨part, aligned, -, transfers⟩ := isStored stored rfl
    refine ⟨distinct.sublist part, aligned, TiersOk.cascadeForRequest ?_ distinct cascaded⟩
    refine ok₁.setPrimary ?_
    rw [add_assoc]
    exact transfers

end

end

theorem TiersOk.completeStore (distinct : transfer.keys.Nodup)
    (aligned : transfer.blockIds.length = transfer.keys.length)
    (ok : t.TiersOk loads (transfer.pairs + stores)) {success : Bool}
    (run : t.completeStore transfer.keys success = .ok t') : t'.TiersOk loads stores := by
  have transfers := ok.transfers
  rw [add_assoc] at transfers
  have completed := ok.setPrimary (transfers.completeStore aligned success)
  unfold TieringOffloadingManager.completeStore at run
  split at run
  · exact completed.cascade distinct run
  · cases run
    exact completed

/-! ### The end of a step -/

omit [DecidableEq K] in
/-- Promotions become jobs one by one. -/
theorem addPromotions_spec {pending : List (Transfer K)} (wf : t.JobsWf)
    (aligned : ∀ entry ∈ pending, entry.blockIds.length = entry.keys.length)
    (isFold : t' = pending.foldl (fun t entry => t.addJob { entry with isPromotion := true }) t) :
    t'.JobsWf ∧ t'.primaryTier = t.primaryTier ∧
      t'.transferJobs.collect (jobPairs true) =
        (pending : Multiset (Transfer K)).bind pairs + t.transferJobs.collect (jobPairs true) ∧
      t'.cascadePairs = t.cascadePairs := by
  induction pending generalizing t with
  | nil =>
    subst isFold
    exact ⟨wf, rfl, (zero_add _).symm, rfl⟩
  | cons entry rest ih =>
    have added : (t.addJob { entry with isPromotion := true }).JobsWf :=
      wf.addJob (aligned entry (by simp)) nofun
    obtain ⟨wf', primary, promotions, cascades⟩ :=
      ih added (fun other mem => aligned other (by simp [mem])) isFold
    refine ⟨wf', primary, ?_, ?_⟩
    · rw [promotions, collect_addJob wf, ← cons_coe, cons_bind]
      simp only [jobPairs, if_true]
      abel
    · rw [cascades, cascadePairs, collect_addJob wf]
      simp [jobPairs, cascadePairs]

omit [DecidableEq K] in
/-- What is pending, in one list. -/
theorem collect_pending (pending : Dict TierIdx (Dict ReqId (PendingPromotion K))) :
    (pending.collect fun reqs => reqs.collect pairs) =
      ((pending.entries.flatMap fun tier => tier.2.entries.map (·.2) : List (Transfer K)) :
        Multiset (Transfer K)).bind pairs := by
  rw [← coe_bind, bind_assoc]
  refine bind_congr fun tier _ => ?_
  rw [← map_coe, bind_map]
  rfl

theorem TiersOk.flushPendingPromotions (ok : t.TiersOk loads stores) :
    t.flushPendingPromotions.TiersOk loads stores := by
  unfold TieringOffloadingManager.flushPendingPromotions
  have aligned : ∀ entry ∈ t.pendingLoadSubmissions.entries.flatMap
      (fun tier => tier.2.entries.map (·.2)), entry.blockIds.length = entry.keys.length := by
    intro entry mem
    obtain ⟨⟨tier, reqs⟩, memTier, memReqs⟩ := List.mem_flatMap.mp mem
    obtain ⟨⟨req, entry'⟩, memEntry, rfl⟩ := List.mem_map.mp memReqs
    exact ok.jobsWf.pendingAligned tier reqs (mem_contents.mp memTier) req entry'
      (mem_contents.mp memEntry)
  obtain ⟨wf, primary, promotions, cascades⟩ := addPromotions_spec ok.jobsWf aligned rfl
  refine ⟨⟨wf.issued, wf.aligned, wf.distinct, fun tier reqs found => by simp at found⟩, ?_⟩
  have transfers := ok.transfers
  rw [promotionPairs, collect_pending] at transfers
  simp only [promotionPairs, promotions, collect_empty, add_zero]
  rw [add_comm (bind _ _)]
  rw [← primary, ← cascades] at transfers
  exact transfers

theorem TiersOk.onScheduleEnd (ok : t.TiersOk loads stores)
    (run : t.onScheduleEnd finished = .ok t') : t'.TiersOk loads stores := by
  obtain ⟨t₁, polled, run⟩ := bind_eq_ok.mp run
  cases run
  have kept := ok.maybeProcessFinishedJobs polled
  exact TiersOk.flushPendingPromotions ⟨{ kept.jobsWf with }, kept.transfers⟩

end TieringOffloadingManager

end Vllm.Offload
