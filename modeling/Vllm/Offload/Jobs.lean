import Vllm.Offload.Scheduler
import Vllm.Lib.Steps
import Vllm.Lib.Arrays

/-!
Jobs of the offloading connector over whole runs.

A run is seen together with what the workers still owe: a job that was issued is owed
one report by every worker. By the invariant `JobsOk`, every job of a request is a job of the
scheduler and the other way round, and every block that a job may have to let go of waits for it.

`reset_cache` drops all jobs but leaves their ids in the requests' `transfer_jobs`: no job may
be in flight when it is called. It also makes a request store again from its first block,
where the table of a sliding-window group must not name a block twice.
-/

namespace Vllm.Offload

open Vllm.Lib Vllm.Lib.Fallible Vllm.Lib.Steps SchedulerState Dict List
open Function (update update_self update_of_ne)

variable {H : Type}

/-- The exceptions over a job that is not there. -/
def MissingJob : OffloadError → Prop
  | .missingJob _ | .missingTransferJob _ | .missingPendingJob _ _ => True
  | _ => False

namespace SchedulerState

/-! ### The invariant -/

/-- The block waits for the job. -/
def Waits (pending : Dict BlockId (List JobId)) (job : JobId) (block : BlockId) : Prop :=
  ∃ jobs, pending.get? block = some jobs ∧ job ∈ jobs

def Pending (s : SchedulerState H) (job : JobId) (block : BlockId) : Prop :=
  Waits s.blockIdToPendingJobs job block

/-- What holds of a job in `_jobs`. -/
structure JobOk (s : SchedulerState H) (owed : JobId → Nat) (job : JobId)
    (status : TransferJobStatus H) : Prop where
  fresh : s.staleJobThreshold ≤ job
  issued : job < s.jobCounter
  pendingCount : status.pendingCount = owed job
  pos : 0 < owed job
  distinct : (status.slidingWindowBlockIds ++ status.nonSlidingWindowBlockIds).Nodup
  watched : ∀ block ∈ status.slidingWindowBlockIds, s.Pending job block
  owner : ∃ owner, s.reqStatus.get? status.reqId = some owner ∧ job ∈ owner.transferJobs ∧
    (owner.finished = true → ∀ block ∈ status.nonSlidingWindowBlockIds, s.Pending job block)

/-- The bookkeeping agrees with what the workers owe. -/
structure JobsOk (s : SchedulerState H) (owed : JobId → Nat) : Prop where
  threshold_le : s.staleJobThreshold ≤ s.jobCounter
  jobOk : ∀ job status, s.jobs.get? job = some status → s.JobOk owed job status
  listed : ∀ req status, s.reqStatus.get? req = some status → ∀ job ∈ status.transferJobs,
    ∃ jobStatus, s.jobs.get? job = some jobStatus ∧ jobStatus.reqId = req
  busy : ∀ req status, s.reqStatus.get? req = some status → status.finished = true →
    status.transferJobs ≠ []
  owedListed : ∀ job, s.staleJobThreshold ≤ job → job < s.jobCounter → 0 < owed job →
    ∃ status, s.jobs.get? job = some status

variable {s s' : SchedulerState H} {owed owed' : JobId → Nat}

theorem jobsOk_init : ({} : SchedulerState H).JobsOk owed where
  threshold_le := le_rfl
  jobOk := fun job status found => by simp at found
  listed := fun req status found => by simp at found
  busy := fun req status found => by simp at found
  owedListed := fun job _ lt => absurd lt (Nat.not_lt_zero job)

/-- Only the jobs that are issued and not stale count. -/
theorem JobsOk.congr (ok : s.JobsOk owed)
    (same : ∀ job, s.staleJobThreshold ≤ job → job < s.jobCounter → owed' job = owed job) :
    s.JobsOk owed' where
  threshold_le := ok.threshold_le
  jobOk job status found := by
    have old := ok.jobOk job status found
    have eq := same job old.fresh old.issued
    exact { old with
      pendingCount := old.pendingCount.trans eq.symm
      pos := by rw [eq]; exact old.pos }
  listed := ok.listed
  busy := ok.busy
  owedListed job fresh issued pos := ok.owedListed job fresh issued (same job fresh issued ▸ pos)

/-- What the invariant reads off a request's state. -/
def jobsView (status : RequestOffloadState H) : List JobId × Bool :=
  (status.transferJobs, status.finished)

/-- The two states have the same jobs. -/
structure SameJobs (s s' : SchedulerState H) : Prop where
  jobCounter : s'.jobCounter = s.jobCounter
  staleJobThreshold : s'.staleJobThreshold = s.staleJobThreshold
  jobs : s'.jobs = s.jobs
  blockIdToPendingJobs : s'.blockIdToPendingJobs = s.blockIdToPendingJobs
  reqStatus : ∀ req, (s'.reqStatus.get? req).map jobsView = (s.reqStatus.get? req).map jobsView

theorem SameJobs.refl (s : SchedulerState H) : SameJobs s s := ⟨rfl, rfl, rfl, rfl, fun _ => rfl⟩

theorem SameJobs.trans {s'' : SchedulerState H} (first : SameJobs s s') (second : SameJobs s' s'') :
    SameJobs s s'' where
  jobCounter := second.jobCounter.trans first.jobCounter
  staleJobThreshold := second.staleJobThreshold.trans first.staleJobThreshold
  jobs := second.jobs.trans first.jobs
  blockIdToPendingJobs := second.blockIdToPendingJobs.trans first.blockIdToPendingJobs
  reqStatus req := (second.reqStatus req).trans (first.reqStatus req)

variable {req : ReqId} {status' owner : RequestOffloadState H} {job : JobId}
  {pending : Dict BlockId (List JobId)} {block : BlockId} {jobs : List JobId}
  {blocks : List BlockId} {count : Nat} {completedJobs : List (JobId × Nat)}

/-- A request's state before, with the same jobs. -/
theorem SameJobs.status (same : SameJobs s s') (found : s'.reqStatus.get? req = some status') :
    ∃ status, s.reqStatus.get? req = some status ∧ status.transferJobs = status'.transferJobs ∧
      status.finished = status'.finished := by
  have view := same.reqStatus req
  rw [found] at view
  obtain ⟨status, isStatus, eq⟩ := Option.map_eq_some_iff.mp view.symm
  exact ⟨status, isStatus, congrArg Prod.fst eq, congrArg Prod.snd eq⟩

theorem SameJobs.symm (same : SameJobs s s') : SameJobs s' s where
  jobCounter := same.jobCounter.symm
  staleJobThreshold := same.staleJobThreshold.symm
  jobs := same.jobs.symm
  blockIdToPendingJobs := same.blockIdToPendingJobs.symm
  reqStatus req := (same.reqStatus req).symm

theorem JobsOk.of_sameJobs (ok : s.JobsOk owed) (same : SameJobs s s') : s'.JobsOk owed where
  threshold_le := by
    rw [same.staleJobThreshold, same.jobCounter]
    exact ok.threshold_le
  jobOk job status found := by
    rw [same.jobs] at found
    have old := ok.jobOk job status found
    have pending : ∀ block, s.Pending job block → s'.Pending job block := by
      intro block pending
      unfold Pending
      rw [same.blockIdToPendingJobs]
      exact pending
    obtain ⟨owner, isOwner, mem, waits⟩ := old.owner
    obtain ⟨owner', isOwner', jobs, finished⟩ := same.symm.status isOwner
    refine ⟨by rw [same.staleJobThreshold]; exact old.fresh, by rw [same.jobCounter]; exact old.issued,
      old.pendingCount, old.pos, old.distinct, fun block mem => pending block (old.watched block mem),
      owner', isOwner', jobs ▸ mem, fun isFinished block mem => ?_⟩
    exact pending block (waits (finished ▸ isFinished) block mem)
  listed req status' found job mem := by
    obtain ⟨status, isStatus, jobs, -⟩ := same.status found
    rw [same.jobs]
    exact ok.listed req status isStatus job (jobs ▸ mem)
  busy req status' found finished := by
    obtain ⟨status, isStatus, jobs, sameFinished⟩ := same.status found
    rw [← jobs]
    exact ok.busy req status isStatus (sameFinished.trans finished)
  owedListed job fresh issued pos := by
    rw [same.staleJobThreshold] at fresh
    rw [same.jobCounter] at issued
    rw [same.jobs]
    exact ok.owedListed job fresh issued pos

/-! ### Requests -/

theorem sameJobs_setStatus {status : RequestOffloadState H}
    (found : s.reqStatus.get? req = some status) (same : jobsView status' = jobsView status) :
    SameJobs s (s.setStatus req status') where
  jobCounter := rfl
  staleJobThreshold := rfl
  jobs := rfl
  blockIdToPendingJobs := rfl
  reqStatus other := by
    rcases eq_or_ne other req with rfl | isReq
    · rw [setStatus, get?_set_self, found, Option.map_some, Option.map_some, same]
    · rw [setStatus, get?_set_of_ne _ isReq]

theorem sameJobs_mapValues {f : ReqId → RequestOffloadState H → RequestOffloadState H}
    (same : ∀ req status, jobsView (f req status) = jobsView status) :
    SameJobs s { s with reqStatus := s.reqStatus.mapValues f } where
  jobCounter := rfl
  staleJobThreshold := rfl
  jobs := rfl
  blockIdToPendingJobs := rfl
  reqStatus req := by
    rw [get?_mapValues]
    cases s.reqStatus.get? req with
    | none => rfl
    | some status => exact congrArg some (same req status)

theorem statusOf_eq_ok {status : RequestOffloadState H} :
    s.statusOf req = .ok status ↔ s.reqStatus.get? req = some status := by
  unfold statusOf
  cases s.reqStatus.get? req <;> simp

variable {status : TransferJobStatus H}

theorem jobOf_eq_ok : s.jobOf job = .ok status ↔ s.jobs.get? job = some status := by
  unfold jobOf
  cases s.jobs.get? job <;> simp

theorem JobsOk.onNewRequest (ok : s.JobsOk owed) (fresh : s.reqStatus.get? req = none)
    {status : RequestOffloadState H} (noJobs : status.transferJobs = [])
    (running : status.finished = false) :
    (s.setStatus req status).JobsOk owed where
  threshold_le := ok.threshold_le
  jobOk job jobStatus found := by
    have old := ok.jobOk job jobStatus found
    obtain ⟨owner, isOwner, mem, waits⟩ := old.owner
    have ne : jobStatus.reqId ≠ req := by
      rintro rfl
      rw [fresh] at isOwner
      cases isOwner
    refine { old with owner := ⟨owner, ?_, mem, waits⟩ }
    rw [setStatus, get?_set_of_ne _ ne]
    exact isOwner
  listed other status' found job mem := by
    rcases get?_set_eq_some found with ⟨rfl, rfl⟩ | ⟨-, found⟩
    · rw [noJobs] at mem
      cases mem
    · exact ok.listed other status' found job mem
  busy other status' found finished := by
    rcases get?_set_eq_some found with ⟨rfl, rfl⟩ | ⟨-, found⟩
    · rw [running] at finished
      cases finished
    · exact ok.busy other status' found finished
  owedListed := ok.owedListed

/-! ### Blocks that wait for jobs -/

theorem waits_set {job' : JobId} {block' : BlockId}
    (keeps : ∀ j, j ∈ (pending.get? block).getD [] → j ∈ jobs) (waits : Waits pending job' block') :
    Waits (pending.set block jobs) job' block' := by
  obtain ⟨old, found, mem⟩ := waits
  rcases eq_or_ne block' block with rfl | same
  · exact ⟨jobs, get?_set_self _ _ _, keeps job' (by rw [found]; exact mem)⟩
  · exact ⟨old, by rw [get?_set_of_ne _ same]; exact found, mem⟩

/-- Registering a job keeps what waits and adds the blocks. -/
theorem pending_addPendingJob :
    (∀ job' block, s.Pending job' block → (s.addPendingJob job blocks).Pending job' block) ∧
      ∀ block ∈ blocks, (s.addPendingJob job blocks).Pending job block := by
  unfold Pending addPendingJob
  generalize s.blockIdToPendingJobs = pending
  induction blocks generalizing pending with
  | nil => exact ⟨fun _ _ => id, nofun⟩
  | cons block rest ih =>
    obtain ⟨keeps, adds⟩ := ih (pending.set block
      (if job ∈ (pending.get? block).getD [] then (pending.get? block).getD []
        else (pending.get? block).getD [] ++ [job]))
    refine ⟨fun job' block' waits => keeps job' block' (waits_set ?_ waits),
      fun block' mem => ?_⟩
    · intro j mem
      split
      · exact mem
      · exact mem_append_left _ mem
    · rcases mem_cons.mp mem with rfl | mem
      · refine keeps job block' ⟨_, get?_set_self _ _ _, ?_⟩
        split
        · assumption
        · simp
      · exact adds block' mem

/-- Taking a job off a block that waits for it. -/
theorem removePendingBlock_ok (waits : Waits pending job block) :
    ∃ pending', removePendingBlock job pending block = .ok pending' ∧
      ∀ job' block', job' ≠ job ∨ block' ≠ block → Waits pending job' block' →
        Waits pending' job' block' := by
  obtain ⟨jobs, found, mem⟩ := waits
  refine ⟨_, by rw [removePendingBlock, found]; exact if_pos mem, fun job' block' other waits => ?_⟩
  obtain ⟨jobs', found', mem'⟩ := waits
  rcases eq_or_ne block' block with rfl | same
  · cases found.symm.trans found'
    have kept : job' ∈ jobs.filter (· ≠ job) :=
      mem_filter.mpr ⟨mem', by simpa using other.resolve_right (not_not.mpr rfl)⟩
    rw [if_neg (ne_nil_of_mem kept)]
    exact ⟨_, get?_set_self _ _ _, kept⟩
  · refine ⟨jobs', ?_, mem'⟩
    split
    · rw [get?_erase_of_ne _ same]
      exact found'
    · rw [get?_set_of_ne _ same]
      exact found'

theorem removePendingJob_ok (distinct : blocks.Nodup)
    (waits : ∀ block ∈ blocks, s.Pending job block) :
    ∃ pending, s.removePendingJob job blocks = .ok { s with blockIdToPendingJobs := pending } ∧
      ∀ job' block, job' ≠ job ∨ block ∉ blocks → s.Pending job' block →
        Waits pending job' block := by
  suffices loop : ∀ pending : Dict BlockId (List JobId), (∀ block ∈ blocks, Waits pending job block) →
      ∃ pending', blocks.foldlM (removePendingBlock job) pending = .ok pending' ∧
        ∀ job' block, job' ≠ job ∨ block ∉ blocks → Waits pending job' block →
          Waits pending' job' block by
    obtain ⟨pending, run, keeps⟩ := loop _ waits
    exact ⟨pending, by rw [removePendingJob, run]; rfl, keeps⟩
  clear waits
  induction blocks with
  | nil => exact fun pending _ => ⟨pending, rfl, fun _ _ _ => id⟩
  | cons block rest ih =>
    obtain ⟨notMem, distinct⟩ := nodup_cons.mp distinct
    intro pending waits
    obtain ⟨pending₁, first, keeps₁⟩ := removePendingBlock_ok (waits block (by simp))
    obtain ⟨pending₂, run, keeps₂⟩ := ih distinct pending₁ fun block' mem =>
      keeps₁ job block' (.inr fun same => notMem (same ▸ mem)) (waits block' (by simp [mem]))
    refine ⟨pending₂, by rw [foldlM_cons, first]; exact run, fun job' block' other waits => ?_⟩
    refine keeps₂ job' block' (other.imp_right fun notMem mem => notMem (by simp [mem]))
      (keeps₁ job' block' (other.imp_right fun notMem same => notMem (by simp [same])) waits)

/-! ### Completion -/

section

variable (ok : s.JobsOk owed)
include ok

section

variable (found : s.jobs.get? job = some status)
include found

theorem JobsOk.releaseBlocks (isOwner : s.reqStatus.get? status.reqId = some owner) :
    ∃ pending, s.releaseBlocks job status owner.finished =
        .ok { s with blockIdToPendingJobs := pending } ∧
      ∀ job' block, job' ≠ job → s.Pending job' block → Waits pending job' block := by
  have old := ok.jobOk job status found
  obtain ⟨distinct, distinct', disjoint⟩ := nodup_append.mp old.distinct
  obtain ⟨pending₁, first, keeps₁⟩ := removePendingJob_ok distinct old.watched
  unfold SchedulerState.releaseBlocks
  split
  · exact ⟨s.blockIdToPendingJobs, rfl, fun _ _ _ => id⟩
  rw [first, ok_bind]
  by_cases finished : owner.finished = true
  · obtain ⟨owner', isOwner', -, waits⟩ := old.owner
    cases isOwner.symm.trans isOwner'
    obtain ⟨pending₂, second, keeps₂⟩ := removePendingJob_ok
      (s := { s with blockIdToPendingJobs := pending₁ }) distinct' fun block mem =>
        keeps₁ job block (.inr fun mem' => disjoint block mem' block mem rfl)
          (waits finished block mem)
    rw [if_pos finished]
    exact ⟨pending₂, second, fun job' block ne pending =>
      keeps₂ job' block (.inl ne) (keeps₁ job' block (.inl ne) pending)⟩
  · rw [if_neg finished]
    exact ⟨pending₁, rfl, fun job' block ne pending => keeps₁ job' block (.inl ne) pending⟩

/-- The state after a job has left `_jobs` and its request. -/
theorem JobsOk.dropJob (isOwner : s.reqStatus.get? status.reqId = some owner)
    (keeps : ∀ job' block, job' ≠ job → s.Pending job' block → Waits pending job' block) :
    ({ s with
      blockIdToPendingJobs := pending
      jobs := s.jobs.erase job
      reqStatus := if owner.transferJobs.filter (· ≠ job) = [] ∧ owner.finished then
          s.reqStatus.erase status.reqId
        else s.reqStatus.set status.reqId
          { owner with transferJobs := owner.transferJobs.filter (· ≠ job) } } :
      SchedulerState H).JobsOk (update owed job 0) := by
  have others : ∀ req, req ≠ status.reqId →
      (if owner.transferJobs.filter (· ≠ job) = [] ∧ owner.finished then
          s.reqStatus.erase status.reqId
        else s.reqStatus.set status.reqId
          { owner with transferJobs := owner.transferJobs.filter (· ≠ job) }).get? req =
        s.reqStatus.get? req := by
    intro req ne
    split
    · exact get?_erase_of_ne _ ne
    · exact get?_set_of_ne _ ne _
  refine ⟨ok.threshold_le, fun job' status' found' => ?_, fun req status' found' job' mem => ?_,
    fun req status' found' finished => ?_, fun job' fresh issued pos => ?_⟩
  · -- Another job keeps its blocks and its request.
    obtain ⟨ne, found'⟩ := get?_erase_eq_some found'
    have old := ok.jobOk job' status' found'
    obtain ⟨owner', isOwner', mem, waits⟩ := old.owner
    refine ⟨old.fresh, old.issued, by rw [update_of_ne ne]; exact old.pendingCount,
      by rw [update_of_ne ne]; exact old.pos, old.distinct,
      fun block mem => keeps job' block ne (old.watched block mem), ?_⟩
    by_cases sameReq : status'.reqId = status.reqId
    · rw [sameReq, isOwner, Option.some.injEq] at isOwner'
      subst isOwner'
      have kept : job' ∈ owner.transferJobs.filter (· ≠ job) :=
        mem_filter.mpr ⟨mem, by simpa using ne⟩
      refine ⟨{ owner with transferJobs := owner.transferJobs.filter (· ≠ job) }, ?_, kept,
        fun finished block mem => keeps job' block ne (waits finished block mem)⟩
      rw [sameReq, if_neg fun both => ne_nil_of_mem kept both.1]
      exact get?_set_self _ _ _
    · refine ⟨owner', by rw [others _ sameReq]; exact isOwner', mem, fun finished block mem =>
        keeps job' block ne (waits finished block mem)⟩
  · rcases eq_or_ne req status.reqId with rfl | sameReq
    · split at found'
      · simp at found'
      · rw [get?_set_self, Option.some.injEq] at found'
        rw [← found'] at mem
        obtain ⟨mem, ne⟩ := mem_filter.mp mem
        rw [get?_erase_of_ne _ (by simpa using ne)]
        exact ok.listed _ owner isOwner job' mem
    · rw [others _ sameReq] at found'
      obtain ⟨jobStatus, isJob, isReq⟩ := ok.listed req status' found' job' mem
      have ne : job' ≠ job := by
        rintro rfl
        rw [found, Option.some.injEq] at isJob
        exact sameReq (isReq.symm.trans (congrArg _ isJob.symm))
      exact ⟨jobStatus, by rw [get?_erase_of_ne _ ne]; exact isJob, isReq⟩
  · rcases eq_or_ne req status.reqId with rfl | sameReq
    · split at found'
      · simp at found'
      · rename_i some
        rw [get?_set_self, Option.some.injEq] at found'
        subst found'
        exact fun empty => some ⟨empty, finished⟩
    · rw [others _ sameReq] at found'
      exact ok.busy req status' found' finished
  · have ne : job' ≠ job := by
      rintro rfl
      simp at pos
    rw [update_of_ne ne] at pos
    rw [get?_erase_of_ne _ ne]
    exact ok.owedListed job' fresh issued pos

theorem JobsOk.completeJob :
    ∃ s', completeJob s job status = .ok s' ∧ s'.JobsOk (update owed job 0) ∧
      s'.jobCounter = s.jobCounter ∧ s'.staleJobThreshold = s.staleJobThreshold := by
  obtain ⟨owner, isOwner, mem, -⟩ := (ok.jobOk job status found).owner
  obtain ⟨pending, released, keeps⟩ := ok.releaseBlocks found isOwner
  refine ⟨_, ?_, ok.dropJob found isOwner keeps, rfl, rfl⟩
  unfold SchedulerState.completeJob
  rw [statusOf_eq_ok.mpr isOwner, ok_bind, released, ok_bind, if_neg (not_not.mpr mem)]
  rfl

theorem JobsOk.countReports (less : count < status.pendingCount) :
    ({ s with jobs := s.jobs.set job { status with pendingCount := status.pendingCount - count } } :
      SchedulerState H).JobsOk (update owed job (owed job - count)) := by
  have old := ok.jobOk job status found
  have pos : 0 < owed job - count := by
    rw [old.pendingCount] at less
    omega
  refine ⟨ok.threshold_le, fun job' status' found' => ?_, fun req status' found' job' mem => ?_,
    ok.busy, fun job' fresh issued pos' => ?_⟩
  · rcases get?_set_eq_some found' with ⟨rfl, rfl⟩ | ⟨same, found'⟩
    · refine { old with pendingCount := ?_, pos := ?_ }
      · rw [update_self, old.pendingCount]
      · rw [update_self]
        exact pos
    · have other := ok.jobOk job' status' found'
      exact { other with
        pendingCount := by rw [update_of_ne same]; exact other.pendingCount
        pos := by rw [update_of_ne same]; exact other.pos }
  · obtain ⟨jobStatus, isJob, isReq⟩ := ok.listed req status' found' job' mem
    rcases eq_or_ne job' job with rfl | same
    · cases found.symm.trans isJob
      exact ⟨_, get?_set_self _ _ _, isReq⟩
    · exact ⟨jobStatus, by rw [get?_set_of_ne _ same]; exact isJob, isReq⟩
  · rcases eq_or_ne job' job with rfl | same
    · exact ⟨_, get?_set_self _ _ _⟩
    · rw [update_of_ne same] at pos'
      rw [get?_set_of_ne _ same]
      exact ok.owedListed job' fresh issued pos'

end

/-- Reports that the workers owe. -/
theorem JobsOk.updateJob (pos : 0 < count) (issued : job < s.jobCounter) (le : count ≤ owed job) :
    ∃ s', updateJob s (job, count) = .ok s' ∧
      s'.JobsOk (update owed job (owed job - count)) ∧ s'.jobCounter = s.jobCounter := by
  unfold SchedulerState.updateJob
  rw [if_neg (by simpa using ne_of_gt pos)]
  split
  · -- A job from before a reset.
    rename_i stale
    refine ⟨s, rfl, ok.congr fun job' fresh _ => update_of_ne ?_ _ _, rfl⟩
    rintro rfl
    exact absurd fresh (not_le.mpr stale)
  · rename_i fresh
    obtain ⟨status, found⟩ := ok.owedListed job (not_lt.mp fresh) issued (by omega)
    have counts := (ok.jobOk job status found).pendingCount
    rw [jobOf_eq_ok.mpr found, ok_bind]
    split
    · rename_i less
      exact ⟨_, rfl, ok.countReports found less, rfl⟩
    · rw [if_neg (by simp only; omega)]
      obtain ⟨s', run, ok', counter, -⟩ := ok.completeJob found
      refine ⟨s', run, ?_, counter⟩
      have zero : owed job - count = 0 := by
        omega
      rw [zero]
      exact ok'

end

/-- What is owed after reports. -/
def afterReports (owed : JobId → Nat) (completedJobs : List (JobId × Nat)) : JobId → Nat :=
  completedJobs.foldl (fun owed done => update owed done.1 (owed done.1 - done.2)) owed

theorem afterReports_of_notMem (notMem : job ∉ completedJobs.map Prod.fst) :
    afterReports owed completedJobs job = owed job := by
  induction completedJobs generalizing owed with
  | nil => rfl
  | cons done rest ih =>
    rw [map_cons, mem_cons, not_or] at notMem
    exact (ih notMem.2).trans (update_of_ne notMem.1 _ _)

/-- Reports of different jobs, all of them owed, in any order. -/
theorem JobsOk.updateConnectorOutput (ok : s.JobsOk owed)
    (distinct : (completedJobs.map Prod.fst).Nodup)
    (reports : ∀ done ∈ completedJobs, 0 < done.2 ∧ done.1 < s.jobCounter ∧ done.2 ≤ owed done.1) :
    ∃ s', s.updateConnectorOutput completedJobs = .ok s' ∧
      s'.JobsOk (afterReports owed completedJobs) ∧ s'.jobCounter = s.jobCounter := by
  induction completedJobs generalizing s owed with
  | nil => exact ⟨s, rfl, ok, rfl⟩
  | cons done rest ih =>
    obtain ⟨notMem, distinct⟩ := nodup_cons.mp distinct
    obtain ⟨pos, issued, le⟩ := reports done (by simp)
    obtain ⟨s₁, first, ok₁, counter⟩ := ok.updateJob pos issued le
    obtain ⟨s₂, run, ok₂, counter'⟩ := ih ok₁ distinct fun other mem => by
      have ne : other.1 ≠ done.1 := fun same => notMem (same ▸ mem_map_of_mem mem)
      rw [counter, update_of_ne ne]
      exact reports other (by simp [mem])
    refine ⟨s₂, ?_, ok₂, counter'.trans counter⟩
    rw [updateConnectorOutput, foldlM_cons, first]
    exact run

/-! ### The end of a request and a reset -/

theorem jobsOk_erase (ok : s.JobsOk owed) {status : RequestOffloadState H}
    (found : s.reqStatus.get? req = some status) (noJobs : status.transferJobs = []) :
    ({ s with reqStatus := s.reqStatus.erase req } : SchedulerState H).JobsOk owed where
  threshold_le := ok.threshold_le
  jobOk job jobStatus isJob := by
    have old := ok.jobOk job jobStatus isJob
    obtain ⟨owner, isOwner, mem, waits⟩ := old.owner
    have ne : jobStatus.reqId ≠ req := by
      rintro rfl
      rw [found, Option.some.injEq] at isOwner
      rw [← isOwner, noJobs] at mem
      cases mem
    refine { old with owner := ⟨owner, ?_, mem, waits⟩ }
    rw [get?_erase_of_ne _ ne]
    exact isOwner
  listed other status' found' job mem := by
    obtain ⟨ne, found'⟩ := get?_erase_eq_some found'
    exact ok.listed other status' found' job mem
  busy other status' found' := by
    obtain ⟨ne, found'⟩ := get?_erase_eq_some found'
    exact ok.busy other status' found'
  owedListed := ok.owedListed

theorem watchBlocks_ok (known : ∀ job ∈ jobs, ∃ jobStatus, s.jobs.get? job = some jobStatus) :
    ∃ pending, jobs.foldlM watchBlocks s = .ok { s with blockIdToPendingJobs := pending } ∧
      (∀ job block, s.Pending job block → Waits pending job block) ∧
      ∀ job ∈ jobs, ∀ jobStatus, s.jobs.get? job = some jobStatus →
        ∀ block ∈ jobStatus.nonSlidingWindowBlockIds, Waits pending job block := by
  induction jobs generalizing s with
  | nil => exact ⟨_, rfl, fun _ _ => id, nofun⟩
  | cons job rest ih =>
    obtain ⟨jobStatus, isJob⟩ := known job (by simp)
    obtain ⟨keeps, adds⟩ := @pending_addPendingJob _ s job jobStatus.nonSlidingWindowBlockIds
    obtain ⟨pending, run, keeps', adds'⟩ :=
      ih (s := s.addPendingJob job jobStatus.nonSlidingWindowBlockIds)
        fun other mem => known other (by simp [mem])
    refine ⟨pending, ?_, fun job' block waits => keeps' job' block (keeps job' block waits), ?_⟩
    · rw [foldlM_cons, watchBlocks, jobOf_eq_ok.mpr isJob]
      exact run
    · intro job' mem jobStatus' isJob' block memBlock
      rcases mem_cons.mp mem with rfl | mem
      · cases isJob.symm.trans isJob'
        exact keeps' job' block (adds block memBlock)
      · exact adds' job' mem jobStatus' isJob' block memBlock

/-- A request with jobs in flight finishes: all its blocks are watched now. -/
theorem JobsOk.finish (ok : s.JobsOk owed) {status : RequestOffloadState H}
    (found : s.reqStatus.get? req = some status) (busy : status.transferJobs ≠ [])
    (keeps : ∀ job block, s.Pending job block → Waits pending job block)
    (adds : ∀ job ∈ status.transferJobs, ∀ jobStatus, s.jobs.get? job = some jobStatus →
      ∀ block ∈ jobStatus.nonSlidingWindowBlockIds, Waits pending job block) :
    ({ s.setStatus req { status with finished := true } with blockIdToPendingJobs := pending } :
      SchedulerState H).JobsOk owed where
  threshold_le := ok.threshold_le
  jobOk job jobStatus isJob := by
    have old := ok.jobOk job jobStatus isJob
    refine { old with watched := fun block mem => keeps job block (old.watched block mem), owner := ?_ }
    obtain ⟨owner, isOwner, mem, waits⟩ := old.owner
    rcases eq_or_ne jobStatus.reqId req with rfl | isReq
    · cases found.symm.trans isOwner
      exact ⟨_, get?_set_self _ _ _, mem, fun _ => adds job mem jobStatus isJob⟩
    · refine ⟨owner, ?_, mem, fun finished block memBlock =>
        keeps job block (waits finished block memBlock)⟩
      rw [setStatus, get?_set_of_ne _ isReq]
      exact isOwner
  listed other status' found' job mem := by
    rcases get?_set_eq_some found' with ⟨rfl, rfl⟩ | ⟨isReq, found'⟩
    · exact ok.listed other status found job mem
    · exact ok.listed other status' found' job mem
  busy other status' found' finished := by
    rcases get?_set_eq_some found' with ⟨rfl, rfl⟩ | ⟨isReq, found'⟩
    · exact busy
    · exact ok.busy other status' found' finished
  owedListed := ok.owedListed

theorem JobsOk.requestFinished (ok : s.JobsOk owed) (req : ReqId) :
    ∃ s', s.requestFinished req = .ok s' ∧ s'.JobsOk owed ∧ s'.jobCounter = s.jobCounter := by
  unfold SchedulerState.requestFinished
  cases found : s.reqStatus.get? req with
  | none => exact ⟨s, rfl, ok, rfl⟩
  | some status =>
    by_cases noJobs : status.transferJobs = []
    · exact ⟨_, if_pos noJobs, jobsOk_erase ok found noJobs, rfl⟩
    · obtain ⟨pending, run, keeps, adds⟩ :=
        watchBlocks_ok (s := s.setStatus req { status with finished := true })
          fun job (mem : job ∈ status.transferJobs) =>
            (ok.listed req status found job mem).imp fun _ => And.left
      exact ⟨_, (if_neg noJobs).trans run, ok.finish found noJobs keeps adds, rfl⟩

/-- No job of a tracked request is in flight. -/
def NoJobs (s : SchedulerState H) : Prop :=
  ∀ entry ∈ s.reqStatus.entries, entry.2.transferJobs = []

instance : Decidable s.NoJobs := inferInstanceAs (Decidable (∀ entry ∈ _, _))

theorem NoJobs.of_get? (noJobs : s.NoJobs) {status : RequestOffloadState H}
    (found : s.reqStatus.get? req = some status) : status.transferJobs = [] :=
  noJobs _ (mem_entries_of_get? found)

theorem JobsOk.resetCache (ok : s.JobsOk owed) (noJobs : s.NoJobs)
    (run : s.resetCache = .ok s') : s'.JobsOk owed ∧ s'.jobCounter = s.jobCounter := by
  unfold SchedulerState.resetCache at run
  split at run
  · cases run
  cases run
  refine ⟨⟨le_rfl, fun job status found => by simp at found, ?_, ?_, ?_⟩, rfl⟩
  · intro req status found job mem
    rw [get?_mapValues] at found
    obtain ⟨old, isOld, rfl⟩ := Option.map_eq_some_iff.mp found
    rw [noJobs.of_get? isOld] at mem
    cases mem
  · intro req status found finished
    rw [get?_mapValues] at found
    obtain ⟨old, isOld, rfl⟩ := Option.map_eq_some_iff.mp found
    exact absurd (noJobs.of_get? isOld) (ok.busy req old isOld finished)
  · intro job fresh issued
    exact absurd issued (not_lt.mpr fresh)

theorem JobsOk.addPendingJob (ok : s.JobsOk owed) (job : JobId) (blocks : List BlockId) :
    (s.addPendingJob job blocks).JobsOk owed where
  threshold_le := ok.threshold_le
  jobOk job' status found := by
    have keeps := (@pending_addPendingJob _ s job blocks).1
    have old := ok.jobOk job' status found
    obtain ⟨owner, isOwner, mem, waits⟩ := old.owner
    exact { old with
      watched := fun block mem => keeps job' block (old.watched block mem)
      owner := ⟨owner, isOwner, mem, fun finished block mem =>
        keeps job' block (waits finished block mem)⟩ }
  listed := ok.listed
  busy := ok.busy
  owedListed := ok.owedListed

/-- A job for a request that has not finished. -/
theorem JobsOk.addJob (ok : s.JobsOk owed) {old status : RequestOffloadState H}
    (found : s.reqStatus.get? req = some old) (sameJobs : status.transferJobs = old.transferJobs)
    (running : status.finished = false) {job : TransferJobStatus H} (isReq : job.reqId = req)
    (count : job.pendingCount = owed s.jobCounter) (pos : 0 < owed s.jobCounter)
    (distinct : (job.slidingWindowBlockIds ++ job.nonSlidingWindowBlockIds).Nodup)
    (watched : ∀ block ∈ job.slidingWindowBlockIds, s.Pending s.jobCounter block) :
    (s.addJob req status job).JobsOk owed where
  threshold_le := Nat.le_succ_of_le ok.threshold_le
  jobOk job' jobStatus found' := by
    rcases get?_set_eq_some found' with ⟨rfl, rfl⟩ | ⟨isNew, found'⟩
    · refine ⟨ok.threshold_le, Nat.lt_succ_self _, count, pos, distinct, watched, ?_⟩
      refine ⟨_, by rw [isReq]; exact get?_set_self _ _ _, by simp, fun finished => ?_⟩
      exact absurd (running.symm.trans finished) Bool.false_ne_true
    · have before := ok.jobOk job' jobStatus found'
      refine ⟨before.fresh, Nat.lt_succ_of_lt before.issued, before.pendingCount, before.pos,
        before.distinct, before.watched, ?_⟩
      obtain ⟨owner, isOwner, mem, waits⟩ := before.owner
      by_cases sameReq : jobStatus.reqId = req
      · rw [sameReq, found, Option.some.injEq] at isOwner
        subst isOwner
        refine ⟨_, by rw [sameReq]; exact get?_set_self _ _ _, ?_, fun finished => ?_⟩
        · simp only [sameJobs, mem_append]
          exact .inl mem
        · exact absurd (running.symm.trans finished) Bool.false_ne_true
      · refine ⟨owner, ?_, mem, waits⟩
        rw [SchedulerState.addJob, get?_set_of_ne _ sameReq]
        exact isOwner
  listed other status' found' job' mem := by
    have known : ∀ jobStatus, s.jobs.get? job' = some jobStatus →
        (s.jobs.set s.jobCounter job).get? job' = some jobStatus := by
      intro jobStatus isJob
      rw [get?_set_of_ne _ (ne_of_lt (ok.jobOk job' jobStatus isJob).issued)]
      exact isJob
    rcases get?_set_eq_some found' with ⟨rfl, rfl⟩ | ⟨sameReq, found'⟩
    · rcases mem_append.mp mem with mem | mem
      · rw [sameJobs] at mem
        obtain ⟨jobStatus, isJob, isOther⟩ := ok.listed other old found job' mem
        exact ⟨jobStatus, known jobStatus isJob, isOther⟩
      · rw [mem_singleton.mp mem]
        exact ⟨job, get?_set_self _ _ _, isReq⟩
    · obtain ⟨jobStatus, isJob, isOther⟩ := ok.listed other status' found' job' mem
      exact ⟨jobStatus, known jobStatus isJob, isOther⟩
  busy other status' found' finished := by
    rcases get?_set_eq_some found' with ⟨rfl, rfl⟩ | ⟨sameReq, found'⟩
    · simp
    · exact ok.busy other status' found' finished
  owedListed job' fresh issued pos' := by
    rcases eq_or_ne job' s.jobCounter with rfl | isNew
    · exact ⟨job, get?_set_self _ _ _⟩
    · obtain ⟨jobStatus, isJob⟩ := ok.owedListed job' fresh
        (lt_of_le_of_ne (Nat.le_of_lt_succ issued) isNew) pos'
      exact ⟨jobStatus, by rw [SchedulerState.addJob, get?_set_of_ne _ isNew]; exact isJob⟩

/-! ### The blocks of a store job -/

section Stores

variable {cfg : SchedulerOffloadConfig}

/-- The blocks of a table that were not offered to the manager yet. -/
def storable (cfg : SchedulerOffloadConfig) (group : RequestGroupState H) : List BlockId :=
  (group.blockIds.drop (group.nextStoredBlockIdx * cfg.blockSizeFactor)).filter (· ≠ 0)

/-- No block is in the parts of a request's tables that were not offered yet twice. -/
def StorableDistinct (cfg : SchedulerOffloadConfig) (status : RequestOffloadState H) : Prop :=
  ((cfg.kvGroupConfigs.zip status.groupStates).flatMap fun entry => storable cfg entry.2).Nodup

/-- Reading positions that must all be there. -/
theorem map_fst_of_mapM {table : List BlockId} {positions : List Nat} {blocks : List (BlockId × Nat)}
    (run : positions.mapM (blockAt table) = .ok blocks) :
    blocks.map Prod.fst = positions.filterMap (table[·]?) := by
  have each := forall₂_of_mapM run
  clear run
  induction each with
  | nil => rfl
  | cons first _ ih =>
    unfold blockAt at first
    split at first
    · rename_i found
      cases first
      rw [map_cons, filterMap_cons_some found, ih]
    · cases first

variable [DecidableEq H]

variable {numTokens : Nat} {keys : List (OffloadKey H)}

theorem storeGroup_sublist {config : GroupOffloadConfig} {group : RequestGroupState H}
    {store : GroupStore} (run : storeGroup cfg numTokens keys config group = .ok store) :
    (store.blocks.map Prod.fst).Sublist (storable cfg group) := by
  obtain ⟨blocks, read, run⟩ := bind_eq_ok.mp run
  cases run
  have values := map_fst_of_mapM read
  have filtered : (blocks.filter (·.1 ≠ 0)).map Prod.fst = (blocks.map Prod.fst).filter (· ≠ 0) := by
    rw [filter_map]
    rfl
  simp only [filtered, values]
  refine List.Sublist.filter _ (.trans (List.Sublist.filterMap _ ?_)
    (Arrays.filterMap_range'_sublist _ _
      (((group.offloadKeys.take (numTokens / config.offloadedBlockSize)).drop
        group.nextStoredBlockIdx).length * cfg.blockSizeFactor)))
  rw [← Arrays.flatMap_range'_blocks, ← zipIdx_map_snd, flatMap_map]
  exact filter_sublist.flatMap _

/-- The two lists of blocks of a job are parts of the request's tables. -/
theorem blocksOfKind_nodup {groups : List (GroupOffloadConfig × RequestGroupState H)}
    {stores : List GroupStore}
    (run : groups.mapM (fun entry => storeGroup cfg numTokens keys entry.1 entry.2) = .ok stores)
    (distinct : (groups.flatMap fun entry => storable cfg entry.2).Nodup) :
    (blocksOfKind true stores ++ blocksOfKind false stores).Nodup := by
  have part : (stores.flatMap fun store => store.blocks.map Prod.fst).Sublist
      (groups.flatMap fun entry => storable cfg entry.2) := by
    have each := forall₂_of_mapM run
    clear run distinct
    induction each with
    | nil => exact .slnil
    | cons first _ ih =>
      exact (storeGroup_sublist first).append ih
  have perm : (blocksOfKind true stores ++ blocksOfKind false stores).Perm
      (stores.flatMap fun store => store.blocks.map Prod.fst) := by
    unfold blocksOfKind
    rw [← flatMap_append]
    refine List.Perm.flatMap_right _ ?_
    have split := filter_append_perm (fun store : GroupStore => decide (store.isSlidingWindow = true))
      stores
    simpa using split
  exact perm.nodup_iff.mpr (distinct.sublist part)

/-! ### The end of a step -/

omit [DecidableEq H] in
theorem ensures_updateBlockIdGroups (status : RequestOffloadState H) (new : List (List BlockId)) :
    Ensures MissingJob (fun grown => jobsView grown = jobsView status)
      (status.updateBlockIdGroups new) := by
  unfold RequestOffloadState.updateBlockIdGroups
  split
  · simp [MissingJob]
  · exact ensures_ok.mpr rfl

omit [DecidableEq H] in
/-- New blocks and stale ones change nothing about the jobs. -/
theorem sameJobs_updateReqStates (view : ReqId → RequestView H) (out : SchedulerOutput) :
    Ensures MissingJob (SameJobs s) (s.updateReqStates cfg view out) := by
  have loop : Ensures MissingJob
      (fun acc : SchedulerState H × List (ReqId × List Nat) => SameJobs s acc.1)
      (out.reqData.foldlM (updateReqState cfg view) (s, [])) := by
    refine ensures_foldlM
      (fun _ (acc : SchedulerState H × List (ReqId × List Nat)) => SameJobs s acc.1)
      (fun data rest acc same => ?_) (.refl s)
    unfold updateReqState
    simp only
    cases found : acc.1.reqStatus.get? data.1 with
    | none => simp [statusOf, found, MissingJob]
    | some status =>
      rw [statusOf_eq_ok.mpr found]
      have sameView : jobsView (if data.2.2 = true then
          (status.updateOffloadKeys cfg (view data.1).blockHashes).clearBlockIds
        else status.updateOffloadKeys cfg (view data.1).blockHashes) = jobsView status := by
        split <;> rfl
      split
      · exact ensures_ok.mpr (same.trans (sameJobs_setStatus found sameView))
      · exact ensures_ok.mpr (same.trans (sameJobs_setStatus found sameView))
      · refine (ensures_updateBlockIdGroups _ _).bind fun grown _ sameGrown => ?_
        refine ensures_ok.mpr (same.trans ((sameJobs_setStatus found (sameGrown.trans sameView)).trans ?_))
        exact ⟨rfl, rfl, rfl, rfl, fun _ => rfl⟩
  refine loop.bind fun acc _ same => ?_
  simp only
  split
  · exact ensures_ok.mpr same
  · exact ensures_ok.mpr (same.trans (sameJobs_mapValues fun _ _ => rfl))

omit [DecidableEq H] in
/-- The jobs of a tracked request can be looked up. -/
theorem JobsOk.assertStores (ok : s.JobsOk owed) {req : ReqId} {status : RequestOffloadState H}
    (found : s.reqStatus.get? req = some status) :
    Ensures MissingJob (fun _ => True) (s.assertStores status.transferJobs) := by
  unfold SchedulerState.assertStores
  split
  · simp
  · rename_i job rest isJobs
    obtain ⟨jobStatus, isJob, -⟩ := ok.listed req status found job (by simp [isJobs])
    rw [jobOf_eq_ok.mpr isJob, ok_bind]
    split <;> simp [MissingJob]

omit [DecidableEq H] in
theorem JobsOk.flushPreempted (ok : s.JobsOk owed) (req : ReqId) :
    Ensures MissingJob (fun s' => SameJobs s s' ∧ s'.reqStatus = s.reqStatus)
      (flushPreempted s req) := by
  unfold SchedulerState.flushPreempted
  cases found : s.reqStatus.get? req with
  | none => exact ensures_ok.mpr ⟨.refl s, rfl⟩
  | some status =>
    refine (ok.assertStores found).bind fun _ _ _ => ?_
    exact ensures_ok.mpr ⟨⟨rfl, rfl, rfl, rfl, fun _ => rfl⟩, rfl⟩

def FreshOwed (cfg : SchedulerOffloadConfig) (s : SchedulerState H) (owed : JobId → Nat) : Prop :=
  ∀ job, s.jobCounter ≤ job → owed job = cfg.numWorkers

omit [DecidableEq H] in
theorem ensures_newOffloadKeys (numTokens : Nat) (config : GroupOffloadConfig)
    (group : RequestGroupState H) :
    Ensures MissingJob (fun _ => True) (newOffloadKeys cfg numTokens config group) := by
  unfold newOffloadKeys
  simp only
  split
  · simp
  · split <;> simp [MissingJob]

theorem ensures_storeGroup (numTokens : Nat) (keys : List (OffloadKey H))
    (config : GroupOffloadConfig) (group : RequestGroupState H) :
    Ensures MissingJob (fun _ => True) (storeGroup cfg numTokens keys config group) := by
  refine (ensures_mapM fun i _ => ?_).bind fun _ _ _ => ensures_ok.mpr trivial
  unfold blockAt
  split <;> simp [MissingJob]

omit [DecidableEq H] in
theorem ensures_loadGroup (numLocallyComputedTokens numCachedTokens : Nat)
    (config : GroupOffloadConfig) (group : RequestGroupState H) (blocks : List GpuBlock) :
    Ensures MissingJob (fun _ => True)
      (loadGroup cfg numLocallyComputedTokens numCachedTokens config group blocks) := by
  unfold loadGroup
  simp only
  split
  · simp [MissingJob]
  split
  · simp [MissingJob]
  split
  · simp [MissingJob]
  split
  · simp [MissingJob]
  · simp

/-- What a request's turn leaves behind. -/
structure TurnOk (cfg : SchedulerOffloadConfig) (owed : JobId → Nat) (s : SchedulerState H)
    (req : ReqId) (s' : SchedulerState H) : Prop where
  jobsOk : s'.JobsOk owed
  fresh : FreshOwed cfg s' owed
  others : ∀ other, other ≠ req → s'.reqStatus.get? other = s.reqStatus.get? other

theorem JobsOk.buildStoreJob (workers : 0 < cfg.numWorkers) (ok : s.JobsOk owed)
    (fresh : FreshOwed cfg s owed) (view : ReqId → RequestView H) (prepareStore : StoreReply H)
    (scheduled : ReqId × Nat) (storeJobs : List (JobId × TransferJob))
    (ready : ∀ status, s.reqStatus.get? scheduled.1 = some status →
      status.finished = false ∧ StorableDistinct cfg status) :
    Ensures MissingJob (fun acc => TurnOk cfg owed s scheduled.1 acc.1)
      (buildStoreJob cfg view prepareStore (s, storeJobs) scheduled) := by
  unfold SchedulerState.buildStoreJob
  simp only
  cases found : s.reqStatus.get? scheduled.1 with
  | none => exact ensures_ok.mpr ⟨ok, fresh, fun _ _ => rfl⟩
  | some status =>
    obtain ⟨running, distinct⟩ := ready status found
    refine (ensures_mapM fun entry _ => ensures_newOffloadKeys _ _ _).bind fun offered _ _ => ?_
    have advanced : ∀ numTokens, TurnOk cfg owed s scheduled.1
        (s.setStatus scheduled.1 (status.advanceStoredIdx cfg numTokens)) := fun numTokens =>
      ⟨ok.of_sameJobs (sameJobs_setStatus found rfl), fresh,
        fun other ne => get?_set_of_ne _ ne _⟩
    split
    · exact ensures_ok.mpr (advanced _)
    · split
      · exact ensures_ok.mpr ⟨ok, fresh, fun _ _ => rfl⟩
      · exact ensures_ok.mpr (advanced _)
      · refine (ensures_mapM fun entry _ => ensures_storeGroup _ _ _ _).bind fun stores read _ => ?_
        refine (ok.assertStores found).bind fun _ _ _ => ensures_ok.mpr ?_
        have owedNew : owed s.jobCounter = cfg.numWorkers := fresh _ le_rfl
        refine ⟨?_, fun job issued => fresh job (Nat.le_of_succ_le issued),
          fun other ne => get?_set_of_ne _ ne _⟩
        apply (ok.addPendingJob s.jobCounter (blocksOfKind true stores)).addJob found
        · rfl
        · exact running
        · rfl
        · exact owedNew.symm
        · exact Nat.lt_of_lt_of_eq workers owedNew.symm
        · exact blocksOfKind_nodup read distinct
        · exact pending_addPendingJob.2

/-- After the tables were brought up to date, no scheduled request can store a block twice. -/
def StoresDistinct (cfg : SchedulerOffloadConfig) (s : SchedulerState H)
    (view : ReqId → RequestView H) (out : SchedulerOutput) : Prop :=
  ∀ s₁ ∈ (s.updateReqStates cfg view out).toOption, ∀ entry ∈ out.numScheduledTokens,
    ∀ status ∈ s₁.reqStatus.get? entry.1, StorableDistinct cfg status

def ScheduledRunning (s : SchedulerState H) (out : SchedulerOutput) : Prop :=
  ∀ entry ∈ out.numScheduledTokens, ∀ status ∈ s.reqStatus.get? entry.1, status.finished = false

theorem JobsOk.buildConnectorMeta (workers : 0 < cfg.numWorkers) (ok : s.JobsOk owed)
    (fresh : FreshOwed cfg s owed) (view : ReqId → RequestView H) (prepareStore : StoreReply H)
    {out : SchedulerOutput} (nodup : (out.numScheduledTokens.map Prod.fst).Nodup)
    (running : s.ScheduledRunning out) (distinct : s.StoresDistinct cfg view out) :
    Ensures MissingJob (fun res => res.2.JobsOk owed ∧ FreshOwed cfg res.2 owed)
      (s.buildConnectorMeta cfg view prepareStore out) := by
  refine (sameJobs_updateReqStates view out).bind fun s₁ updated same₁ => ?_
  have distinct := distinct s₁ (by rw [updated]; rfl)
  have flush : Ensures MissingJob
      (fun s₂ => SameJobs s s₂ ∧ s₂.reqStatus = s₁.reqStatus)
      (out.preemptedReqIds.foldlM SchedulerState.flushPreempted s₁) := by
    refine ensures_foldlM
      (fun _ (s₂ : SchedulerState H) => SameJobs s s₂ ∧ s₂.reqStatus = s₁.reqStatus)
      (fun req rest s₂ ⟨same, statuses⟩ => ?_) ⟨same₁, rfl⟩
    refine ((ok.of_sameJobs same).flushPreempted req).mono fun s₃ ⟨same', statuses'⟩ => ?_
    exact ⟨same.trans same', statuses'.trans statuses⟩
  refine flush.bind fun s₂ _ ⟨same₂, statuses⟩ => ?_
  have loop : Ensures MissingJob
      (fun acc : SchedulerState H × List (JobId × TransferJob) =>
        acc.1.JobsOk owed ∧ FreshOwed cfg acc.1 owed)
      (out.numScheduledTokens.foldlM (SchedulerState.buildStoreJob cfg view prepareStore) (s₂, [])) := by
    -- The requests whose turn is to come are as they were before the loop.
    refine (ensures_foldlM
      (fun rest (acc : SchedulerState H × List (JobId × TransferJob)) =>
        (acc.1.JobsOk owed ∧ FreshOwed cfg acc.1 owed) ∧ (rest.map Prod.fst).Nodup ∧
        ∀ entry ∈ rest, entry ∈ out.numScheduledTokens ∧
          acc.1.reqStatus.get? entry.1 = s₁.reqStatus.get? entry.1)
      (fun entry rest acc ⟨⟨okAcc, freshAcc⟩, restNodup, restSame⟩ => ?_) ?_).mono fun _ inv => inv.1
    · obtain ⟨notMem, restNodup⟩ := nodup_cons.mp restNodup
      obtain ⟨mem, sameStatus⟩ := restSame entry (by simp)
      refine (okAcc.buildStoreJob workers freshAcc view prepareStore entry acc.2
        fun status found => ?_).mono fun acc' turn => ⟨⟨turn.jobsOk, turn.fresh⟩, restNodup, ?_⟩
      · rw [sameStatus] at found
        obtain ⟨old, isOld, -, finished⟩ := same₁.status found
        exact ⟨finished ▸ running entry mem old isOld, distinct entry mem status found⟩
      · intro other memOther
        obtain ⟨memAll, sameOther⟩ := restSame other (by simp [memOther])
        refine ⟨memAll, (turn.others other.1 fun same => notMem ?_).trans sameOther⟩
        exact same ▸ mem_map_of_mem memOther
    · refine ⟨⟨ok.of_sameJobs same₂, fun job issued => fresh job ?_⟩, nodup, fun entry mem =>
        ⟨mem, by rw [statuses]⟩⟩
      rw [← same₂.jobCounter]
      exact issued
  refine loop.bind fun acc _ done => ensures_ok.mpr ?_
  exact ⟨done.1.of_sameJobs ⟨rfl, rfl, rfl, rfl, fun _ => rfl⟩, done.2⟩

end Stores

end SchedulerState

/-! ### Runs -/

inductive ConnectorCall (H : Type) where
  | onNewRequest (req : ReqId) (maxOffloadTokens : Option Nat) (blockLevel : Bool)
  | getNumNewMatchedTokens (req : ReqId) (view : RequestView H) (numComputedTokens : Nat)
  | updateStateAfterAlloc (req : ReqId) (blocks : List (List SchedulerState.GpuBlock))
      (numExternalTokens : Nat)
  | buildConnectorMeta (view : ReqId → RequestView H) (prepareStore : SchedulerState.StoreReply H)
      (out : SchedulerState.SchedulerOutput)
  | updateConnectorOutput (completedJobs : List (JobId × Nat))
  | requestFinished (req : ReqId)
  | resetCache

/-- The scheduler side and the reports that the workers are to make of each job. -/
structure Tracked (H : Type) where
  state : SchedulerState H
  owed : JobId → Nat

open Tracked

namespace Tracked

variable [DecidableEq H] (cfg : SchedulerOffloadConfig)

/-- No request is known, and every worker will report every job. -/
def init (H : Type) (cfg : SchedulerOffloadConfig) : Tracked H := ⟨{}, fun _ => cfg.numWorkers⟩

def exec (t : Tracked H) : ConnectorCall H → Except OffloadError (Tracked H)
  | .onNewRequest req maxOffloadTokens blockLevel =>
    .ok { t with state := t.state.onNewRequest cfg req maxOffloadTokens blockLevel }
  | .getNumNewMatchedTokens req view numComputedTokens => do
    let s ← t.state.getNumNewMatchedTokens cfg req view numComputedTokens
    return { t with state := s }
  | .updateStateAfterAlloc req blocks numExternalTokens => do
    let s ← t.state.updateStateAfterAlloc cfg req blocks numExternalTokens
    return { t with state := s }
  | .buildConnectorMeta view prepareStore out => do
    let (_, s) ← t.state.buildConnectorMeta cfg view prepareStore out
    return { t with state := s }
  | .updateConnectorOutput completedJobs => do
    let s ← t.state.updateConnectorOutput completedJobs
    return ⟨s, afterReports t.owed completedJobs⟩
  | .requestFinished req => do
    let s ← t.state.requestFinished req
    return { t with state := s }
  | .resetCache => do
    let s ← t.state.resetCache
    return { t with state := s }

/-- The calls as they are made: request ids are not reused while they are tracked, only
running requests are scheduled, and workers report what they owe. -/
def Allowed (t : Tracked H) : ConnectorCall H → Prop
  | .onNewRequest req _ _ => (t.state.reqStatus.get? req).isNone
  | .buildConnectorMeta _ _ out =>
    (out.numScheduledTokens.map Prod.fst).Nodup ∧ t.state.ScheduledRunning out
  | .updateConnectorOutput completedJobs =>
    (completedJobs.map Prod.fst).Nodup ∧ ∀ done ∈ completedJobs,
      0 < done.2 ∧ done.1 < t.state.jobCounter ∧ done.2 ≤ t.owed done.1
  | _ => True

/-- No job is in flight when the cache is reset, and no job stores a block twice. -/
def Quiet (t : Tracked H) : ConnectorCall H → Prop
  | .resetCache => t.state.NoJobs
  | .buildConnectorMeta view _ out => t.state.StoresDistinct cfg view out
  | _ => True

/-- The invariant of runs. -/
structure Ok (t : Tracked H) : Prop where
  jobsOk : t.state.JobsOk t.owed
  fresh : SchedulerState.FreshOwed cfg t.state t.owed

variable {cfg} {t t' : Tracked H}

omit [DecidableEq H] in
theorem ok_init : (init H cfg).Ok cfg := ⟨jobsOk_init, fun _ _ => rfl⟩

omit [DecidableEq H] in
/-- A load is issued for a request without other jobs, so it has not finished. -/
theorem Ok.updateStateAfterAlloc (workers : 0 < cfg.numWorkers) (ok : t.Ok cfg) (req : ReqId)
    (blocks : List (List SchedulerState.GpuBlock)) (numExternalTokens : Nat) :
    Ensures MissingJob (fun s => Ok cfg { t with state := s })
      (t.state.updateStateAfterAlloc cfg req blocks numExternalTokens) := by
  unfold SchedulerState.updateStateAfterAlloc
  split
  · exact ensures_ok.mpr ok
  cases found : t.state.reqStatus.get? req with
  | none => simp [statusOf, found, MissingJob]
  | some status =>
    rw [statusOf_eq_ok.mpr found]
    refine (ensures_mapM fun entry _ => ensures_loadGroup _ _ _ _ _).bind
      fun loads _ _ => ?_
    split
    · simp [MissingJob]
    · rename_i noJobs
      have running : status.finished = false := by
        cases finished : status.finished with
        | false => rfl
        | true => exact absurd (ok.jobsOk.busy req status found finished) noJobs
      have owedNew := ok.fresh _ le_rfl
      refine ensures_ok.mpr ⟨SchedulerState.JobsOk.of_sameJobs (s := t.state.addJob req _ _) ?_
        ⟨rfl, rfl, rfl, rfl, fun _ => rfl⟩,
        fun job issued => ok.fresh job (Nat.le_of_succ_le issued)⟩
      apply ok.jobsOk.addJob found
      · rfl
      · exact running
      · rfl
      · exact owedNew.symm
      · exact Nat.lt_of_lt_of_eq workers owedNew.symm
      · exact nodup_nil
      · exact forall_mem_nil _

/-- Reports as they are owed are taken. -/
theorem Ok.updateConnectorOutput (ok : t.Ok cfg) {completedJobs : List (JobId × Nat)}
    (allowed : t.Allowed (.updateConnectorOutput completedJobs)) :
    ∃ t', t.exec cfg (.updateConnectorOutput completedJobs) = .ok t' ∧ t'.Ok cfg := by
  obtain ⟨distinct, reports⟩ := allowed
  obtain ⟨s, run, jobsOk, counter⟩ := ok.jobsOk.updateConnectorOutput distinct reports
  refine ⟨_, by rw [exec, run]; rfl, jobsOk, fun job issued => ?_⟩
  rw [counter] at issued
  refine (afterReports_of_notMem fun mem => ?_).trans (ok.fresh job issued)
  obtain ⟨done, memDone, rfl⟩ := mem_map.mp mem
  exact absurd (reports done memDone).2.1 (not_lt.mpr issued)

/-- The end of a request is always taken. -/
theorem Ok.requestFinished (ok : t.Ok cfg) (req : ReqId) :
    ∃ t', t.exec cfg (.requestFinished req) = .ok t' ∧ t'.Ok cfg := by
  obtain ⟨s, run, jobsOk, counter⟩ := ok.jobsOk.requestFinished req
  refine ⟨{ t with state := s }, by rw [exec, run]; rfl, jobsOk, fun job issued => ok.fresh job ?_⟩
  rw [← counter]
  exact issued

theorem Ok.exec (workers : 0 < cfg.numWorkers) (ok : t.Ok cfg) {call : ConnectorCall H}
    (allowed : t.Allowed call) (quiet : t.Quiet cfg call) :
    Ensures MissingJob (Ok cfg) (t.exec cfg call) := by
  cases call with
  | onNewRequest req maxOffloadTokens blockLevel =>
    exact ensures_ok.mpr
      ⟨ok.jobsOk.onNewRequest (Option.isNone_iff_eq_none.mp allowed) rfl rfl, ok.fresh⟩
  | getNumNewMatchedTokens req view numComputedTokens =>
    unfold Tracked.exec getNumNewMatchedTokens
    cases found : t.state.reqStatus.get? req with
    | none => simp [statusOf, found, MissingJob]
    | some status =>
      simp only [statusOf_eq_ok.mpr found]
      exact ensures_ok.mpr
        ⟨ok.jobsOk.of_sameJobs (sameJobs_setStatus found rfl), ok.fresh⟩
  | updateStateAfterAlloc req blocks numExternalTokens =>
    refine (ok.updateStateAfterAlloc workers req blocks numExternalTokens).bind fun s _ ok' => ?_
    exact ensures_ok.mpr ok'
  | buildConnectorMeta view prepareStore out =>
    refine (ok.jobsOk.buildConnectorMeta workers ok.fresh view prepareStore allowed.1 allowed.2
      quiet).bind fun res _ ok' => ?_
    exact ensures_ok.mpr ⟨ok'.1, ok'.2⟩
  | updateConnectorOutput completedJobs =>
    obtain ⟨t', run, ok'⟩ := ok.updateConnectorOutput allowed
    rw [run]
    exact ensures_ok.mpr ok'
  | requestFinished req =>
    obtain ⟨t', run, ok'⟩ := ok.requestFinished req
    rw [run]
    exact ensures_ok.mpr ok'
  | resetCache =>
    unfold Tracked.exec
    cases run : t.state.resetCache with
    | error e =>
      unfold resetCache at run
      split at run
      · cases run
        simp [MissingJob]
      · cases run
    | ok s =>
      obtain ⟨jobsOk, counter⟩ := ok.jobsOk.resetCache quiet run
      refine ensures_ok.mpr ⟨jobsOk, fun job issued => ok.fresh job ?_⟩
      rw [← counter]
      exact issued

variable (cfg t) in
/-- The bookkeeping of jobs is closed: the jobs of requests are known, no call raises over
a missing job, and no finished request stays once all jobs were reported. -/
structure Closed : Prop where
  known : ∀ req status, t.state.reqStatus.get? req = some status → ∀ job ∈ status.transferJobs,
    job ∈ t.state.jobs.keys
  noMissingJob : ∀ call, t.Allowed call → t.Quiet cfg call → ∀ e, t.exec cfg call = .error e →
    ¬ MissingJob e
  updateSucceeds : ∀ completedJobs, t.Allowed (.updateConnectorOutput completedJobs) →
    ∃ t', t.exec cfg (.updateConnectorOutput completedJobs) = .ok t'
  finishSucceeds : ∀ req, ∃ t', t.exec cfg (.requestFinished req) = .ok t'
  finishedGone : (∀ job < t.state.jobCounter, t.owed job = 0) → ∀ req status,
    t.state.reqStatus.get? req = some status → status.finished = false

theorem Ok.closed (workers : 0 < cfg.numWorkers) (ok : t.Ok cfg) : t.Closed cfg where
  known req status found job mem := by
    obtain ⟨jobStatus, isJob, -⟩ := ok.jobsOk.listed req status found job mem
    exact mem_keys.mpr ⟨jobStatus, isJob⟩
  noMissingJob call allowed quiet := (ok.exec workers allowed quiet).2
  updateSucceeds completedJobs allowed := (ok.updateConnectorOutput allowed).imp fun _ => And.left
  finishSucceeds req := (ok.requestFinished req).imp fun _ => And.left
  finishedGone reported req status found := by
    cases finished : status.finished with
    | false => rfl
    | true =>
      -- A finished request that is still there has a job, which is owed a report.
      obtain ⟨job, mem⟩ := exists_mem_of_ne_nil _ (ok.jobsOk.busy req status found finished)
      obtain ⟨jobStatus, isJob, -⟩ := ok.jobsOk.listed req status found job mem
      have jobOk := ok.jobsOk.jobOk job jobStatus isJob
      exact absurd (reported job jobOk.issued) (ne_of_gt jobOk.pos)

/-- In every run in which no job is in flight at a reset and no job stores a block twice,
the bookkeeping of jobs stays closed. -/
theorem closed_of_run (workers : 0 < cfg.numWorkers) {calls : List (ConnectorCall H)}
    (run : Run (guarded (fun t call => t.Allowed call ∧ t.Quiet cfg call) (succeeds (exec cfg)))
      (init H cfg) calls t) : t.Closed cfg := by
  refine Ok.closed workers (run.invariant (Ok cfg) ?_ ok_init)
  rintro t call t' ok ⟨⟨allowed, quiet⟩, step⟩
  exact (ok.exec workers allowed quiet).1 t' step

/-- In such a run no job that is owed a report is forgotten, nor are its blocks: those of sliding
windows wait for it, and all of them once its request has finished. -/
theorem watched_of_run (workers : 0 < cfg.numWorkers) {calls : List (ConnectorCall H)}
    (run : Run (guarded (fun t call => t.Allowed call ∧ t.Quiet cfg call) (succeeds (exec cfg)))
      (init H cfg) calls t) {job : JobId} (fresh : t.state.staleJobThreshold ≤ job)
    (issued : job < t.state.jobCounter) (owes : 0 < t.owed job) :
    ∃ status owner, t.state.jobs.get? job = some status ∧
      t.state.reqStatus.get? status.reqId = some owner ∧ job ∈ owner.transferJobs ∧
      (∀ block ∈ status.slidingWindowBlockIds, t.state.Pending job block) ∧
      (owner.finished = true → ∀ block ∈ status.nonSlidingWindowBlockIds, t.state.Pending job block) := by
  have ok := run.invariant (Ok cfg)
    (fun {_ _ t'} ok step => (ok.exec workers step.1.1 step.1.2).1 t' step.2) ok_init
  obtain ⟨status, isJob⟩ := ok.jobsOk.owedListed job fresh issued owes
  have jobOk := ok.jobsOk.jobOk job status isJob
  obtain ⟨owner, isOwner, listed, atEnd⟩ := jobOk.owner
  exact ⟨status, owner, isJob, isOwner, listed, jobOk.watched, atEnd⟩

/-! ### A reset with a job in flight -/

instance decidableAllowed (t : Tracked H) : (call : ConnectorCall H) → Decidable (t.Allowed call)
  | .onNewRequest req _ _ => inferInstanceAs (Decidable ((t.state.reqStatus.get? req).isNone = true))
  | .buildConnectorMeta _ _ out => inferInstanceAs
      (Decidable ((out.numScheduledTokens.map Prod.fst).Nodup ∧ ∀ entry ∈ out.numScheduledTokens,
        ∀ status ∈ t.state.reqStatus.get? entry.1, status.finished = false))
  | .updateConnectorOutput completedJobs => inferInstanceAs
      (Decidable ((completedJobs.map Prod.fst).Nodup ∧ ∀ done ∈ completedJobs,
        0 < done.2 ∧ done.1 < t.state.jobCounter ∧ done.2 ≤ t.owed done.1))
  | .getNumNewMatchedTokens _ _ _ | .updateStateAfterAlloc _ _ _ | .requestFinished _
  | .resetCache => inferInstanceAs (Decidable True)

instance decidableQuiet (cfg : SchedulerOffloadConfig) (t : Tracked H) :
    (call : ConnectorCall H) → Decidable (t.Quiet cfg call)
  | .resetCache => inferInstanceAs (Decidable t.state.NoJobs)
  | .buildConnectorMeta view _ out => inferInstanceAs
      (Decidable (∀ s₁ ∈ (t.state.updateReqStates cfg view out).toOption,
        ∀ entry ∈ out.numScheduledTokens, ∀ status ∈ s₁.reqStatus.get? entry.1,
          ((cfg.kvGroupConfigs.zip status.groupStates).flatMap fun entry =>
            storable cfg entry.2).Nodup))
  | .onNewRequest _ _ _ | .getNumNewMatchedTokens _ _ _ | .updateStateAfterAlloc _ _ _
  | .requestFinished _ | .updateConnectorOutput _ => inferInstanceAs (Decidable True)

end Tracked

/-- One worker, and one group of blocks of four tokens that are stored one by one. -/
def oneWorker : SchedulerOffloadConfig where
  kvGroupConfigs := [
    { groupIdx := 0, gpuBlockSize := 4, offloadedBlockSize := 4, hashBlockSizeFactor := 1
      slidingWindowSizeInBlocks := none, alignmentBlockCount := none }]
  blockSizeFactor := 1
  numWorkers := 1
  offloadPromptOnly := false

/-- A request of four tokens is scheduled, and its block is stored. -/
def storeOneBlock : List (ConnectorCall Nat) :=
  [.onNewRequest 0 none true,
    .buildConnectorMeta (fun _ => ⟨[7], 4, 0, 4⟩) (fun _ keys => some keys)
      ⟨[(0, some [[3]], false)], [(0, 4)], []⟩]

/-- The cache is reset before the worker has reported the store. -/
def resetInFlight : List (ConnectorCall Nat) := storeOneBlock ++ [.resetCache]

/-- The reset drops the job and leaves its id with the request, so that the end of the
request raises. -/
theorem Tracked.resetInFlight_not_closed : ∃ t,
    Run (guarded Tracked.Allowed (succeeds (exec oneWorker))) (init Nat oneWorker)
      resetInFlight t ∧
    (t.state.reqStatus.get? 0).map (·.transferJobs) = some [0] ∧ t.state.jobs.keys = [] ∧
    t.exec oneWorker (.requestFinished 0) = .error (.missingJob 0) ∧ ¬ t.Closed oneWorker := by
  have final : ∃ t, resetInFlight.foldlM (exec oneWorker) (init Nat oneWorker) = .ok t ∧
      (t.state.reqStatus.get? 0).map (·.transferJobs) = some [0] ∧ t.state.jobs.keys = [] ∧
      t.exec oneWorker (.requestFinished 0) = .error (.missingJob 0) := ⟨_, rfl, rfl, rfl, rfl⟩
  obtain ⟨t, ends, jobs, none, raises⟩ := final
  refine ⟨t, .of_alongOk (by decide) ends, jobs, none, raises, fun closed => ?_⟩
  obtain ⟨t', run⟩ := closed.finishSucceeds 0
  rw [raises] at run
  cases run

/-- The store is reported before the reset. The block is then stored again, and the
request finishes before that is reported. -/
def resetAfterReport : List (ConnectorCall Nat) :=
  storeOneBlock ++ [.updateConnectorOutput [(0, 1)], .resetCache,
    .buildConnectorMeta (fun _ => ⟨[7], 4, 4, 4⟩) (fun _ keys => some keys) ⟨[], [(0, 1)], []⟩,
    .requestFinished 0, .updateConnectorOutput [(1, 1)]]

theorem Tracked.resetAfterReport_closed : ∃ t,
    resetAfterReport.foldlM (exec oneWorker) (init Nat oneWorker) = .ok t ∧
    t.state.jobCounter = 2 ∧ t.state.reqStatus.keys = [] ∧ t.Closed oneWorker := by
  have final : ∃ t, resetAfterReport.foldlM (exec oneWorker) (init Nat oneWorker) = .ok t ∧
      t.state.jobCounter = 2 ∧ t.state.reqStatus.keys = [] := ⟨_, rfl, rfl, rfl⟩
  obtain ⟨t, ends, counter, empty⟩ := final
  exact ⟨t, ends, counter, empty, closed_of_run (by decide) (.of_alongOk (by decide) ends)⟩

/-- The same with a second group, of sliding-window attention. -/
def oneWorkerWindow : SchedulerOffloadConfig :=
  { oneWorker with
    kvGroupConfigs := oneWorker.kvGroupConfigs ++ [
      { groupIdx := 1, gpuBlockSize := 4, offloadedBlockSize := 4, hashBlockSizeFactor := 1
        slidingWindowSizeInBlocks := some 1, alignmentBlockCount := none }] }

/-- A block of each group is stored, and the request finishes before that is reported. -/
def finishInFlight : List (ConnectorCall Nat) :=
  [.onNewRequest 0 none true,
    .buildConnectorMeta (fun _ => ⟨[7], 4, 0, 4⟩) (fun _ keys => some keys)
      ⟨[(0, some [[3], [5]], false)], [(0, 4)], []⟩,
    .requestFinished 0]

theorem Tracked.finishInFlight_watched : ∃ t,
    finishInFlight.foldlM (exec oneWorkerWindow) (init Nat oneWorkerWindow) = .ok t ∧
    ∃ status owner, t.state.jobs.get? 0 = some status ∧
      t.state.reqStatus.get? status.reqId = some owner ∧ owner.finished = true ∧
      0 ∈ owner.transferJobs ∧ t.state.Pending 0 3 ∧ t.state.Pending 0 5 := by
  obtain ⟨t, ends, fresh, issued, owes, job, finished⟩ : ∃ t,
      finishInFlight.foldlM (exec oneWorkerWindow) (init Nat oneWorkerWindow) = .ok t ∧
      t.state.staleJobThreshold ≤ 0 ∧ 0 < t.state.jobCounter ∧ 0 < t.owed 0 ∧
      (t.state.jobs.get? 0).map (fun status =>
        (status.reqId, status.nonSlidingWindowBlockIds, status.slidingWindowBlockIds)) =
          some (0, [3], [5]) ∧
      (t.state.reqStatus.get? 0).map (·.finished) = some true := ⟨_, rfl, by decide⟩
  obtain ⟨status, owner, isJob, isOwner, listed, windowed, others⟩ :=
    watched_of_run (by decide) (.of_alongOk (by decide) ends) fresh issued owes
  rw [isJob, Option.map_some, Option.some.injEq, Prod.mk.injEq, Prod.mk.injEq] at job
  obtain ⟨isReq, isOthers, isWindowed⟩ := job
  rw [← isReq, isOwner, Option.map_some, Option.some.injEq] at finished
  refine ⟨t, ends, status, owner, isJob, isOwner, finished, listed, others finished 3 ?_,
    windowed 5 ?_⟩
  · simp [isOthers]
  · simp [isWindowed]

end Vllm.Offload
