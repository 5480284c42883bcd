import Mathlib
import Vllm.Lib.Fallible
import Vllm.Lib.Steps
import Vllm.Request

/-!
Requests that `RecomputeScheduler` and `AsyncRecomputeScheduler` drop
(`vllm_ascend/core/recompute_scheduler.py`, with `vllm/v1/core/sched/scheduler.py`).

The life of one request: what `schedule`, `update_from_output`, `finish_requests` and
`reset_prefix_cache` do to it, and to what it holds of the KV cache and of the encoder cache. What
depends on the other requests (budgets, free blocks, who is preempted) is a choice of the step, as
are the answers of the connectors. The results of a step come in the order of the steps, any number
of steps later. Requests with streaming input (`resumable`) are left out.

A KV consumer without offload space drops a request: `schedule` takes it out of `running` and frees
its blocks, and `update_from_output` reports it. Neither finishes it. So it is finished once exactly
if something else ends it before the report (`dropsClosed_iff`).
-/

namespace Vllm.Ascend.Recompute

open Vllm.Lib Vllm.Lib.Fallible Vllm.Lib.Steps List

inductive Queue where
  | waiting
  | skippedWaiting
  | running
  deriving DecidableEq

/-- An output of `schedule`, as far as it is about the request. -/
structure Step where
  /-- It has tokens in the step. -/
  scheduled : Bool := false
  /-- It is among the `recomputed_reqs`. -/
  recomputed : Bool := false
  /-- It is among the `finished_req_ids`. -/
  finished : Bool := false
  deriving DecidableEq

structure State where
  /-- It was added; an id is used once. -/
  added : Bool := false
  /-- It is in `requests`. -/
  known : Bool := false
  status : RequestStatus := .waiting
  queue : Option Queue := none
  /-- The KV cache manager has blocks for it. -/
  hasBlocks : Bool := false
  /-- It is referenced in the encoder cache. -/
  hasEncoderRefs : Bool := false
  /-- It is in `finished_req_ids`. -/
  finished : Bool := false
  /-- It is in `finished_recving_kv_req_ids`. -/
  finishedRecving : Bool := false
  issued : List Step := []
  /-- The number of `EngineCoreOutput`s for it, for the results of each step. -/
  returned : List Nat := []
  /-- The number of steps issued at each `_free_blocks`. -/
  freedAt : List Nat := []
  deriving DecidableEq

inductive Failure where
  /-- The scheduler does not do this in this state. -/
  | impossible
  | keyError
  | assertionError
  deriving DecidableEq

def State.isLive (s : State) : Bool := s.known && !s.status.isFinished

/-- The oldest step whose results have not come. -/
def State.next (s : State) : Option Step := s.issued[s.returned.length]?

/-- The queue without the request: it is removed from `running` if it is running, and otherwise
from these queues. -/
def State.dequeued (s : State) (queues : List Queue) : Option Queue :=
  s.queue.filter (· ∉ if s.status = .running then [.running] else queues)

/-! ### The end of a request -/

/-- `_free_blocks`. -/
def freeBlocks (s : State) : Except Failure State :=
  if s.status.isFinished then
    .ok { s with
      known := false
      hasBlocks := false
      freedAt := s.freedAt ++ [s.issued.length] }
  else .error .assertionError

/-- `_free_request`. -/
def freeRequest (s : State) (delayFreeBlocks : Bool) : Except Failure State :=
  let s := { s with hasEncoderRefs := false, finished := true }
  if delayFreeBlocks then .ok s else freeBlocks s

/-- `finish_requests` for the request; `delays`: the connector's `request_finished` wants to keep
its blocks. -/
def finishRequest (s : State) (status : RequestStatus) (delays : Bool) : Except Failure State :=
  if s.isLive then
    let queue := s.dequeued [.waiting, .skippedWaiting]
    let loading := s.status = .waitingForRemoteKvs ∧ s.finishedRecving = false
    let finishedRecving := s.finishedRecving && s.status ≠ .waitingForRemoteKvs
    freeRequest { s with queue, finishedRecving, status } (delays || loading)
  else .ok s

/-! ### Steps -/

/-- What a step does with the request. -/
inductive Choice where
  /-- It is in no queue. -/
  | none
  /-- It waits: skipped, promoted, refused, or loaded for. -/
  | wait (queue : Queue) (status : RequestStatus) (hasBlocks hasEncoderRefs : Bool)
  | start (encoder : Bool)
  /-- It is running, and has tokens in the step or not. -/
  | run (scheduled encoder : Bool)
  | preempt
  /-- It is preempted without offload. -/
  | drop (encoder : Bool)

/-- `_preempt_request`. -/
def preemptRequest (s : State) : Except Failure State :=
  if s.status = .running then
    .ok { s with
      hasBlocks := false
      hasEncoderRefs := false
      status := .preempted
      queue := some .waiting }
  else .error .assertionError

/-- The request after the two loops of `schedule`. `encoder`: outputs were found in the encoder
cache or are computed in the step. -/
def choose (s : State) : Choice → Except Failure State
  | .none => if s.queue = none then .ok s else .error .impossible
  | .wait queue status hasBlocks hasEncoderRefs =>
    if s.queue ≠ none ∧ s.queue ≠ some .running ∧ queue ≠ .running ∧
        (status = s.status ∨ (status ≠ .running ∧ status.isFinished = false)) then
      .ok { s with queue := some queue, status, hasBlocks, hasEncoderRefs }
    else .error .impossible
  | .start encoder =>
    if s.queue = none ∨ s.queue = some .running then .error .impossible
    -- `_update_after_schedule` looks it up.
    else if s.known = false then .error .keyError
    else .ok { s with
      queue := some .running
      status := .running
      hasBlocks := true
      hasEncoderRefs := s.hasEncoderRefs || encoder }
  | .run scheduled encoder =>
    if s.queue = some .running then
      .ok { s with
        hasBlocks := s.hasBlocks || scheduled
        hasEncoderRefs := s.hasEncoderRefs || encoder }
    else .error .impossible
  | .preempt => if s.queue = some .running then preemptRequest s else .error .impossible
  | .drop encoder =>
    if s.queue = some .running then
      .ok { s with
        queue := none
        hasBlocks := false
        hasEncoderRefs := s.hasEncoderRefs || encoder }
    else .error .impossible

def Choice.step (finished : Bool) : Choice → Step
  | .start _ => { scheduled := true, finished }
  | .run scheduled _ => { scheduled, finished }
  | .drop _ => { recomputed := true, finished }
  | .none | .wait .. | .preempt => { finished }

def schedule (s : State) (choice : Choice) : Except Failure State := do
  let t ← choose s choice
  return { t with issued := s.issued ++ [choice.step s.finished], finished := false }

/-! ### Results -/

/-- What the results of a step are for the request. -/
structure Results where
  /-- It is affected by a failed load. -/
  failed : Bool := false
  /-- `_free_encoder_inputs` gives back its last references. -/
  encoderDone : Bool := false
  /-- It has new tokens, or a pooling output. -/
  returns : Bool := false
  /-- It stops with this status. -/
  stops : Option RequestStatus := none
  /-- The connector's `request_finished` wants to keep its blocks. -/
  delays : Bool := false
  /-- It is among `finished_recving`, or `finished_sending`. -/
  received : Bool := false
  sent : Bool := false
  deriving DecidableEq

/-- The loop body of `update_from_output`, and the removal of a stopped request from its queue. -/
def takeResults (s : State) (step : Step) (results : Results) : Except Failure (Nat × State) :=
  if step.scheduled ∧ results.failed = false ∧ s.isLive then
    let s := { s with hasEncoderRefs := s.hasEncoderRefs && !results.encoderDone }
    match results.stops with
    | none => .ok (if results.returns then 1 else 0, s)
    | some status => do
      let s ← freeRequest { s with queue := s.dequeued [.waiting], status } results.delays
      return (1, s)
  else .ok (0, s)

/-- The requests whose load failed are finished, under the policy that wants it. -/
def finishFailed (recomputeKvLoadFailures : Bool) (s : State) (results : Results) :
    Except Failure (Nat × State) :=
  if results.failed ∧ recomputeKvLoadFailures = false then
    if s.known then do
      let s ← finishRequest s .finishedError results.delays
      return (1, s)
    else .error .keyError
  else .ok (0, s)

def finishRecving (s : State) : Except Failure State :=
  if s.known = false then .error .assertionError
  else if s.status = .waitingForRemoteKvs then .ok { s with finishedRecving := true }
  else freeBlocks s

def finishSending (s : State) : Except Failure State :=
  if s.known then freeBlocks s else .error .assertionError

/-- `_update_from_kv_xfer_finished`. -/
def updateFromKvXferFinished (s : State) (results : Results) : Except Failure State :=
  (if results.received then finishRecving s else .ok s) >>= fun s =>
    if results.sent then finishSending s else .ok s

/-- `_handle_invalid_blocks` looks at the running requests, and at those that are loaded for. -/
def State.canFail (s : State) : Bool :=
  s.queue = some .running ∨ (s.queue = some .skippedWaiting ∧ s.status = .waitingForRemoteKvs)

def updateFromOutput (recomputeKvLoadFailures : Bool) (s : State) (step : Step)
    (results : Results) : Except Failure State :=
  if (results.failed ∧ s.canFail = false) ∨ results.stops.any (·.isFinished = false) then
    .error .impossible
  else do
    let (numOutputs, t) ← takeResults s step results
    let (numFailed, t) ← finishFailed recomputeKvLoadFailures t results
    let t ← updateFromKvXferFinished t results
    let numReported := if step.recomputed then 1 else 0
    return { t with returned := s.returned ++ [numReported + numOutputs + numFailed] }

/-! ### Runs -/

inductive Call where
  /-- `add_request`, with or without a grammar to wait for. -/
  | addRequest (grammar : Bool)
  | schedule (choice : Choice)
  | updateFromOutput (results : Results)
  | finishRequests (status : RequestStatus) (delays : Bool)
  /-- `reset_prefix_cache(reset_running_requests=True)`. -/
  | resetPrefixCache

def exec (recomputeKvLoadFailures : Bool) (s : State) : Call → Except Failure State
  | .addRequest grammar =>
    if s.added then .error .impossible
    else .ok { s with
      added := true
      known := true
      status := if grammar then .waitingForStructuredOutputGrammar else .waiting
      queue := some (if grammar then .skippedWaiting else .waiting) }
  | .schedule choice => schedule s choice
  | .updateFromOutput results =>
    match s.next with
    | none => .error .impossible
    | some step => updateFromOutput recomputeKvLoadFailures s step results
  | .finishRequests status delays =>
    if status.isFinished then finishRequest s status delays else .error .assertionError
  | .resetPrefixCache => if s.queue = some .running then preemptRequest s else .ok s

/-- How often the id is among the finished ones of the outputs after the n-th, and of those that the
next output will have. -/
def State.sentAfter (s : State) (n : Nat) : Nat :=
  (s.issued.drop (n + 1)).countP (·.finished) + s.finished.toNat

/-- The n-th step dropped the request, and it is finished once: it is not known any more and holds
nothing, its id was sent once since then or is about to be, and nothing was returned for it after
the report. -/
structure FinishedOnce (s : State) (n : Nat) : Prop where
  known : s.known = false
  queue : s.queue = none
  hasBlocks : s.hasBlocks = false
  hasEncoderRefs : s.hasEncoderRefs = false
  sent : s.sentAfter n = 1
  silent : ∀ numOutputs ∈ s.returned.drop (n + 1), numOutputs = 0

/-- If it was dropped and reported, it is finished once. -/
def DropsClosed (s : State) : Prop :=
  ∀ n < s.returned.length, ∀ step, s.issued[n]? = some step → step.recomputed = true →
    FinishedOnce s n

/-- When a drop is reported, `_free_blocks` has been called for the request since then: by an abort,
by results of an earlier step with which it stopped, or by a connector that has sent its blocks.
The connector may also say so with the report. -/
def EndedMeanwhile (s : State) : Call → Prop
  | .updateFromOutput results => ∀ step, s.next = some step → step.recomputed = true →
      (∃ k ∈ s.freedAt, s.returned.length < k) ∨ results.received = true ∨ results.sent = true
  | _ => True

instance (s : State) : DecidablePred (EndedMeanwhile s)
  | .updateFromOutput results =>
    decidable_of_iff (∀ step ∈ s.next, step.recomputed = true →
      (∃ k ∈ s.freedAt, s.returned.length < k) ∨ results.received = true ∨ results.sent = true)
      Iff.rfl
  | .addRequest _ | .schedule _ | .finishRequests _ _ | .resetPrefixCache => isTrue trivial

/-! ### What a drop leaves behind -/

/-- The request was not dropped in these steps, of which `n` were answered. -/
structure Undropped (steps : List Step) (n : Nat) (s : State) : Prop where
  issued : s.issued = steps
  returned : s.returned.length = n
  answered : n ≤ steps.length
  none : ∀ step ∈ steps, step.recomputed = false
  added : s.queue ≠ .none → s.added = true
  running : s.queue = some .running → s.known = true ∧ s.status = .running
  freed : ∀ k ∈ s.freedAt, k ≤ steps.length

/-- What became of the request after `n` steps and the one that dropped it: it is left as it was,
its end is delayed by a connector, or it is gone. -/
inductive Phase (s : State) (n : Nat) (after : List Step) : Prop
  | left (known : s.known = true) (status : s.status = .running)
      (sent : after.countP (·.finished) + s.finished.toNat = 0) (freed : ∀ k ∈ s.freedAt, k ≤ n)
  | ending (known : s.known = true) (status : s.status.isFinished = true)
      (refs : s.hasEncoderRefs = false)
      (sent : after.countP (·.finished) + s.finished.toNat = 1) (freed : ∀ k ∈ s.freedAt, k ≤ n)
  | gone (known : s.known = false) (blocks : s.hasBlocks = false) (refs : s.hasEncoderRefs = false)
      (sent : after.countP (·.finished) + s.finished.toNat = 1) (freed : ∃ k ∈ s.freedAt, n < k)

/-- A step dropped the request, for the only time. If that was reported, it is gone. -/
structure Dropped (s : State) (before after : List Step) : Prop where
  issued : ∃ finished, s.issued = before ++ { recomputed := true, finished } :: after
  once : ∀ step ∈ before ++ after, step.recomputed = false
  added : s.added = true
  queue : s.queue = none
  phase : Phase s before.length after
  reported : before.length < s.returned.length → s.known = false
  silent : ∀ numOutputs ∈ s.returned.drop (before.length + 1), numOutputs = 0

/-- What holds between the calls. -/
def Inv (s : State) : Prop :=
  (∃ steps n, Undropped steps n s) ∨ ∃ before after, Dropped s before after

theorem Dropped.recomputed_of_ne {s : State} {before after : List Step}
    (dropped : Dropped s before after) {n : Nat} {step : Step} (found : s.issued[n]? = some step)
    (ne : n ≠ before.length) : step.recomputed = false := by
  obtain ⟨finished, issued⟩ := dropped.issued
  refine dropped.once step ?_
  rw [issued] at found
  rcases lt_or_gt_of_ne ne with lt | gt
  · rw [getElem?_append_left lt] at found
    exact mem_append_left _ (mem_of_getElem? found)
  · rw [getElem?_append_right gt.le, getElem?_cons, if_neg (by omega)] at found
    exact mem_append_right _ (mem_of_getElem? found)

section

variable {s t : State} {status : RequestStatus} {delays recompute : Bool} {step : Step}
  {results : Results} {numOutputs n : Nat} {steps : List Step}

namespace Undropped

variable (undropped : Undropped steps n s)
include undropped

theorem freeBlocks (run : freeBlocks s = .ok t) : Undropped steps n t := by
  unfold Recompute.freeBlocks at run
  split at run
  · rename_i finished
    cases run
    refine { undropped with running := fun isRunning => ?_, freed := ?_ }
    · rw [(undropped.running isRunning).2] at finished
      cases finished
    · simpa [or_imp, forall_and, undropped.issued] using undropped.freed
  · cases run

theorem freeRequest (run : freeRequest s delays = .ok t) : Undropped steps n t := by
  have marked : Undropped steps n { s with hasEncoderRefs := false, finished := true } := { undropped with }
  unfold Recompute.freeRequest at run
  dsimp only at run
  split at run
  · cases run
    exact marked
  · exact marked.freeBlocks run

/-- A request that ends is not running afterwards. -/
theorem leave {queues : List Queue} {finishedRecving : Bool} :
    Undropped steps n { s with queue := s.dequeued queues, finishedRecving, status } := by
  have stayed : ∀ {queue}, s.dequeued queues = some queue → s.queue = some queue ∧
      queue ∉ if s.status = .running then [.running] else queues := by
    intro queue found
    simpa [State.dequeued, Option.filter_eq_some_iff] using found
  refine { undropped with added := fun queued => ?_, running := fun isRunning => ?_ }
  · obtain ⟨queue, found⟩ := Option.ne_none_iff_exists'.mp queued
    exact undropped.added (by simp [(stayed found).1])
  · obtain ⟨queued, stays⟩ := stayed isRunning
    simp [(undropped.running queued).2] at stays

theorem finishRequest (run : finishRequest s status delays = .ok t) : Undropped steps n t := by
  unfold Recompute.finishRequest at run
  split at run
  · exact undropped.leave.freeRequest run
  · cases run
    exact undropped

theorem takeResults (run : takeResults s step results = .ok (numOutputs, t)) : Undropped steps n t := by
  unfold Recompute.takeResults at run
  split at run
  · have used : Undropped steps n { s with hasEncoderRefs := s.hasEncoderRefs && !results.encoderDone } :=
      { undropped with }
    dsimp only at run
    split at run
    · cases run
      exact used
    · obtain ⟨u, freed, run⟩ := bind_eq_ok.mp run
      cases run
      exact used.leave.freeRequest freed
  · cases run
    exact undropped

theorem finishFailed (run : finishFailed recompute s results = .ok (numOutputs, t)) :
    Undropped steps n t := by
  unfold Recompute.finishFailed at run
  split_ifs at run
  · obtain ⟨u, finished, run⟩ := bind_eq_ok.mp run
    cases run
    exact undropped.finishRequest finished
  · cases run
    exact undropped

theorem finishRecving (run : finishRecving s = .ok t) : Undropped steps n t := by
  unfold Recompute.finishRecving at run
  split_ifs at run
  · cases run
    exact { undropped with }
  · exact undropped.freeBlocks run

theorem finishSending (run : finishSending s = .ok t) : Undropped steps n t := by
  unfold Recompute.finishSending at run
  split_ifs at run
  exact undropped.freeBlocks run

theorem updateFromKvXferFinished (run : updateFromKvXferFinished s results = .ok t) :
    Undropped steps n t := by
  obtain ⟨u, received, run⟩ := bind_eq_ok.mp run
  have received : Undropped steps n u := by
    split_ifs at received
    · exact undropped.finishRecving received
    · cases received
      exact undropped
  split_ifs at run
  · exact received.finishSending run
  · cases run
    exact received

theorem updateFromOutput (next : s.next = some step)
    (run : updateFromOutput recompute s step results = .ok t) : Undropped steps (n + 1) t := by
  unfold Recompute.updateFromOutput at run
  split at run
  · cases run
  obtain ⟨⟨numOutputs, u⟩, taken, run⟩ := bind_eq_ok.mp run
  obtain ⟨⟨numFailed, v⟩, finished, run⟩ := bind_eq_ok.mp run
  obtain ⟨w, transferred, run⟩ := bind_eq_ok.mp run
  cases run
  have := ((undropped.takeResults taken).finishFailed finished).updateFromKvXferFinished transferred
  refine { this with returned := by simp [undropped.returned], answered := ?_ }
  have := (List.getElem?_eq_some_iff.mp next).1
  rwa [undropped.returned, undropped.issued] at this

theorem preemptRequest (run : preemptRequest s = .ok t) (queued : s.queue ≠ .none) :
    Undropped steps n t := by
  unfold Recompute.preemptRequest at run
  split at run
  · cases run
    exact { undropped with running := nofun, added := fun _ => undropped.added queued }
  · cases run

theorem choose {choice : Choice} (keeps : ∀ encoder, choice ≠ .drop encoder)
    (run : choose s choice = .ok t) : Undropped steps n t := by
  unfold Recompute.choose at run
  split at run <;> split_ifs at run
  · cases run
    exact undropped
  · cases run
    rename_i waits
    exact { undropped with
      added := fun _ => undropped.added waits.1
      running := fun isRunning => absurd (Option.some.inj isRunning) waits.2.2.1 }
  · cases run
    rename_i waits known
    exact { undropped with
      added := fun _ => undropped.added fun none => waits (.inl none)
      running := fun _ => ⟨by simpa using known, rfl⟩ }
  · cases run
    exact { undropped with }
  · exact undropped.preemptRequest run (by simp [*])
  · exact absurd rfl (keeps _)

/-- A step may drop the request. -/
theorem schedule {choice : Choice} (run : schedule s choice = .ok t) : Inv t := by
  obtain ⟨u, chosen, run⟩ := bind_eq_ok.mp run
  cases run
  by_cases drops : ∃ encoder, choice = .drop encoder
  · obtain ⟨encoder, rfl⟩ := drops
    simp only [Recompute.choose] at chosen
    split_ifs at chosen with isRunning
    cases chosen
    obtain ⟨known, status⟩ := undropped.running isRunning
    have unanswered : ¬ steps.length < s.returned.length := by
      rw [undropped.returned]
      exact undropped.answered.not_gt
    exact .inr ⟨steps, [], {
      issued := ⟨s.finished, by simp [undropped.issued, Choice.step]⟩
      once := by simpa using undropped.none
      added := undropped.added (by simp [isRunning])
      queue := rfl
      phase := .left known status rfl undropped.freed
      reported := fun reported => absurd reported unanswered
      silent := by simp [drop_eq_nil_of_le (by omega : s.returned.length ≤ steps.length + 1)] }⟩
  · have keeps := undropped.choose (fun encoder same => drops ⟨encoder, same⟩) chosen
    have notDropped : (choice.step s.finished).recomputed = false := by
      cases choice <;> first | rfl | exact absurd ⟨_, rfl⟩ drops
    refine .inl ⟨steps ++ [choice.step s.finished], n, { keeps with
      issued := by simp [undropped.issued], answered := ?_, none := ?_, freed := ?_ }⟩
    · simpa using Nat.le_succ_of_le keeps.answered
    · simpa [or_imp, forall_and, notDropped] using keeps.none
    · intro k mem
      simpa using Nat.le_succ_of_le (keeps.freed k mem)

end Undropped

/-! ### Calls for a request that was dropped -/

variable {before after after' : List Step} {answers : List Nat}

theorem Phase.imp {k : Nat} (phase : Phase s k after) (known : t.known = s.known)
    (status : t.status = s.status) (blocks : s.hasBlocks = false → t.hasBlocks = false)
    (refs : s.hasEncoderRefs = false → t.hasEncoderRefs = false)
    (sent : after'.countP (·.finished) + t.finished.toNat =
      after.countP (·.finished) + s.finished.toNat)
    (freed : t.freedAt = s.freedAt) : Phase t k after' := by
  cases phase with
  | left isKnown isRunning notSent early =>
    exact .left (known.trans isKnown) (status.trans isRunning) (sent.trans notSent) (freed ▸ early)
  | ending isKnown isFinished noRefs isSent early =>
    exact .ending (known.trans isKnown) (status ▸ isFinished) (refs noRefs) (sent.trans isSent)
      (freed ▸ early)
  | gone isGone noBlocks noRefs isSent late =>
    exact .gone (known.trans isGone) (blocks noBlocks) (refs noRefs) (sent.trans isSent)
      (freed ▸ late)

/-- The request between two calls, after the k-th step has dropped it. -/
structure Parked (steps : List Step) (answers : List Nat) (k : Nat) (after : List Step) (s : State) :
    Prop where
  issued : s.issued = steps
  returned : s.returned = answers
  added : s.added = true
  queue : s.queue = none
  phase : Phase s k after

namespace Parked

variable {k : Nat} (parked : Parked steps answers k after s)
include parked

variable (later : k < steps.length)
include later

theorem freeBlocks (known : s.known = true) (run : freeBlocks s = .ok t) :
    Parked steps answers k after t ∧ t.known = false := by
  unfold Recompute.freeBlocks at run
  split at run
  · rename_i finished
    cases run
    refine ⟨{ parked with phase := ?_ }, rfl⟩
    cases parked.phase with
    | left _ status =>
      rw [status] at finished
      cases finished
    | ending _ _ refs sent =>
      exact .gone rfl rfl refs sent ⟨s.issued.length, by simp, by rwa [parked.issued]⟩
    | gone unknown =>
      rw [known] at unknown
      cases unknown
  · cases run

/-- A request that is left is ended by `_free_request`. -/
theorem freeRequest (live : s.isLive = true) (finished : status.isFinished = true)
    {finishedRecving : Bool} {queues : List Queue}
    (run : freeRequest { s with queue := s.dequeued queues, finishedRecving, status } delays =
      .ok t) : Parked steps answers k after t := by
  have known : s.known = true := by
    unfold State.isLive at live
    simp_all
  have marked : Parked steps answers k after { s with
      queue := s.dequeued queues, finishedRecving, status
      hasEncoderRefs := false, finished := true } := by
    refine { parked with queue := by simp [State.dequeued, parked.queue], phase := ?_ }
    cases parked.phase with
    | left _ _ sent freed => exact .ending known finished rfl (by simp_all) freed
    | ending _ ended =>
      unfold State.isLive at live
      simp [ended] at live
    | gone unknown =>
      rw [known] at unknown
      cases unknown
  unfold Recompute.freeRequest at run
  dsimp only at run
  split at run
  · cases run
    exact marked
  · exact (marked.freeBlocks later known run).1

theorem finishRequest (finished : status.isFinished = true)
    (run : finishRequest s status delays = .ok t) : Parked steps answers k after t := by
  unfold Recompute.finishRequest at run
  split at run
  · rename_i live
    exact parked.freeRequest later live finished run
  · cases run
    exact parked

theorem takeResults (finished : ∀ status, results.stops = some status → status.isFinished = true)
    (run : takeResults s step results = .ok (numOutputs, t)) : Parked steps answers k after t := by
  unfold Recompute.takeResults at run
  split at run
  · rename_i takes
    have used : Parked steps answers k after
        { s with hasEncoderRefs := s.hasEncoderRefs && !results.encoderDone } :=
      { parked with
        phase := parked.phase.imp rfl rfl id (fun refs => by simp [refs]) rfl rfl }
    dsimp only at run
    split at run
    · cases run
      exact used
    · rename_i status stops
      obtain ⟨u, freed, run⟩ := bind_eq_ok.mp run
      cases run
      exact used.freeRequest later takes.2.2 (finished status stops) freed
  · cases run
    exact parked

theorem finishSending (run : finishSending s = .ok t) :
    Parked steps answers k after t ∧ t.known = false := by
  unfold Recompute.finishSending at run
  split_ifs at run with known
  exact parked.freeBlocks later known run

theorem finishRecving (run : finishRecving s = .ok t) :
    Parked steps answers k after t ∧ t.known = false := by
  unfold Recompute.finishRecving at run
  split_ifs at run with unknown loading
  · cases parked.phase with
    | left _ status =>
      rw [loading] at status
      cases status
    | ending _ finished =>
      rw [loading] at finished
      cases finished
    | gone unknown' => exact absurd unknown' unknown
  · exact parked.freeBlocks later (by simpa using unknown) run

theorem updateFromKvXferFinished (run : updateFromKvXferFinished s results = .ok t) :
    Parked steps answers k after t ∧
      (results.received = true ∨ results.sent = true → t.known = false) := by
  obtain ⟨u, received, run⟩ := bind_eq_ok.mp run
  have first : Parked steps answers k after u ∧ (results.received = true → u.known = false) := by
    split_ifs at received
    · obtain ⟨still, gone⟩ := parked.finishRecving later received
      exact ⟨still, fun _ => gone⟩
    · cases received
      exact ⟨parked, fun yes => absurd yes ‹_›⟩
  split_ifs at run with sent
  · obtain ⟨still, gone⟩ := first.1.finishSending later run
    exact ⟨still, fun _ => gone⟩
  · cases run
    exact ⟨first.1, fun either => first.2 (either.resolve_right sent)⟩

end Parked

section

variable (gone : s.known = false)
include gone

/-- Nothing is done for a request that is gone. -/
theorem takeResults_of_gone : takeResults s step results = .ok (0, s) := by
  simp [takeResults, State.isLive, gone]

theorem updateFromKvXferFinished_of_gone (run : updateFromKvXferFinished s results = .ok t) :
    t = s := by
  obtain ⟨u, received, sent⟩ := bind_eq_ok.mp run
  obtain rfl : u = s := by
    split_ifs at received
    · simp [finishRecving, gone] at received
    · exact (Except.ok.inj received).symm
  split_ifs at sent
  · simp [finishSending, gone] at sent
  · exact (Except.ok.inj sent).symm

end

theorem Dropped.parked (dropped : Dropped s before after) :
    Parked s.issued s.returned before.length after s :=
  ⟨rfl, rfl, dropped.added, dropped.queue, dropped.phase⟩

theorem Dropped.later (dropped : Dropped s before after) : before.length < s.issued.length := by
  obtain ⟨finished, issued⟩ := dropped.issued
  simp [issued]

/-- The parts of `update_from_output`; no load of the request can fail. -/
theorem Dropped.update_ok (dropped : Dropped s before after)
    (run : updateFromOutput recompute s step results = .ok t) : ∃ numOutputs u w,
      takeResults s step results = .ok (numOutputs, u) ∧
      updateFromKvXferFinished u results = .ok w ∧
      (∀ status, results.stops = some status → status.isFinished = true) ∧
      t = { w with returned := s.returned ++ [(if step.recomputed then 1 else 0) + numOutputs] } := by
  unfold updateFromOutput at run
  split at run
  · cases run
  rename_i possible
  obtain ⟨⟨numOutputs, u⟩, taken, run⟩ := bind_eq_ok.mp run
  obtain ⟨⟨numFailed, v⟩, failed, run⟩ := bind_eq_ok.mp run
  have spared : results.failed = false := by
    by_contra fails
    refine possible (.inl ⟨by simpa using fails, ?_⟩)
    simp [State.canFail, dropped.queue]
  unfold finishFailed at failed
  rw [if_neg (by simp [spared])] at failed
  obtain ⟨rfl, rfl⟩ := Prod.mk.inj (Except.ok.inj failed)
  obtain ⟨w, transferred, run⟩ := bind_eq_ok.mp run
  refine ⟨numOutputs, u, w, taken, transferred, fun status stops => ?_, (Except.ok.inj run).symm⟩
  by_contra notFinished
  exact possible (.inr (by simpa [stops] using notFinished))

theorem Phase.known_iff {k : Nat} (phase : Phase s k after) :
    s.known = false ↔ ∃ l ∈ s.freedAt, k < l := by
  cases phase with
  | left known _ _ freed | ending known _ _ _ freed =>
    refine iff_of_false (by simp [known]) ?_
    rintro ⟨l, mem, lt⟩
    exact absurd (freed l mem) (by omega)
  | gone known _ _ _ freed => exact iff_of_true known freed

/-- The dropped request after results. -/
theorem Dropped.answer (dropped : Dropped s before after)
    (parked : Parked s.issued s.returned before.length after t)
    (reported : before.length ≤ s.returned.length → t.known = false)
    (silent : before.length < s.returned.length → numOutputs = 0) :
    Dropped { t with returned := s.returned ++ [numOutputs] } before after where
  issued := by
    rw [parked.issued]
    exact dropped.issued
  once := dropped.once
  added := parked.added
  queue := parked.queue
  phase := parked.phase.imp rfl rfl id id rfl rfl
  reported := by
    simpa [Nat.lt_succ_iff] using reported
  silent := by
    intro m mem
    rcases lt_or_ge before.length s.returned.length with lt | ge
    · rw [drop_append_of_le_length lt, silent lt] at mem
      rcases mem_append.mp mem with old | new
      · exact dropped.silent m old
      · exact mem_singleton.mp new
    · rw [drop_eq_nil_of_le (by simpa using ge)] at mem
      cases mem

/-- Results keep what is known of a dropped request, if it has been ended when it is reported. If it
has not, it is not finished once. -/
theorem Dropped.updateFromOutput (dropped : Dropped s before after) (next : s.next = some step)
    (run : updateFromOutput recompute s step results = .ok t) :
    (EndedMeanwhile s (.updateFromOutput results) → Dropped t before after) ∧
      (¬ EndedMeanwhile s (.updateFromOutput results) → ¬ DropsClosed t) := by
  obtain ⟨numOutputs, u, w, taken, transferred, finished, rfl⟩ := dropped.update_ok run
  have parked := dropped.parked.takeResults dropped.later finished taken
  obtain ⟨still, ended⟩ := parked.updateFromKvXferFinished dropped.later transferred
  obtain ⟨sent, issued⟩ := dropped.issued
  have other : s.returned.length ≠ before.length → step.recomputed = false :=
    dropped.recomputed_of_ne next
  have met : s.returned.length ≠ before.length → EndedMeanwhile s (.updateFromOutput results) := by
    intro ne step' next' recomputed
    cases next.symm.trans next'
    simp [other ne] at recomputed
  rcases lt_trichotomy s.returned.length before.length with earlier | here | later
  · exact ⟨fun _ => dropped.answer still (fun le => absurd earlier le.not_gt)
      (fun lt => absurd earlier lt.asymm), fun no => absurd (met earlier.ne) no⟩
  · -- The step that dropped the request has no tokens for it.
    have dropping : step = { recomputed := true, finished := sent } := by
      rw [State.next, issued, here] at next
      simpa using next.symm
    subst dropping
    obtain ⟨rfl, rfl⟩ := Prod.mk.inj (Except.ok.inj taken)
    have known := dropped.phase.known_iff
    rw [← here] at known
    constructor
    · intro met
      refine dropped.answer still (fun _ => ?_) (fun lt => absurd here lt.ne')
      rcases met _ next rfl with freed | now
      · rw [updateFromKvXferFinished_of_gone (known.mpr freed) transferred]
        exact known.mpr freed
      · exact ended now
    · intro no closed
      obtain ⟨notFreed, notNow⟩ : (¬ ∃ k ∈ s.freedAt, s.returned.length < k) ∧
          ¬ (results.received = true ∨ results.sent = true) := by
        rw [← not_or]
        intro either
        refine no fun step' next' _ => either
      obtain rfl : w = s := by
        rw [not_or] at notNow
        simpa [updateFromKvXferFinished, notNow, eq_comm] using transferred
      have once := closed w.returned.length (by simp) _ next rfl
      exact notFreed (known.mp once.known)
  · have gone := dropped.reported later
    obtain ⟨rfl, rfl⟩ := Prod.mk.inj (Except.ok.inj ((takeResults_of_gone gone).symm.trans taken))
    obtain rfl := updateFromKvXferFinished_of_gone gone transferred
    exact ⟨fun _ => dropped.answer still (fun _ => gone) (fun _ => by simp [other later.ne']),
      fun no => absurd (met later.ne') no⟩

/-- A step does nothing with it, and takes its id along if that is to be sent. -/
theorem Dropped.schedule {choice : Choice} (dropped : Dropped s before after)
    (run : schedule s choice = .ok t) :
    Dropped t before (after ++ [{ finished := s.finished }]) := by
  obtain ⟨u, chosen, run⟩ := bind_eq_ok.mp run
  cases run
  obtain ⟨rfl, rfl⟩ : choice = .none ∧ u = s := by
    cases choice <;> simp_all [choose, dropped.queue]
  obtain ⟨sent, issued⟩ := dropped.issued
  have count : (after ++ [({ finished := u.finished } : Step)]).countP (·.finished) + 0 =
      after.countP (·.finished) + u.finished.toNat := by
    cases u.finished <;> simp
  refine { dropped with
    issued := ⟨sent, by simp [issued, Choice.step]⟩
    once := ?_
    phase := dropped.phase.imp rfl rfl id id count rfl }
  simpa [or_imp, forall_and] using dropped.once

theorem Dropped.finishRequest (dropped : Dropped s before after) (finished : status.isFinished = true)
    (run : finishRequest s status delays = .ok t) : Dropped t before after := by
  have parked := dropped.parked.finishRequest dropped.later finished run
  refine ⟨?_, dropped.once, parked.added, parked.queue, parked.phase, ?_, ?_⟩
  · rw [parked.issued]
    exact dropped.issued
  · rw [parked.returned]
    intro reported
    have gone := dropped.reported reported
    simp only [Recompute.finishRequest, State.isLive, gone, Bool.false_and, Bool.false_eq_true,
      if_false] at run
    cases run
    exact gone
  · rw [parked.returned]
    exact dropped.silent

theorem Inv.exec {call : Call} (inv : Inv s) (run : exec recompute s call = .ok t) :
    (EndedMeanwhile s call → Inv t) ∧ (¬ EndedMeanwhile s call → ¬ DropsClosed t) := by
  rcases inv with ⟨steps, n, undropped⟩ | ⟨before, after, dropped⟩
  · -- Without a drop there is nothing to report.
    have met : EndedMeanwhile s call := by
      cases call with
      | updateFromOutput results =>
        intro step next recomputed
        rw [State.next, undropped.issued] at next
        simp [undropped.none step (mem_of_getElem? next)] at recomputed
      | _ => trivial
    refine ⟨fun _ => ?_, fun no => absurd met no⟩
    cases call with
    | addRequest grammar =>
      simp only [Recompute.exec] at run
      split_ifs at run <;> cases run <;>
        exact .inl ⟨steps, n, { undropped with running := nofun, added := fun _ => rfl }⟩
    | schedule choice => exact undropped.schedule run
    | updateFromOutput results =>
      simp only [Recompute.exec] at run
      split at run
      · cases run
      · exact .inl ⟨steps, n + 1, undropped.updateFromOutput ‹_› run⟩
    | finishRequests status delays =>
      simp only [Recompute.exec] at run
      split_ifs at run
      exact .inl ⟨steps, n, undropped.finishRequest run⟩
    | resetPrefixCache =>
      simp only [Recompute.exec] at run
      split_ifs at run with isRunning
      · exact .inl ⟨steps, n, undropped.preemptRequest run (by simp [isRunning])⟩
      · cases run
        exact .inl ⟨steps, n, undropped⟩
  · cases call with
    | addRequest grammar => simp [Recompute.exec, dropped.added] at run
    | schedule choice => exact ⟨fun _ => .inr ⟨_, _, dropped.schedule run⟩, fun no => absurd trivial no⟩
    | updateFromOutput results =>
      simp only [Recompute.exec] at run
      split at run
      · cases run
      · obtain ⟨keeps, breaks⟩ := dropped.updateFromOutput ‹_› run
        exact ⟨fun met => .inr ⟨_, _, keeps met⟩, breaks⟩
    | finishRequests status delays =>
      simp only [Recompute.exec] at run
      split_ifs at run with finished
      exact ⟨fun _ => .inr ⟨_, _, dropped.finishRequest finished run⟩, fun no => absurd trivial no⟩
    | resetPrefixCache =>
      simp only [Recompute.exec, dropped.queue, reduceCtorEq, if_false] at run
      cases run
      exact ⟨fun _ => .inr ⟨_, _, dropped⟩, fun no => absurd trivial no⟩

theorem inv_init : Inv {} := .inl ⟨[], 0, rfl, rfl, le_rfl, nofun, nofun, nofun, nofun⟩

end

end Vllm.Ascend.Recompute
