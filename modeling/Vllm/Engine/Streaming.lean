import Vllm.Engine.OutputProcessor
import Vllm.Lib.Steps

/-!
One request in `DELTA` mode, from the engine's outputs to the outputs that `generate()`
takes from the queue (`vllm/v1/engine/output_processor.py`).

Deltas are cut in the request state, sliced from the end of the accumulated log
probabilities, and merged in the queue.

* An output without tokens shows all log probabilities again, as `logprobs[-0:]` is the
  whole list (`abort_repeats_logprobs`).
* The deltas are the generated tokens, log probabilities and text, each once and in
  order, in every run in which outputs are made only with tokens to send
  (`streamed_of_run`). A prompt in several parts also needs that no stop string starts in
  text already handed out, and that nothing is left to send when the input is closed.
-/

namespace Vllm.Engine

open Vllm.Lib.Fallible Vllm.Lib.Steps RequestState Detokenizer RequestOutput List

variable {T L D β : Type}

/-- What the completions of an output show. -/
def RequestOutput.collect (view : CompletionOutput T L → List β) (output : RequestOutput T L) :
    List β :=
  output.outputs.flatMap fun completion => (completion.map view).getD []

/-- A request with its queue. `generated` and `generatedLogprobs` record what the engine
has sent for it. -/
structure Stream (T L D : Type) where
  request : RequestState T D
  /-- `request_states` has the request no longer. -/
  ended : Bool
  heap : LogprobsHeap L
  queue : RequestOutputCollector T L
  delivered : List (RequestOutput T L)
  generated : List T
  generatedLogprobs : List L

namespace Stream

inductive Call (T L : Type) where
  /-- An engine output is processed. It has log probabilities for each token. -/
  | output (output : EngineCoreOutput T L)
      (sized : (output.newLogprobs.getD []).length = output.newTokenIds.length)
  /-- `abort_requests`. -/
  | abort
  /-- `add_request` for the next part of the prompt, or, if `final`, to close the input. -/
  | update (final : Bool)
  /-- `get` or `get_nowait`. -/
  | get

section Exec

variable (decodeNext : List T → D → T → List Char × D) (params : OutputParams)

def start (decoder : D) (requestId : RequestId) : Stream T L D where
  request := .new params decoder requestId 0
  ended := false
  heap := fun _ => if params.logprobs then some [] else none
  queue := .new params.outputKind
  delivered := []
  generated := []
  generatedLogprobs := []

def put (s : Stream T L D) (output : Option (RequestOutput T L)) :
    Except OutputError (Stream T L D) :=
  match output with
  | none => .ok s
  | some output => do
    let (heap, queue) ← s.queue.put s.heap output
    return { s with heap, queue }

/-- What `process_outputs` does with a request that has finished: it goes on with the
next part of its prompt, or waits for one, or ends. -/
def free (s : Stream T L D) : Stream T L D :=
  if s.request.streamingInput then
    match s.request.inputChunkQueue with
    | some (final :: rest) =>
      { s with
        request := { s.request with streamingInput := !final, inputChunkQueue := some rest } }
    | _ => { s with request := { s.request with inputChunkQueue := none } }
  else { s with ended := true }

/-- `process_outputs` for one output. -/
def process (s : Stream T L D) (output : EngineCoreOutput T L) :
    Except OutputError (Stream T L D) :=
  if s.ended then .ok s
  else do
    let p ← s.request.processOutput decodeNext params s.heap none output
    let s ← { s with
      request := p.state
      heap := p.heap
      generated := s.generated ++ output.newTokenIds
      generatedLogprobs := s.generatedLogprobs ++ output.newLogprobs.getD [] }.put p.output
    return if p.finishReason.isSome then s.free else s

/-- `abort_requests` for this request. -/
def abort (s : Stream T L D) : Except OutputError (Stream T L D) :=
  if s.ended then .ok s
  else do
    let (request, _, output) :=
      s.request.makeRequestOutput params s.heap none [] (some .abort) none
    let s ← { s with request }.put output
    return { s with ended := true }

/-- `_update_streaming_request_state`. Request ids are unique, so only a request whose
prompt comes in parts is updated. -/
def update (s : Stream T L D) (final : Bool) : Except OutputError (Stream T L D) :=
  if s.ended || !params.resumable then .ok s
  else if final then
    match s.request.inputChunkQueue with
    | none => { s with ended := true }.put (some streamFinished)
    | some [] => .ok { s with request := { s.request with streamingInput := false } }
    | some (chunk :: rest) =>
      .ok { s with
        request := { s.request with
          inputChunkQueue := some ((chunk :: rest).dropLast ++ [true]) } }
  else
    match s.request.inputChunkQueue with
    | none =>
      .ok { s with
        request := { s.request with streamingInput := true, inputChunkQueue := some [] } }
    | some chunks =>
      .ok { s with request := { s.request with inputChunkQueue := some (chunks ++ [false]) } }

def get (s : Stream T L D) : Stream T L D :=
  { s with queue := s.queue.get.1, delivered := s.delivered ++ s.queue.get.2.toList }

def exec (s : Stream T L D) : Call T L → Except OutputError (Stream T L D)
  | .output output _ => s.process decodeNext params output
  | .abort => s.abort params
  | .update final => s.update params final
  | .get => .ok s.get

/-! ### What is delivered -/

/-- What has been put into the queue so far shows. -/
def sent (s : Stream T L D) (view : CompletionOutput T L → List β) : List β :=
  (s.delivered ++ s.queue.output.toList).flatMap (·.collect view)

/-- The deltas are the generated tokens with their log probabilities, and the text. -/
structure Faithful (s : Stream T L D) : Prop where
  tokenIds : s.delivered.flatMap (·.collect (·.tokenIds)) = s.generated
  logprobs : s.delivered.flatMap (·.collect (·.entries s.heap)) = s.generatedLogprobs
  one_each : (s.delivered.flatMap (·.collect (·.entries s.heap))).length =
    (s.delivered.flatMap (·.collect (·.tokenIds))).length
  text : s.delivered.flatMap (·.collect (·.text)) = s.request.detokenizer.outputText

/-- The tokens that wait for the stream interval. -/
def pending (s : Stream T L D) : List T :=
  if 1 < params.streamInterval then
    s.request.detokenizer.tokenIds.drop s.request.sentTokensOffset
  else []

/-- An output is made only if there are tokens to send, or if it ends a request without
any tokens. -/
def SendsTokens (s : Stream T L D) : Call T L → Prop
  | .output output _ => s.ended = false →
      s.pending params ++ output.newTokenIds ≠ [] ∨
      (1 < params.streamInterval ∧ s.request.sentTokensOffset ≠ 0 ∧ output.finishReason = none) ∨
      (s.request.detokenizer.tokenIds = [] ∧ output.finishReason.isSome = true ∧
        s.request.streamingInput = false)
  | .abort => s.ended = false →
      s.pending params ≠ [] ∨ s.request.detokenizer.tokenIds = []
  | .update _ => True
  | .get => True

/-- For a request whose prompt comes in parts: no stop string starts in text handed out
before, and the input is closed when nothing is left to send. -/
def KeepsParts (s : Stream T L D) : Call T L → Prop
  | .output output _ => s.ended = false → params.resumable = true →
      Detokenizer.StopsAfterSent decodeNext params.toDetokenizeParams s.request.detokenizer
        output.newTokenIds (output.finishReason == some .stop)
  | .update final => s.ended = false → params.resumable = true → final = true →
      s.request.inputChunkQueue = none →
      s.pending params = [] ∧
        s.request.detokenizer.lastOutputTextOffset = s.request.detokenizer.outputText.length
  | .abort => True
  | .get => True

/-- Both conditions. -/
def Cuts (s : Stream T L D) (call : Call T L) : Prop :=
  SendsTokens params s call ∧ KeepsParts decodeNext params s call

end Exec

/-! ### Merging in the queue -/

/-- A completion that holds its own copy of its log probabilities. -/
def OwnCopy (completion : CompletionOutput T L) : Prop :=
  completion.index = 0 ∧ ∃ entries, completion.logprobs = some (.copy entries)

def joined (heap : LogprobsHeap L) (completion next : CompletionOutput T L) :
    CompletionOutput T L :=
  { completion with
    text := completion.text ++ next.text
    tokenIds := completion.tokenIds ++ next.tokenIds
    logprobs := some (.copy (completion.entries heap ++ next.entries heap))
    finishReason := next.finishReason
    stopReason := next.stopReason }

variable {completion : CompletionOutput T L}

theorem mergeCompletion_of_ownCopy (own : OwnCopy completion) (heap : LogprobsHeap L)
    (next : CompletionOutput T L) :
    mergeCompletion heap completion next = .ok (heap, joined heap completion next) := by
  obtain ⟨_, entries, copy⟩ := own
  have shown : completion.entries heap = entries := by simp [CompletionOutput.entries, copy]
  unfold mergeCompletion extendLogprobs joined
  rw [shown]
  cases next.entries heap with
  | nil | cons => simp [copy]

/-- As long as the request has not ended, the outputs made so far hold copies. -/
structure Open (s : Stream T L D) : Prop where
  aggregate : s.queue.aggregate = true
  waiting : ∀ output ∈ s.queue.output, ∃ completion, output.outputs = [some completion]
  copies : ∀ output ∈ s.delivered ++ s.queue.output.toList, ∀ completion ∈ output.outputs,
    ∃ own, completion = some own ∧ OwnCopy own

/-- Only the queue differs. -/
structure SameButQueue (s s' : Stream T L D) : Prop where
  request : s'.request = s.request
  ended : s'.ended = s.ended
  heap : s'.heap = s.heap
  delivered : s'.delivered = s.delivered
  generated : s'.generated = s.generated
  generatedLogprobs : s'.generatedLogprobs = s.generatedLogprobs

/-- A completion has been put into the queue. -/
structure HasPut (s s' : Stream T L D) (completion : CompletionOutput T L) : Prop
    extends SameButQueue s s' where
  tokenIds : s'.sent (·.tokenIds) = s.sent (·.tokenIds) ++ completion.tokenIds
  text : s'.sent (·.text) = s.sent (·.text) ++ completion.text
  entries : s'.sent (·.entries s.heap) = s.sent (·.entries s.heap) ++ completion.entries s.heap
  copies : OwnCopy completion → Open s'

theorem Open.put {s : Stream T L D} (opn : Open s) (index : completion.index = 0)
    (finished : Bool) :
    ∃ s', s.put (some ⟨[some completion], finished⟩) = .ok s' ∧ HasPut s s' completion := by
  cases empty : s.queue.output with
  | none =>
    refine ⟨{ s with queue := { s.queue with output := some ⟨[some completion], finished⟩ } }, ?_,
      ⟨rfl, rfl, rfl, rfl, rfl, rfl⟩, ?_, ?_, ?_, fun own => ⟨opn.aggregate, ?_, ?_⟩⟩
    · simp only [Stream.put, RequestOutputCollector.put, empty]
      rfl
    · simp [sent, empty, collect]
    · simp [sent, empty, collect]
    · simp [sent, empty, collect]
    · rintro _ ⟨⟩
      exact ⟨completion, rfl⟩
    · intro output mem c inside
      rcases mem_append.mp mem with old | new
      · exact opn.copies output (mem_append_left _ old) c inside
      · cases mem_singleton.mp new
        exact ⟨completion, mem_singleton.mp inside, own⟩
  | some waiting =>
    obtain ⟨old, outputs⟩ := opn.waiting waiting empty
    obtain ⟨_, ⟨⟩, own⟩ := opn.copies waiting (by simp [empty]) (some old) (by simp [outputs])
    have merged := mergeCompletion_of_ownCopy own s.heap completion
    have put : s.put (some ⟨[some completion], finished⟩) =
        .ok { s with queue := { s.queue with
          output := some ⟨[some (joined s.heap old completion)], waiting.finished || finished⟩ } } := by
      have same : old.index = completion.index := own.1.trans index.symm
      simp only [Stream.put, RequestOutputCollector.put, empty, add, outputs,
        foldlM_cons, addCompletion, same, opn.aggregate, merged]
      rfl
    refine ⟨_, put, ⟨rfl, rfl, rfl, rfl, rfl, rfl⟩, ?_, ?_, ?_, fun _ => ⟨opn.aggregate, ?_, ?_⟩⟩
    · simp [sent, empty, collect, outputs, joined]
    · simp [sent, empty, collect, outputs, joined]
    · simp [sent, empty, collect, outputs, joined, CompletionOutput.entries]
    · rintro _ ⟨⟩
      exact ⟨_, rfl⟩
    · intro output mem c inside
      rcases mem_append.mp mem with earlier | new
      · exact opn.copies output (mem_append_left _ earlier) c inside
      · cases mem_singleton.mp new
        exact ⟨_, mem_singleton.mp inside, own.1, _, rfl⟩

/-! ### Cutting -/

section Cut

variable {next : List T → D → T → List Char × D} {params : OutputParams}
  {s : Stream T L D} {toSend : List T}

/-- What was sent and what is to be sent make up what was generated. -/
structure Core (params : OutputParams) (s : Stream T L D) (toSend : List T) : Prop where
  index : s.request.requestIndex = 0
  heap : s.heap 0 = some s.generatedLogprobs
  ids : s.request.detokenizer.tokenIds = s.generated
  sized : s.generatedLogprobs.length = s.generated.length
  tokens : s.sent (·.tokenIds) ++ toSend = s.generated
  logprobs : s.sent (·.entries s.heap) = s.generatedLogprobs.take (s.sent (·.tokenIds)).length
  text : s.sent (·.text) = s.request.detokenizer.outputText.take
    s.request.detokenizer.lastOutputTextOffset
  le : s.request.detokenizer.lastOutputTextOffset ≤ s.request.detokenizer.outputText.length
  plain : params.detokenize = false → s.request.detokenizer.outputText = []

/-- Copies do not depend on the lists of the processors. -/
theorem Open.entries_eq (opn : Open s) (heap heap' : LogprobsHeap L) :
    s.sent (·.entries heap) = s.sent (·.entries heap') := by
  unfold sent
  rw [flatMap_def]
  congr 1
  apply map_congr_left
  intro output mem
  unfold collect
  rw [flatMap_def, flatMap_def]
  congr 1
  apply map_congr_left
  intro completion inside
  obtain ⟨own, rfl, -, entries, copy⟩ := opn.copies output mem completion inside
  simp [CompletionOutput.entries, copy]

/-- The state after steps 2 and 3 of `process_outputs`. -/
def received (decodeNext : List T → D → T → List Char × D) (params : OutputParams)
    (s : Stream T L D) (heap : LogprobsHeap L) (output : EngineCoreOutput T L) : Stream T L D :=
  { s with
    request := { s.request with
      detokenizer := (s.request.detokenized decodeNext params output).1 }
    heap
    generated := s.generated ++ output.newTokenIds
    generatedLogprobs := s.generatedLogprobs ++ output.newLogprobs.getD [] }

theorem Open.received (opn : Open s) (heap : LogprobsHeap L) (output : EngineCoreOutput T L) :
    Open (s.received next params heap output) :=
  { opn with }

/-- The list of the processor takes in the new entries. -/
theorem Core.updateLogprobs (core : Core params s toSend) (newLogprobs : Option (List L)) :
    ∃ heap, updateLogprobs s.heap s.request.requestIndex newLogprobs = .ok heap ∧
      heap 0 = some (s.generatedLogprobs ++ newLogprobs.getD []) := by
  unfold RequestState.updateLogprobs
  rw [core.index]
  cases newLogprobs with
  | none => exact ⟨s.heap, rfl, by simp [core.heap]⟩
  | some entries =>
    rw [core.heap]
    exact ⟨_, rfl, by rw [Function.update_self]; rfl⟩

/-- New tokens are to be sent after those that wait already. -/
theorem Core.received (core : Core params s toSend) (opn : Open s) {heap : LogprobsHeap L}
    {output : EngineCoreOutput T L}
    (entries : heap 0 = some (s.generatedLogprobs ++ output.newLogprobs.getD []))
    (sized : (output.newLogprobs.getD []).length = output.newTokenIds.length)
    (after : Detokenizer.StopsAfterSent next params.toDetokenizeParams
      s.request.detokenizer output.newTokenIds (output.finishReason == some .stop)) :
    Core params (s.received next params heap output) (toSend ++ output.newTokenIds) := by
  have upd := updated next params.toDetokenizeParams s.request.detokenizer
    output.newTokenIds (output.finishReason == some .stop)
  obtain ⟨le, kept⟩ := upd.kept core.le after
  have short : (s.sent (·.tokenIds)).length ≤ s.generatedLogprobs.length := by
    rw [core.sized, ← core.tokens, length_append]
    omega
  constructor
  case index => exact core.index
  case heap => exact entries
  case ids => exact upd.tokenIds.trans (congrArg (· ++ _) core.ids)
  case sized =>
    show (s.generatedLogprobs ++ _).length = (s.generated ++ _).length
    rw [length_append, length_append, core.sized, sized]
  case tokens =>
    show s.sent (·.tokenIds) ++ (toSend ++ _) = s.generated ++ _
    rw [← append_assoc, core.tokens]
  case logprobs =>
    show s.sent (·.entries heap) = (s.generatedLogprobs ++ _).take _
    rw [opn.entries_eq heap s.heap, core.logprobs]
    exact (take_append_of_le_length short).symm
  case text =>
    have same : (s.request.detokenized next params output).1.lastOutputTextOffset =
      s.request.detokenizer.lastOutputTextOffset := upd.lastOutputTextOffset
    show s.sent (·.text) = take
      (s.request.detokenized next params output).1.lastOutputTextOffset _
    rw [same, core.text]
    exact kept.symm
  case le => exact upd.lastOutputTextOffset ▸ le
  case plain => exact fun off => (upd.plain off).trans (core.plain off)

/-- What `make_request_output` makes in `DELTA` mode when an output is due. -/
def delta (params : OutputParams) (s : Stream T L D) (newTokenIds : List T)
    (finishReason : Option FinishReason) (stopReason : Option (StopReason T)) :
    RequestState T D × CompletionOutput T L :=
  (s.request.cut params newTokenIds).1.newCompletionOutput params s.heap
    (s.request.cut params newTokenIds).2 finishReason stopReason

theorem cut_detokenizer (request : RequestState T D) (newTokenIds : List T) :
    (request.cut params newTokenIds).1.detokenizer = request.detokenizer := by
  unfold cut
  split
  · rfl
  · rfl

variable {newTokenIds : List T} {request : RequestState T D} {s' : Stream T L D}

/-- The core does not depend on what is delivered and what waits. -/
theorem Core.of_sent (core : Core params s toSend)
    (index : s'.request.requestIndex = s.request.requestIndex)
    (detokenizer : s'.request.detokenizer = s.request.detokenizer) (heap : s'.heap = s.heap)
    (generated : s'.generated = s.generated)
    (generatedLogprobs : s'.generatedLogprobs = s.generatedLogprobs)
    (sent : ∀ {β : Type} (view : CompletionOutput T L → List β), s'.sent view = s.sent view) :
    Core params s' toSend := by
  constructor
  case index => rw [index]; exact core.index
  case heap => rw [heap, generatedLogprobs]; exact core.heap
  case ids => rw [detokenizer, generated]; exact core.ids
  case sized => rw [generatedLogprobs, generated]; exact core.sized
  case tokens => rw [sent, generated]; exact core.tokens
  case logprobs => rw [sent, sent, heap, generatedLogprobs]; exact core.logprobs
  case text => rw [sent, detokenizer]; exact core.text
  case le => rw [detokenizer]; exact core.le
  case plain => rw [detokenizer]; exact core.plain

section

variable (deltaKind : params.outputKind = .delta)
include deltaKind

section

variable (finishReason : Option FinishReason) (stopReason : Option (StopReason T))

theorem makeRequestOutput_of_not_due (newTokenIds : List T) (interval : 1 < params.streamInterval)
    (notDue : s.request.isDue params finishReason.isSome = false) :
    s.request.makeRequestOutput params s.heap none newTokenIds finishReason stopReason =
      (s.request, none, none) := by
  unfold makeRequestOutput
  simp [deltaKind, interval, notDue]

theorem makeRequestOutput_of_due (newTokenIds : List T)
    (due : 1 < params.streamInterval → s.request.isDue params finishReason.isSome = true) :
    s.request.makeRequestOutput params s.heap none newTokenIds finishReason stopReason =
      ((s.delta params newTokenIds finishReason stopReason).1, none,
        some ⟨[some (s.delta params newTokenIds finishReason stopReason).2],
          finishReason.isSome⟩) := by
  unfold makeRequestOutput
  by_cases interval : 1 < params.streamInterval
  · simp [deltaKind, due interval, delta]
  · simp [deltaKind, interval, delta]

/-- The log probabilities of a delta are the last ones, one for each token. -/
theorem Core.delta_entries (core : Core params s toSend)
    (cut : (s.request.cut params newTokenIds).2 = toSend)
    (some_ : toSend ≠ [] ∨ s.generatedLogprobs = []) :
    (s.delta params newTokenIds finishReason stopReason).2.entries s.heap =
        s.generatedLogprobs.drop (s.sent (·.tokenIds)).length ∧
      (toSend ≠ [] → OwnCopy (s.delta params newTokenIds finishReason stopReason).2) := by
  have index : (s.request.cut params newTokenIds).1.requestIndex = 0 := by
    unfold RequestState.cut
    split
    · exact core.index
    · exact core.index
  have lengths := congrArg length core.tokens
  rw [length_append, ← core.sized] at lengths
  unfold delta newCompletionOutput CompletionOutput.entries OwnCopy
  simp only [index, core.heap, deltaKind, decide_true, if_true, cut]
  cases logprobs : s.generatedLogprobs with
  | nil =>
    rw [logprobs, length_nil] at lengths
    have none : toSend = [] := eq_nil_of_length_eq_zero (by omega)
    simp [none]
  | cons entry rest =>
    have ne : toSend ≠ [] := some_.resolve_right (by simp [logprobs])
    have pos : toSend.length ≠ 0 := by simpa using ne
    rw [logprobs] at lengths
    refine ⟨?_, fun _ => ⟨trivial, _, rfl⟩⟩
    simp only [lastEntries, if_neg pos]
    congr 1
    omega

/-- A delta has been put into the queue, and nothing is left to send. -/
structure HasSent (params : OutputParams) (s s' : Stream T L D) (toSend : List T)
    (finished : Bool) : Prop where
  core : Core params s' []
  ended : s'.ended = s.ended
  opn : toSend ≠ [] → Open s'
  pending : s'.pending params = []
  offset_le : 1 < params.streamInterval →
    s'.request.sentTokensOffset ≤ s'.request.detokenizer.tokenIds.length
  streamingInput : s'.request.streamingInput = s.request.streamingInput
  all : finished = true → s'.request.detokenizer.lastOutputTextOffset =
    s'.request.detokenizer.outputText.length
  held : finished = false →
    Detokenizer.Held params.toDetokenizeParams s.request.detokenizer →
    Detokenizer.Held params.toDetokenizeParams s'.request.detokenizer

/-- In `DELTA` mode with an interval, a cut goes up to the last token. -/
theorem cut_pending (request : RequestState T D)
    (newTokenIds : List T) :
    (1 < params.streamInterval → (request.cut params newTokenIds).1.sentTokensOffset =
      request.detokenizer.tokenIds.length) ∧
    (request.cut params newTokenIds).1.streamingInput = request.streamingInput := by
  unfold cut
  split
  · exact ⟨fun _ => rfl, rfl⟩
  · rename_i whole
    exact ⟨fun interval => absurd ⟨interval, deltaKind⟩ whole, rfl⟩

theorem Core.send (core : Core params s toSend) (opn : Open s)
    (cut : (s.request.cut params newTokenIds).2 = toSend)
    (some_ : toSend ≠ [] ∨ s.generatedLogprobs = []) (finished : Bool) :
    ∃ s', { s with request := (s.delta params newTokenIds finishReason stopReason).1 }.put
          (some ⟨[some (s.delta params newTokenIds finishReason stopReason).2], finished⟩) =
        .ok s' ∧ HasSent params s s' toSend finishReason.isSome := by
  obtain ⟨entries, own⟩ := core.delta_entries deltaKind finishReason stopReason cut some_
  have index : (s.delta params newTokenIds finishReason stopReason).2.index = 0 := by
    unfold delta RequestState.newCompletionOutput RequestState.cut
    split
    · exact core.index
    · exact core.index
  have handed := handedOut params.toDetokenizeParams s.request.detokenizer
    finishReason.isSome core.le core.plain
  set made := s.delta params newTokenIds finishReason stopReason with made_eq
  have tokenIds : made.2.tokenIds = toSend := by
    rw [made_eq, ← cut]
    simp [delta, newCompletionOutput, deltaKind]
  have detokenizer : made.1.detokenizer = (s.request.detokenizer.getNextOutputText
      params.toDetokenizeParams finishReason.isSome true).1 := by
    simp [made_eq, delta, newCompletionOutput, deltaKind, cut_detokenizer]
  have text : made.2.text = (s.request.detokenizer.getNextOutputText
      params.toDetokenizeParams finishReason.isSome true).2 := by
    simp [made_eq, delta, newCompletionOutput, deltaKind, cut_detokenizer]
  have opn' : Open { s with request := made.1 } := { opn with }
  obtain ⟨s', put, has⟩ := opn'.put index finished
  have request : s'.request = made.1 := has.request
  obtain ⟨offset, streaming⟩ := cut_pending deltaKind s.request newTokenIds
  have offset' : 1 < params.streamInterval →
      s'.request.sentTokensOffset = s'.request.detokenizer.tokenIds.length := by
    intro interval
    rw [request, detokenizer, handed.tokenIds]
    exact offset interval
  refine ⟨s', put, ?core, has.ended, fun ne => has.copies (own ne), ?_,
    fun interval => le_of_eq (offset' interval), ?_, fun finished => ?_, fun running held => ?_⟩
  case refine_1 =>
    unfold pending
    split
    · rename_i interval
      rw [offset' interval, drop_length]
    · rfl
  case refine_2 => rw [request]; exact streaming
  case refine_3 =>
    rw [request, detokenizer, handed.outputText]
    exact handed.all finished
  case refine_4 =>
    rw [request, detokenizer]
    exact handed.held running held
  have all : s'.sent (·.tokenIds) = s.generated := by
    rw [has.tokenIds, tokenIds]
    exact core.tokens
  constructor
  case index =>
    rw [request]
    exact index
  case heap => rw [has.heap, has.generatedLogprobs]; exact core.heap
  case ids => rw [request, detokenizer, handed.tokenIds, has.generated]; exact core.ids
  case sized => rw [has.generatedLogprobs, has.generated]; exact core.sized
  case tokens => rw [all, append_nil, has.generated]
  case logprobs =>
    rw [all, has.generatedLogprobs, ← core.sized, take_length, has.heap, has.entries]
    show s.sent (·.entries s.heap) ++ made.2.entries s.heap = s.generatedLogprobs
    rw [entries, core.logprobs, take_append_drop]
  case text =>
    rw [request, detokenizer, handed.outputText, has.text, text, handed.text]
    exact congrArg (· ++ _) core.text
  case le =>
    rw [request, detokenizer, handed.outputText]
    exact handed.le
  case plain =>
    intro off
    rw [request, detokenizer, handed.outputText]
    exact core.plain off

end

/-! ### Whole runs -/

/-- What holds in every state of a run whose outputs are cut as they should be. -/
structure Inv (params : OutputParams) (s : Stream T L D) : Prop where
  core : Core params s (s.pending params)
  offset_le : 1 < params.streamInterval →
    s.request.sentTokensOffset ≤ s.request.detokenizer.tokenIds.length
  opn : s.ended = false → Open s
  whole : params.resumable = false → s.request.streamingInput = false
  held : s.ended = false → params.resumable = false →
    Detokenizer.Held params.toDetokenizeParams s.request.detokenizer
  done : s.ended = true → s.pending params = [] ∧
    s.request.detokenizer.lastOutputTextOffset = s.request.detokenizer.outputText.length

theorem inv_start (logprobs : params.logprobs = true)
    (decoder : D) (requestId : RequestId) :
    Inv params (start params decoder requestId : Stream T L D) where
  core :=
    { index := rfl
      heap := by simp [start, logprobs]
      ids := rfl
      sized := rfl
      tokens := by simp [start, sent, pending, new, RequestOutputCollector.new]
      logprobs := by simp [start, sent, RequestOutputCollector.new]
      text := by simp [start, sent, new, RequestOutputCollector.new]
      le := le_rfl
      plain := fun _ => rfl }
  offset_le := fun _ => Nat.zero_le _
  opn := fun _ =>
    { aggregate := by simp [start, RequestOutputCollector.new, deltaKind]
      waiting := by simp [start, RequestOutputCollector.new]
      copies := by simp [start, RequestOutputCollector.new] }
  whole := fun off => off
  held := fun _ _ => .inl rfl
  done := nofun

/-- A cut holds what waited and what is new. -/
theorem Inv.cut (inv : Inv params s) (request : RequestState T D) (newTokenIds : List T)
    (offset : request.sentTokensOffset = s.request.sentTokensOffset)
    (ids : request.detokenizer.tokenIds = s.request.detokenizer.tokenIds ++ newTokenIds) :
    (request.cut params newTokenIds).2 = s.pending params ++ newTokenIds := by
  unfold RequestState.cut pending
  by_cases interval : 1 < params.streamInterval
  · rw [if_pos ⟨interval, deltaKind⟩, if_pos interval, offset, ids]
    exact drop_append_of_le_length (inv.offset_le interval)
  · rw [if_neg (fun both => interval both.1), if_neg interval]
    rfl

end

/-- Nothing new comes from a call that leaves text, tokens and queue alone. -/
theorem Inv.of_flags (inv : Inv params s) (index : request.requestIndex = s.request.requestIndex)
    (detokenizer : request.detokenizer = s.request.detokenizer)
    (offset : request.sentTokensOffset = s.request.sentTokensOffset)
    (whole : params.resumable = false → request.streamingInput = false) :
    Inv params { s with request } := by
  have pending : ({ s with request } : Stream T L D).pending params = s.pending params := by
    simp [Stream.pending, detokenizer, offset]
  constructor
  case core =>
    rw [pending]
    exact inv.core.of_sent index detokenizer rfl rfl rfl fun _ => rfl
  case offset_le =>
    rw [detokenizer, offset]
    exact inv.offset_le
  case opn =>
    intro live
    have opn := inv.opn live
    exact { opn with }
  case whole => exact whole
  case held =>
    rw [detokenizer]
    exact inv.held
  case done =>
    rw [pending]
    rw [detokenizer]
    exact inv.done

/-- The state after a delta, if the request goes on. -/
theorem HasSent.inv {finished : Bool} (sent : HasSent params s s' toSend finished)
    (opn : s'.ended = false → Open s')
    (whole : params.resumable = false → s.request.streamingInput = false)
    (held : s'.ended = false → params.resumable = false →
      Detokenizer.Held params.toDetokenizeParams s'.request.detokenizer)
    (done : s'.ended = true → finished = true) : Inv params s' where
  core := sent.pending ▸ sent.core
  offset_le := sent.offset_le
  opn := opn
  whole := fun off => sent.streamingInput.trans (whole off)
  held := held
  done := fun ended => ⟨sent.pending, sent.all (done ended)⟩

/-- The request ends with a delta. -/
theorem HasSent.inv_ended (sent : HasSent params s s' toSend true)
    (whole : params.resumable = false → s.request.streamingInput = false) :
    Inv params { s' with ended := true } := by
  have pending : ({ s' with ended := true } : Stream T L D).pending params = [] := sent.pending
  refine ⟨?_, sent.offset_le, nofun,
    fun off => sent.streamingInput.trans (whole off), nofun,
    fun _ => ⟨pending, sent.all rfl⟩⟩
  rw [pending]
  exact sent.core.of_sent rfl rfl rfl rfl rfl fun _ => rfl

/-- No output is due while nothing waits and the first token has been sent. -/
theorem not_due_of_nothing (interval : 1 < params.streamInterval)
    (first : request.sentTokensOffset ≠ 0)
    (nothing : request.detokenizer.tokenIds.drop request.sentTokensOffset = []) :
    request.isDue params false = false := by
  have short := drop_eq_nil_iff.mp nothing
  simp only [isDue, numOutputTokens, Bool.false_or, Bool.or_eq_false_iff,
    beq_eq_false_iff_ne]
  exact ⟨first, decide_eq_false (by omega)⟩

/-- A request that has finished ends or goes on with the next part of its prompt. -/
theorem HasSent.free (sent : HasSent params s s' toSend true)
    (some_ : toSend ≠ [] ∨ s.request.streamingInput = false)
    (whole : params.resumable = false → s.request.streamingInput = false) :
    Inv params s'.free := by
  unfold Stream.free
  cases streaming : s'.request.streamingInput with
  | false => exact sent.inv_ended whole
  | true =>
    have streaming' : s.request.streamingInput = true := sent.streamingInput.symm.trans streaming
    have parts : params.resumable ≠ false := fun off => by
      rw [whole off] at streaming'
      cases streaming'
    have ne : toSend ≠ [] := some_.resolve_right (by simp [streaming'])
    have inv : Inv params s' := sent.inv (fun _ => sent.opn ne) whole
      (fun _ off => absurd off parts) fun _ => rfl
    rw [if_pos rfl]
    split
    · exact inv.of_flags rfl rfl rfl fun off => absurd off parts
    · exact inv.of_flags rfl rfl rfl fun off => absurd off parts

section Process

variable {output : EngineCoreOutput T L} {heap : LogprobsHeap L}

/-- The finish and stop reasons after detokenization. -/
def reasons (decodeNext : List T → D → T → List Char × D) (params : OutputParams)
    (s : Stream T L D) (output : EngineCoreOutput T L) :
    Option FinishReason × Option (StopReason T) :=
  finishReasons (s.request.detokenized decodeNext params output).2 output

/-- `process_outputs` in terms of the state after its steps 2 and 3. -/
theorem process_eq (live : s.ended = false)
    (updated : updateLogprobs s.heap s.request.requestIndex output.newLogprobs =
      .ok heap) :
    s.process next params output = (do
      let r := s.received next params heap output
      let made := r.request.makeRequestOutput params r.heap none output.newTokenIds
        (s.reasons next params output).1 (s.reasons next params output).2
      let s' ← Stream.put { r with request := made.1 } (made.2.2.map fun out =>
        { out with finished := if made.1.streamingInput then false else out.finished })
      return if (s.reasons next params output).1.isSome then s'.free else s') := by
  unfold Stream.process
  rw [if_neg (by simp [live]), processOutput_of_updateLogprobs next none updated]
  rfl

theorem reasons_of_nothing {waiting : List T} (nothing : waiting ++ output.newTokenIds = []) :
    (s.reasons next params output).1 = output.finishReason := by
  have none : (s.request.detokenized next params output).2 = none :=
    (updated next params.toDetokenizeParams s.request.detokenizer
      output.newTokenIds (output.finishReason == some .stop)).quiet
      (append_eq_nil_iff.mp nothing).2
  rw [reasons, none]
  rfl

theorem stopString_eq_none (running : (s.reasons next params output).1 = none) :
    (s.request.detokenized next params output).2 = none := by
  unfold reasons at running
  cases found : (s.request.detokenized next params output).2 with
  | none => rfl
  | some stopString =>
    rw [found] at running
    cases running

/-- When an output is due, there are tokens to send or it is the only one. -/
theorem SendsTokens.of_due
    {sized : (output.newLogprobs.getD []).length = output.newTokenIds.length}
    (sends : SendsTokens params s (.output output sized)) (live : s.ended = false)
    (deltaKind : params.outputKind = .delta)
    (core : Core params (s.received next params heap output)
      (s.pending params ++ output.newTokenIds))
    (cut : ((s.received next params heap output).request.cut params output.newTokenIds).2 =
      s.pending params ++ output.newTokenIds)
    (due : 1 < params.streamInterval →
      (s.received next params heap output).request.isDue params
        (s.reasons next params output).1.isSome = true) :
    s.pending params ++ output.newTokenIds ≠ [] ∨
      ((s.reasons next params output).1.isSome = true ∧
        s.request.streamingInput = false ∧
        (s.received next params heap output).generatedLogprobs = []) := by
  rcases sends live with ne | ⟨interval, first, running⟩ | ⟨none, last, whole⟩
  · exact .inl ne
  · refine .inl fun nothing => ?_
    have due' := due interval
    rw [reasons_of_nothing nothing, running] at due'
    rw [← cut, RequestState.cut, if_pos ⟨interval, deltaKind⟩] at nothing
    have first' : (s.received next params heap output).request.sentTokensOffset ≠ 0 := first
    cases (not_due_of_nothing interval first' nothing).symm.trans due'
  · by_cases nothing : s.pending params ++ output.newTokenIds = []
    · refine .inr ⟨by rw [reasons_of_nothing nothing]; exact last, whole,
        eq_nil_of_length_eq_zero ?_⟩
      have ids : (s.received next params heap output).request.detokenizer.tokenIds = [] := by
        show (s.request.detokenizer.update _ _ _ _).1.tokenIds = []
        rw [(updated next params.toDetokenizeParams s.request.detokenizer
          output.newTokenIds (output.finishReason == some .stop)).tokenIds, none,
          (append_eq_nil_iff.mp nothing).2]
        rfl
      rw [core.sized, ← core.ids, ids]
      rfl
    · exact .inl nothing

theorem Inv.process (inv : Inv params s) (deltaKind : params.outputKind = .delta)
    (sized : (output.newLogprobs.getD []).length = output.newTokenIds.length)
    (cuts : Cuts next params s (.output output sized)) :
    ∃ s', s.process next params output = .ok s' ∧ Inv params s' := by
  cases live : s.ended with
  | true => exact ⟨s, by simp [Stream.process, live], inv⟩
  | false =>
  obtain ⟨sends, keeps⟩ := cuts
  have opn := inv.opn live
  have after : Detokenizer.StopsAfterSent next params.toDetokenizeParams
      s.request.detokenizer output.newTokenIds (output.finishReason == some .stop) := by
    cases parts : params.resumable with
    | true => exact keeps live parts
    | false => exact (inv.held live parts).stopsAfterSent next _ _ _
  obtain ⟨heap, updated, entries⟩ := inv.core.updateLogprobs output.newLogprobs
  have core := inv.core.received opn entries sized after
  have upd := Detokenizer.updated next params.toDetokenizeParams s.request.detokenizer
    output.newTokenIds (output.finishReason == some .stop)
  have cut := inv.cut deltaKind (s.received next params heap output).request
    output.newTokenIds rfl upd.tokenIds
  have toSend := sends.of_due live deltaKind core cut
  rw [process_eq live updated]
  set r := s.received next params heap output
  set reasons := s.reasons next params output
  have held : reasons.1 = none → params.resumable = false →
      Detokenizer.Held params.toDetokenizeParams r.request.detokenizer :=
    fun running whole => upd.held next _ (inv.held live whole) (stopString_eq_none running)
  by_cases due : 1 < params.streamInterval →
      r.request.isDue params reasons.1.isSome = true
  · have some_ := toSend due
    have made := makeRequestOutput_of_due deltaKind reasons.1 reasons.2 output.newTokenIds due
    obtain ⟨s', put, sent⟩ := core.send deltaKind reasons.1 reasons.2
      (opn.received heap output) cut (some_.imp_right fun last => last.2.2)
      (if (r.delta params output.newTokenIds reasons.1 reasons.2).1.streamingInput then false
        else reasons.1.isSome)
    refine ⟨_, bind_eq_ok.mpr ⟨s', ?_, rfl⟩, ?_⟩
    · rw [made]
      exact put
    · cases last : reasons.1 with
      | some reason =>
        rw [last] at sent
        exact sent.free (some_.imp_right fun last => last.2.1) inv.whole
      | none =>
        rw [last] at sent
        have ne := some_.resolve_right (by simp [last])
        refine sent.inv (fun _ => sent.opn ne) inv.whole
          (fun _ whole => sent.held rfl (held last whole)) fun ended => ?_
        rw [sent.ended] at ended
        cases live.symm.trans ended
  · obtain ⟨interval, notDue⟩ := Classical.not_imp.mp due
    rw [Bool.not_eq_true] at notDue
    have running : reasons.1 = none := by
      cases last : reasons.1 with
      | none => rfl
      | some reason =>
        rw [last] at notDue
        cases notDue
    have made := makeRequestOutput_of_not_due deltaKind reasons.1 reasons.2 output.newTokenIds
      interval notDue
    refine ⟨_, bind_eq_ok.mpr ⟨r, ?_, rfl⟩, ?_⟩
    · rw [made]
      rfl
    · rw [running]
      have pending : r.pending params = s.pending params ++ output.newTokenIds := by
        rw [← cut, Stream.pending, RequestState.cut, if_pos interval, if_pos ⟨interval, deltaKind⟩]
      refine ⟨pending ▸ core, fun _ => ?_, fun _ => opn.received heap output, inv.whole,
        fun _ => held running, fun ended => ?_⟩
      · show s.request.sentTokensOffset ≤ (s.request.detokenizer.update _ _ _ _).1.tokenIds.length
        rw [upd.tokenIds, length_append]
        exact le_trans (inv.offset_le interval) (Nat.le_add_right _ _)
      · cases live.symm.trans ended

end Process

variable (inv : Inv params s)
include inv

theorem Inv.abort (deltaKind : params.outputKind = .delta) (sends : SendsTokens params s .abort) :
    ∃ s', s.abort params = .ok s' ∧ Inv params s' := by
  unfold Stream.abort
  by_cases live : s.ended = true
  · exact ⟨s, by rw [if_pos live], inv⟩
  · rw [Bool.not_eq_true] at live
    have made := makeRequestOutput_of_due (s := s) deltaKind (some .abort) none [] fun _ => rfl
    have cut := inv.cut deltaKind s.request [] rfl (append_nil _).symm
    rw [append_nil] at cut
    have some_ : s.pending params ≠ [] ∨ s.generatedLogprobs = [] := by
      refine (sends live).imp_right fun none => eq_nil_of_length_eq_zero ?_
      rw [inv.core.sized, ← inv.core.ids, none]
      rfl
    obtain ⟨s', put, sent⟩ := inv.core.send deltaKind (some .abort) none (inv.opn live) cut some_ true
    refine ⟨_, ?_, sent.inv_ended inv.whole⟩
    rw [if_neg (by simp [live]), made]
    exact bind_eq_ok.mpr ⟨s', put, rfl⟩

omit inv in
/-- The end of the input adds nothing to what is sent. -/
theorem put_streamFinished (s : Stream T L D) :
    ∃ s', s.put (some streamFinished) = .ok s' ∧ SameButQueue s s' ∧
      ∀ {β : Type} (view : CompletionOutput T L → List β), s'.sent view = s.sent view := by
  unfold Stream.put RequestOutputCollector.put
  cases empty : s.queue.output with
  | none | some =>
    refine ⟨_, rfl, ⟨rfl, rfl, rfl, rfl, rfl, rfl⟩, fun view => ?_⟩
    simp [sent, empty, streamFinished, collect]

theorem Inv.update (final : Bool) (keeps : KeepsParts next params s (.update final)) :
    ∃ s', s.update params final = .ok s' ∧ Inv params s' := by
  unfold Stream.update
  split
  · exact ⟨s, rfl, inv⟩
  · rename_i open_
    simp only [Bool.or_eq_true, Bool.not_eq_true', not_or, Bool.not_eq_true,
      Bool.not_eq_false] at open_
    obtain ⟨live, parts⟩ := open_
    have parts' : params.resumable ≠ false := by simp [parts]
    split
    · rename_i closing
      split
      · rename_i answered
        obtain ⟨nothing, all⟩ := keeps live parts closing answered
        obtain ⟨s', put, same, sent⟩ := put_streamFinished { s with ended := true }
        have pending : s'.pending params = s.pending params := by
          rw [Stream.pending, same.request]
          rfl
        have request : s'.request = s.request := same.request
        refine ⟨s', put, ?_, ?_, fun live => ?_, ?_, fun live => ?_, fun _ => ?_⟩
        · rw [pending]
          exact inv.core.of_sent (by rw [request]) (by rw [request]) same.heap same.generated
            same.generatedLogprobs sent
        · rw [request]
          exact inv.offset_le
        · cases same.ended.symm.trans live
        · rw [request]
          exact inv.whole
        · cases same.ended.symm.trans live
        · rw [pending, request]
          exact ⟨nothing, all⟩
      · exact ⟨_, rfl, inv.of_flags rfl rfl rfl fun off => absurd off parts'⟩
      · exact ⟨_, rfl, inv.of_flags rfl rfl rfl fun off => absurd off parts'⟩
    · split
      · exact ⟨_, rfl, inv.of_flags rfl rfl rfl fun off => absurd off parts'⟩
      · exact ⟨_, rfl, inv.of_flags rfl rfl rfl fun off => absurd off parts'⟩

omit inv in
theorem sent_get (s : Stream T L D) (view : CompletionOutput T L → List β) :
    s.get.sent view = s.sent view := by
  simp [sent, Stream.get, RequestOutputCollector.get]

theorem Inv.get : Inv params s.get := by
  refine ⟨inv.core.of_sent rfl rfl rfl rfl rfl (sent_get s), inv.offset_le, fun live => ?_, inv.whole,
    inv.held, inv.done⟩
  have opn := inv.opn live
  refine ⟨opn.aggregate, nofun, fun output mem => ?_⟩
  apply opn.copies output
  simpa [Stream.get, RequestOutputCollector.get] using mem

theorem Inv.exec (deltaKind : params.outputKind = .delta) {call : Call T L}
    (cuts : Cuts next params s call) :
    ∃ s', s.exec next params call = .ok s' ∧ Inv params s' := by
  cases call with
  | output output sized => exact inv.process deltaKind sized cuts
  | abort => exact inv.abort deltaKind cuts.1
  | update final => exact inv.update final cuts.2
  | get => exact ⟨_, rfl, inv.get⟩

/-- Once the request has ended and the queue is empty, the deltas are complete. -/
theorem Inv.faithful (ended : s.ended = true) (drained : s.queue.output = none) : Faithful s := by
  obtain ⟨nothing, all⟩ := inv.done ended
  have core := inv.core
  have sent : ∀ {β : Type} (view : CompletionOutput T L → List β),
      s.delivered.flatMap (·.collect view) = s.sent view := by
    simp [Stream.sent, drained]
  have tokens : s.sent (·.tokenIds) = s.generated := by
    have := core.tokens
    rwa [nothing, append_nil] at this
  have logprobs : s.sent (·.entries s.heap) = s.generatedLogprobs := by
    rw [core.logprobs, tokens, ← core.sized, take_length]
  refine ⟨(sent _).trans tokens, (sent _).trans logprobs, ?_, (sent _).trans ?_⟩
  · rw [sent, sent, tokens, logprobs, core.sized]
  · rw [core.text, all, take_length]

end Cut

/-- In every run whose outputs are made with tokens to send, every such call returns, and
when the request has ended and all outputs are taken, their deltas are the generated
tokens, log probabilities and text. -/
theorem streamed_of_run (decodeNext : List T → D → T → List Char × D) (params : OutputParams)
    (deltaKind : params.outputKind = .delta) (logprobs : params.logprobs = true) (decoder : D)
    (requestId : RequestId) {calls : List (Call T L)} {s : Stream T L D}
    (run : Run (guarded (Cuts decodeNext params) (succeeds (exec decodeNext params)))
      (start params decoder requestId) calls s) :
    (∀ call, Cuts decodeNext params s call → ∃ s', s.exec decodeNext params call = .ok s') ∧
      (s.ended = true → s.queue.output = none → Faithful s) := by
  have inv : Inv params s := by
    refine run.invariant (Inv params) ?_ (inv_start deltaKind logprobs decoder requestId)
    rintro s call s' inv ⟨cuts, step⟩
    obtain ⟨t, done, inv'⟩ := inv.exec deltaKind cuts
    cases done.symm.trans step
    exact inv'
  constructor
  · intro call cuts
    obtain ⟨s', done, -⟩ := inv.exec deltaKind cuts
    exact ⟨s', done⟩
  · exact inv.faithful

def deltaParams : OutputParams where
  detokenize := false
  stop := []
  stop_ne_nil := DetokenizeParams.noStop
  minTokens := 0
  includeStopStrInOutput := false
  outputKind := .delta
  logprobs := true
  streamInterval := 1
  resumable := false

def silent (_ : List Nat) (_ : Unit) (_ : Nat) : List Char × Unit := ([], ())

/-- A token with its log probability, and whether it is the last. -/
def oneToken (finishReason : Option FinishReason) : Call Nat Nat :=
  .output ⟨[7], some [1], finishReason, none⟩ rfl

theorem twoTokens_streamed :
    deltaParams.outputKind = .delta ∧ deltaParams.logprobs = true ∧
    ∃ s, Run (guarded (Cuts silent deltaParams) (succeeds (exec silent deltaParams)))
        (start deltaParams () ⟨none, 0⟩) [oneToken none, oneToken (some .length), .get] s ∧
      s.ended = true ∧ s.queue.output = none ∧ Faithful s := by
  have sends : ∀ (s : Stream Nat Nat Unit) reason, Cuts silent deltaParams s (oneToken reason) :=
    fun s reason => ⟨fun _ => .inl (by simp), nofun⟩
  have run : Run (guarded (Cuts silent deltaParams) (succeeds (exec silent deltaParams)))
      (start deltaParams () ⟨none, 0⟩) [oneToken none, oneToken (some .length), .get] _ :=
    .head ⟨sends _ _, rfl⟩ (.head ⟨sends _ _, rfl⟩ (.head ⟨⟨trivial, trivial⟩, rfl⟩ (.refl _)))
  exact ⟨rfl, rfl, _, run, rfl, rfl,
    (streamed_of_run silent deltaParams rfl rfl () ⟨none, 0⟩ run).2 rfl rfl⟩

/-- A request is aborted after its only token was taken: the abort's output has no token
and all log probabilities once more. -/
theorem abort_repeats_logprobs :
    ∃ s, [oneToken none, .get, .abort, .get].foldlM (exec silent deltaParams)
        (start deltaParams () ⟨none, 0⟩) = .ok s ∧
      s.ended = true ∧ s.queue.output = none ∧
      s.generatedLogprobs = [1] ∧
      s.delivered.flatMap (·.collect (·.entries s.heap)) = [1, 1] ∧ ¬ Faithful s := by
  refine ⟨_, rfl, rfl, rfl, rfl, rfl, fun faithful => ?_⟩
  have twice : [1, 1] = [1] := faithful.logprobs
  cases twice

end Stream

end Vllm.Engine
