import Vllm.Engine.Detokenizer
import Vllm.Engine.Outputs
import Vllm.Lib.Fallible

/-!
From engine outputs to request outputs (`RequestState` and `OutputProcessor` in
`vllm/v1/engine/output_processor.py`), for generating requests.

`processOutput` is the body of the loop in `process_outputs` up to the output that it
makes; what becomes of the request is left to the callers, which know the other
requests. Statistics, prompt log probabilities, routed experts and transfer parameters
are left out.
-/

namespace Vllm.Engine

open Vllm.Lib.Fallible

/-- `EngineCoreOutput` of a request. There is one entry of log probabilities for each
token, if any. -/
structure EngineCoreOutput (T L : Type) where
  newTokenIds : List T
  newLogprobs : Option (List L)
  finishReason : Option FinishReason
  stopReason : Option (StopReason T)

/-- The parts of a request's parameters that its outputs depend on. -/
structure OutputParams extends DetokenizeParams where
  outputKind : RequestOutputKind
  /-- `num_logprobs is not None`. -/
  logprobs : Bool
  streamInterval : Nat
  /-- `request.resumable`: the prompt comes in several parts. -/
  resumable : Bool

/-- `RequestState`. The parts of the prompt that wait in `input_chunk_queue` are given
by their `final` flags; the queue is `none` when the last part has been answered. -/
structure RequestState (T D : Type) where
  requestId : RequestId
  requestIndex : Nat
  detokenizer : Detokenizer T D
  sentTokensOffset : Nat
  streamingInput : Bool
  inputChunkQueue : Option (List Bool)

variable {T L D : Type}

/-- The last entries, `entries[-n:]`. For `n = 0` these are all entries. -/
def lastEntries (entries : List L) (n : Nat) : List L :=
  if n = 0 then entries else entries.drop (entries.length - n)

namespace RequestState

/-- `from_new_request`. -/
def new (params : OutputParams) (decoder : D) (requestId : RequestId) (requestIndex : Nat) :
    RequestState T D where
  requestId
  requestIndex
  detokenizer := { decoder }
  sentTokensOffset := 0
  streamingInput := params.resumable
  inputChunkQueue := if params.resumable then some [] else none

def newCompletionOutput (params : OutputParams) (heap : LogprobsHeap L) (state : RequestState T D)
    (tokenIds : List T) (finishReason : Option FinishReason) (stopReason : Option (StopReason T)) :
    RequestState T D × CompletionOutput T L :=
  let finished := finishReason.isSome
  let delta := decide (params.outputKind = .delta)
  let (detokenizer, text) :=
    state.detokenizer.getNextOutputText params.toDetokenizeParams finished delta
  let tokenIds := if delta then tokenIds else detokenizer.tokenIds
  let logprobs :=
    match heap state.requestIndex with
    | none => none
    | some [] => some .processor
    | some (entry :: rest) =>
      if delta then some (.copy (lastEntries (entry :: rest) tokenIds.length))
      else some .processor
  ({ state with detokenizer },
    { index := state.requestIndex
      text
      tokenIds
      logprobs
      finishReason
      stopReason := if finished then stopReason else none })

/-- Whether an output is due: at the end, for the first token, and after every
`stream_interval` tokens. -/
def isDue (params : OutputParams) (state : RequestState T D) (finished : Bool) : Bool :=
  finished || (state.sentTokensOffset == 0) ||
    decide (params.streamInterval ≤ state.detokenizer.numOutputTokens - state.sentTokensOffset)

/-- The tokens that an output holds: in `DELTA` mode with an interval, all that have not
been sent. -/
def cut (params : OutputParams) (state : RequestState T D) (newTokenIds : List T) :
    RequestState T D × List T :=
  if 1 < params.streamInterval ∧ params.outputKind = .delta then
    ({ state with sentTokensOffset := state.detokenizer.numOutputTokens },
      state.detokenizer.tokenIds.drop state.sentTokensOffset)
  else (state, newTokenIds)

def makeRequestOutput (params : OutputParams) (heap : LogprobsHeap L)
    (parent : Option (ParentRequest T L)) (state : RequestState T D) (newTokenIds : List T)
    (finishReason : Option FinishReason) (stopReason : Option (StopReason T)) :
    RequestState T D × Option (ParentRequest T L) × Option (RequestOutput T L) :=
  let finished := finishReason.isSome
  if !finished && decide (params.outputKind = .finalOnly) then (state, parent, none)
  else if decide (1 < params.streamInterval) && !state.isDue params finished then
    (state, parent, none)
  else
    let (state, newTokenIds) := state.cut params newTokenIds
    let (state, output) :=
      state.newCompletionOutput params heap newTokenIds finishReason stopReason
    match parent with
    | none => (state, none, some ⟨[some output], finished⟩)
    | some parent =>
      let (parent, outputs, finished) := parent.getOutputs state.requestId output
      if outputs.isEmpty then (state, some parent, none)
      else (state, some parent, some ⟨outputs, finished⟩)

/-- `LogprobsProcessor.update_from_output`. -/
def updateLogprobs (heap : LogprobsHeap L) (index : Nat) (newLogprobs : Option (List L)) :
    Except OutputError (LogprobsHeap L) :=
  match newLogprobs, heap index with
  | none, _ => .ok heap
  | some _, none => .error .assertion
  | some new, some entries => .ok (Function.update heap index (some (entries ++ new)))

section Process

variable (decodeNext : List T → D → T → List Char × D)

/-- What one engine output leads to. -/
structure Processed (T L D : Type) where
  state : RequestState T D
  heap : LogprobsHeap L
  parent : Option (ParentRequest T L)
  output : Option (RequestOutput T L)
  finishReason : Option FinishReason

/-- The reasons after detokenization: a stop string overrides those of the engine. -/
def finishReasons (stopString : Option (List Char)) (output : EngineCoreOutput T L) :
    Option FinishReason × Option (StopReason T) :=
  match stopString with
  | some stopString => (some .stop, some (.string stopString))
  | none => (output.finishReason, output.stopReason)

/-- Step 2 of `process_outputs`: the detokenizer and the stop string it found. -/
def detokenized (params : OutputParams) (state : RequestState T D)
    (output : EngineCoreOutput T L) : Detokenizer T D × Option (List Char) :=
  state.detokenizer.update decodeNext params.toDetokenizeParams output.newTokenIds
    (output.finishReason == some .stop)

/-- The loop body of `process_outputs`: detokenize, log probabilities, request output. -/
def processOutput (params : OutputParams) (heap : LogprobsHeap L)
    (parent : Option (ParentRequest T L)) (state : RequestState T D)
    (output : EngineCoreOutput T L) : Except OutputError (Processed T L D) := do
  let (detokenizer, stopString) := state.detokenized decodeNext params output
  let (finishReason, stopReason) := finishReasons stopString output
  let heap ← updateLogprobs heap state.requestIndex output.newLogprobs
  let (state, parent, made) := { state with detokenizer }.makeRequestOutput params heap parent
    output.newTokenIds finishReason stopReason
  return {
    state, heap, parent, finishReason
    output := made.map fun out =>
      { out with finished := if state.streamingInput then false else out.finished } }

variable {params : OutputParams} {heap : LogprobsHeap L} {state : RequestState T D}
  {output : EngineCoreOutput T L}

/-- What `process_outputs` does once the log probabilities are taken in. -/
theorem processOutput_of_updateLogprobs {heap' : LogprobsHeap L}
    (parent : Option (ParentRequest T L))
    (updated : updateLogprobs heap state.requestIndex output.newLogprobs = .ok heap') :
    let found := state.detokenized decodeNext params output
    let reasons := finishReasons found.2 output
    let made := { state with detokenizer := found.1 }.makeRequestOutput params heap' parent
      output.newTokenIds reasons.1 reasons.2
    state.processOutput decodeNext params heap parent output =
      .ok ⟨made.1, heap', made.2.1, made.2.2.map fun out =>
        { out with finished := if made.1.streamingInput then false else out.finished },
        reasons.1⟩ := by
  unfold processOutput
  rw [updated]
  rfl

/-- What `process_outputs` has done when it has not raised. -/
theorem processOutput_ok {parent : Option (ParentRequest T L)} {p : Processed T L D}
    (run : state.processOutput decodeNext params heap parent output = .ok p) :
    let found := state.detokenized decodeNext params output
    let reasons := finishReasons found.2 output
    let made := { state with detokenizer := found.1 }.makeRequestOutput params p.heap parent
      output.newTokenIds reasons.1 reasons.2
    updateLogprobs heap state.requestIndex output.newLogprobs = .ok p.heap ∧
      p.state = made.1 ∧ p.parent = made.2.1 ∧ p.finishReason = reasons.1 ∧
      p.output = made.2.2.map fun out =>
        { out with finished := if made.1.streamingInput then false else out.finished } := by
  obtain ⟨heap', updated, run⟩ := bind_eq_ok.mp run
  have eq := Except.ok.inj run
  subst eq
  exact ⟨updated, rfl, rfl, rfl, rfl⟩

end Process

end RequestState

end Vllm.Engine
