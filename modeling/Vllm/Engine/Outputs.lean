import Mathlib

/-!
Completions, request outputs and the queue between `OutputProcessor` and `generate()`
(`vllm/outputs.py`, `RequestOutputCollector` in `vllm/v1/engine/output_processor.py`,
`vllm/v1/engine/parallel_sampling.py`).

A completion's log probabilities may be the very list that the `LogprobsProcessor` of
its request goes on extending. `LogprobsRef` keeps that apart from a copy, and the
lists themselves are in a `LogprobsHeap`, one for each request index.
-/

namespace Vllm.Engine

inductive RequestOutputKind where
  | cumulative
  | delta
  | finalOnly
  deriving DecidableEq, Repr

inductive FinishReason where
  | stop
  | length
  | abort
  | error
  | repetition
  deriving DecidableEq, Repr

inductive StopReason (T : Type) where
  | token (id : T)
  | string (stopString : List Char)
  deriving DecidableEq, Repr

/-- The lists of the `LogprobsProcessor`s, by request index; `none` where log
probabilities were not requested. -/
abbrev LogprobsHeap (L : Type) := Nat → Option (List L)

/-- The list of log probabilities that a completion holds. -/
inductive LogprobsRef (L : Type) where
  /-- The list of the request's own `LogprobsProcessor`. -/
  | processor
  | copy (entries : List L)
  deriving DecidableEq, Repr

structure CompletionOutput (T L : Type) where
  index : Nat
  text : List Char
  tokenIds : List T
  logprobs : Option (LogprobsRef L)
  finishReason : Option FinishReason
  stopReason : Option (StopReason T)
  deriving DecidableEq, Repr

inductive OutputError where
  | assertion
  /-- An attribute of a completion that is `None`. -/
  | noneCompletion
  deriving DecidableEq, Repr

variable {T L : Type}

def CompletionOutput.finished (completion : CompletionOutput T L) : Bool :=
  completion.finishReason.isSome

def CompletionOutput.entries (heap : LogprobsHeap L) (completion : CompletionOutput T L) : List L :=
  match completion.logprobs with
  | none => []
  | some .processor => (heap completion.index).getD []
  | some (.copy entries) => entries

/-- `RequestOutput`. A completion is `None` if it is missing in what a parent request
has collected. -/
structure RequestOutput (T L : Type) where
  outputs : List (Option (CompletionOutput T L))
  finished : Bool
  deriving DecidableEq, Repr

def streamFinished : RequestOutput T L := ⟨[], true⟩

/-! ### Merging -/

section Merge

/-- `completion.logprobs.extend(next_completion.logprobs)`. Where the list is the one of
the processor, the processor's list is extended. -/
def extendLogprobs (heap : LogprobsHeap L) (completion next : CompletionOutput T L) :
    Except OutputError (LogprobsHeap L × Option (LogprobsRef L)) :=
  match next.entries heap with
  | [] => .ok (heap, completion.logprobs)
  | entry :: rest =>
    match completion.logprobs with
    | none => .error .assertion
    | some .processor =>
      .ok (Function.update heap completion.index
        ((heap completion.index).map (· ++ entry :: rest)), some .processor)
    | some (.copy entries) => .ok (heap, some (.copy (entries ++ entry :: rest)))

def mergeCompletion (heap : LogprobsHeap L) (completion next : CompletionOutput T L) :
    Except OutputError (LogprobsHeap L × CompletionOutput T L) := do
  let (heap, logprobs) ← extendLogprobs heap completion next
  return (heap,
    { completion with
      text := completion.text ++ next.text
      tokenIds := completion.tokenIds ++ next.tokenIds
      logprobs
      finishReason := next.finishReason
      stopReason := next.stopReason })

/-- The inner loop of `RequestOutput.add`: merged with or put in place of the completion
of the same index, or appended. -/
def addCompletion (aggregate : Bool) (heap : LogprobsHeap L)
    (next : Option (CompletionOutput T L)) : List (Option (CompletionOutput T L)) →
    Except OutputError (LogprobsHeap L × List (Option (CompletionOutput T L)))
  | [] => .ok (heap, [next])
  | none :: _ => .error .noneCompletion
  | some completion :: rest =>
    match next with
    | none => .error .noneCompletion
    | some nextCompletion =>
      if completion.index = nextCompletion.index then
        if aggregate then do
          let (heap, merged) ← mergeCompletion heap completion nextCompletion
          return (heap, some merged :: rest)
        else .ok (heap, some nextCompletion :: rest)
      else do
        let (heap, rest) ← addCompletion aggregate heap next rest
        return (heap, some completion :: rest)

/-- `RequestOutput.add`. -/
def RequestOutput.add (aggregate : Bool) (heap : LogprobsHeap L)
    (output next : RequestOutput T L) :
    Except OutputError (LogprobsHeap L × RequestOutput T L) := do
  let (heap, outputs) ← next.outputs.foldlM
    (fun acc completion => addCompletion aggregate acc.1 completion acc.2) (heap, output.outputs)
  return (heap, ⟨outputs, output.finished || next.finished⟩)

end Merge

/-! ### The queue -/

structure RequestOutputCollector (T L : Type) where
  aggregate : Bool
  output : Option (RequestOutput T L)
  deriving DecidableEq, Repr

namespace RequestOutputCollector

/-- An empty queue. -/
def new (outputKind : RequestOutputKind) : RequestOutputCollector T L :=
  ⟨outputKind = .delta, none⟩

def put (heap : LogprobsHeap L) (queue : RequestOutputCollector T L)
    (output : RequestOutput T L) :
    Except OutputError (LogprobsHeap L × RequestOutputCollector T L) :=
  match queue.output with
  | none => .ok (heap, { queue with output := some output })
  | some waiting => do
    let (heap, merged) ← waiting.add queue.aggregate heap output
    return (heap, { queue with output := some merged })

/-- `get_nowait`, and `get` once an output is there. -/
def get (queue : RequestOutputCollector T L) :
    RequestOutputCollector T L × Option (RequestOutput T L) :=
  ({ queue with output := none }, queue.output)

end RequestOutputCollector

/-! ### Parallel sampling -/

/-- The id of a child request, `f"{index}_{request_id}"`: the digits end at the first
underscore, so children with different indices have different ids. -/
structure RequestId where
  index : Option Nat
  requestId : Nat
  deriving DecidableEq, Repr

structure ParentRequest (T L : Type) where
  requestId : Nat
  n : Nat
  outputKind : RequestOutputKind
  childRequests : Finset RequestId
  outputAggregator : List (Option (CompletionOutput T L))

namespace ParentRequest

/-- `ParentRequest(request)`. -/
def new (requestId n : Nat) (outputKind : RequestOutputKind) : ParentRequest T L where
  requestId
  n
  outputKind
  childRequests := ∅
  outputAggregator := if outputKind = .finalOnly then List.replicate n none else []

/-- `get_child_info`, without the sampling parameters of the child. -/
def getChildInfo (parent : ParentRequest T L) (index : Nat) : ParentRequest T L × RequestId :=
  let childReqId : RequestId := ⟨some index, parent.requestId⟩
  ({ parent with childRequests := insert childReqId parent.childRequests }, childReqId)

def getOutputs (parent : ParentRequest T L) (childRequestId : RequestId)
    (completion : CompletionOutput T L) :
    ParentRequest T L × List (Option (CompletionOutput T L)) × Bool :=
  let alreadyFinishedAndReturned :=
    completion.finished && decide (childRequestId ∉ parent.childRequests)
  let parent :=
    if completion.finished then
      { parent with childRequests := parent.childRequests.erase childRequestId }
    else parent
  let finished := decide (parent.childRequests = ∅)
  if parent.outputKind ≠ .finalOnly then
    (parent, if alreadyFinishedAndReturned then [] else [some completion], finished)
  else
    let parent :=
      { parent with
        outputAggregator := parent.outputAggregator.set completion.index (some completion) }
    (parent, if finished then parent.outputAggregator else [], finished)

end ParentRequest

end Vllm.Engine
