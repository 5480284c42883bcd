import Vllm.Engine.OutputProcessor
import Vllm.Lib.Steps

/-!
Parallel sampling: `AsyncLLM.add_request` with `n > 1`
(`vllm/v1/engine/async_llm.py`, `vllm/v1/engine/parallel_sampling.py`).

The children are registered one after the other, and outputs of those registered so far
may arrive in between. The parent is taken to be finished when no registered child is
left: too early, if a child finishes before the next one is registered
(`firstChildEarly_not_reported`), and once after all its children, exactly if no child
finishes as the last of those registered so far while some are to come (`reported_iff`).
-/

namespace Vllm.Engine

open Vllm.Lib.Fallible Vllm.Lib.Steps ParentRequest List
open Function (update update_self update_of_ne)

/-- A parent request and its children: the first `registered` children are known, and
those with a state are unfinished. `outputs` is what was put into the queue. -/
structure FanOut (T L D : Type) where
  parent : ParentRequest T L
  registered : Nat
  states : Nat → Option (RequestState T D)
  heap : LogprobsHeap L
  outputs : List (RequestOutput T L)

open FanOut

variable {T L D : Type}

namespace FanOut

/-- What happens at the await points of `add_request`. -/
inductive Event (T L : Type) where
  /-- The loop goes on to the next child. -/
  | register
  /-- An output of a child is processed. -/
  | output (index : Nat) (output : EngineCoreOutput T L)

section Exec

variable (decodeNext : List T → D → T → List Char × D) (params : OutputParams) (decoder : D)

def start (requestId n : Nat) : FanOut T L D where
  parent := .new requestId n params.outputKind
  registered := 0
  states := fun _ => none
  heap := fun _ => none
  outputs := []

/-- A child's parameters: input in several parts is refused for `n > 1`. -/
def childParams : OutputParams := { params with resumable := false }

/-- One round of the loop over the children, up to its await. -/
def register (f : FanOut T L D) : FanOut T L D :=
  if f.registered < f.parent.n then
    let index := f.registered
    let (parent, childReqId) := f.parent.getChildInfo index
    { f with
      parent
      registered := index + 1
      states := update f.states index (some (.new (childParams params) decoder childReqId index))
      heap := update f.heap index (if params.logprobs then some [] else none) }
  else f

/-- `process_outputs` for an output of a child. A finished child has no state any more,
and its outputs are ignored. -/
def process (f : FanOut T L D) (index : Nat) (output : EngineCoreOutput T L) :
    Except OutputError (FanOut T L D) :=
  match f.states index with
  | none => .ok f
  | some state => do
    let p ← state.processOutput decodeNext (childParams params) f.heap (some f.parent) output
    return { f with
      parent := p.parent.getD f.parent
      states := update f.states index (if p.finishReason.isSome then none else some p.state)
      heap := p.heap
      outputs := f.outputs ++ p.output.toList }

def exec (f : FanOut T L D) : Event T L → Except OutputError (FanOut T L D)
  | .register => .ok (f.register params decoder)
  | .output index output => f.process decodeNext params index output

def AllFinished (f : FanOut T L D) : Prop :=
  f.registered = f.parent.n ∧ ∀ i, f.states i = none

/-- The completions in index order, none of them missing. -/
def Complete (n : Nat) (output : RequestOutput T L) : Prop :=
  output.outputs.length = n ∧ ∀ i < n, ∃ completion,
    output.outputs[i]? = some (some completion) ∧ completion.index = i ∧ completion.finished = true

/-- The parent has been reported finished once if all children have finished, and not
at all before. -/
structure Reported (f : FanOut T L D) : Prop where
  notBefore : ¬ AllFinished f → ∀ output ∈ f.outputs, output.finished = false
  once : AllFinished f → (f.outputs.filter (·.finished)).length = 1
  complete : params.outputKind = .finalOnly →
    ∀ output ∈ f.outputs, output.finished = true → Complete f.parent.n output

/-- Whether an output ends the request, by the engine or by a stop string. -/
def finishes (state : RequestState T D) (output : EngineCoreOutput T L) : Bool :=
  (RequestState.finishReasons (state.detokenized decodeNext (childParams params) output).2
    output).1.isSome

/-- A child that finishes before all are registered leaves an unfinished one behind. -/
def LeavesSibling (f : FanOut T L D) : Event T L → Prop
  | .register => True
  | .output index output => ∀ state, f.states index = some state →
      finishes decodeNext params state output = true →
      f.registered = f.parent.n ∨ ∃ j, j ≠ index ∧ (f.states j).isSome = true

end Exec

end FanOut

/-! ### Outputs of a child -/

namespace RequestState

variable {params : OutputParams} {heap : LogprobsHeap L} {parent : ParentRequest T L}

/-- The parts of a state that do not change. -/
structure SameRequest (s s' : RequestState T D) : Prop where
  requestId : s'.requestId = s.requestId
  requestIndex : s'.requestIndex = s.requestIndex
  streamingInput : s'.streamingInput = s.streamingInput

theorem cut_same (params : OutputParams) (state : RequestState T D) (newTokenIds : List T) :
    SameRequest state (state.cut params newTokenIds).1 := by
  unfold cut
  split
  · exact ⟨rfl, rfl, rfl⟩
  · exact ⟨rfl, rfl, rfl⟩

/-- What a parent passes on of its child's completion. -/
def passedOn (g : ParentRequest T L × List (Option (CompletionOutput T L)) × Bool) :
    Option (RequestOutput T L) :=
  if g.2.1.isEmpty then none else some ⟨g.2.1, g.2.2⟩

/-- The last output of a child goes through its parent. -/
theorem makeRequestOutput_finished (state : RequestState T D) (newTokenIds : List T)
    {finishReason : Option FinishReason} (stopReason : Option (StopReason T))
    (finished : finishReason.isSome = true) :
    ∃ (state' : RequestState T D) (completion : CompletionOutput T L),
      SameRequest state state' ∧ completion.index = state.requestIndex ∧
      completion.finished = true ∧
      state.makeRequestOutput params heap (some parent) newTokenIds finishReason stopReason =
        (state', some (parent.getOutputs state.requestId completion).1,
          passedOn (parent.getOutputs state.requestId completion)) := by
  have same := cut_same params state newTokenIds
  let made := (state.cut params newTokenIds).1.newCompletionOutput params heap
    (state.cut params newTokenIds).2 finishReason stopReason
  refine ⟨made.1, made.2, ⟨same.1, same.2, same.3⟩, same.2, finished, ?_⟩
  unfold makeRequestOutput
  simp only [finished, Bool.not_true, Bool.false_and, Bool.false_eq_true, if_false, isDue,
    Bool.true_or, Bool.and_false]
  rw [← same.1]
  unfold passedOn
  split
  · rename_i empty
    rw [if_pos (by exact empty)]
    rfl
  · rename_i nonempty
    rw [if_neg (by exact nonempty)]
    rfl

/-- An earlier output of a child leaves the parent as it is. -/
theorem makeRequestOutput_running (kind : parent.outputKind = params.outputKind)
    (state : RequestState T D) (newTokenIds : List T) (stopReason : Option (StopReason T)) :
    ∃ (state' : RequestState T D) (output : Option (RequestOutput T L)),
      state.makeRequestOutput params heap (some parent) newTokenIds none stopReason =
        (state', some parent, output) ∧ SameRequest state state' ∧
      ∀ made ∈ output, made.finished = decide (parent.childRequests = ∅) := by
  unfold makeRequestOutput
  by_cases final : params.outputKind = .finalOnly
  · exact ⟨state, none, by simp [final], ⟨rfl, rfl, rfl⟩, nofun⟩
  · simp only [Option.isSome_none, Bool.not_false, Bool.true_and, final, decide_false,
      Bool.false_eq_true, if_false]
    split
    · exact ⟨state, none, rfl, ⟨rfl, rfl, rfl⟩, nofun⟩
    · have same := cut_same params state newTokenIds
      let made := (state.cut params newTokenIds).1.newCompletionOutput params heap
        (state.cut params newTokenIds).2 none stopReason
      refine ⟨made.1, some ⟨[some made.2], decide (parent.childRequests = ∅)⟩, ?_,
        ⟨same.1, same.2, same.3⟩, by rintro _ ⟨⟩; rfl⟩
      have running : made.2.finished = false := rfl
      have outputs : parent.getOutputs made.1.requestId made.2 =
          (parent, [some made.2], decide (parent.childRequests = ∅)) := by
        simp [getOutputs, running, kind, final]
      simp only [outputs, made, isEmpty_cons, Bool.false_eq_true, if_false]

section Processed

variable {decodeNext : List T → D → T → List Char × D} {state : RequestState T D}
  {output : EngineCoreOutput T L} {p : Processed T L D}

theorem processOutput_finished
    (run : state.processOutput decodeNext (childParams params) heap (some parent) output =
      .ok p)
    (whole : state.streamingInput = false)
    (finished : finishes decodeNext params state output = true) :
    p.finishReason.isSome = true ∧ ∃ completion : CompletionOutput T L,
      completion.index = state.requestIndex ∧ completion.finished = true ∧
      p.parent = some (parent.getOutputs state.requestId completion).1 ∧
      p.output = passedOn (parent.getOutputs state.requestId completion) := by
  obtain ⟨-, -, parentEq, reason, outputEq⟩ := processOutput_ok decodeNext run
  obtain ⟨state', completion, same, index, done, made⟩ := makeRequestOutput_finished
    { state with detokenizer := (state.detokenized decodeNext (childParams params) output).1 }
    output.newTokenIds _ finished
  rw [made] at parentEq outputEq
  refine ⟨by rw [reason]; exact finished, completion, index, done, parentEq, ?_⟩
  have streaming : state'.streamingInput = false := same.streamingInput.trans whole
  simpa [streaming] using outputEq

theorem processOutput_running (kind : parent.outputKind = params.outputKind)
    (run : state.processOutput decodeNext (childParams params) heap (some parent) output =
      .ok p)
    (whole : state.streamingInput = false)
    (running : finishes decodeNext params state output = false) :
    p.finishReason.isSome = false ∧ SameRequest state p.state ∧ p.parent = some parent ∧
      ∀ made ∈ p.output, made.finished = decide (parent.childRequests = ∅) := by
  obtain ⟨-, stateEq, parentEq, reason, outputEq⟩ := processOutput_ok decodeNext run
  have none : (finishReasons (state.detokenized decodeNext (childParams params) output).2
      output).1 = none := by simpa [finishes] using running
  rw [none] at stateEq parentEq outputEq
  have kind' : parent.outputKind = (childParams params).outputKind := kind
  obtain ⟨state', out, made, same, unfinished⟩ := makeRequestOutput_running kind'
    { state with detokenizer := (state.detokenized decodeNext (childParams params) output).1 }
    output.newTokenIds _
  have streaming : state'.streamingInput = false := same.streamingInput.trans whole
  rw [made] at stateEq parentEq outputEq
  refine ⟨by rw [reason]; exact running, by rw [stateEq]; exact ⟨same.1, same.2, same.3⟩,
    parentEq, ?_⟩
  simpa [outputEq, streaming] using unfinished

end Processed

end RequestState

/-! ### The invariant -/

/-- The parent after a child's last completion: the child is gone, and where the
completions are collected, its completion is stored. -/
def ParentRequest.without (parent : ParentRequest T L) (id : RequestId)
    (completion : CompletionOutput T L) : ParentRequest T L :=
  { parent with
    childRequests := parent.childRequests.erase id
    outputAggregator :=
      if parent.outputKind = .finalOnly then
        parent.outputAggregator.set completion.index (some completion)
      else parent.outputAggregator }

theorem ParentRequest.getOutputs_finished (parent : ParentRequest T L) {id : RequestId}
    (mem : id ∈ parent.childRequests) {completion : CompletionOutput T L}
    (finished : completion.finished = true) :
    let last := parent.without id completion
    let done := decide (last.childRequests = ∅)
    parent.getOutputs id completion =
      (last,
        if parent.outputKind = .finalOnly then (if done then last.outputAggregator else [])
        else [some completion],
        done) := by
  by_cases final : parent.outputKind = .finalOnly
  · simp [getOutputs, without, finished, final]
  · simp [getOutputs, without, finished, final, mem]

namespace FanOut

section Inv

variable {decodeNext : List T → D → T → List Char × D} {params : OutputParams} {decoder : D}
  {f f' : FanOut T L D}

/-- The ids of the children that have a state. -/
def Children (requestId : Nat) (states : Nat → Option (RequestState T D))
    (childRequests : Finset RequestId) : Prop :=
  ∀ id, id ∈ childRequests ↔ ∃ i, id = ⟨some i, requestId⟩ ∧ (states i).isSome = true

/-- What holds as long as the parent has not been reported too early. -/
structure Inv (params : OutputParams) (f : FanOut T L D) : Prop where
  two : 2 ≤ f.parent.n
  kind : f.parent.outputKind = params.outputKind
  registered_le : f.registered ≤ f.parent.n
  live_lt : ∀ i, (f.states i).isSome = true → i < f.registered
  state : ∀ i state, f.states i = some state →
    state.requestId = ⟨some i, f.parent.requestId⟩ ∧ state.requestIndex = i ∧
      state.streamingInput = false
  children : Children f.parent.requestId f.states f.parent.childRequests
  underWay : f.registered < f.parent.n → f.registered = 0 ∨ ∃ i, (f.states i).isSome = true
  collected : params.outputKind = .finalOnly → f.parent.outputAggregator.length = f.parent.n ∧
    ∀ i < f.registered, f.states i = none → ∃ completion,
      f.parent.outputAggregator[i]? = some (some completion) ∧ completion.index = i ∧
        completion.finished = true
  reported : Reported params f

theorem not_allFinished {i : Nat} {state : RequestState T D} (found : f.states i = some state) :
    ¬ AllFinished f := fun all => by
  rw [all.2 i] at found
  cases found

theorem Reported.of_unfinished (more : ¬ AllFinished f)
    (unfinished : ∀ output ∈ f.outputs, output.finished = false) : Reported params f where
  notBefore := fun _ => unfinished
  once := fun all => absurd all more
  complete := fun _ output mem finished => by cases (unfinished output mem).symm.trans finished

theorem inv_start (id : Nat) {n : Nat} (two : 2 ≤ n) :
    Inv params (start params id n : FanOut T L D) where
  two := two
  kind := rfl
  registered_le := Nat.zero_le n
  live_lt := by simp [start]
  state := by simp [start]
  children := by simp [start, new, Children]
  underWay := fun _ => .inl rfl
  collected := fun final => ⟨by simp [start, new, final], by simp [start]⟩
  reported := by
    refine .of_unfinished (fun all => ?_) (by simp [start])
    have := all.1
    simp only [start, new] at this
    omega

variable {id : Nat} {states : Nat → Option (RequestState T D)}
  {childRequests : Finset RequestId}

theorem Children.eq_empty_iff (children : Children id states childRequests) :
    childRequests = ∅ ↔ ∀ i, states i = none := by
  rw [Finset.eq_empty_iff_forall_notMem]
  constructor
  · intro none i
    by_contra live
    exact none _ ((children _).mpr ⟨i, rfl, Option.isSome_iff_ne_none.mpr live⟩)
  · intro none id mem
    obtain ⟨i, -, live⟩ := (children id).mp mem
    simp [none i] at live

theorem Children.erase {index : Nat} (children : Children id states childRequests) :
    Children id (update states index none)
      (childRequests.erase ⟨some index, id⟩) := by
  intro id
  rw [Finset.mem_erase, children id]
  constructor
  · rintro ⟨ne, i, rfl, live⟩
    have other : i ≠ index := fun same => ne (same ▸ rfl)
    exact ⟨i, rfl, by rw [update_of_ne other]; exact live⟩
  · rintro ⟨i, rfl, live⟩
    rcases eq_or_ne i index with rfl | same
    · rw [update_self] at live
      cases live
    · rw [update_of_ne same] at live
      exact ⟨fun eq => same (by simpa using eq), i, rfl, live⟩

variable (inv : Inv params f)
include inv

theorem Inv.register : Inv params (f.register params decoder) := by
  unfold FanOut.register
  split
  swap
  · exact inv
  rename_i more
  have unfinished := inv.reported.notBefore fun all => Nat.ne_of_lt more all.1
  set child := RequestState.new (childParams params) decoder
    ⟨some f.registered, f.parent.requestId⟩ f.registered
  have other : ∀ {i}, i ≠ f.registered → update f.states f.registered (some child) i = f.states i :=
    fun ne => update_of_ne ne _ _
  have new : update f.states f.registered (some child) f.registered = some child :=
    update_self _ _ _
  constructor
  case two => exact inv.two
  case kind => exact inv.kind
  case registered_le => exact more
  case live_lt =>
    intro i live
    by_cases same : i = f.registered
    · exact same ▸ Nat.lt_succ_self _
    · exact Nat.lt_succ_of_lt (inv.live_lt i (other same ▸ live))
  case state =>
    intro i state found
    rcases eq_or_ne i f.registered with rfl | same
    · cases new.symm.trans found
      exact ⟨rfl, rfl, rfl⟩
    · exact inv.state i state ((other same).symm.trans found)
  case children =>
    intro id
    simp only [getChildInfo, Finset.mem_insert, inv.children id]
    constructor
    · rintro (rfl | ⟨i, rfl, live⟩)
      · exact ⟨f.registered, rfl, by rw [new]; rfl⟩
      · exact ⟨i, rfl, by rw [other (ne_of_lt (inv.live_lt i live))]; exact live⟩
    · rintro ⟨i, rfl, live⟩
      by_cases same : i = f.registered
      · exact .inl (same ▸ rfl)
      · exact .inr ⟨i, rfl, other same ▸ live⟩
  case underWay => exact fun _ => .inr ⟨f.registered, congrArg Option.isSome new⟩
  case collected =>
    intro final
    refine ⟨(inv.collected final).1, fun i lt none => ?_⟩
    have ne : i ≠ f.registered := by
      rintro rfl
      cases new.symm.trans none
    have lt' : i < f.registered := lt_of_le_of_ne (Nat.le_of_lt_succ lt) ne
    exact (inv.collected final).2 i lt' ((other ne).symm.trans none)
  case reported => exact .of_unfinished (not_allFinished new) unfinished

section Process

variable {index : Nat} {state : RequestState T D} {output : EngineCoreOutput T L}

section

variable (found : f.states index = some state)
include found

/-- An output that does not end its child. -/
theorem Inv.process_running (running : finishes decodeNext params state output = false)
    (run : f.process decodeNext params index output = .ok f') : Inv params f' := by
  obtain ⟨requestId, requestIndex, whole⟩ := inv.state index state found
  unfold process at run
  rw [found] at run
  obtain ⟨p, processed, run⟩ := bind_eq_ok.mp run
  obtain ⟨reason, same, parentEq, made⟩ :=
    RequestState.processOutput_running inv.kind processed whole running
  have eq := Except.ok.inj run
  rw [parentEq, reason, if_neg Bool.false_ne_true] at eq
  have live : (f.states index).isSome = true := by rw [found]; rfl
  have nonempty : f.parent.childRequests ≠ ∅ := fun empty => by
    rw [inv.children.eq_empty_iff.mp empty index] at live
    cases live
  have unfinished : ∀ out ∈ f.outputs ++ p.output.toList, out.finished = false := by
    intro out mem
    rcases mem_append.mp mem with old | new
    · exact inv.reported.notBefore (not_allFinished found) out old
    · rw [made out (Option.mem_toList.mp new)]
      exact decide_eq_false nonempty
  have isSome : ∀ i, (update f.states index (some p.state) i).isSome = (f.states i).isSome := by
    intro i
    by_cases eq : i = index
    · rw [eq, update_self, live]
      rfl
    · rw [update_of_ne eq]
  subst eq
  constructor
  case two => exact inv.two
  case kind => exact inv.kind
  case registered_le => exact inv.registered_le
  case live_lt => exact fun i live => inv.live_lt i (isSome i ▸ live)
  case state =>
    intro i state' found'
    rcases eq_or_ne i index with rfl | eq
    · cases (update_self _ _ _).symm.trans found'
      exact ⟨same.requestId.trans requestId, same.requestIndex.trans requestIndex,
        same.streamingInput.trans whole⟩
    · exact inv.state i state' ((update_of_ne eq _ _).symm.trans found')
  case children =>
    intro id
    simp only [isSome]
    exact inv.children id
  case underWay =>
    intro more
    simp only [isSome]
    exact inv.underWay more
  case collected =>
    intro final
    refine ⟨(inv.collected final).1, fun i lt none => (inv.collected final).2 i lt ?_⟩
    have := isSome i
    rw [show update f.states index (some p.state) i = Option.none from none] at this
    simpa using this.symm
  case reported => exact .of_unfinished (not_allFinished (update_self _ _ _)) unfinished

/-- The state after the last output of a child. -/
structure ChildFinished (f f' : FanOut T L D) (child : Nat) (completion : CompletionOutput T L) :
    Prop where
  index : completion.index = child
  finished : completion.finished = true
  parent : f'.parent = f.parent.without ⟨some child, f.parent.requestId⟩ completion
  registered : f'.registered = f.registered
  states : f'.states = update f.states child none
  /-- The parent is reported finished if no registered child is left. -/
  last : (∀ i, f'.states i = none) → f'.outputs = f.outputs ++
    [⟨if f.parent.outputKind = .finalOnly then f'.parent.outputAggregator
      else [some completion], true⟩]
  notLast : (¬ ∀ i, f'.states i = none) →
    ∃ made, f'.outputs = f.outputs ++ made ∧ ∀ out ∈ made, out.finished = false

theorem Inv.childFinished (finished : finishes decodeNext params state output = true)
    (run : f.process decodeNext params index output = .ok f') :
    ∃ completion, ChildFinished f f' index completion := by
  obtain ⟨requestId, requestIndex, whole⟩ := inv.state index state found
  unfold process at run
  rw [found] at run
  obtain ⟨p, processed, run⟩ := bind_eq_ok.mp run
  obtain ⟨reason, completion, indexEq, done, parentEq, outputEq⟩ :=
    RequestState.processOutput_finished processed whole finished
  have live : (f.states index).isSome = true := by rw [found]; rfl
  have mem : state.requestId ∈ f.parent.childRequests :=
    (inv.children _).mpr ⟨index, requestId, live⟩
  have outputs := f.parent.getOutputs_finished mem done
  rw [requestId] at outputs parentEq outputEq
  rw [outputs] at parentEq outputEq
  have eq := Except.ok.inj run
  rw [parentEq, reason] at eq
  subst eq
  have empty : (f.parent.without ⟨some index, f.parent.requestId⟩ completion).childRequests = ∅ ↔
      ∀ i, update f.states index none i = none := inv.children.erase.eq_empty_iff
  refine ⟨completion, indexEq.trans requestIndex, done, rfl, rfl, rfl, fun all => ?_,
    fun some => ⟨_, rfl, ?_⟩⟩
  · rw [outputEq, RequestState.passedOn]
    simp only [decide_eq_true (empty.mpr all)]
    have ne : ∀ l : List (Option (CompletionOutput T L)), l.length = f.parent.n →
        l.isEmpty = false := by
      intro l length
      have := inv.two
      cases l with
      | nil => simp at length; omega
      | cons => rfl
    by_cases final : f.parent.outputKind = .finalOnly
    · have length := (inv.collected (inv.kind ▸ final)).1
      rw [ne _ (by simp [without, final, length])]
      rfl
    · simp only [final]
      rfl
  · rw [outputEq]
    simp only [decide_eq_false (fun none => some (empty.mp none))]
    intro out mem
    split at mem
    · cases mem
    · cases mem_singleton.mp mem
      rfl

variable {completion : CompletionOutput T L}

/-- The last output of a child, when another one is left or all are registered. -/
theorem Inv.process_finished (fin : ChildFinished f f' index completion)
    (sibling : f.registered = f.parent.n ∨ ∃ j, j ≠ index ∧ (f.states j).isSome = true) :
    Inv params f' := by
  have n : f'.parent.n = f.parent.n := by rw [fin.parent]; rfl
  have requestId : f'.parent.requestId = f.parent.requestId := by rw [fin.parent]; rfl
  have kind : f'.parent.outputKind = f.parent.outputKind := by rw [fin.parent]; rfl
  have unfinished := inv.reported.notBefore (not_allFinished found)
  have other : ∀ {i}, i ≠ index → f'.states i = f.states i := by
    intro i ne
    rw [fin.states, update_of_ne ne]
  have gone : f'.states index = none := by rw [fin.states, update_self]
  have ne_of_live : ∀ {i}, (f'.states i).isSome = true → i ≠ index := by
    rintro i live rfl
    rw [gone] at live
    cases live
  have collected : params.outputKind = .finalOnly →
      f'.parent.outputAggregator.length = f'.parent.n ∧
      ∀ i < f'.registered, f'.states i = none → ∃ completion,
        f'.parent.outputAggregator[i]? = some (some completion) ∧ completion.index = i ∧
          completion.finished = true := by
    intro final
    obtain ⟨length, collected⟩ := inv.collected final
    have aggregator : f'.parent.outputAggregator =
        f.parent.outputAggregator.set index (some completion) := by
      rw [fin.parent, without, if_pos (inv.kind.trans final), fin.index]
    refine ⟨by rw [aggregator, length_set, length, n], fun i lt none => ?_⟩
    rw [fin.registered] at lt
    rcases eq_or_ne i index with rfl | same
    · have within : i < f.parent.outputAggregator.length := by
        rw [length]
        exact lt_of_lt_of_le lt inv.registered_le
      exact ⟨completion, by rw [aggregator, getElem?_set_self within], fin.index, fin.finished⟩
    · obtain ⟨old, at_, facts⟩ := collected i lt ((other same).symm.trans none)
      exact ⟨old, by rw [aggregator, getElem?_set_ne (Ne.symm same), at_], facts⟩
  constructor
  case two => exact n ▸ inv.two
  case kind => exact kind.trans inv.kind
  case registered_le => rw [fin.registered, n]; exact inv.registered_le
  case live_lt =>
    intro i live
    rw [fin.registered]
    exact inv.live_lt i (other (ne_of_live live) ▸ live)
  case state =>
    intro i state' found'
    have ne : i ≠ index := ne_of_live (by rw [found']; rfl)
    rw [requestId]
    exact inv.state i state' ((other ne).symm.trans found')
  case children =>
    rw [fin.states, fin.parent]
    exact inv.children.erase
  case underWay =>
    intro more
    rw [fin.registered] at more
    rcases sibling with all | ⟨j, ne, live⟩
    · omega
    · exact .inr ⟨j, by rw [other ne]; exact live⟩
  case collected => exact collected
  case reported =>
    by_cases none : ∀ i, f'.states i = none
    · -- No sibling can be left, so all children are registered.
      have all : f.registered = f.parent.n := by
        rcases sibling with all | ⟨j, ne, live⟩
        · exact all
        · rw [← other ne, none j] at live
          cases live
      have outputs := fin.last none
      refine ⟨fun notAll => ?_, fun _ => ?_, fun final out mem finished => ?_⟩
      · exact absurd ⟨by rw [fin.registered, n, all], none⟩ notAll
      · rw [outputs, filter_append, filter_eq_nil_iff.mpr]
        · rfl
        · intro out mem
          rw [unfinished out mem]
          exact Bool.false_ne_true
      · rw [outputs] at mem
        rcases mem_append.mp mem with old | new
        · cases (unfinished out old).symm.trans finished
        · cases mem_singleton.mp new
          simp only [inv.kind.trans final]
          obtain ⟨length, present⟩ := collected final
          refine ⟨length, fun i lt => present i ?_ (none i)⟩
          rw [fin.registered, all, ← n]
          exact lt
    · obtain ⟨made, outputs, unfinished'⟩ := fin.notLast none
      refine .of_unfinished (fun finished => none finished.2) fun out mem => ?_
      rw [outputs] at mem
      rcases mem_append.mp mem with old | new
      · exact unfinished out old
      · exact unfinished' out new

end

omit inv in
/-- Without a sibling the parent is reported finished before all are registered. -/
theorem ChildFinished.not_reported (fin : ChildFinished f f' index completion)
    (more : f.registered ≠ f.parent.n) (alone : ∀ j, j ≠ index → f.states j = none) :
    ¬ Reported params f' := by
  intro reported
  have none : ∀ i, f'.states i = none := by
    intro i
    rw [fin.states]
    by_cases same : i = index
    · rw [same, update_self]
    · rw [update_of_ne same, alone i same]
  have early : ¬ AllFinished f' := by
    rintro ⟨all, -⟩
    rw [fin.registered, fin.parent] at all
    exact more all
  have := reported.notBefore early _ (by rw [fin.last none]; exact mem_append_right _ (mem_singleton_self _))
  cases this

end Process

variable {event : Event T L}

/-- An event keeps the invariant if a finishing child leaves a sibling, -/
theorem Inv.exec (run : f.exec decodeNext params decoder event = .ok f')
    (sibling : LeavesSibling decodeNext params f event) : Inv params f' := by
  cases event with
  | register =>
    cases run
    exact inv.register
  | output index output =>
    change f.process decodeNext params index output = .ok f' at run
    cases found : f.states index with
    | none =>
      unfold process at run
      rw [found] at run
      cases run
      exact inv
    | some state =>
      cases finished : finishes decodeNext params state output with
      | false => exact inv.process_running found finished run
      | true =>
        obtain ⟨completion, fin⟩ := inv.childFinished found finished run
        exact inv.process_finished found fin (sibling state found finished)

/-- and reports the parent too early otherwise. -/
theorem Inv.exec_early (run : f.exec decodeNext params decoder event = .ok f')
    (early : ¬ LeavesSibling decodeNext params f event) : ¬ Reported params f' := by
  cases event with
  | register => exact absurd trivial early
  | output index output =>
    simp only [LeavesSibling, not_forall, not_or, not_exists, not_and] at early
    obtain ⟨state, found, finished, more, alone⟩ := early
    obtain ⟨completion, fin⟩ := inv.childFinished found finished run
    refine fin.not_reported more fun j ne => ?_
    simpa using alone j ne

end Inv

/-- For every number of children and every interleaving: the parent is reported finished
exactly once, after all its children, and with all completions where they are collected,
exactly if each child that finishes before all are registered leaves a sibling. -/
theorem reported_iff (decodeNext : List T → D → T → List Char × D) (params : OutputParams)
    (decoder : D) (requestId n : Nat) (two : 2 ≤ n) (events : List (Event T L))
    (f : FanOut T L D)
    (run : events.foldlM (exec decodeNext params decoder) (start params requestId n) = .ok f) :
    (∀ done g, done <+: events →
        done.foldlM (exec decodeNext params decoder) (start params requestId n) = .ok g →
        Reported params g) ↔
      AlongOk (LeavesSibling decodeNext params) (exec decodeNext params decoder)
        (start params requestId n) events :=
  forall_reached_iff Inv.reported (fun inv run => inv.exec run) (fun inv run => inv.exec_early run)
    (inv_start requestId two) run

/-- Only final outputs, no text. -/
def finalOnlyParams : OutputParams where
  detokenize := false
  stop := []
  stop_ne_nil := DetokenizeParams.noStop
  minTokens := 0
  includeStopStrInOutput := false
  outputKind := .finalOnly
  logprobs := false
  streamInterval := 1
  resumable := false

def lastToken : EngineCoreOutput Nat Unit := ⟨[7], none, some .length, none⟩

/-- Without a tokenizer there is no text. -/
def noText (_ : List Nat) (_ : Unit) (_ : Nat) : List Char × Unit := ([], ())

def bothRegistered : List (Event Nat Unit) :=
  [.register, .register, .output 1 lastToken, .output 0 lastToken]

theorem bothRegistered_reported :
    2 ≤ 2 ∧ ∃ f, bothRegistered.foldlM (exec noText finalOnlyParams ())
        (start finalOnlyParams 0 2) = .ok f ∧ AllFinished f ∧
      ∀ done g, done <+: bothRegistered →
        done.foldlM (exec noText finalOnlyParams ()) (start finalOnlyParams 0 2) = .ok g →
        Reported finalOnlyParams g := by
  refine ⟨le_rfl, _, rfl, ⟨rfl, fun i => ?_⟩, ?_⟩
  · match i with
    | 0 | 1 | i + 2 => rfl
  · refine (reported_iff noText finalOnlyParams () 0 2 le_rfl bothRegistered _ rfl).mpr ?_
    refine ⟨trivial, trivial, ?_, ?_, trivial⟩
    · exact fun _ _ _ => .inl rfl
    · exact fun _ _ _ => .inl rfl

/-- The first child finishes while the second is still to be registered: the parent is
reported finished with a completion missing. -/
theorem firstChildEarly_not_reported :
    ∃ f completion, [.register, .output 0 lastToken].foldlM (exec noText finalOnlyParams ())
        (start finalOnlyParams 0 2) = .ok f ∧
      f.outputs = [⟨[some completion, none], true⟩] ∧ ¬ Reported finalOnlyParams f := by
  refine ⟨_, _, rfl, rfl, fun reported => ?_⟩
  have early : ¬ (1 : Nat) = 2 := by decide
  cases reported.notBefore (fun all => early all.1) _ (mem_singleton_self _)

end FanOut

end Vllm.Engine
