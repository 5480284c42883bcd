import Mathlib
import Vllm.Lib.Steps

/-!
Which tokens a grammar sees (`vllm/v1/structured_output/__init__.py`, and what
`vllm/v1/core/sched/scheduler.py` and `async_scheduler.py` do to the counters of one request).

While a request reasons, and in the step in which the reasoning ends, its grammar is not advanced.
The end is looked for in the tokens that do not count as computed yet, which is the last token of
a step (`Counted.start_received`). So the grammar sees the content exactly if the reasoning has
ended in the prompt, or the first end token is the last token of its step
(`accepted_eq_content_iff`).
-/

namespace Vllm.StructuredOutput

open List Lib.Steps

variable {T : Type}

/-- `StructuredOutputManager`, with the parser's `is_reasoning_end_streaming`. -/
structure Manager (T : Type) where
  reasoner : Option (List T → List T → Bool)
  enableInReasoning : Bool
  /-- There is a `speculative_config`. -/
  speculative : Bool

/-- A request with a grammar. -/
structure Request (T : Type) where
  allTokenIds : List T
  numComputedTokens : Int := 0
  numOutputPlaceholders : Int := 0
  /-- `len(spec_token_ids)`. -/
  numSpecTokens : Nat := 0
  asyncTokensToDiscard : Nat := 0
  /-- At first as the caller or `should_fill_bitmask` finds it in the prompt. -/
  reasoningEnded : Bool
  isStructuralTag : Bool := false

/-- The first token in which the end of the reasoning is looked for. -/
def Request.start (r : Request T) : Nat :=
  let deltaFrom := r.numComputedTokens - r.numOutputPlaceholders
  if 0 ≤ deltaFrom then deltaFrom.toNat else (r.allTokenIds.length + deltaFrom).toNat

/-- `should_advance`, which also notes that the reasoning has ended. -/
def Manager.shouldAdvance (m : Manager T) (r : Request T) : Bool × Request T :=
  match m.reasoner with
  | none => (true, r)
  | some isReasoningEndStreaming =>
    if m.enableInReasoning || r.reasoningEnded then (true, r)
    else if isReasoningEndStreaming r.allTokenIds (r.allTokenIds.drop r.start) then
      (m.speculative && r.isStructuralTag, { r with reasoningEnded := true })
    else (false, r)

/-- `Scheduler`, or `AsyncScheduler`. -/
structure Scheduler (T : Type) where
  manager : Manager T
  async : Bool
  numSpecTokens : Nat

/-- What the scheduler knows of the request. -/
structure Serving (T : Type) where
  request : Request T
  /-- The numbers of draft tokens of the steps under way that sample, the oldest first. -/
  underWay : List Nat := []
  stopped : Bool := false
  /-- The new tokens of each step so far. -/
  frames : List (List T) := []
  /-- All tokens that were passed to `grammar.accept_tokens`. -/
  accepted : List T := []

/-- What a step has sampled: how many tokens are left by `check_stop`, whether the request stops,
and the number of draft tokens for the next step. -/
structure StepOutput (T : Type) where
  generated : List T
  numKept : Nat
  stopped : Bool := false
  numDrafts : Nat := 0

inductive Event (T : Type)
  /-- The request is in the step with so many tokens, from one of the two loops. -/
  | schedule (numNewTokens : Nat)
  /-- It leaves the waiting queue with these tokens found in caches. -/
  | resume (numComputedTokens : Nat)
  | preempt
  /-- `reset_prefix_cache(reset_running_requests=True)`. -/
  | resetPrefixCache
  | output (out : StepOutput T)
  /-- A step's results are passed over, as a KV load has failed: the tokens from here on are
  computed again (`_update_requests_with_invalid_blocks`). -/
  | failedLoad (numComputedTokens : Nat) (sampled : Bool)
  /-- `update_draft_token_ids_in_output`. -/
  | draftTokenIdsInOutput

inductive Failure
  /-- The scheduler does not do this in this state. -/
  | impossible
  | assertionError

/-- A prefill chunk returns no tokens. Without `async` the results of a step come before the next
step. -/
def Scheduler.schedule (cfg : Scheduler T) (s : Serving T) (numNewTokens : Nat) :
    Except Failure (Serving T) :=
  let r := s.request
  let numTokens : Int := r.allTokenIds.length + r.numOutputPlaceholders
  let computed := r.numComputedTokens + numNewTokens
  let drafts := min (computed - numTokens).toNat r.numSpecTokens
  if numNewTokens = 0 ∨ numTokens + r.numSpecTokens < computed ∨
      (cfg.async = false ∧ s.underWay ≠ []) then .error .impossible
  else if computed < numTokens then
    .ok { s with request := { r with numComputedTokens := computed, numSpecTokens := 0 } }
  else
    let numOutputPlaceholders :=
      if cfg.async then r.numOutputPlaceholders + 1 + drafts else r.numOutputPlaceholders
    .ok { s with
      request := { r with
        numComputedTokens := computed
        numOutputPlaceholders
        numSpecTokens := if cfg.async then cfg.numSpecTokens else 0 }
      underWay := s.underWay ++ [drafts] }

/-- `_preempt_request`. -/
def Request.preempt (r : Request T) : Request T :=
  { r with numComputedTokens := 0, numSpecTokens := 0 }

/-- Draft tokens were rejected. -/
def Request.reject (r : Request T) (numRejected : Int) : Request T :=
  { r with
    numComputedTokens :=
      if 0 < r.numComputedTokens then r.numComputedTokens - numRejected else r.numComputedTokens
    numOutputPlaceholders :=
      if 0 < r.numOutputPlaceholders then r.numOutputPlaceholders - numRejected
      else r.numOutputPlaceholders }

/-- `_update_request_with_output`. -/
def Request.append (r : Request T) (async : Bool) (newTokenIds : List T) : Request T :=
  { r with
    allTokenIds := r.allTokenIds ++ newTokenIds
    numOutputPlaceholders :=
      if async then r.numOutputPlaceholders - newTokenIds.length else r.numOutputPlaceholders }

/-- The request when the results of a step are appended. -/
def received (async : Bool) (r : Request T) (drafts : Nat) (out : StepOutput T) : Request T :=
  (r.reject (drafts + 1 - out.generated.length)).append async (out.generated.take out.numKept)

/-- The new tokens are passed to the grammar or not. Without `async`, `update_draft_token_ids`
follows and looks once more. -/
def Scheduler.advance (cfg : Scheduler T) (s : Serving T) (r : Request T) (rest : List Nat)
    (out : StepOutput T) : Serving T :=
  let newTokenIds := out.generated.take out.numKept
  let looked := cfg.manager.shouldAdvance r
  { request :=
      if cfg.async ∨ out.stopped then looked.2
      else { (cfg.manager.shouldAdvance looked.2).2 with numSpecTokens := out.numDrafts }
    underWay := rest
    stopped := out.stopped
    frames := s.frames ++ [newTokenIds]
    accepted := if looked.1 then s.accepted ++ newTokenIds else s.accepted }

/-- The request's part of `update_from_output`. -/
def Scheduler.update (cfg : Scheduler T) (s : Serving T) (drafts : Nat) (rest : List Nat)
    (out : StepOutput T) : Except Failure (Serving T) :=
  let r := received cfg.async s.request drafts out
  if drafts + 1 < out.generated.length ∨ out.generated.take out.numKept = [] ∨
      (out.numKept < out.generated.length ∧ out.stopped = false) then .error .impossible
  else if s.request.asyncTokensToDiscard ≠ 0 then
    .ok { s with
      request := { s.request.reject (drafts + 1 - out.generated.length) with
        asyncTokensToDiscard := s.request.asyncTokensToDiscard - 1 }
      underWay := rest }
  else if r.numOutputPlaceholders < 0 then .error .assertionError
  else .ok (cfg.advance s r rest out)

def Scheduler.exec (cfg : Scheduler T) (s : Serving T) (event : Event T) :
    Except Failure (Serving T) :=
  let r := s.request
  if s.stopped then .error .impossible
  else
    match event with
    | .schedule numNewTokens => cfg.schedule s numNewTokens
    | .resume numComputedTokens =>
      if r.numComputedTokens = 0 ∧ numComputedTokens < r.allTokenIds.length then
        .ok { s with request := { r with numComputedTokens := numComputedTokens } }
      else .error .impossible
    | .preempt => .ok { s with request := r.preempt }
    | .resetPrefixCache =>
      .ok { s with request := { r.preempt with
        asyncTokensToDiscard := r.numOutputPlaceholders.toNat
        numOutputPlaceholders := 0 } }
    | .output out =>
      match s.underWay with
      | [] => .error .impossible
      | drafts :: rest => cfg.update s drafts rest out
    | .failedLoad numComputedTokens sampled =>
      if (cfg.async ∧ numComputedTokens ≤ r.numComputedTokens) ∨
          numComputedTokens < r.allTokenIds.length then
        .ok { s with
          request := { r with numComputedTokens := numComputedTokens }
          underWay := if sampled then s.underWay.tail else s.underWay }
      else .error .impossible
    | .draftTokenIdsInOutput =>
      -- The drafts are those of a step whose results are in.
      if cfg.async = false ∨ s.underWay = [] ∨ s.frames.flatten = [] then .error .impossible
      else .ok { s with request := (cfg.manager.shouldAdvance r).2 }

/-! ### The counters -/

/-- The tokens that the steps under way may return. -/
def due (underWay : List Nat) : Int := (underWay.map fun drafts => (drafts : Int) + 1).sum

@[simp, grind =] theorem due_nil : due [] = 0 := rfl

@[simp, grind =] theorem due_cons (drafts : Nat) (rest : List Nat) :
    due (drafts :: rest) = drafts + 1 + due rest := rfl

@[simp, grind =] theorem due_append (underWay rest : List Nat) :
    due (underWay ++ rest) = due underWay + due rest := by
  simp [due]

theorem due_nonneg (underWay : List Nat) : 0 ≤ due underWay :=
  sum_nonneg (by simp; omega)

/-- All tokens but the last one count as computed, and those that are due; after the request was
set back, fewer do. `exact`: it was not set back while a step sampled for it. -/
structure Counted (async : Bool) (exact : Prop) (r : Request T) (underWay : List Nat) : Prop where
  discard : r.asyncTokensToDiscard = 0
  sync : async = false → r.numOutputPlaceholders = 0 ∧ underWay.length ≤ 1
  placeholders : async = true → due underWay ≤ r.numOutputPlaceholders
  upper : r.numComputedTokens + 1 ≤
    r.allTokenIds.length + if async then r.numOutputPlaceholders else due underWay
  lower : exact → (async = true → r.numOutputPlaceholders ≤ due underWay) ∧
    (underWay ≠ [] → r.allTokenIds.length + due underWay ≤ r.numComputedTokens + 1)

namespace Counted

variable {cfg : Scheduler T} {async : Bool} {exact : Prop} {s s' : Serving T} {r : Request T}
  {underWay : List Nat}

theorem schedule (counted : Counted cfg.async exact s.request s.underWay) {numNewTokens : Nat}
    (ok : cfg.schedule s numNewTokens = .ok s') :
    Counted cfg.async exact s'.request s'.underWay := by
  obtain ⟨discard, sync, placeholders, upper, lower⟩ := counted
  have := due_nonneg s.underWay
  simp only [Scheduler.schedule] at ok
  split_ifs at ok with refused chunk async <;> cases ok
  · constructor <;> grind
  · constructor <;> simp [async] <;> grind
  · constructor <;> simp [async] <;> grind

/-- The request is set back, with its oldest step forgotten or not, or leaves the waiting queue. -/
theorem setBack (counted : Counted async exact r underWay) {rest : List Nat}
    (suffix : rest <:+ underWay) {numComputedTokens : Int} {n : Nat}
    (le : (async = true ∧ numComputedTokens ≤ r.numComputedTokens) ∨
      numComputedTokens < r.allTokenIds.length) (idle : exact → underWay = []) :
    Counted async exact { r with numComputedTokens, numSpecTokens := n } rest := by
  obtain ⟨discard, sync, placeholders, upper, lower⟩ := counted
  obtain ⟨done, rfl⟩ := suffix
  have := due_nonneg done
  have := due_nonneg rest
  rw [due_append] at placeholders
  rw [append_eq_nil_iff] at idle
  constructor <;> grind

section

variable (counted : Counted async exact r underWay) {drafts : Nat} {rest : List Nat}
  {out : StepOutput T} (oldest : underWay = drafts :: rest)
  (few : out.generated.length ≤ drafts + 1) (new : out.generated.take out.numKept ≠ [])
include counted oldest few new

theorem received (all : out.generated.length ≤ out.numKept) :
    Counted async exact (received async r drafts out) rest := by
  have kept := length_pos_of_ne_nil new
  obtain ⟨discard, sync, placeholders, upper, lower⟩ := counted
  have := due_nonneg rest
  rw [length_take] at kept
  constructor <;> simp only [StructuredOutput.received, Request.append, Request.reject] <;> grind

/-- The look begins after the old tokens, unless the request was set back, and before the last
new one, unless some were cut off. -/
theorem start_received :
    let r' := StructuredOutput.received async r drafts out
    (out.generated.length ≤ out.numKept → r'.start < r'.allTokenIds.length) ∧
      (exact → r.allTokenIds.length ≤ r'.start) := by
  have kept := length_pos_of_ne_nil new
  obtain ⟨discard, sync, placeholders, upper, lower⟩ := counted
  have := due_nonneg rest
  rw [length_take] at kept
  simp only [StructuredOutput.received, Request.start, Request.append, Request.reject,
    length_append, length_take]
  cases async <;>
    simp only [oldest, due_cons, Bool.false_eq_true, if_false, if_true, forall_const, ne_eq,
      reduceCtorEq, not_false_eq_true, false_implies, true_and] at sync placeholders upper lower ⊢
  · have : due rest = 0 := by
      rw [length_eq_zero_iff.mp (by grind : rest.length = 0)]
      rfl
    refine ⟨fun all => ?_, fun exact => ?_⟩
    · split_ifs <;> omega
    · have := lower exact
      split_ifs <;> omega
  · refine ⟨fun all => ?_, fun exact => ?_⟩
    · split_ifs <;> omega
    · have := lower exact
      split_ifs <;> omega

end

end Counted

variable [DecidableEq T]

/-- Speculative decoding with a parser that has one end token, and a grammar that does not apply
to the reasoning. -/
def thinking (endToken : T) (async : Bool) (numSpecTokens : Nat) : Scheduler T where
  manager := {
    reasoner := some fun _ deltaIds => decide (endToken ∈ deltaIds)
    enableInReasoning := false
    speculative := true }
  async
  numSpecTokens

def arrived (prompt : List T) (ended : Bool) : Serving T where
  request := { allTokenIds := prompt, reasoningEnded := ended }

/-- The prefix cache is not reset while results are due. If there is an end token in the prompt,
the request is not set back either while a step samples for it. -/
def Undisturbed (endToken : T) (prompt : List T) (s : Serving T) : Event T → Prop
  | .resetPrefixCache => s.request.numOutputPlaceholders = 0 ∧ (endToken ∈ prompt → s.underWay = [])
  | .preempt | .failedLoad _ _ => endToken ∈ prompt → s.underWay = []
  | _ => True

/-- The first end token, if there is one, is the last token of its step. -/
def EndsStep (endToken : T) : List (List T) → Prop
  | [] => True
  | frame :: frames =>
    if endToken ∈ frame then frame.idxOf endToken + 1 = frame.length else EndsStep endToken frames

/-! ### What the grammar sees -/

variable {endToken : T} {prompt : List T} {frames : List (List T)} {s : Serving T}

theorem endsStep_append (frame : List T) :
    EndsStep endToken (frames ++ [frame]) ↔
      if endToken ∈ frames.flatten then EndsStep endToken frames
      else endToken ∈ frame → frame.idxOf endToken + 1 = frame.length := by
  induction frames with
  | nil => simp [EndsStep]
  | cons first frames ih => by_cases mem : endToken ∈ first <;> simp [EndsStep, mem, ih]

/-- The request when the end of the reasoning was looked for. -/
def looked (endToken : T) (r : Request T) (numSpecTokens : Nat) : Request T :=
  { r with
    reasoningEnded := r.reasoningEnded || decide (endToken ∈ r.allTokenIds.drop r.start)
    numSpecTokens }

theorem shouldAdvance_thinking (endToken : T) (async : Bool) (n : Nat) {r : Request T}
    (tag : r.isStructuralTag = false) :
    (thinking endToken async n).manager.shouldAdvance r =
      (r.reasoningEnded, looked endToken r r.numSpecTokens) := by
  obtain ⟨allTokenIds, numComputedTokens, numOutputPlaceholders, numSpec, discard, ended, _⟩ := r
  subst tag
  cases ended
  · simp only [Manager.shouldAdvance, thinking, looked, Bool.or_self, Bool.false_eq_true, if_false,
      Bool.and_false, Bool.false_or]
    split <;> simp_all
  · rfl

/-- The reasoning has not ended in the prompt. Until its end is noticed nothing is accepted; once
it is noticed, after `n` tokens, all that follows is. -/
structure Seen (endToken : T) (prompt : List T) (s : Serving T) : Prop where
  tag : s.request.isStructuralTag = false
  tokens : s.request.allTokenIds = prompt ++ s.frames.flatten
  reasoning : s.request.reasoningEnded = false → s.accepted = [] ∧
    (EndsStep endToken s.frames ↔ s.frames.flatten.length ≤ s.frames.flatten.idxOf endToken + 1) ∧
    (s.stopped = false → endToken ∈ s.frames.flatten → ¬ EndsStep endToken s.frames)
  ended : s.request.reasoningEnded = true → ∃ n, s.accepted = s.frames.flatten.drop n ∧
    s.frames.flatten.idxOf endToken < n ∧ n ≤ s.frames.flatten.length ∧
    (EndsStep endToken s.frames ↔ n = s.frames.flatten.idxOf endToken + 1)

/-- While no end token was the last of its step, the first one is so exactly if it is the last
token of all. -/
theorem endsStep_append_iff (frame : List T)
    (same : EndsStep endToken frames ↔ frames.flatten.length ≤ frames.flatten.idxOf endToken + 1)
    (missed : endToken ∈ frames.flatten → ¬ EndsStep endToken frames) :
    EndsStep endToken (frames ++ [frame]) ↔
      (frames ++ [frame]).flatten.length ≤ (frames ++ [frame]).flatten.idxOf endToken + 1 := by
  rw [endsStep_append]
  simp only [flatten_append, flatten_singleton, length_append, idxOf_append]
  grind

theorem Seen.update (seen : Seen endToken prompt s) (going : s.stopped = false) {r : Request T}
    {underWay : List Nat} {stopped : Bool} {window new : List T}
    (tag : r.isStructuralTag = false) (tokens : r.allTokenIds = s.request.allTokenIds ++ new)
    (ended : r.reasoningEnded = (s.request.reasoningEnded || decide (endToken ∈ window)))
    (inside : endToken ∈ window → endToken ∈ s.frames.flatten ++ new)
    (looks : stopped = false → endToken ∈ new → new.idxOf endToken + 1 = new.length →
      endToken ∈ window) :
    Seen endToken prompt {
      request := r, underWay, stopped, frames := s.frames ++ [new]
      accepted := if s.request.reasoningEnded then s.accepted ++ new else s.accepted } := by
  refine ⟨tag, by simp [tokens, seen.tokens], ?_, ?_⟩
  · intro reasoning
    obtain ⟨before, unseen⟩ : s.request.reasoningEnded = false ∧ endToken ∉ window := by
      simpa [ended] using reasoning
    obtain ⟨none, same, missed⟩ := seen.reasoning before
    refine ⟨by simp [before, none], endsStep_append_iff new same (missed going), ?_⟩
    intro notStopped mem ends
    rw [endsStep_append] at ends
    grind
  · intro noticed
    cases before : s.request.reasoningEnded with
    | true =>
      obtain ⟨n, accepted, lt, le, iff⟩ := seen.ended before
      have mem : endToken ∈ s.frames.flatten := idxOf_lt_length_iff.mp (by omega)
      refine ⟨n, ?_, ?_, ?_, ?_⟩
      · simp [accepted, drop_append_of_le_length le]
      · simpa [idxOf_append, mem] using lt
      · rw [flatten_append, length_append]
        omega
      · rw [endsStep_append, if_pos mem, iff]
        simp [idxOf_append, mem]
    | false =>
      have mem : endToken ∈ window := by simpa [ended, before] using noticed
      obtain ⟨none, same, missed⟩ := seen.reasoning before
      have lt := idxOf_lt_length_iff.mpr (inside mem)
      refine ⟨(s.frames ++ [new]).flatten.length, by simp [none], by simpa using lt, le_rfl, ?_⟩
      rw [endsStep_append_iff new same (missed going)]
      simp at lt ⊢
      omega

theorem Seen.look (seen : Seen endToken prompt s) {r : Request T}
    {window : List T} (tag : r.isStructuralTag = false)
    (tokens : r.allTokenIds = s.request.allTokenIds)
    (ended : r.reasoningEnded = (s.request.reasoningEnded || decide (endToken ∈ window)))
    (inside : endToken ∈ window → endToken ∈ s.frames.flatten) :
    Seen endToken prompt { s with request := r } := by
  refine ⟨tag, tokens.trans seen.tokens, ?_, ?_⟩
  · intro reasoning
    exact seen.reasoning (Bool.or_eq_false_iff.mp (ended.symm.trans reasoning)).1
  · intro noticed
    cases before : s.request.reasoningEnded with
    | true => exact seen.ended before
    | false =>
      have mem : endToken ∈ window := by simpa [ended, before] using noticed
      obtain ⟨none, same, missed⟩ := seen.reasoning before
      have lt := idxOf_lt_length_iff.mpr (inside mem)
      refine ⟨s.frames.flatten.length, by simp [none], lt, le_rfl, ?_⟩
      dsimp only
      rw [same]
      omega

theorem mem_of_mem_drop {rest : List T} {start : Nat} (mem : endToken ∈ (prompt ++ rest).drop start)
    (le : endToken ∈ prompt → prompt.length ≤ start) : endToken ∈ rest := by
  by_cases inPrompt : endToken ∈ prompt
  · rw [drop_append, drop_eq_nil_of_le (le inPrompt), nil_append] at mem
    exact List.mem_of_mem_drop mem
  · exact (mem_append.mp (List.mem_of_mem_drop mem)).resolve_left inPrompt

/-- The last of the new tokens is looked at. -/
theorem mem_drop_of_last {old new : List T} {start : Nat} (mem : endToken ∈ new)
    (last : new.idxOf endToken + 1 = new.length) (lt : start < (old ++ new).length) :
    endToken ∈ (old ++ new).drop start := by
  rw [length_append] at lt
  refine mem_drop_iff_getElem.mpr ⟨old.length + new.idxOf endToken - start, by simp; omega, ?_⟩
  have := getElem_idxOf (idxOf_lt_length_iff.mpr mem)
  grind

section

variable {async : Bool} {n : Nat} {event : Event T} {s' : Serving T}

/-- Both invariants; the counters do not matter any more when the request has stopped. -/
def Inv (endToken : T) (prompt : List T) (async : Bool) (s : Serving T) : Prop :=
  Seen endToken prompt s ∧
    (s.stopped = false → Counted async (endToken ∈ prompt) s.request s.underWay)

theorem advance_thinking {r : Request T} (tag : r.isStructuralTag = false) {rest : List Nat}
    {out : StepOutput T} :
    ∃ k, (thinking endToken async n).advance s r rest out = {
      request := looked endToken r k
      underWay := rest
      stopped := out.stopped
      frames := s.frames ++ [out.generated.take out.numKept]
      accepted :=
        if r.reasoningEnded then s.accepted ++ out.generated.take out.numKept
        else s.accepted } := by
  have again := shouldAdvance_thinking endToken async n
    (r := looked endToken r r.numSpecTokens) tag
  have twice : ∀ k, { looked endToken (looked endToken r k) k with numSpecTokens := out.numDrafts } =
      looked endToken r out.numDrafts := by
    simp [looked, Request.start]
  simp only [Scheduler.advance, shouldAdvance_thinking endToken async n tag, again]
  split
  · exact ⟨_, rfl⟩
  · exact ⟨_, congrArg (Serving.mk · _ _ _ _) (twice _)⟩

theorem Inv.update (inv : Inv endToken prompt async s) (going : s.stopped = false) {drafts : Nat}
    {rest : List Nat} {out : StepOutput T} (oldest : s.underWay = drafts :: rest)
    (ok : (thinking endToken async n).update s drafts rest out = .ok s') :
    Inv endToken prompt async s' := by
  obtain ⟨seen, counted⟩ := inv
  have counted := counted going
  simp only [Scheduler.update] at ok
  split_ifs at ok with refused stale negative
  · exact absurd counted.discard stale
  rw [not_or, not_or, not_and] at refused
  obtain ⟨few, new, whole⟩ := refused
  have few : out.generated.length ≤ drafts + 1 := by omega
  have whole : out.stopped = false → out.generated.length ≤ out.numKept := by
    intro going
    by_contra cut
    exact whole (by omega) going
  obtain ⟨last, first⟩ := counted.start_received oldest few new
  obtain ⟨k, same⟩ := advance_thinking (s := s) (r := received async s.request drafts out)
    seen.tag
  cases ok.symm.trans (congrArg Except.ok same)
  refine ⟨seen.update going seen.tag rfl rfl ?_ ?_, fun going => ?_⟩
  · intro mem
    have tokens : (received async s.request drafts out).allTokenIds =
        prompt ++ (s.frames.flatten ++ out.generated.take out.numKept) := by
      simp [received, Request.append, Request.reject, seen.tokens]
    rw [tokens] at mem
    exact mem_of_mem_drop mem fun exact => le_trans (by simp [seen.tokens]) (first exact)
  · intro going mem ends
    exact mem_drop_of_last mem ends (last (whole going))
  · have := counted.received oldest few new (whole going)
    exact ⟨this.discard, this.sync, this.placeholders, this.upper, this.lower⟩

theorem Inv.keeps (nonempty : prompt ≠ []) (inv : Inv endToken prompt async s)
    (undisturbed : Undisturbed endToken prompt s event)
    (ok : (thinking endToken async n).exec s event = .ok s') : Inv endToken prompt async s' := by
  unfold Scheduler.exec at ok
  split at ok
  · cases ok
  rename_i going
  have going : s.stopped = false := by simpa using going
  obtain ⟨seen, counted⟩ := id inv
  have counted := counted going
  have tokens : 0 < s.request.allTokenIds.length := by
    rw [seen.tokens, length_append]
    exact Nat.add_pos_left (length_pos_of_ne_nil nonempty) _
  have same : ∀ {r : Request T} {underWay : List Nat},
      r.allTokenIds = s.request.allTokenIds → r.reasoningEnded = s.request.reasoningEnded →
      r.isStructuralTag = s.request.isStructuralTag →
      Seen endToken prompt { s with request := r, underWay } := by
    intro r underWay tokens ended tag
    exact ⟨tag.trans seen.tag, tokens.trans seen.tokens, ended ▸ seen.reasoning, ended ▸ seen.ended⟩
  cases event with
  | schedule numNewTokens =>
    refine ⟨?_, fun _ => counted.schedule ok⟩
    simp only [Scheduler.schedule] at ok
    split_ifs at ok <;> cases ok <;> exact same rfl rfl rfl
  | resume numComputedTokens =>
    simp only at ok
    split_ifs at ok with waits
    cases ok
    refine ⟨same rfl rfl rfl, fun _ => counted.setBack suffix_rfl (.inr (by simpa using waits.2)) ?_⟩
    intro exact
    by_contra busy
    have computed := (counted.lower exact).2 busy
    obtain ⟨drafts, rest, oldest⟩ := exists_cons_of_ne_nil busy
    have := due_nonneg rest
    rw [oldest, due_cons] at computed
    omega
  | preempt =>
    cases ok
    exact ⟨same rfl rfl rfl, fun _ => counted.setBack suffix_rfl (.inr (by simpa using tokens))
      undisturbed⟩
  | resetPrefixCache =>
    cases ok
    obtain ⟨none, idle⟩ := undisturbed
    have := counted.setBack (n := 0) suffix_rfl (.inr (Int.natCast_pos.mpr tokens)) idle
    exact ⟨same rfl rfl rfl, fun _ => by simpa [Request.preempt, none, counted.discard] using this⟩
  | output out =>
    simp only at ok
    split at ok
    · cases ok
    · exact inv.update going ‹_› ok
  | failedLoad numComputedTokens sampled =>
    simp only at ok
    split_ifs at ok with le sampled <;> cases ok
    · exact ⟨same rfl rfl rfl, fun _ => counted.setBack (tail_suffix _) (by simpa [thinking] using le)
        undisturbed⟩
    · exact ⟨same rfl rfl rfl, fun _ => counted.setBack suffix_rfl (by simpa [thinking] using le)
        undisturbed⟩
  | draftTokenIdsInOutput =>
    simp only at ok
    split_ifs at ok with refused
    cases ok
    rw [shouldAdvance_thinking endToken async n seen.tag]
    refine ⟨seen.look seen.tag rfl rfl ?_, fun _ => ?_⟩
    · intro mem
      rw [seen.tokens] at mem
      refine mem_of_mem_drop mem fun exact => ?_
      have late : prompt.length + 1 ≤ s.request.allTokenIds.length := by
        rw [seen.tokens, length_append]
        have : s.frames.flatten ≠ [] := by tauto
        have := length_pos_of_ne_nil this
        omega
      have computed := (counted.lower exact).2 (by tauto)
      have placeholders := (counted.lower exact).1 (by simpa [thinking] using fun no => refused (.inl no))
      unfold Request.start
      grind
    · exact ⟨counted.discard, counted.sync, counted.placeholders, counted.upper, counted.lower⟩

end

theorem Seen.accepted_iff (seen : Seen endToken prompt s) :
    s.accepted = s.frames.flatten.drop (s.frames.flatten.idxOf endToken + 1) ↔
      EndsStep endToken s.frames := by
  cases ended : s.request.reasoningEnded with
  | false =>
    obtain ⟨none, same, _⟩ := seen.reasoning ended
    rw [none, same, eq_comm, drop_eq_nil_iff]
  | true =>
    obtain ⟨n, accepted, lt, le, iff⟩ := seen.ended ended
    rw [accepted, iff]
    constructor
    · intro same
      have lengths := congrArg length same
      simp only [length_drop] at lengths
      omega
    · rintro rfl
      rfl

/-- After the reasoning the grammar sees everything. -/
structure AcceptsAll (s : Serving T) : Prop where
  tag : s.request.isStructuralTag = false
  ended : s.request.reasoningEnded = true
  accepted : s.accepted = s.frames.flatten

theorem AcceptsAll.keeps {async : Bool} {n : Nat} {event : Event T} {s' : Serving T}
    (all : AcceptsAll s) (ok : (thinking endToken async n).exec s event = .ok s') :
    AcceptsAll s' := by
  obtain ⟨tag, ended, accepted⟩ := all
  unfold Scheduler.exec at ok
  cases event <;> simp only [Scheduler.schedule, shouldAdvance_thinking endToken async n tag] at ok
  case output out =>
    split_ifs at ok
    split at ok
    · cases ok
    rename_i drafts rest _
    simp only [Scheduler.update] at ok
    split_ifs at ok
    · cases ok
      exact ⟨tag, ended, accepted⟩
    · obtain ⟨k, same⟩ := advance_thinking (s := s) (r := received async s.request drafts out) tag
      cases ok.symm.trans (congrArg Except.ok same)
      refine ⟨tag, ?_, ?_⟩ <;>
        simp [looked, received, Request.append, Request.reject, ended, accepted]
  case draftTokenIdsInOutput =>
    split_ifs at ok
    cases ok
    exact ⟨tag, by simp [looked, ended], accepted⟩
  all_goals
    split_ifs at ok <;> cases ok <;> exact ⟨tag, ended, accepted⟩

/-- The grammar sees the tokens behind the end of the reasoning exactly if it ended in the prompt, or
the first end token is the last token of its step. -/
theorem accepted_eq_content_iff (endToken : T) (async : Bool) (numSpecTokens : Nat)
    {prompt : List T} (nonempty : prompt ≠ []) (ended : Bool) {events : List (Event T)}
    {s : Serving T}
    (run : Run (guarded (Undisturbed endToken prompt)
      (succeeds (thinking endToken async numSpecTokens).exec)) (arrived prompt ended) events s) :
    let tokens := s.frames.flatten
    s.accepted = (if ended then tokens else tokens.drop (tokens.idxOf endToken + 1)) ↔
      ended ∨ EndsStep endToken s.frames := by
  intro tokens
  cases ended with
  | true =>
    have all : AcceptsAll s := run.invariant _ (fun all step => all.keeps step.2) ⟨rfl, rfl, rfl⟩
    exact iff_of_true all.accepted (.inl rfl)
  | false =>
    have pos := length_pos_of_ne_nil nonempty
    have inv : Inv endToken prompt async s := by
      refine run.invariant _ (fun inv step => inv.keeps nonempty step.1 step.2)
        ⟨⟨rfl, (append_nil _).symm, fun _ => ⟨rfl, ?_, fun _ mem => ?_⟩, ?_⟩, fun _ => ?_⟩
      · exact iff_of_true trivial (Nat.zero_le _)
      · exact absurd mem not_mem_nil
      · exact fun ended => absurd ended Bool.false_ne_true
      · exact ⟨rfl, fun _ => ⟨rfl, Nat.zero_le _⟩, fun _ => le_rfl,
          by simp [arrived]; omega, fun _ => ⟨fun _ => le_rfl, fun busy => absurd rfl busy⟩⟩
    simpa using inv.1.accepted_iff

/-- Prompt `[1]`, end token 9, and a synchronous scheduler. -/
def oneDraft : List (Event Nat) := [
  .schedule 1, .output { generated := [5], numKept := 1, numDrafts := 1 },
  .schedule 2, .output { generated := [9, 7], numKept := 2, numDrafts := 1 },
  .schedule 2, .output { generated := [8], numKept := 1 }]

/-- A step accepts one draft and returns the end token and the first token of the content; it
looks at the last of them only. -/
theorem thinking_loses_content :
    endsIn (thinking 9 false 1).exec (arrived [1] false) oneDraft (fun s =>
      s.accepted = [] ∧
        s.frames.flatten.drop (s.frames.flatten.idxOf 9 + 1) = [7, 8]) = true := by
  decide

/-- Prompt `[1, 2, 3]`, end token 9, and an `AsyncScheduler`; the request is preempted while a
step is under way, and resumed. -/
def preempted : List (Event Nat) := [
  .schedule 3, .schedule 2, .output { generated := [5], numKept := 1 }, .preempt,
  .output { generated := [6, 9], numKept := 2 }, .resume 2, .schedule 3, .schedule 1,
  .output { generated := [7], numKept := 1 }, .schedule 2,
  .output { generated := [8, 4], numKept := 1, stopped := true }]

theorem preempted_sees_content :
    ∃ s, Run (guarded (Undisturbed 9 [1, 2, 3]) (succeeds (thinking 9 true 1).exec))
        (arrived [1, 2, 3] false) preempted s ∧
      s.accepted = [7, 8] ∧ s.accepted = s.frames.flatten.drop (s.frames.flatten.idxOf 9 + 1) := by
  have along : AlongOk (Undisturbed 9 [1, 2, 3]) (thinking 9 true 1).exec (arrived [1, 2, 3] false)
      preempted :=
    ⟨trivial, trivial, trivial, fun mem => absurd mem (by decide), trivial, trivial, trivial,
      trivial, trivial, trivial, trivial, trivial⟩
  obtain ⟨s, run, ends⟩ := exists_run_of_endsIn
    (fun s => s.accepted = [7, 8] ∧ s.frames = [[5], [6, 9], [7], [8]]) along (by decide)
  obtain ⟨accepted, frames⟩ := of_decide_eq_true ends
  refine ⟨s, run, accepted, (accepted_eq_content_iff 9 true 1 (by decide) false run).mpr (.inr ?_)⟩
  simp [frames, EndsStep]

end Vllm.StructuredOutput
