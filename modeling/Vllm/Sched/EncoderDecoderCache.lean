import Vllm.Lib.Fallible
import Vllm.Lib.Steps
import Vllm.Request

/-!
The encoder inputs of an encoder-decoder model: `EncoderDecoderCacheManager`
(`vllm/v1/core/encoder_cache_manager.py`) and the scheduler that calls it
(`vllm/v1/core/sched/scheduler.py`).

The manager only counts free slots. The scheduler allocates the inputs of a request when it admits
it. It gives them back after every step that was executed for the request, and again when the
request is preempted or finished, whether they are allocated or not. The count is right only as long
as each of them is given back once (`balanced_iff`).

A step is taken request by request. Which requests it takes, with how many tokens and whether the
KV cache has room, is a part of the events. These models have no KV connector. Streamed inputs are
left out.
-/

namespace Vllm.Sched

open Vllm.Lib.Fallible Vllm.Lib.Steps List

/-- `EncoderDecoderCacheManager`. -/
structure EncoderDecoderCache where
  cacheSize : Nat
  numFreeSlots : Int
  allocated : List String := []
  toFree : List String := []

namespace EncoderDecoderCache

/-- An encoder input of a request. The placeholders of these models have no mask, so the input has
as many embeddings as placeholders. -/
structure Input where
  requestId : RequestId
  inputId : Nat
  feature : MMFeature
  deriving DecidableEq

def Input.numEmbeds (input : Input) : Nat := input.feature.length

def canAllocate (c : EncoderDecoderCache) (input : Input)
    (encoderComputeBudget numEmbedsToSchedule : Nat) : Bool :=
  input.numEmbeds ≤ encoderComputeBudget ∧
    (input.numEmbeds + numEmbedsToSchedule : Nat) ≤ c.numFreeSlots

def allocate (c : EncoderDecoderCache) (input : Input) : EncoderDecoderCache :=
  { c with
    numFreeSlots := c.numFreeSlots - input.numEmbeds
    allocated := c.allocated ++ [input.feature.identifier] }

def freeEncoderInput (c : EncoderDecoderCache) (input : Input) : EncoderDecoderCache :=
  { c with numFreeSlots := c.numFreeSlots + input.numEmbeds }

def getFreedMmHashes (c : EncoderDecoderCache) : EncoderDecoderCache :=
  { c with toFree := c.allocated, allocated := [] }

def reset (c : EncoderDecoderCache) : EncoderDecoderCache :=
  { cacheSize := c.cacheSize, numFreeSlots := c.cacheSize }

/-! ### The scheduler -/

structure Config where
  disableChunkedMmInput : Bool := false
  /-- One with EAGLE. -/
  shiftComputedTokens : Nat := 0

/-- What a step tries for a request. -/
structure Attempt where
  numNewTokens : Nat
  encoderComputeBudget : Nat
  /-- What `has_cache_item` of the encoder cache connector answers. -/
  hasCacheItem : String → Bool := fun _ => false
  /-- Whether `allocate_slots` finds blocks for the tokens. -/
  hasBlocks : Bool := true

inductive Failure where
  /-- Encoder inputs are processed at the beginning of the sequence. -/
  | assertion
  /-- The scheduler does not do this. -/
  | invalid

/-- The variables of `_try_schedule_encoder_inputs`. -/
structure Trial where
  numNewTokens : Nat
  encoderComputeBudget : Nat
  numEmbedsToSchedule : Nat := 0
  encoderInputsToSchedule : List Input := []
  externalLoadEncoderInput : List Input := []

/-- All inputs that the request gets. -/
def Trial.taken (trial : Trial) : List Input :=
  trial.encoderInputsToSchedule ++ trial.externalLoadEncoderInput

section Trial

variable (cfg : Config) (c : EncoderDecoderCache) (attempt : Attempt) (numComputedTokens : Nat)

/-- The loop of `_try_schedule_encoder_inputs`. -/
def tryInputs : List Input → Trial → Except Failure Trial
  | [], trial => .ok trial
  | input :: rest, trial =>
    let startPos := input.feature.offset
    let untilStart := startPos - (numComputedTokens + cfg.shiftComputedTokens)
    if 0 < numComputedTokens then
      if startPos = 0 then tryInputs rest trial else .error .assertion
    else if cfg.disableChunkedMmInput ∧ numComputedTokens < startPos ∧
        numComputedTokens + trial.numNewTokens < input.feature.stop then
      .ok { trial with numNewTokens := untilStart }
    else if c.canAllocate input trial.encoderComputeBudget trial.numEmbedsToSchedule = false then
      -- nothing can be scheduled if the input starts here
      .ok { trial with numNewTokens := untilStart }
    else if min input.feature.length (numComputedTokens + trial.numNewTokens - startPos) ≤
        numComputedTokens - startPos then
      tryInputs rest trial
    else if attempt.hasCacheItem input.feature.identifier then
      tryInputs rest { trial with
        externalLoadEncoderInput := trial.externalLoadEncoderInput ++ [input]
        numEmbedsToSchedule := trial.numEmbedsToSchedule + input.numEmbeds }
    else
      tryInputs rest { trial with
        encoderInputsToSchedule := trial.encoderInputsToSchedule ++ [input]
        numEmbedsToSchedule := trial.numEmbedsToSchedule + input.numEmbeds
        encoderComputeBudget := trial.encoderComputeBudget - input.numEmbeds }

def tryScheduleEncoderInputs (inputs : List Input) : Except Failure Trial :=
  let trial : Trial :=
    { numNewTokens := attempt.numNewTokens, encoderComputeBudget := attempt.encoderComputeBudget }
  if attempt.numNewTokens = 0 then .ok trial
  else
    let stop := numComputedTokens + attempt.numNewTokens + cfg.shiftComputedTokens
    tryInputs cfg c attempt numComputedTokens
      (inputs.takeWhile fun input => input.feature.offset < stop) trial

end Trial

/-- A request that is not finished. Encoder-decoder models have their inputs at the start. -/
structure Life where
  mmFeatures : List MMFeature
  atStart : ∀ feature ∈ mmFeatures, feature.offset = 0
  running : Bool := false
  numComputedTokens : Nat := 0
  /-- The steps that were scheduled for the request and have not returned. -/
  underWay : Nat := 0
  /-- The request was admitted with nothing computed, and nothing has given its inputs back since. -/
  holds : Bool := false

def Life.inputs (life : Life) (r : RequestId) : List Input :=
  life.mmFeatures.zipIdx.map fun (feature, inputId) => ⟨r, inputId, feature⟩

/-- The scheduler's requests and the manager, with the inputs that are allocated and were not
freed. -/
structure State where
  cache : EncoderDecoderCache
  requests : RequestId → Option Life
  held : Multiset Input

inductive Event where
  | add (r : RequestId) (mmFeatures : List MMFeature)
      (atStart : ∀ feature ∈ mmFeatures, feature.offset = 0)
  /-- A waiting request is tried, of which the prefix cache has `numHits` tokens. -/
  | tryWaiting (r : RequestId) (numHits : Nat) (attempt : Attempt)
  | run (r : RequestId) (attempt : Attempt)
  | preempt (r : RequestId)
  /-- `update_from_output` takes the results of a step for the request. -/
  | executed (r : RequestId) (numRejected : Nat)
  /-- The request stops, or is aborted. -/
  | finish (r : RequestId)
  | getFreedMmHashes
  | resetEncoderCache

namespace State

variable (cfg : Config) (s : State)

def set (r : RequestId) (life : Option Life) : State :=
  { s with requests := Function.update s.requests r life }

def take (inputs : List Input) : State :=
  { s with cache := inputs.foldl allocate s.cache, held := s.held + inputs }

def giveBack (inputs : List Input) : State :=
  { s with cache := inputs.foldl freeEncoderInput s.cache, held := s.held - inputs }

/-- The step goes on for a request that gets tokens and blocks. -/
def place (r : RequestId) (life : Life) (trial : Trial) : State :=
  (s.take trial.taken).set r (some { life with
    running := true
    numComputedTokens := life.numComputedTokens + trial.numNewTokens
    underWay := life.underWay + 1 })

def tryWaiting (r : RequestId) (life : Life) (numHits : Nat) (attempt : Attempt) :
    Except Failure State := do
  let trial ← tryScheduleEncoderInputs cfg s.cache attempt numHits (life.inputs r)
  if trial.numNewTokens = 0 then return s
  else if attempt.hasBlocks then
    return s.place r { life with numComputedTokens := numHits, holds := numHits = 0 } trial
  else return s.giveBack (life.inputs r)

def run (r : RequestId) (life : Life) (attempt : Attempt) : Except Failure State := do
  let trial ← tryScheduleEncoderInputs cfg s.cache attempt life.numComputedTokens (life.inputs r)
  if trial.numNewTokens = 0 || !attempt.hasBlocks then return s
  else return s.place r life trial

/-- `_preempt_request`. -/
def preempt (r : RequestId) (life : Life) : State :=
  (s.giveBack (life.inputs r)).set r (some { life with
    running := false
    numComputedTokens := 0
    holds := false })

/-- The results of a step, with `_free_encoder_inputs`. -/
def executed (r : RequestId) (life : Life) (numRejected : Nat) : State :=
  let numComputedTokens := life.numComputedTokens - numRejected
  let freed := (life.inputs r).filter fun input =>
    -- all of them as soon as there are computed tokens
    0 < numComputedTokens ∨ input.feature.stop ≤ numComputedTokens
  (s.giveBack freed).set r (some { life with
    numComputedTokens
    underWay := life.underWay - 1
    holds := life.holds && numComputedTokens = 0 })

/-- `_free_request`. -/
def finish (r : RequestId) (life : Life) : State := (s.giveBack (life.inputs r)).set r none

def resetEncoderCache : State where
  cache := s.cache.reset
  requests := fun r => (s.requests r).map fun life => { life with holds := false }
  held := 0

end State

def exec (cfg : Config) (s : State) : Event → Except Failure State
  | .add r mmFeatures atStart =>
    match s.requests r with
    | none => .ok (s.set r (some { mmFeatures, atStart }))
    | some _ => .error .invalid
  | .tryWaiting r numHits attempt =>
    match s.requests r with
    | some life => if life.running then .error .invalid else s.tryWaiting cfg r life numHits attempt
    | none => .error .invalid
  | .run r attempt =>
    match s.requests r with
    | some life => if life.running then s.run cfg r life attempt else .error .invalid
    | none => .error .invalid
  | .preempt r =>
    match s.requests r with
    | some life => if life.running then .ok (s.preempt r life) else .error .invalid
    | none => .error .invalid
  | .executed r numRejected =>
    match s.requests r with
    | some life =>
      -- a token of the step is kept
      if 0 < life.underWay ∧ (life.numComputedTokens = 0 ∨ numRejected < life.numComputedTokens) then
        .ok (s.executed r life numRejected)
      else .error .invalid
    -- the request is already finished
    | none => .ok s
  | .finish r =>
    match s.requests r with
    | some life => .ok (s.finish r life)
    | none => .ok s
  | .getFreedMmHashes => .ok { s with cache := s.cache.getFreedMmHashes }
  | .resetEncoderCache => .ok s.resetEncoderCache

def init (cacheSize : Nat) : State where
  cache := { cacheSize, numFreeSlots := cacheSize }
  requests := fun _ => none
  held := 0

def numEmbeds (inputs : Multiset Input) : Nat := (inputs.map Input.numEmbeds).sum

/-- The free slots are those that no input takes. -/
def Balanced (s : State) : Prop :=
  s.cache.numFreeSlots ≤ s.cache.cacheSize ∧
    s.cache.numFreeSlots = s.cache.cacheSize - numEmbeds s.held

/-- The request whose inputs an event gives back: it is preempted, finished, or tried without
getting blocks, or a step was executed for it. -/
def givesBack (cfg : Config) (s : State) : Event → Option RequestId
  | .tryWaiting r numHits attempt => do
    let life ← s.requests r
    let trial ← (tryScheduleEncoderInputs cfg s.cache attempt numHits (life.inputs r)).toOption
    guard (trial.numNewTokens ≠ 0 ∧ attempt.hasBlocks = false)
    return r
  | .executed r _ => do
    let life ← s.requests r
    guard (0 < life.numComputedTokens)
    return r
  | .preempt r | .finish r => some r
  | _ => none

/-- Inputs are given back after an admission that had nothing computed, and once. -/
def GivesBackOnce (cfg : Config) (s : State) (event : Event) : Prop :=
  ∀ r ∈ givesBack cfg s event, ∀ life ∈ s.requests r, life.mmFeatures = [] ∨ life.holds = true

/-! ### The count -/

variable {cfg : Config} {s s' : State} {r : RequestId} {life : Life} {event : Event}

theorem numEmbeds_add (inputs others : Multiset Input) :
    numEmbeds (inputs + others) = numEmbeds inputs + numEmbeds others := by
  simp [numEmbeds]

theorem foldl_allocate (inputs : List Input) (c : EncoderDecoderCache) :
    (inputs.foldl allocate c).cacheSize = c.cacheSize ∧
      (inputs.foldl allocate c).numFreeSlots = c.numFreeSlots - numEmbeds inputs := by
  induction inputs generalizing c with
  | nil => simp [numEmbeds]
  | cons input inputs ih =>
    obtain ⟨size, free⟩ := ih (c.allocate input)
    refine ⟨size, free.trans ?_⟩
    simp only [allocate, numEmbeds, Multiset.map_coe, Multiset.sum_coe, map_cons, sum_cons]
    omega

theorem foldl_freeEncoderInput (inputs : List Input) (c : EncoderDecoderCache) :
    inputs.foldl freeEncoderInput c =
      { c with numFreeSlots := c.numFreeSlots + numEmbeds inputs } := by
  induction inputs generalizing c with
  | nil => simp [numEmbeds]
  | cons input inputs ih =>
    rw [foldl_cons, ih]
    simp [freeEncoderInput, numEmbeds, Int.add_assoc]

theorem Life.requestId_of_mem {input : Input} (mem : input ∈ life.inputs r) :
    input.requestId = r ∧ input.feature.offset = 0 := by
  obtain ⟨⟨feature, inputId⟩, isInput, rfl⟩ := mem_map.mp mem
  exact ⟨rfl, life.atStart feature (fst_mem_of_mem_zipIdx isInput)⟩

/-- Every input has an embedding. -/
theorem Life.numEmbeds_inputs (life : Life) (r : RequestId) :
    numEmbeds (life.inputs r) = 0 ↔ life.mmFeatures = [] := by
  simp only [numEmbeds, Multiset.sum_eq_zero_iff, Multiset.mem_map, Multiset.mem_coe]
  constructor
  · intro none
    cases features : life.mmFeatures with
    | nil => rfl
    | cons feature features =>
      have first : (⟨r, 0, feature⟩ : Input) ∈ life.inputs r := by simp [inputs, features]
      exact absurd (none _ ⟨_, first, rfl⟩) feature.length_pos.ne'
  · rintro empty _ ⟨input, mem, -⟩
    simp [inputs, empty] at mem

/-! ### What an admission takes -/

section Trial

variable {c : EncoderDecoderCache} {attempt : Attempt} {inputs : List Input} {trial trial' : Trial}

theorem tryInputs_of_pos {numComputedTokens : Nat} (past : 0 < numComputedTokens)
    (run : tryInputs cfg c attempt numComputedTokens inputs trial = .ok trial') :
    trial' = trial := by
  induction inputs with
  | nil =>
    cases run
    rfl
  | cons input inputs ih =>
    rw [tryInputs, if_pos past] at run
    split at run
    · exact ih run
    · cases run

/-- With nothing computed, a request that gets tokens gets all its inputs: an input for which there
is no room takes the tokens away. -/
theorem tryInputs_zero (atStart : ∀ input ∈ inputs, input.feature.offset = 0)
    (run : tryInputs cfg c attempt 0 inputs trial = .ok trial') (tokens : trial.numNewTokens ≠ 0)
    (scheduled : trial'.numNewTokens ≠ 0) :
    (trial'.taken : Multiset Input) = trial.taken + inputs := by
  induction inputs generalizing trial with
  | nil =>
    cases run
    simp
  | cons input inputs ih =>
    have start := atStart input mem_cons_self
    have later : ∀ other ∈ inputs, other.feature.offset = 0 := fun other mem =>
      atStart other (mem_cons_of_mem _ mem)
    have length := input.feature.length_pos
    simp only [tryInputs, start, Nat.lt_irrefl, if_false, false_and, and_false, Nat.zero_sub] at run
    split_ifs at run with noRoom noRange external
    · cases run
      exact absurd rfl scheduled
    · omega
    · rw [ih later run tokens]
      simp only [Trial.taken, Multiset.coe_add, append_assoc, singleton_append]
    · rw [ih later run tokens]
      simp only [Trial.taken, Multiset.coe_add, append_assoc, singleton_append]
      exact Multiset.coe_eq_coe.mpr (perm_middle.symm.append_left _)

theorem tryScheduleEncoderInputs_taken {numComputedTokens : Nat}
    (run : tryScheduleEncoderInputs cfg c attempt numComputedTokens (life.inputs r) = .ok trial)
    (scheduled : trial.numNewTokens ≠ 0) :
    (trial.taken : Multiset Input) = if numComputedTokens = 0 then ↑(life.inputs r) else 0 := by
  unfold tryScheduleEncoderInputs at run
  split at run
  · rename_i none
    cases run
    exact absurd none scheduled
  · rename_i tokens
    split
    · rename_i zero
      subst zero
      have all : (life.inputs r).takeWhile (fun input =>
          input.feature.offset < 0 + attempt.numNewTokens + cfg.shiftComputedTokens) =
          life.inputs r := by
        refine takeWhile_eq_self_iff.mpr fun input mem => ?_
        rw [(life.requestId_of_mem mem).2, decide_eq_true_eq]
        omega
      dsimp only at run
      rw [all] at run
      rw [tryInputs_zero (fun input mem => (life.requestId_of_mem mem).2) run tokens scheduled]
      simp [Trial.taken]
    · rename_i past
      cases tryInputs_of_pos (Nat.pos_of_ne_zero past) run
      rfl

end Trial

/-! ### Runs -/

/-- The inputs that the request has. -/
def Life.held (life : Life) (r : RequestId) : Multiset Input :=
  if life.holds then life.inputs r else 0

/-- A running request has computed tokens, and a waiting one has no inputs. -/
def Life.Ok (life : Life) : Prop :=
  (life.running = true → 0 < life.numComputedTokens) ∧ (life.running = false → life.holds = false)

/-- What holds between the events. -/
structure Inv (s : State) : Prop where
  balanced : Balanced s
  held : ∀ r, s.held.filter (·.requestId = r) = (s.requests r).elim 0 (·.held r)
  ok : ∀ {r life}, s.requests r = some life → life.Ok

theorem State.requests_set_self (t : State) (r : RequestId) (life : Option Life) :
    (t.set r life).requests r = life := Function.update_self ..

theorem State.requests_set_of_ne (t : State) (life : Option Life) {other : RequestId}
    (ne : other ≠ r) : (t.set r life).requests other = t.requests other := Function.update_of_ne ne ..

/-- An event that is about one request, and leaves the inputs of the others. -/
theorem Inv.set (inv : Inv s) {t : State} {life : Option Life} (requests : t.requests = s.requests)
    (balanced : Balanced t)
    (others : ∀ other, other ≠ r →
      t.held.filter (·.requestId = other) = s.held.filter (·.requestId = other))
    (mine : t.held.filter (·.requestId = r) = life.elim 0 (·.held r))
    (ok : ∀ l, life = some l → l.Ok) : Inv (t.set r life) where
  balanced := balanced
  held := by
    intro other
    by_cases same : other = r
    · rw [same, State.requests_set_self]
      exact mine
    · rw [State.requests_set_of_ne t life same, requests, ← inv.held other]
      exact others other same
  ok := by
    intro other l found
    by_cases same : other = r
    · rw [same, State.requests_set_self] at found
      exact ok l found
    · rw [State.requests_set_of_ne t life same, requests] at found
      exact inv.ok found

theorem filter_inputs (life : Life) (r other : RequestId) :
    (life.inputs r : Multiset Input).filter (·.requestId = other) =
      if other = r then ↑(life.inputs r) else 0 := by
  split
  · rename_i same
    exact Multiset.filter_eq_self.mpr fun input mem => (life.requestId_of_mem mem).1.trans same.symm
  · rename_i ne
    refine Multiset.filter_eq_nil.mpr fun input mem same => ne ?_
    exact same.symm.trans (life.requestId_of_mem mem).1

/-- The count stays right if the inputs that are given back are held. -/
theorem Inv.balanced_giveBack (inv : Inv s) (found : s.requests r = some life) :
    Balanced (s.giveBack (life.inputs r)) ↔ life.mmFeatures = [] ∨ life.holds = true := by
  have mine := inv.held r
  rw [found, Option.elim_some, Life.held] at mine
  have before := inv.balanced.2
  have none := life.numEmbeds_inputs r
  simp only [Balanced, State.giveBack, foldl_freeEncoderInput]
  by_cases holds : life.holds = true
  · rw [if_pos holds] at mine
    have sub : (life.inputs r : Multiset Input) ≤ s.held := mine ▸ Multiset.filter_le _ _
    have parts := numEmbeds_add (s.held - life.inputs r) (life.inputs r)
    rw [tsub_add_cancel_of_le sub] at parts
    refine iff_of_true ?_ (.inr holds)
    omega
  · rw [if_neg holds] at mine
    have untouched : s.held - life.inputs r = s.held := by
      refine Multiset.ext.mpr fun input => ?_
      rw [Multiset.count_sub]
      by_cases mem : input ∈ life.inputs r
      · have notHeld : input ∉ s.held := fun isHeld =>
          Multiset.filter_eq_nil.mp mine input isHeld (life.requestId_of_mem mem).1
        rw [Multiset.count_eq_zero_of_notMem notHeld, Nat.zero_sub]
      · rw [Multiset.count_eq_zero_of_notMem (Multiset.mem_coe.not.mpr mem), Nat.sub_zero]
    rw [untouched, or_iff_left holds, ← none]
    omega

theorem Inv.giveBack (inv : Inv s) (found : s.requests r = some life)
    (once : life.mmFeatures = [] ∨ life.holds = true) {life' : Option Life}
    (ok : ∀ l, life' = some l → l.holds = false ∧ l.Ok) :
    Inv ((s.giveBack (life.inputs r)).set r life') := by
  have mine := inv.held r
  rw [found, Option.elim_some, Life.held] at mine
  refine inv.set rfl ((inv.balanced_giveBack found).mpr once) (fun other ne => ?_) ?_
    fun l isLife => (ok l isLife).2
  · rw [State.giveBack, Multiset.filter_sub, filter_inputs, if_neg ne, tsub_zero]
  · rw [State.giveBack, Multiset.filter_sub, filter_inputs, if_pos rfl, mine]
    have released : life'.elim 0 (·.held r) = 0 := by
      cases isLife : life' with
      | none => rfl
      | some l => exact if_neg (by simp [(ok l isLife).1])
    rw [released]
    rcases once with empty | holds
    · simp [Life.inputs, empty]
    · rw [if_pos holds, tsub_self]

/-- A request gets tokens and the inputs that it then has. -/
theorem Inv.place (inv : Inv s) (found : s.requests r = some life) {numComputedTokens : Nat}
    {attempt : Attempt} {trial : Trial} {holds : Bool}
    (run : tryScheduleEncoderInputs cfg s.cache attempt numComputedTokens (life.inputs r) = .ok trial)
    (scheduled : trial.numNewTokens ≠ 0)
    (whose : holds = if numComputedTokens = 0 then true else life.holds)
    (unheld : numComputedTokens = 0 ∨ life.running = false → life.holds = false) :
    Inv (s.place r { life with numComputedTokens, holds } trial) := by
  have taken := tryScheduleEncoderInputs_taken run scheduled
  have mine := inv.held r
  rw [found, Option.elim_some, Life.held] at mine
  refine inv.set rfl ?_ (fun other ne => ?_) ?_ ?_
  · obtain ⟨size, free⟩ := foldl_allocate trial.taken s.cache
    have before := inv.balanced.2
    simp only [Balanced, State.take, size, free, numEmbeds_add]
    omega
  · rw [State.take, Multiset.filter_add, taken]
    split
    · rw [filter_inputs, if_neg ne, add_zero]
    · rw [Multiset.filter_zero, add_zero]
  · rw [State.take, Multiset.filter_add, mine, taken]
    subst whose
    by_cases zero : numComputedTokens = 0
    · simp only [if_pos zero, unheld (.inl zero), filter_inputs, if_pos, Option.elim_some, Life.held,
        Bool.false_eq_true, if_false, zero_add]
      rfl
    · simp only [if_neg zero, Multiset.filter_zero, add_zero, Option.elim_some, Life.held]
      rfl
  · intro l isLife
    cases isLife
    exact ⟨fun _ => Nat.add_pos_right _ (Nat.pos_of_ne_zero scheduled), nofun⟩

/-- A request that was preempted since the step has nothing to give back. -/
theorem State.executed_of_zero {numRejected : Nat} (zero : life.numComputedTokens = 0) :
    s.executed r life numRejected =
      s.set r (some { life with underWay := life.underWay - 1 }) := by
  have noneFreed : (life.inputs r).filter (fun input =>
      0 < life.numComputedTokens - numRejected ∨
        input.feature.stop ≤ life.numComputedTokens - numRejected) = [] := by
    refine filter_eq_nil_iff.mpr fun input mem => ?_
    have := input.feature.length_pos
    simp only [zero, MMFeature.stop, Nat.zero_sub, decide_eq_true_eq]
    omega
  rw [State.executed, noneFreed]
  simp [State.giveBack, zero]

theorem State.executed_of_lt {numRejected : Nat} (lt : numRejected < life.numComputedTokens) :
    s.executed r life numRejected = (s.giveBack (life.inputs r)).set r (some { life with
      numComputedTokens := life.numComputedTokens - numRejected
      underWay := life.underWay - 1
      holds := false }) := by
  have pos : 0 < life.numComputedTokens - numRejected := Nat.sub_pos_of_lt lt
  have allFreed : (life.inputs r).filter (fun input =>
      0 < life.numComputedTokens - numRejected ∨
        input.feature.stop ≤ life.numComputedTokens - numRejected) = life.inputs r :=
    filter_eq_self.mpr fun input mem => decide_eq_true (.inl pos)
  rw [State.executed, allFreed]
  simp [pos.ne']

theorem givesBack_tryWaiting {numHits : Nat} {attempt : Attempt} {trial : Trial}
    (found : s.requests r = some life)
    (tried : tryScheduleEncoderInputs cfg s.cache attempt numHits (life.inputs r) = .ok trial) :
    givesBack cfg s (.tryWaiting r numHits attempt) =
      if trial.numNewTokens ≠ 0 ∧ attempt.hasBlocks = false then some r else none := by
  simp only [givesBack, found, tried, Except.toOption, Option.bind_eq_bind, Option.bind_some, guard]
  split_ifs <;> rfl

/-- The event gives the inputs of a request back, or keeps the count. -/
def Settles (cfg : Config) (s : State) (event : Event) (s' : State) : Prop :=
  (∃ r life life', givesBack cfg s event = some r ∧ s.requests r = some life ∧
    (∀ l, life' = some l → l.holds = false ∧ l.Ok) ∧
    s' = (s.giveBack (life.inputs r)).set r life') ∨
  (∀ r ∈ givesBack cfg s event, s.requests r = none) ∧ Inv s'

theorem Inv.add (inv : Inv s) (new : s.requests r = none) (mmFeatures : List MMFeature)
    (atStart : ∀ feature ∈ mmFeatures, feature.offset = 0) :
    Inv (s.set r (some { mmFeatures, atStart })) := by
  refine inv.set rfl inv.balanced (fun _ _ => rfl) ?_ ?_
  · rw [inv.held r, new]
    rfl
  · intro l isLife
    cases isLife
    exact ⟨nofun, fun _ => rfl⟩

theorem Inv.tryWaiting (inv : Inv s) (found : s.requests r = some life)
    (waiting : life.running = false) {numHits : Nat} {attempt : Attempt}
    (run : s.tryWaiting cfg r life numHits attempt = .ok s') :
    Settles cfg s (.tryWaiting r numHits attempt) s' := by
  have free := (inv.ok found).2 waiting
  obtain ⟨trial, tried, run⟩ := bind_eq_ok.mp run
  have gives := givesBack_tryWaiting found tried
  split_ifs at run with none blocks
  · cases run
    exact .inr ⟨by simp [gives, none], inv⟩
  · cases run
    refine .inr ⟨by simp [gives, blocks], inv.place found tried none ?_ fun _ => free⟩
    rw [free]
    split <;> simp_all
  · cases run
    refine .inl ⟨r, life, some life, by simp [gives, none, blocks], found, ?_, ?_⟩
    · intro l isLife
      cases isLife
      exact ⟨free, inv.ok found⟩
    · rw [State.set, ← found]
      simp [State.giveBack]

theorem Inv.run (inv : Inv s) (found : s.requests r = some life) (running : life.running = true)
    {attempt : Attempt} (run : s.run cfg r life attempt = .ok s') : Inv s' := by
  have past := (inv.ok found).1 running
  obtain ⟨trial, tried, run⟩ := bind_eq_ok.mp run
  split at run
  · cases run
    exact inv
  · rename_i placed
    cases run
    simp only [Bool.or_eq_true, decide_eq_true_eq, not_or] at placed
    refine inv.place found tried placed.1 (if_neg past.ne').symm ?_
    rintro (zero | waiting)
    · exact absurd zero past.ne'
    · exact absurd (running.symm.trans waiting) nofun

theorem Inv.executed (inv : Inv s) (found : s.requests r = some life) {numRejected : Nat}
    (kept : life.numComputedTokens = 0 ∨ numRejected < life.numComputedTokens) :
    Settles cfg s (.executed r numRejected) (s.executed r life numRejected) := by
  rcases kept with zero | pos
  · rw [State.executed_of_zero zero]
    refine .inr ⟨by simp [givesBack, found, zero, guard], ?_⟩
    refine inv.set rfl inv.balanced (fun _ _ => rfl) ?_ ?_
    · rw [inv.held r, found]
      rfl
    · intro l isLife
      cases isLife
      have ok : life.Ok := inv.ok found
      exact ok
  · refine .inl ⟨r, life, _, ?_, found, ?_, State.executed_of_lt pos⟩
    · simp [givesBack, found, guard, Nat.zero_lt_of_lt pos]
    · intro l isLife
      cases isLife
      exact ⟨rfl, fun _ => Nat.sub_pos_of_lt pos, fun _ => rfl⟩

theorem Inv.resetEncoderCache (inv : Inv s) : Inv s.resetEncoderCache where
  balanced := by simp [Balanced, State.resetEncoderCache, reset, numEmbeds]
  held := by
    intro r
    simp only [State.resetEncoderCache]
    cases s.requests r <;> rfl
  ok := by
    intro r life found
    obtain ⟨before, isBefore, rfl⟩ := Option.map_eq_some_iff.mp found
    exact ⟨(inv.ok isBefore).1, fun _ => rfl⟩

theorem Inv.settles (inv : Inv s) (run : exec cfg s event = .ok s') : Settles cfg s event s' := by
  cases event with
  | add r mmFeatures atStart =>
    simp only [exec] at run
    split at run
    · cases run
      exact .inr ⟨nofun, inv.add ‹_› mmFeatures atStart⟩
    · cases run
  | tryWaiting r numHits attempt =>
    simp only [exec] at run
    split at run
    · split at run
      · cases run
      · exact inv.tryWaiting ‹_› (Bool.not_eq_true _ ▸ ‹_›) run
    · cases run
  | run r attempt =>
    simp only [exec] at run
    split at run
    · split at run
      · exact .inr ⟨nofun, inv.run ‹_› ‹_› run⟩
      · cases run
    · cases run
  | preempt r =>
    simp only [exec] at run
    split at run
    · rename_i life found
      split at run
      · cases run
        refine .inl ⟨r, life, _, rfl, found, ?_, rfl⟩
        intro l isLife
        cases isLife
        exact ⟨rfl, nofun, fun _ => rfl⟩
      · cases run
    · cases run
  | executed r numRejected =>
    simp only [exec] at run
    split at run
    · split at run
      · rename_i kept
        cases run
        exact inv.executed ‹_› kept.2
      · cases run
    · rename_i unknown
      cases run
      exact .inr ⟨by simp [givesBack, unknown], inv⟩
  | finish r =>
    simp only [exec] at run
    split at run
    · rename_i life found
      cases run
      exact .inl ⟨r, life, none, rfl, found, nofun, rfl⟩
    · rename_i unknown
      cases run
      exact .inr ⟨fun other same => Option.some.inj same ▸ unknown, inv⟩
  | getFreedMmHashes =>
    cases run
    exact .inr ⟨nofun, inv.balanced, inv.held, inv.ok⟩
  | resetEncoderCache =>
    cases run
    exact .inr ⟨nofun, inv.resetEncoderCache⟩

theorem Inv.step (inv : Inv s) (run : exec cfg s event = .ok s')
    (once : GivesBackOnce cfg s event) : Inv s' := by
  rcases inv.settles run with ⟨r, life, life', gives, found, ok, rfl⟩ | ⟨-, inv'⟩
  · exact inv.giveBack found (once r gives life found) ok
  · exact inv'

theorem Inv.unbalanced (inv : Inv s) (run : exec cfg s event = .ok s')
    (again : ¬ GivesBackOnce cfg s event) : ¬ Balanced s' := by
  unfold GivesBackOnce at again
  push Not at again
  obtain ⟨r, gives, life, found, notOnce⟩ := again
  rcases inv.settles run with ⟨r', life', left, gives', found', -, rfl⟩ | ⟨unknown, -⟩
  · cases gives.symm.trans gives'
    cases found.symm.trans found'
    intro balanced
    rcases (inv.balanced_giveBack found).mp balanced with empty | holds
    · exact notOnce.1 empty
    · exact notOnce.2 holds
  · cases found.symm.trans (unknown r gives)

/-- In every run the count of free slots is right in all states, if and only if the inputs of a
request are given back at most once after each admission that had nothing computed, and not
otherwise. -/
theorem balanced_iff (cfg : Config) (cacheSize : Nat) {events : List Event}
    (ends : events.foldlM (exec cfg) (init cacheSize) = .ok s') :
    (∀ done t, done <+: events → done.foldlM (exec cfg) (init cacheSize) = .ok t → Balanced t) ↔
      AlongOk (GivesBackOnce cfg) (exec cfg) (init cacheSize) events := by
  have start : Inv (init cacheSize) :=
    ⟨by simp [Balanced, init, numEmbeds], fun r => rfl, nofun⟩
  exact forall_reached_iff Inv.balanced Inv.step Inv.unbalanced start ends

/-! ### Two runs -/

instance : Decidable (GivesBackOnce cfg s event) :=
  inferInstanceAs (Decidable (∀ r ∈ givesBack cfg s event, ∀ life ∈ s.requests r, _ ∨ _))

def addAudio (r : RequestId) : Event :=
  .add r [⟨"audio", 0, 1, Nat.one_pos⟩] (by simp)

/-- Requests without encoder inputs. -/
def addText (r : RequestId) : Event := .add r [] nofun

def oneToken : Attempt where
  numNewTokens := 1
  encoderComputeBudget := 8

/-- A request with one embedding is admitted and two steps are executed for it. -/
theorem two_steps_not_balanced : ∃ s,
    [addAudio 0, .tryWaiting 0 0 oneToken, .executed 0 0, .run 0 oneToken, .executed 0 0].foldlM
      (exec {}) (init 4) = .ok s ∧
    s.cache.numFreeSlots = 5 ∧ s.held = 0 ∧ ¬ Balanced s :=
  ⟨_, rfl, rfl, by decide, fun balanced => absurd balanced.1 (by decide)⟩

/-- A request is preempted before its first step returns, admitted again and executed once, beside
one without inputs that runs to its end. -/
def executedOnce : List Event :=
  [addAudio 0, addText 1, .tryWaiting 0 0 oneToken, .tryWaiting 1 0 oneToken, .preempt 0,
    .executed 0 0, .executed 1 0, .tryWaiting 0 0 oneToken, .run 1 oneToken, .getFreedMmHashes,
    .executed 0 0, .executed 1 0, .finish 1]

theorem executedOnce_balanced : ∃ s,
    executedOnce.foldlM (exec {}) (init 4) = .ok s ∧ s.cache.numFreeSlots = 4 ∧ Balanced s := by
  have ends : executedOnce.foldlM (exec {}) (init 4) = .ok _ := rfl
  exact ⟨_, ends, rfl, (balanced_iff {} 4 ends).mpr (by decide) _ _ prefix_rfl ends⟩

end EncoderDecoderCache

end Vllm.Sched
