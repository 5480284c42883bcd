import Vllm.Lib.Ceil
import Vllm.Lib.Fallible
import Vllm.Lib.Steps

/-!
The scheduler side of AscendStore
(`vllm_ascend/distributed/kv_transfer/kv_pool/ascend_store/pool_scheduler.py`, `config_data.py`).

`KVPoolScheduler` has a tracker for each request and derives from it what is to be saved. In its
prompt a tracker is advanced only by a step that brings new blocks, so it falls behind when the
tokens of a step fit into the blocks that the request has. It counts on where it was, so it runs
ahead when the request goes back without being reported as preempted (`follows_iff`).

A run is seen from one request: the loops of `build_connector_meta` visit each once. Block ids,
keys and addresses are left out, and the partial block of `from_request_tracker`, as this side
never sets `last_block_gva`.
-/

namespace Vllm.Ascend.Pool

open Vllm.Lib.Ceil Vllm.Lib.Fallible Vllm.Lib.Steps

structure PoolConfig where
  cacheTransferGranularity : Nat
  granularity_pos : 0 < cacheTransferGranularity
  blockSize : Nat
  /-- Whether `kv_role` is `kv_consumer`. -/
  isConsumer : Bool := false
  consumerIsToPut : Bool := false
  discardPartialChunks : Bool := true
  saveDecodeCache : Bool := false

structure RequestTracker where
  tokenLen : Nat
  numSavedTokens : Nat := 0

structure ReqMeta where
  saveStartToken : Nat
  saveEndToken : Nat
  canSave : Bool
  isLastChunk : Option Bool

/-- What `KVPoolScheduler` has for a request. Of a load spec it reads `kvpool_cached_tokens`. -/
structure Entry where
  loadSpec : Option Nat := none
  tracker : Option RequestTracker := none
  preempted : Bool := false
  unfinished : Bool := false

/-- The part of a `SchedulerOutput` that a request is in. -/
inductive Part where
  | new
  | cached (newBlockIds : Bool)
  | unscheduled
  deriving DecidableEq

/-- What a step has for a request, and what came before it: the load spec of
`get_num_new_matched_tokens`, and whether `update_state_after_alloc` was called. -/
structure Turn where
  loadSpec : Option Nat := none
  allocated : Bool := false
  finished : Bool := false
  preempted : Bool := false
  numComputedTokens : Nat := 0
  numPromptTokens : Nat
  numBlockHashes : Nat
  numScheduledTokens : Nat := 0
  part : Part

/-- What `build_connector_meta` does for a request. -/
structure Outcome where
  entry : Entry
  reqMeta : Option ReqMeta := none
  /-- The `is_last_chunk` of `_build_req_meta`, if the step came there. -/
  isLastChunk : Option Bool := none

inductive PoolError where
  | notUnfinished
  | notTracked
  | notScheduled

variable (cfg : PoolConfig) (turn : Turn) (entry : Entry)

/-! ### Metadata -/

/-- `_floor_to_cache_transfer_granularity`. -/
def PoolConfig.floor (n : Nat) : Nat :=
  n / cfg.cacheTransferGranularity * cfg.cacheTransferGranularity

/-- Where the first chunk ends that is not saved. -/
def chunkBoundary (numSavedTokens : Nat) : Nat :=
  if cfg.discardPartialChunks then
    cdiv (numSavedTokens + 1) cfg.cacheTransferGranularity * cfg.cacheTransferGranularity
  else 0

def numTokensToSave (tokenLen numBlockHashes : Nat) : Nat :=
  -- a boundary without a hash
  if 0 < tokenLen ∧ tokenLen % cfg.cacheTransferGranularity = 0 ∧
      numBlockHashes < tokenLen / cfg.cacheTransferGranularity then
    numBlockHashes * cfg.cacheTransferGranularity
  else if cfg.discardPartialChunks then cfg.floor tokenLen else tokenLen

/-- `ReqMeta.from_request_tracker`, with the tracker afterwards. -/
def fromRequestTracker (tracker : RequestTracker) (load skipSave : Bool) (numBlockHashes : Nat)
    (isLastChunk : Option Bool) : Option ReqMeta × RequestTracker :=
  let toSave := numTokensToSave cfg tracker.tokenLen numBlockHashes
  if skipSave || toSave < chunkBoundary cfg tracker.numSavedTokens then
    (if load then some ⟨tracker.numSavedTokens, toSave, false, isLastChunk⟩ else none, tracker)
  else
    (some ⟨tracker.numSavedTokens, toSave, true, isLastChunk⟩,
      { tracker with numSavedTokens := max tracker.numSavedTokens toSave })

/-- `_get_last_chunk_tokens_num`. -/
def getLastChunkTokensNum (numPromptTokens : Nat) : Nat :=
  if cfg.discardPartialChunks then cfg.floor numPromptTokens else numPromptTokens

def forceSkipSave : Bool := cfg.isConsumer && !cfg.consumerIsToPut

/-- `_build_req_meta`, after which the entry has the tracker. -/
def buildReqMeta (tracker : RequestTracker) (load : Bool) : Outcome :=
  let isLastChunk := some (getLastChunkTokensNum cfg turn.numPromptTokens ≤ tracker.tokenLen : Bool)
  let (reqMeta, tracker) :=
    fromRequestTracker cfg tracker load (forceSkipSave cfg) turn.numBlockHashes isLastChunk
  { entry := { entry with tracker := some tracker }, reqMeta, isLastChunk }

def Turn.numTokens : Nat := turn.numComputedTokens + turn.numScheduledTokens

def Turn.isDecoding : Bool := turn.numPromptTokens ≤ turn.numComputedTokens

def processNewRequest : Except PoolError Outcome :=
  if entry.unfinished then
    .ok (buildReqMeta cfg turn { entry with loadSpec := none } { tokenLen := turn.numTokens }
      entry.loadSpec.isSome)
  else .error .notUnfinished

def processPreemptedCachedRequest : Except PoolError Outcome :=
  processNewRequest cfg turn { entry with preempted := false }

def processRunningCachedRequest : Except PoolError Outcome :=
  if entry.unfinished && turn.isDecoding && !cfg.saveDecodeCache then .ok { entry }
  else
    match entry.tracker with
    | none => .error .notTracked
    | some tracker =>
      if entry.unfinished then
        .ok (buildReqMeta cfg turn entry
          { tracker with tokenLen := tracker.tokenLen + turn.numScheduledTokens } false)
      else .error .notUnfinished

/-- The tokens that an asynchronous load brings. -/
def numTokensToCompute (cached : Nat) : Nat :=
  if cached % cfg.blockSize ≠ 0 ∧ cached + 1 = turn.numPromptTokens then cached + 1 else cached

def processAsyncLoadRequest : Outcome :=
  match entry.loadSpec with
  | none => { entry }
  | some cached =>
    let (reqMeta, tracker) := fromRequestTracker cfg
      { tokenLen := numTokensToCompute cfg turn cached } true false turn.numBlockHashes none
    { entry := { entry with loadSpec := none, tracker := some tracker }, reqMeta }

/-- The step ends the request, or takes its blocks. -/
def Turn.gone : Bool := turn.finished || turn.preempted

/-- The entry when the loops of `build_connector_meta` start. -/
def Entry.prepare : Entry where
  loadSpec := turn.loadSpec.or entry.loadSpec
  tracker := if turn.gone then none else entry.tracker
  preempted := (entry.preempted && !turn.finished) || turn.preempted
  unfinished := (entry.unfinished || turn.allocated) && !turn.gone

def buildConnectorMeta : Except PoolError Outcome :=
  let entry := entry.prepare turn
  match turn.part with
  | .new => processNewRequest cfg turn entry
  | .cached newBlockIds =>
    if forceSkipSave cfg || !newBlockIds then .ok { entry }
    else if entry.preempted then processPreemptedCachedRequest cfg turn entry
    else processRunningCachedRequest cfg turn entry
  | .unscheduled =>
    .ok (if entry.unfinished then processAsyncLoadRequest cfg turn entry else { entry })

/-! ### Runs -/

/-- A request in a run. -/
structure System where
  entry : Entry := {}
  /-- Where the request is: where a step in its prompt or a load has left it, and what decode steps
  that are saved have added. -/
  computed : Option Nat := none
  /-- The length of the prompt, from the first step on. -/
  numPromptTokens : Option Nat := none
  /-- Whether the last step scheduled the request in its prompt. -/
  inPrompt : Bool := false
  /-- What the last step found and returned, and what all steps returned. -/
  isLastChunk : Option Bool := none
  reqMeta : Option ReqMeta := none
  log : List ReqMeta := []

/-- The request is scheduled before its prompt is computed. -/
def Turn.InPrompt : Prop := turn.part ≠ .unscheduled ∧ turn.isDecoding = false

instance : Decidable turn.InPrompt := inferInstanceAs (Decidable (_ ∧ _))

/-- What the scheduler keeps to: a scheduled request is neither finished nor preempted, the full
chunks of a prompt have hashes, and a prompt changes only with a streamed input, after which the
request is new again. -/
def Schedules (s : System) : Prop :=
  (turn.part ≠ .unscheduled → turn.gone = false) ∧
  turn.numPromptTokens / cfg.cacheTransferGranularity ≤ turn.numBlockHashes ∧
  ∀ numPromptTokens ∈ s.numPromptTokens, turn.part = .new ∨ turn.numPromptTokens = numPromptTokens

instance (s : System) : Decidable (Schedules cfg turn s) := inferInstanceAs (Decidable (_ ∧ _ ∧ _))

/-- Where a step takes a tracker of `computed` tokens. -/
def track (computed : Option Nat) : Option Nat :=
  match turn.part with
  | .new => some turn.numTokens
  | .cached true =>
    if entry.preempted then some turn.numTokens
    else if turn.isDecoding && !cfg.saveDecodeCache then computed
    else computed.map (· + turn.numScheduledTokens)
  | .cached false => computed
  | .unscheduled =>
    if entry.unfinished then (entry.loadSpec.map (numTokensToCompute cfg turn)).or computed
    else computed

/-- Where the request is when the step starts. -/
def System.kept (s : System) : Option Nat := if turn.gone then none else s.computed

def System.after (s : System) (outcome : Outcome) : System where
  entry := outcome.entry
  computed :=
    if turn.InPrompt then some turn.numTokens
    else track cfg turn (s.entry.prepare turn) (s.kept turn)
  numPromptTokens := some turn.numPromptTokens
  inPrompt := turn.InPrompt
  isLastChunk := outcome.isLastChunk
  reqMeta := outcome.reqMeta
  log := s.log ++ outcome.reqMeta.toList

def exec (s : System) (turn : Turn) : Except PoolError System :=
  if Schedules cfg turn s then do
    let outcome ← buildConnectorMeta cfg turn s.entry
    return s.after cfg turn outcome
  else .error .notScheduled

/-- The token is in the range of a save request. -/
def Saved (log : List ReqMeta) (token : Nat) : Prop :=
  ∃ m ∈ log, m.canSave = true ∧ m.saveStartToken ≤ token ∧ token < m.saveEndToken

/-- The tracker of a request that is scheduled in its prompt is where the request is, the end of
the prompt is recognised, and all full chunks of the prompt so far have been saved. -/
def Follows (s : System) : Prop :=
  s.inPrompt = true → ∃ n numPromptTokens,
    s.computed = some n ∧ s.numPromptTokens = some numPromptTokens ∧
    s.entry.tracker.map (·.tokenLen) = some n ∧
    (numPromptTokens ≤ n →
      s.isLastChunk = some true ∧ ∀ m ∈ s.reqMeta, m.isLastChunk = some true) ∧
    ∀ token < cfg.floor (min n numPromptTokens), Saved s.log token

/-- A request that is scheduled in its prompt again gets new blocks, and goes on where it was or
was reported as preempted. Without new blocks it comes no further than it was, and not to the end
of the prompt. -/
def GoesOn (s : System) (turn : Turn) : Prop :=
  turn.InPrompt →
    (turn.part = .cached true →
      s.entry.preempted = true ∨ s.computed = some turn.numComputedTokens) ∧
    (turn.part = .cached false →
      s.computed = some turn.numTokens ∧ turn.numTokens < turn.numPromptTokens)

variable {cfg turn entry} {log log' : List ReqMeta} {tracker : RequestTracker} {load : Bool}
  {s s' : System} {outcome : Outcome} {computed : Option Nat} {numPromptTokens : Nat}

theorem Saved.mono (sub : log ⊆ log') {token : Nat} (saved : Saved log token) :
    Saved log' token := by
  obtain ⟨m, mem, found⟩ := saved
  exact ⟨m, sub mem, found⟩

/-- The full chunks of the prompt that the tracker has come to are saved. -/
def Covers (cfg : PoolConfig) (numPromptTokens : Nat) (log : List ReqMeta)
    (tracker : RequestTracker) : Prop :=
  cfg.floor (min tracker.tokenLen numPromptTokens) ≤ tracker.numSavedTokens ∧
    ∀ token < tracker.numSavedTokens, Saved log token

/-- The tracker has come to `computed` tokens. -/
def Tracks (cfg : PoolConfig) (numPromptTokens : Nat) (log : List ReqMeta) (computed : Option Nat)
    (entry : Entry) : Prop :=
  entry.tracker.map (·.tokenLen) = computed ∧
    ∀ tracker ∈ entry.tracker, Covers cfg numPromptTokens log tracker

theorem PoolConfig.floor_mono {m n : Nat} (le : m ≤ n) : cfg.floor m ≤ cfg.floor n :=
  Nat.mul_le_mul_right _ (Nat.div_le_div_right le)

theorem PoolConfig.floor_le (n : Nat) : cfg.floor n ≤ n := Nat.div_mul_le_self _ _

theorem floor_le_numTokensToSave (tokenLen : Nat) {numBlockHashes : Nat}
    (hashed : numPromptTokens / cfg.cacheTransferGranularity ≤ numBlockHashes) :
    cfg.floor (min tokenLen numPromptTokens) ≤ numTokensToSave cfg tokenLen numBlockHashes := by
  have upToHere := cfg.floor_mono (min_le_left tokenLen numPromptTokens)
  unfold numTokensToSave
  split_ifs
  · exact (cfg.floor_mono (min_le_right _ _)).trans (Nat.mul_le_mul_right _ hashed)
  · exact upToHere
  · exact upToHere.trans (cfg.floor_le _)

/-- What is not saved for want of a full chunk has been saved before. -/
theorem le_of_lt_chunkBoundary {n numSavedTokens : Nat}
    (below : n < chunkBoundary cfg numSavedTokens) : cfg.floor n ≤ numSavedTokens := by
  unfold chunkBoundary at below
  split at below
  · have := (lt_cdiv_iff cfg.granularity_pos).mp
      ((Nat.div_lt_iff_lt_mul cfg.granularity_pos).mpr below)
    exact Nat.le_of_lt_succ this
  · exact absurd below (Nat.not_lt_zero _)

theorem fromRequestTracker_covers (load : Bool) (isLastChunk : Option Bool) {numBlockHashes : Nat}
    (hashed : numPromptTokens / cfg.cacheTransferGranularity ≤ numBlockHashes)
    (before : ∀ token < tracker.numSavedTokens, Saved log token) :
    let (reqMeta, tracker') :=
      fromRequestTracker cfg tracker load false numBlockHashes isLastChunk
    tracker'.tokenLen = tracker.tokenLen ∧
      Covers cfg numPromptTokens (log ++ reqMeta.toList) tracker' ∧
      ∀ m ∈ reqMeta, m.isLastChunk = isLastChunk := by
  have least := floor_le_numTokensToSave tracker.tokenLen hashed
  unfold fromRequestTracker
  simp only [Bool.false_or, decide_eq_true_eq]
  split
  · rename_i below
    refine ⟨rfl, ⟨?_, fun token lt => ?_⟩, fun m mem => ?_⟩
    · have saved := (cfg.floor_mono least).trans (le_of_lt_chunkBoundary below)
      rwa [PoolConfig.floor, PoolConfig.floor,
        Nat.mul_div_cancel _ cfg.granularity_pos] at saved
    · exact (before token lt).mono (List.subset_append_left ..)
    · cases load <;> cases mem
      rfl
  · refine ⟨rfl, ⟨least.trans (le_max_right _ _), fun token lt => ?_⟩, fun m mem => ?_⟩
    · rcases lt_or_ge token tracker.numSavedTokens with old | new
      · exact (before token old).mono (List.subset_append_left ..)
      · have inside := (lt_max_iff.mp lt).resolve_left (not_lt.mpr new)
        exact ⟨_, List.mem_append_right _ (List.mem_singleton_self _), rfl, new, inside⟩
    · cases mem
      rfl

/-- What a step does that comes to `_build_req_meta` with a tracker of `n` tokens. -/
def Advances (cfg : PoolConfig) (turn : Turn) (log : List ReqMeta) (n : Nat)
    (outcome : Outcome) : Prop :=
  Tracks cfg turn.numPromptTokens (log ++ outcome.reqMeta.toList) (some n) outcome.entry ∧
    outcome.isLastChunk = some (getLastChunkTokensNum cfg turn.numPromptTokens ≤ n : Bool) ∧
    ∀ m ∈ outcome.reqMeta, m.isLastChunk = outcome.isLastChunk

/-- The end of the prompt is recognised. -/
theorem Advances.lastChunk {n : Nat} (advances : Advances cfg turn log n outcome)
    (ends : turn.numPromptTokens ≤ n) :
    outcome.isLastChunk = some true ∧ ∀ m ∈ outcome.reqMeta, m.isLastChunk = some true := by
  have found : outcome.isLastChunk = some true := by
    rw [advances.2.1]
    refine congrArg some (decide_eq_true (le_trans ?_ ends))
    unfold getLastChunkTokensNum
    split
    · exact cfg.floor_le _
    · exact le_rfl
  exact ⟨found, found ▸ advances.2.2⟩

variable (producer : forceSkipSave cfg = false)
  (hashed : turn.numPromptTokens / cfg.cacheTransferGranularity ≤ turn.numBlockHashes)

include producer hashed

theorem buildReqMeta_advances (before : ∀ token < tracker.numSavedTokens, Saved log token) :
    Advances cfg turn log tracker.tokenLen (buildReqMeta cfg turn entry tracker load) := by
  unfold buildReqMeta
  rw [producer]
  obtain ⟨length, covers, flagged⟩ := fromRequestTracker_covers load
    (some (getLastChunkTokensNum cfg turn.numPromptTokens ≤ tracker.tokenLen : Bool)) hashed before
  refine ⟨⟨congrArg some length, fun tracker mem => ?_⟩, rfl, flagged⟩
  cases mem
  exact covers

theorem processNewRequest_advances (run : processNewRequest cfg turn entry = .ok outcome) :
    Advances cfg turn log turn.numTokens outcome := by
  unfold processNewRequest at run
  split at run
  · cases run
    exact buildReqMeta_advances producer hashed nofun
  · cases run

/-- A running request that the step does not pass over is advanced by the tokens of the step. -/
theorem processRunningCachedRequest_cases
    (tracks : Tracks cfg turn.numPromptTokens log computed entry)
    (run : processRunningCachedRequest cfg turn entry = .ok outcome) :
    (turn.isDecoding && !cfg.saveDecodeCache) = true ∧ outcome = { entry } ∨
      (turn.isDecoding && !cfg.saveDecodeCache) = false ∧
        ∃ n, computed = some n ∧ Advances cfg turn log (n + turn.numScheduledTokens) outcome := by
  unfold processRunningCachedRequest at run
  rw [Bool.and_assoc] at run
  split at run
  · rename_i passed
    cases run
    exact .inl ⟨(Bool.and_eq_true_iff.mp passed).2, rfl⟩
  · rename_i passed
    split at run
    · cases run
    · rename_i tracker tracked
      split at run
      · rename_i unfinished
        cases run
        obtain ⟨length, covers⟩ := tracks
        rw [unfinished, Bool.true_and, Bool.not_eq_true] at passed
        rw [tracked] at length covers
        exact .inr ⟨passed, tracker.tokenLen, length.symm,
          buildReqMeta_advances producer hashed (covers tracker rfl).2⟩
      · cases run

omit producer in
theorem processAsyncLoadRequest_tracks (tracks : Tracks cfg turn.numPromptTokens log computed entry) :
    Tracks cfg turn.numPromptTokens (log ++ (processAsyncLoadRequest cfg turn entry).reqMeta.toList)
      ((entry.loadSpec.map (numTokensToCompute cfg turn)).or computed)
      (processAsyncLoadRequest cfg turn entry).entry := by
  unfold processAsyncLoadRequest
  split
  · rename_i none
    simpa [none] using tracks
  · rename_i cached some
    have fresh : ∀ token < ({ tokenLen := numTokensToCompute cfg turn cached } :
        RequestTracker).numSavedTokens, Saved log token := nofun
    obtain ⟨length, covers, -⟩ := fromRequestTracker_covers true none hashed fresh
    rw [some]
    refine ⟨congrArg Option.some length, fun tracker mem => ?_⟩
    cases mem
    exact covers

theorem buildConnectorMeta_tracks
    (tracks : turn.part ≠ .new → Tracks cfg turn.numPromptTokens log computed (entry.prepare turn))
    (run : buildConnectorMeta cfg turn entry = .ok outcome) :
    Tracks cfg turn.numPromptTokens (log ++ outcome.reqMeta.toList)
        (track cfg turn (entry.prepare turn) computed) outcome.entry ∧
      (turn.InPrompt → turn.part ≠ .cached false →
        ∃ n, Advances cfg turn log n outcome) := by
  unfold buildConnectorMeta at run
  unfold track
  cases part : turn.part with
  | new =>
    rw [part] at run
    have advances : Advances cfg turn log _ outcome :=
      processNewRequest_advances producer hashed run
    exact ⟨advances.1, fun _ _ => ⟨_, advances⟩⟩
  | unscheduled =>
    specialize tracks (part ▸ nofun)
    rw [part] at run
    cases run
    refine ⟨?_, fun inPrompt => absurd part inPrompt.1⟩
    dsimp only
    split
    · exact processAsyncLoadRequest_tracks hashed tracks
    · simpa using tracks
  | cached newBlockIds =>
    specialize tracks (part ▸ nofun)
    simp only [part, producer, Bool.false_or] at run
    cases newBlockIds with
    | false =>
      cases run
      exact ⟨by simpa using tracks, fun _ newBlocks => absurd rfl newBlocks⟩
    | true =>
      simp only [Bool.not_true, Bool.false_eq_true, if_false] at run
      dsimp only
      split at run
      · rename_i preempted
        have advances : Advances cfg turn log _ outcome :=
          processNewRequest_advances producer hashed run
        rw [if_pos preempted]
        exact ⟨advances.1, fun _ _ => ⟨_, advances⟩⟩
      · rename_i running
        rw [if_neg running]
        rcases processRunningCachedRequest_cases producer hashed tracks run with
          ⟨passed, rfl⟩ | ⟨passed, n, rfl, advances⟩
        · rw [if_pos passed]
          refine ⟨by simpa using tracks, fun inPrompt => ?_⟩
          rw [inPrompt.2] at passed
          cases passed
        · rw [passed]
          exact ⟨advances.1, fun _ _ => ⟨_, advances⟩⟩

omit producer hashed

theorem exec_eq_ok (run : exec cfg s turn = .ok s') : Schedules cfg turn s ∧ ∃ outcome,
    buildConnectorMeta cfg turn s.entry = .ok outcome ∧ s' = s.after cfg turn outcome := by
  obtain ⟨schedules, run⟩ := require_eq_ok.mp run
  obtain ⟨outcome, built, run⟩ := bind_eq_ok.mp run
  cases run
  exact ⟨schedules, outcome, built, rfl⟩

/-- What holds between the steps. -/
structure Inv (cfg : PoolConfig) (s : System) : Prop where
  tracks : ∀ numPromptTokens, (∀ before ∈ s.numPromptTokens, numPromptTokens = before) →
    Tracks cfg numPromptTokens s.log s.computed s.entry
  follows : Follows cfg s

theorem Inv.prepare (inv : Inv cfg s) (schedules : Schedules cfg turn s)
    (old : turn.part ≠ .new) :
    Tracks cfg turn.numPromptTokens s.log (s.kept turn) (s.entry.prepare turn) := by
  obtain ⟨length, covers⟩ := inv.tracks turn.numPromptTokens fun before mem =>
    (schedules.2.2 before mem).resolve_left old
  unfold System.kept Entry.prepare Tracks
  cases turn.gone with
  | true => exact ⟨rfl, nofun⟩
  | false => exact ⟨length, covers⟩

/-- A request in its prompt is not gone, so the step finds it as the last one left it. -/
theorem track_inPrompt (schedules : Schedules cfg turn s) (inPrompt : turn.InPrompt) :
    track cfg turn (s.entry.prepare turn) (s.kept turn) =
      match turn.part with
      | .cached true =>
        if s.entry.preempted then some turn.numTokens
        else s.computed.map (· + turn.numScheduledTokens)
      | .cached false => s.computed
      | _ => some turn.numTokens := by
  have stays := schedules.1 inPrompt.1
  have same : (s.entry.prepare turn).preempted = s.entry.preempted := by
    have := Bool.or_eq_false_iff.mp stays
    simp [Entry.prepare, this]
  have kept : s.kept turn = s.computed := by
    rw [System.kept, stays]
    rfl
  unfold track
  rw [same, kept, inPrompt.2]
  cases part : turn.part with
  | new => rfl
  | cached newBlockIds => cases newBlockIds <;> rfl
  | unscheduled => exact absurd part inPrompt.1

theorem GoesOn.track (goesOn : GoesOn s turn) (schedules : Schedules cfg turn s)
    (inPrompt : turn.InPrompt) :
    track cfg turn (s.entry.prepare turn) (s.kept turn) = some turn.numTokens := by
  obtain ⟨withBlocks, without⟩ := goesOn inPrompt
  rw [track_inPrompt schedules inPrompt]
  split
  · rename_i part
    rcases withBlocks part with preempted | computed
    · rw [if_pos preempted]
    · rw [computed]
      exact ite_self _
  · rename_i part
    exact (without part).1
  · rfl

theorem Inv.step (producer : forceSkipSave cfg = false) (inv : Inv cfg s)
    (run : exec cfg s turn = .ok s') (goesOn : GoesOn s turn) : Inv cfg s' := by
  obtain ⟨schedules, outcome, built, rfl⟩ := exec_eq_ok run
  obtain ⟨tracks, advances⟩ :=
    buildConnectorMeta_tracks producer schedules.2.1 (inv.prepare schedules) built
  have computed : (s.after cfg turn outcome).computed =
      track cfg turn (s.entry.prepare turn) (s.kept turn) := by
    unfold System.after
    split
    · rename_i inPrompt
      exact (goesOn.track schedules inPrompt).symm
    · rfl
  rw [← computed] at tracks
  refine ⟨fun numPromptTokens same => same _ rfl ▸ tracks, fun scheduled => ?_⟩
  have inPrompt : turn.InPrompt := of_decide_eq_true scheduled
  have here : (s.after cfg turn outcome).computed = some turn.numTokens := if_pos inPrompt
  rw [here] at tracks
  refine ⟨turn.numTokens, turn.numPromptTokens, here, rfl, tracks.1, fun ends => ?_,
    fun token lt => ?_⟩
  · by_cases part : turn.part = .cached false
    · exact absurd ends (not_le.mpr ((goesOn inPrompt).2 part).2)
    · obtain ⟨n, advances⟩ := advances inPrompt part
      cases advances.1.1.symm.trans tracks.1
      exact advances.lastChunk ends
  · obtain ⟨tracker, tracked, length⟩ := Option.map_eq_some_iff.mp tracks.1
    obtain ⟨floor, saved⟩ := tracks.2 tracker tracked
    rw [length] at floor
    exact saved token (lt.trans_le floor)

/-- A step that does not go on leaves the tracker somewhere else, or passes over the end of the
prompt. -/
theorem Inv.behind (producer : forceSkipSave cfg = false) (inv : Inv cfg s)
    (run : exec cfg s turn = .ok s') (goesOn : ¬ GoesOn s turn) : ¬ Follows cfg s' := by
  obtain ⟨schedules, outcome, built, rfl⟩ := exec_eq_ok run
  obtain ⟨inPrompt, goesOn⟩ := Classical.not_imp.mp goesOn
  have tracks := (buildConnectorMeta_tracks producer schedules.2.1 (inv.prepare schedules) built).1
  rw [track_inPrompt schedules inPrompt] at tracks
  intro follows
  obtain ⟨n, numPromptTokens, here, prompt, tracked, lastChunk, -⟩ :=
    follows (decide_eq_true inPrompt)
  cases (if_pos inPrompt).symm.trans here
  cases prompt
  have moved := tracks.1.symm.trans tracked
  refine goesOn ⟨fun part => ?_, fun part => ?_⟩
  · rw [part] at moved
    dsimp only at moved
    split at moved
    · exact .inl ‹_›
    · obtain ⟨m, computed, sum⟩ := Option.map_eq_some_iff.mp moved
      exact .inr (computed.trans (congrArg some (Nat.add_right_cancel sum)))
  · rw [part] at moved
    refine ⟨moved, not_le.mp fun ends => ?_⟩
    simp only [buildConnectorMeta, part, Bool.not_false, Bool.or_true, if_true] at built
    cases built
    cases (lastChunk ends).1

/-- In every run of a producer the trackers follow in all states, if and only if every step that
schedules a request in its prompt again goes on where the request was. -/
theorem follows_iff (producer : forceSkipSave cfg = false) {turns : List Turn} {s' : System}
    (ends : turns.foldlM (exec cfg) {} = .ok s') :
    (∀ done t, done <+: turns → done.foldlM (exec cfg) {} = .ok t → Follows cfg t) ↔
      AlongOk GoesOn (exec cfg) {} turns :=
  forall_reached_iff Inv.follows (Inv.step producer) (Inv.behind producer)
    ⟨fun _ _ => ⟨rfl, nofun⟩, nofun⟩ ends

/-! ### A prompt in two steps -/

instance (s : System) : Decidable (GoesOn s turn) := inferInstanceAs (Decidable (_ → _ ∧ _))

def fourTokens : PoolConfig where
  cacheTransferGranularity := 4
  granularity_pos := Nat.succ_pos (nat_lit 3)
  blockSize := 4

/-- The first five tokens of eight, which get two blocks. -/
def firstFive (part : Part) : Turn where
  allocated := true
  numPromptTokens := 8
  numBlockHashes := 2
  numScheduledTokens := 5
  part

def lastThree (newBlockIds : Bool) : Turn where
  numComputedTokens := 5
  numPromptTokens := 8
  numBlockHashes := 2
  numScheduledTokens := 3
  part := .cached newBlockIds

def preemption : Turn where
  preempted := true
  numPromptTokens := 8
  numBlockHashes := 2
  part := .unscheduled

/-- The three tokens fit into the second block. The tracker stays at five, the end of the prompt
is not reported and the second chunk is not saved. -/
theorem sameBlocks_not_follows : ∃ s,
    [firstFive .new, lastThree false].foldlM (exec fourTokens) {} = .ok s ∧ s.computed = some 8 ∧
      s.entry.tracker.map (·.tokenLen) = some 5 ∧ s.reqMeta.isNone ∧
      (∀ m ∈ s.log, m.saveEndToken = 4) ∧ ¬ Follows fourTokens s := by
  refine ⟨_, rfl, rfl, rfl, rfl, by decide, fun follows => ?_⟩
  obtain ⟨n, numPromptTokens, computed, -, tracked, -⟩ := follows rfl
  cases computed
  cases tracked

-- Preempted by `reset_prefix_cache`, which no step reports, the request starts again and gets all
-- its blocks, and the tracker counts from five.
example : ∃ s, [firstFive .new, firstFive (.cached true)].foldlM (exec fourTokens) {} = .ok s ∧
    s.computed = some 5 ∧ s.entry.tracker.map (·.tokenLen) = some 10 := ⟨_, rfl, rfl, rfl⟩

theorem preempted_follows : ∃ s,
    [firstFive .new, preemption, firstFive (.cached true), lastThree true].foldlM
      (exec fourTokens) {} = .ok s ∧ s.computed = some 8 ∧ Follows fourTokens s := by
  have ends : [firstFive .new, preemption, firstFive (.cached true), lastThree true].foldlM
    (exec fourTokens) {} = .ok _ := rfl
  exact ⟨_, ends, rfl, (follows_iff rfl ends).mpr (by decide) _ _ List.prefix_rfl ends⟩

end Vllm.Ascend.Pool
