import Vllm.Lib.Steps

/-!
The wave protocol of data-parallel engines: front ends (`DPAsyncMPClient`,
`vllm/v1/engine/core_client.py`), the coordinator (`DPCoordinatorProc`,
`vllm/v1/engine/coordinator.py`) and the engines (`DPEngineCoreProc`, `vllm/v1/engine/core.py`).

Every forward pass and every finish all-reduce is made by all engines together (`pass`,
`reduce`), so an engine that has to make one waits until all others do. What a scheduler makes
of its requests is left open: `step` may schedule any of them or none, and any of them may be
finished or aborted by the end of it.

The coordinator names an engine that need not be told of a new wave. A front end names it by
its identity, two bytes, and the engine compares that with its index, a number; so only what
an engine itself caused is held back from it.
-/

namespace Vllm.Distributed.DPWave

open Vllm.Lib.Steps
open Function (update)

variable {m : Nat} {κ ρ : Type}

/-- The engine to be left out of a broadcast: the identity that a front end uses for it, or its
index. There are at least two engines. -/
inductive Exclude (m : Nat)
  | identity (engine : Fin (m + 2))
  | index (engine : Fin (m + 2))

/-- `exclude_eng_index == self.engine_index`. -/
def excludes (engine : Fin (m + 2)) : Option (Exclude m) → Bool
  | some (.index other) => other = engine
  | _ => false

inductive Input (m : Nat) (ρ : Type)
  | add (request : ρ) (requestWave : Nat)
  | abort (request : ρ)
  | startDpWave (newWave : Nat) (exclude : Option (Exclude m))

/-- What an engine tells the coordinator. -/
inductive Output
  | waveComplete (wave : Nat)
  | startWave (wave : Nat)

/-- Where an engine is in `run_busy_loop`: at its input queue, at a forward pass, or at the
finish all-reduce. Before a dummy pass it has looked at its requests already. -/
inductive Pc
  | input
  | passing (localUnfinished : Option Bool)
  | reducing (localUnfinished : Bool)

/-- An engine. `otherWork` is for finished requests that were not yet returned, and for batches
in the queue. -/
structure Engine (m : Nat) (ρ : Type) where
  currentWave : Nat
  enginesRunning : Bool
  stepCounter : Nat
  requests : List ρ
  otherWork : Bool
  inputQueue : List (Input m ρ)
  pc : Pc

/-- A front end, with the engines of the requests that it has to tell the coordinator of. -/
structure Client (m : Nat) where
  currentWave : Nat
  enginesRunning : Bool
  firstReq : List (Fin (m + 2))

structure Coordinator where
  currentWave : Nat
  enginesRunning : Bool

@[ext]
structure State (m : Nat) (κ ρ : Type) where
  clients : κ → Client m
  coordinator : Coordinator
  engines : Fin (m + 2) → Engine m ρ
  toEngine : κ → Fin (m + 2) → List (Input m ρ)
  toCoordinator : κ → List (Exclude m × Nat)
  toClient : κ → List (Nat × Bool)
  broadcast : Fin (m + 2) → List (Input m ρ)
  outputs : Fin (m + 2) → List Output

/-- All engines are idle at wave 0. -/
def State.init : State m κ ρ where
  clients := fun _ => ⟨0, false, []⟩
  coordinator := ⟨0, false⟩
  engines := fun _ => ⟨0, false, 0, [], false, [], .input⟩
  toEngine := fun _ _ => []
  toCoordinator := fun _ => []
  toClient := fun _ => []
  broadcast := fun _ => []
  outputs := fun _ => []

/-- A step of one party, or a pass or an all-reduce of all engines. -/
inductive Action (m : Nat) (κ ρ : Type)
  /-- `add_request_async` -/
  | submit (client : κ) (engine : Fin (m + 2)) (request : ρ)
  | abort (client : κ) (engine : Fin (m + 2)) (request : ρ)
  /-- `run_engine_stats_update_task` takes a `FIRST_REQ` -/
  | firstReq (client : κ)
  /-- `run_engine_stats_update_task` takes a message of the coordinator -/
  | stats (client : κ)
  /-- a round of the coordinator with a message of a front end, of an engine, or of both -/
  | coordinate (front : Option κ) (back : Option (Fin (m + 2)))
  /-- the coordinator's poller times out -/
  | publish
  /-- the input thread of an engine takes a message of a front end or of the coordinator -/
  | receive (engine : Fin (m + 2)) (source : Option κ)
  /-- `_handle_client_request` -/
  | handle (engine : Fin (m + 2))
  /-- `_process_input_queue` returns, and the engine goes on up to a pass -/
  | step (engine : Fin (m + 2)) (executed : Bool) (left : List ρ) (otherWork : Bool)
  | pass (left : Fin (m + 2) → List ρ) (otherWork : Fin (m + 2) → Bool)
  | reduce

/-! ### The engines -/

section Engine

variable [DecidableEq ρ]

def Engine.hasWork (e : Engine m ρ) : Bool :=
  e.enginesRunning || !e.requests.isEmpty || e.otherWork

/-- `add_request`, with what is put in the output queue. -/
def Engine.addRequest (e : Engine m ρ) (request : ρ) (requestWave : Nat) :
    Engine m ρ × List Output :=
  let e := { e with requests := e.requests ++ [request] }
  if requestWave = e.currentWave then (e, [])
  else if e.currentWave < requestWave then ({ e with currentWave := requestWave }, [])
  else if e.enginesRunning then (e, [])
  else ({ e with enginesRunning := true }, [.startWave e.currentWave])

def Engine.handleClientRequest (k : Fin (m + 2)) (e : Engine m ρ) :
    Input m ρ → Engine m ρ × List Output
  | .add request requestWave => e.addRequest request requestWave
  | .abort request =>
    ({ e with
      requests := e.requests.filter (· ≠ request)
      otherWork := e.otherWork || e.requests.contains request }, [])
  | .startDpWave newWave exclude =>
    if excludes k exclude = false ∧ e.currentWave ≤ newWave then
      ({ e with currentWave := newWave, enginesRunning := true }, [])
    else (e, [])

/-- From the end of `_process_input_queue` to a pass, or back. A pass of the model is only made
with requests; without one, the requests that are left were not aborted meanwhile. -/
def Engine.step (e : Engine m ρ) (executed : Bool) (left : List ρ) (otherWork : Bool) :
    Option (Engine m ρ) :=
  match e.pc with
  | .input =>
    if e.inputQueue.isEmpty && e.hasWork && left.isSublist e.requests then
      if executed then
        if e.requests.isEmpty then none else some { e with pc := .passing none }
      else
        let localUnfinished := !left.isEmpty
        let e := { e with requests := left, otherWork := otherWork }
        if !localUnfinished && !e.enginesRunning then some e
        else some { e with pc := .passing (some localUnfinished) }
    else none
  | _ => none

/-- After the pass: requests that were scheduled may be finished, and every 32 passes the
engines have to agree whether any request is unfinished. -/
def Engine.passed (e : Engine m ρ) (left : List ρ) (otherWork : Bool) : Option (Engine m ρ) :=
  let next := fun (e : Engine m ρ) (localUnfinished : Bool) =>
    let e := { e with stepCounter := e.stepCounter + 1 }
    if e.stepCounter % 32 ≠ 0 then { e with enginesRunning := true, pc := .input }
    else { e with pc := .reducing localUnfinished }
  match e.pc with
  | .passing (some localUnfinished) => some (next e localUnfinished)
  | .passing none =>
    if left.isSublist e.requests then
      some (next { e with requests := left, otherWork := otherWork } (!left.isEmpty))
    else none
  | _ => none

/-- What the engine puts into the all-reduce. -/
def Engine.localUnfinished (e : Engine m ρ) : Option Bool :=
  match e.pc with
  | .reducing localUnfinished => some localUnfinished
  | _ => none

def Engine.reduced (e : Engine m ρ) (hasUnfinished : Bool) : Engine m ρ :=
  if hasUnfinished then { e with enginesRunning := true, pc := .input }
  else { e with
    enginesRunning := false, currentWave := e.currentWave + 1, stepCounter := 0, pc := .input }

end Engine

/-! ### The coordinator -/

def sendStartWave (s : State m κ ρ) (wave : Nat) (exclude : Option (Exclude m)) : State m κ ρ :=
  { s with broadcast := fun k => s.broadcast k ++ [.startDpWave wave exclude] }

/-- A message of a front end, with whether the wave state has changed. -/
def handleNewRequest (s : State m κ ρ) (engineToExclude : Exclude m) (wave : Nat) :
    State m κ ρ × Bool :=
  let c := s.coordinator
  if c.enginesRunning then (s, false)
  else
    let exclude := if wave < c.currentWave then none else some engineToExclude
    (sendStartWave { s with coordinator := { c with enginesRunning := true } } c.currentWave exclude,
      true)

def handleOutput (s : State m κ ρ) (k : Fin (m + 2)) : Output → State m κ ρ × Bool
  | .waveComplete wave =>
    if s.coordinator.currentWave ≤ wave then
      ({ s with coordinator := ⟨wave + 1, false⟩ }, true)
    else (s, false)
  | .startWave wave =>
    let c := s.coordinator
    if c.currentWave < wave ∨ wave = c.currentWave ∧ c.enginesRunning = false then
      (sendStartWave { s with coordinator := ⟨wave, true⟩ } wave (some (.index k)), true)
    else (s, false)

/-- The wave state is sent to all front ends. -/
def publishFront (s : State m κ ρ) : State m κ ρ :=
  { s with toClient := fun c =>
      s.toClient c ++ [(s.coordinator.currentWave, s.coordinator.enginesRunning)] }

section Exec

variable [DecidableEq κ] [DecidableEq ρ]

/-- The coordinator takes a message of a front end. -/
def takeFront (s : State m κ ρ) : Option κ → Option (State m κ ρ × Bool)
  | none => some (s, false)
  | some c =>
    match s.toCoordinator c with
    | [] => none
    | (exclude, wave) :: rest =>
      some (handleNewRequest
        { s with toCoordinator := update s.toCoordinator c rest } exclude wave)

/-- The coordinator takes a message of an engine. -/
def takeBack (s : State m κ ρ) : Option (Fin (m + 2)) → Option (State m κ ρ × Bool)
  | none => some (s, false)
  | some k =>
    match s.outputs k with
    | [] => none
    | output :: rest =>
      some (handleOutput { s with outputs := update s.outputs k rest } k output)

/-- One engine changes, and puts messages in its output queue. -/
def setEngine (s : State m κ ρ) (k : Fin (m + 2)) (e : Engine m ρ) (outputs : List Output) :
    State m κ ρ :=
  { s with
    engines := update s.engines k e
    outputs := update s.outputs k (s.outputs k ++ outputs) }

/-- All engines have some value, with all the values. -/
def all? {α : Type} (f : Fin (m + 2) → Option α) : Option (Fin (m + 2) → α) :=
  if h : ∀ k, (f k).isSome then some fun k => (f k).get (h k) else none

def exec (s : State m κ ρ) : Action m κ ρ → Option (State m κ ρ)
  | .submit c k request =>
    let client := s.clients c
    let client' := if client.enginesRunning then client
      else { client with firstReq := client.firstReq ++ [k] }
    some { s with
      clients := update s.clients c client'
      toEngine := update s.toEngine c (update (s.toEngine c) k
        (s.toEngine c k ++ [.add request client.currentWave])) }
  | .abort c k request =>
    some { s with
      toEngine := update s.toEngine c (update (s.toEngine c) k
        (s.toEngine c k ++ [.abort request])) }
  | .firstReq c =>
    let client := s.clients c
    match client.firstReq with
    | [] => none
    | target :: rest =>
      some { s with
        clients := update s.clients c
          { client with enginesRunning := true, firstReq := rest }
        toCoordinator := update s.toCoordinator c
          (s.toCoordinator c ++ [(.identity target, client.currentWave)]) }
  | .stats c =>
    match s.toClient c with
    | [] => none
    | (wave, running) :: rest =>
      some { s with
        clients := update s.clients c
          { s.clients c with currentWave := wave, enginesRunning := running }
        toClient := update s.toClient c rest }
  | .coordinate front back =>
    if front.isNone && back.isNone then none
    else do
      let (s, changed) ← takeFront s front
      let (s, changed') ← takeBack s back
      some (if changed || changed' then publishFront s else s)
  | .publish => some (publishFront s)
  | .receive k source =>
    let e := s.engines k
    match source with
    | some c =>
      match s.toEngine c k with
      | [] => none
      | input :: rest =>
        some { s with
          engines := update s.engines k { e with inputQueue := e.inputQueue ++ [input] }
          toEngine := update s.toEngine c (update (s.toEngine c) k rest) }
    | none =>
      match s.broadcast k with
      | [] => none
      | input :: rest =>
        some { s with
          engines := update s.engines k { e with inputQueue := e.inputQueue ++ [input] }
          broadcast := update s.broadcast k rest }
  | .handle k =>
    let e := s.engines k
    match e.pc, e.inputQueue with
    | .input, input :: rest =>
      let (e, outputs) := { e with inputQueue := rest }.handleClientRequest k input
      some (setEngine s k e outputs)
    | _, _ => none
  | .step k executed left otherWork =>
    ((s.engines k).step executed left otherWork).map fun e => setEngine s k e []
  | .pass left otherWork =>
    (all? fun k => (s.engines k).passed (left k) (otherWork k)).map fun engines =>
      { s with engines := engines }
  | .reduce =>
    (all? fun k => (s.engines k).localUnfinished).map fun unfinished =>
      let hasUnfinished := decide (∃ k, unfinished k = true)
      { s with
        engines := fun k => (s.engines k).reduced hasUnfinished
        outputs := if hasUnfinished then s.outputs
          else update s.outputs 0
            (s.outputs 0 ++ [.waveComplete (s.engines 0).currentWave]) }

end Exec

/-! ### What is to hold -/

/-- No message is in transit or queued. -/
structure State.Quiet (s : State m κ ρ) : Prop where
  firstReq : ∀ c, (s.clients c).firstReq = []
  toEngine : ∀ c k, s.toEngine c k = []
  toCoordinator : ∀ c, s.toCoordinator c = []
  toClient : ∀ c, s.toClient c = []
  broadcast : ∀ k, s.broadcast k = []
  outputs : ∀ k, s.outputs k = []
  inputQueue : ∀ k, (s.engines k).inputQueue = []

/-- The engine waits for the others, at a pass or at the all-reduce. -/
def Engine.AtBarrier (e : Engine m ρ) : Prop := e.pc ≠ .input

/-- The engine waits in `_process_input_queue`. -/
def Engine.Blocked (e : Engine m ρ) : Prop :=
  e.pc = .input ∧ e.inputQueue = [] ∧ e.hasWork = false

/-- Engines that meet in the all-reduce agree, and no engine waits for a peer that nothing will
wake. -/
structure State.Safe (s : State m κ ρ) : Prop where
  agree : ∀ i k, (s.engines i).localUnfinished.isSome → (s.engines k).localUnfinished.isSome →
    (s.engines i).currentWave = (s.engines k).currentWave ∧
      (s.engines i).stepCounter = (s.engines k).stepCounter
  notStranded : s.Quiet → ∀ i k, (s.engines i).AtBarrier → ¬ (s.engines k).Blocked

end Vllm.Distributed.DPWave
