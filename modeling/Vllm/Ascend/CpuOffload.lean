import Vllm.Lib.Dict
import Vllm.Lib.Fallible
import Vllm.Lib.Steps
import Vllm.Request

/-!
The CPU offloading connector of `vllm_ascend`: what is promised, and what is loaded.

`get_num_new_matched_tokens` remembers how many tokens the GPU and the CPU have, and
`build_connector_meta` passes both on, but only for a new request. One that was preempted comes
back as a cached request, where both numbers are the computed tokens, which the promise has
advanced already. The worker then has nothing to load. A request is loaded what was promised for
it when it is new to the worker (`loads_of_first`).

The metadata server is a parameter: its matches are a part of the lookups, and its block
lists a function of what it is asked. What the connector saves is left out.
-/

namespace Vllm.Ascend.CpuOffload

open Vllm.Lib Vllm.Lib.Fallible Vllm.Lib.Steps List

/-- An element of `gpu_block_ids`. The blocks of a new request are those of its first group, while
for a cached request the lists of its groups are the elements. -/
inductive GpuBlock where
  | id (block : Nat)
  | group (blocks : List Nat)
  deriving DecidableEq

structure ReqMeta where
  gpuBlockIds : List GpuBlock
  cpuBlockIds : List Nat
  numScheduledTokens : Nat
  numComputedTokens : Nat
  numGpuComputedTokens : Nat
  numCpuComputedTokens : Nat

/-- `ReqMeta.update`. -/
def ReqMeta.update (self other : ReqMeta) : ReqMeta :=
  { other with
    gpuBlockIds := self.gpuBlockIds ++ other.gpuBlockIds
    cpuBlockIds := self.cpuBlockIds ++ other.cpuBlockIds }

/-- An entry of `scheduled_new_reqs`, with the request's `num_scheduled_tokens`. -/
structure NewReq where
  reqId : RequestId
  blockIds : List (List Nat)
  numComputedTokens : Nat
  numScheduledTokens : Nat

/-- An entry of `scheduled_cached_reqs`. For a request that was preempted `newBlockIds` is
its whole table. -/
structure CachedReq where
  reqId : RequestId
  newBlockIds : Option (List (List Nat))
  numComputedTokens : Nat
  numScheduledTokens : Nat

/-- The requests of a `SchedulerOutput`. -/
structure SchedulerOutput where
  scheduledNewReqs : List NewReq
  scheduledCachedReqs : List CachedReq

inductive ConnectorError where
  | keyError
  | indexError
  deriving DecidableEq

structure Config where
  blockSize : Nat
  swapInThreshold : Nat

/-! ### The scheduler's side -/

/-- What `CPUOffloadingConnectorScheduler` keeps until the metadata of the step is built. -/
structure ConnectorScheduler where
  numGpuComputedTokens : Dict RequestId Nat
  numCpuComputedTokens : Dict RequestId Nat
  allocatedReqIds : List RequestId

def ConnectorScheduler.init : ConnectorScheduler := ⟨.empty, .empty, []⟩

/-- How many tokens `get_num_new_matched_tokens` reports. -/
def Config.numReported (cfg : Config) (numComputedTokens numMatched : Nat) : Nat :=
  if cfg.swapInThreshold ≤ numMatched - numComputedTokens then numMatched - numComputedTokens else 0

/-- What `get_num_new_matched_tokens` remembers; the server matched `numMatched` tokens. -/
def getNumNewMatchedTokens (c : ConnectorScheduler) (lookup : RequestId × Nat × Nat) :
    ConnectorScheduler :=
  let (reqId, numComputedTokens, numMatched) := lookup
  { c with
    numGpuComputedTokens := c.numGpuComputedTokens.set reqId numComputedTokens
    numCpuComputedTokens := c.numCpuComputedTokens.set reqId numMatched }

/-- The server's `allocate_slots`, with an empty list for a request that it does not answer. -/
abbrev AllocateSlots : Type := List (RequestId × Nat) → List RequestId → RequestId → List Nat

def SchedulerOutput.numTokens (out : SchedulerOutput) : List (RequestId × Nat) :=
  out.scheduledNewReqs.map (fun r => (r.reqId, r.numComputedTokens + r.numScheduledTokens)) ++
    out.scheduledCachedReqs.map fun r => (r.reqId, r.numComputedTokens + r.numScheduledTokens)

def newCpuBlockIds (c : ConnectorScheduler) (out : SchedulerOutput) (allocateSlots : AllocateSlots) :
    RequestId → List Nat :=
  allocateSlots out.numTokens (c.numGpuComputedTokens.keys.filter fun id =>
    !c.allocatedReqIds.contains id && !(out.numTokens.map Prod.fst).contains id)

def newReqMeta (c : ConnectorScheduler) (cpuBlockIds : RequestId → List Nat) (r : NewReq) :
    Except ConnectorError (RequestId × ReqMeta) :=
  match r.blockIds.head? with
  | none => .error .indexError
  | some table =>
    match c.numGpuComputedTokens.get? r.reqId, c.numCpuComputedTokens.get? r.reqId with
    | some numGpu, some numCpu =>
      .ok (r.reqId, ⟨table.map .id, cpuBlockIds r.reqId, r.numScheduledTokens,
        r.numComputedTokens, numGpu, numCpu⟩)
    | _, _ => .error .keyError

def cachedReqMeta (cpuBlockIds : RequestId → List Nat) (r : CachedReq) : RequestId × ReqMeta :=
  (r.reqId, ⟨(r.newBlockIds.getD []).map .group, cpuBlockIds r.reqId, r.numScheduledTokens,
    r.numComputedTokens, r.numComputedTokens, r.numComputedTokens⟩)

/-- `metadata.requests` of `build_connector_meta`. -/
def buildConnectorMeta (c : ConnectorScheduler) (out : SchedulerOutput)
    (allocateSlots : AllocateSlots) : Except ConnectorError (List (RequestId × ReqMeta)) := do
  let cpuBlockIds := newCpuBlockIds c out allocateSlots
  let new ← out.scheduledNewReqs.mapM (newReqMeta c cpuBlockIds)
  return new ++ out.scheduledCachedReqs.map (cachedReqMeta cpuBlockIds)

/-! ### The worker's side -/

def loadPairs (cfg : Config) (req : ReqMeta) : Except ConnectorError (List (Nat × GpuBlock)) :=
  let first := req.numGpuComputedTokens / cfg.blockSize
  (range' first (req.numComputedTokens / cfg.blockSize - first)).mapM fun i =>
    match req.cpuBlockIds[i]?, req.gpuBlockIds[i]? with
    | some cpu, some gpu => .ok (cpu, gpu)
    | _, _ => .error .indexError

/-- The request as the worker keeps it. -/
def merge (held : Option ReqMeta) (req : ReqMeta) : ReqMeta := (held.map (·.update req)).getD req

/-- What `CPUOffloadingConnectorWorker` has: the requests, and `load_block_mapping`, whose entries
are kept with the request that they are for. -/
structure Worker where
  requests : RequestId → Option ReqMeta := fun _ => none
  mapping : List (RequestId × Nat × GpuBlock) := []

/-- One round of `bind_connector_metadata`. -/
def bindRequest (cfg : Config) (w : Worker) (entry : RequestId × ReqMeta) :
    Except ConnectorError Worker := do
  let req := merge (w.requests entry.1) entry.2
  let pairs ← loadPairs cfg req
  return ⟨Function.update w.requests entry.1 (some req), w.mapping ++ pairs.map (entry.1, ·)⟩

/-! ### Steps -/

/-- A call of `schedule` with what follows on the worker: the lookups with the computed and
the matched tokens, the requests that got blocks, the output, the server's answer, and the
requests that `get_finished` reports as sent. -/
structure Step where
  lookups : List (RequestId × Nat × Nat)
  allocated : List RequestId
  out : SchedulerOutput
  allocateSlots : AllocateSlots
  sent : List RequestId

namespace Step

variable (i : Step)

/-- The connector after the lookups; the metadata of the step before cleared it. -/
def connector : ConnectorScheduler :=
  { i.lookups.foldl getNumNewMatchedTokens .init with allocatedReqIds := i.allocated }

def cpuBlockIds : RequestId → List Nat := newCpuBlockIds i.connector i.out i.allocateSlots

/-- The request is in the output with so many computed tokens and this block table. -/
def Scheduled (r : RequestId) (numComputedTokens : Nat) (table : List Nat) : Prop :=
  (∃ q ∈ i.out.scheduledNewReqs, q.reqId = r ∧ q.numComputedTokens = numComputedTokens ∧
    q.blockIds.head? = some table) ∨
  ∃ q ∈ i.out.scheduledCachedReqs, q.reqId = r ∧ q.numComputedTokens = numComputedTokens ∧
    ∃ others, q.newBlockIds = some (table :: others)

end Step

/-- One step of the worker. `load_block_mapping` was cleared after the step before. -/
def exec (cfg : Config) (w : Worker) (i : Step) : Except ConnectorError Worker := do
  let entries ← buildConnectorMeta i.connector i.out i.allocateSlots
  let w ← entries.foldlM (bindRequest cfg) { w with mapping := [] }
  return { w with requests := fun r => if r ∈ i.sent then none else w.requests r }

/-- What scheduler and server guarantee: a request is looked up once and scheduled once, a new
one after a lookup and with blocks, a cached one after it was new; a request that was looked up is
scheduled with the reported tokens, which its table has room for; and the server's list covers the
matched blocks. -/
structure Allowed (cfg : Config) (w : Worker) (i : Step) : Prop where
  lookedUpOnce : (i.lookups.map Prod.fst).Nodup
  scheduledOnce : (i.out.numTokens.map Prod.fst).Nodup
  new : ∀ q ∈ i.out.scheduledNewReqs, ∃ table numGpu numMatched,
    q.blockIds.head? = some table ∧ table ≠ [] ∧ (q.reqId, numGpu, numMatched) ∈ i.lookups
  cached : ∀ q ∈ i.out.scheduledCachedReqs, w.requests q.reqId ≠ none
  counted : ∀ {r numGpu numMatched n table}, (r, numGpu, numMatched) ∈ i.lookups →
    i.Scheduled r n table → n = numGpu + cfg.numReported numGpu numMatched ∧
      n ≤ table.length * cfg.blockSize
  covers : ∀ {r numGpu numMatched}, (r, numGpu, numMatched) ∈ i.lookups →
    numMatched / cfg.blockSize ≤ (i.cpuBlockIds r).length

/-- The request was scheduled, and not reported as sent since. -/
def known (r : RequestId) (steps : List Step) : Bool :=
  steps.foldl (fun known i =>
    (known || (i.out.numTokens.map Prod.fst).contains r) && !i.sent.contains r) false

/-- The blocks that the reported tokens end. -/
def Reported (cfg : Config) (numGpu numMatched j : Nat) : Prop :=
  numGpu / cfg.blockSize ≤ j ∧ j < (numGpu + cfg.numReported numGpu numMatched) / cfg.blockSize
  deriving Decidable

section Bind

variable {cfg : Config}

/-- The pair is one that `bind_connector_metadata` makes for the request. -/
def Pairs (cfg : Config) (req : ReqMeta) (cpu : Nat) (gpu : GpuBlock) : Prop :=
  ∃ j, req.numGpuComputedTokens / cfg.blockSize ≤ j ∧ j < req.numComputedTokens / cfg.blockSize ∧
    req.cpuBlockIds[j]? = some cpu ∧ req.gpuBlockIds[j]? = some gpu

/-- Both lists of the request reach every block that is loaded. -/
def Covered (cfg : Config) (req : ReqMeta) : Prop :=
  ∀ j, req.numGpuComputedTokens / cfg.blockSize ≤ j → j < req.numComputedTokens / cfg.blockSize →
    j < req.cpuBlockIds.length ∧ j < req.gpuBlockIds.length

theorem merge_eq (held : Option ReqMeta) (req : ReqMeta) : merge held req = { req with
    cpuBlockIds := held.elim [] ReqMeta.cpuBlockIds ++ req.cpuBlockIds
    gpuBlockIds := held.elim [] ReqMeta.gpuBlockIds ++ req.gpuBlockIds } := by
  cases held <;> rfl

theorem Covered.merge {req : ReqMeta} (covered : Covered cfg req) (held : Option ReqMeta) :
    Covered cfg (merge held req) := by
  rw [merge_eq]
  intro j le lt
  have := covered j le lt
  simp only [length_append]
  omega

theorem loadPairs_of_covered {req : ReqMeta} (covered : Covered cfg req) :
    ∃ pairs, loadPairs cfg req = .ok pairs ∧
      ∀ cpu gpu, (cpu, gpu) ∈ pairs ↔ Pairs cfg req cpu gpu := by
  refine ⟨_, mapM_of_forall (g := fun j =>
    (req.cpuBlockIds[j]?.getD 0, req.gpuBlockIds[j]?.getD (.id 0))) fun j mem => ?_,
    fun cpu gpu => ?_⟩
  · rw [mem_range'_1] at mem
    obtain ⟨inCpu, inGpu⟩ := covered j mem.1 (by omega)
    simp [inCpu, inGpu]
  · rw [mem_map]
    constructor
    · rintro ⟨j, mem, eq⟩
      rw [mem_range'_1] at mem
      obtain ⟨inCpu, inGpu⟩ := covered j mem.1 (by omega)
      exact ⟨j, mem.1, by omega, by simpa [inCpu, inGpu] using eq⟩
    · rintro ⟨j, le, lt, ofCpu, ofGpu⟩
      exact ⟨j, mem_range'_1.mpr (by omega), by simp [ofCpu, ofGpu]⟩

/-- The worker makes the pairs of every request from what it kept of the request before. -/
theorem bind_spec {entries : List (RequestId × ReqMeta)} (once : (entries.map Prod.fst).Nodup)
    (covered : ∀ entry ∈ entries, Covered cfg entry.2) (w : Worker) :
    ∃ w', entries.foldlM (bindRequest cfg) w = .ok w' ∧
      (∀ r cpu gpu, (r, cpu, gpu) ∈ w'.mapping ↔ (r, cpu, gpu) ∈ w.mapping ∨
        ∃ req, (r, req) ∈ entries ∧ Pairs cfg (merge (w.requests r) req) cpu gpu) ∧
      (∀ r req, (r, req) ∈ entries → w'.requests r = some (merge (w.requests r) req)) ∧
      ∀ r, r ∉ entries.map Prod.fst → w'.requests r = w.requests r := by
  induction entries generalizing w with
  | nil => exact ⟨w, rfl, by simp⟩
  | cons entry entries ih =>
    obtain ⟨id, req⟩ := entry
    rw [map_cons, nodup_cons] at once
    obtain ⟨pairs, load, ofPairs⟩ := loadPairs_of_covered
      ((covered _ mem_cons_self).merge (w.requests id))
    obtain ⟨w', run, mem, bound, others⟩ := ih once.2 (fun entry mem => covered entry (.tail _ mem))
      ⟨Function.update w.requests id (some (merge (w.requests id) req)),
        w.mapping ++ pairs.map (id, ·)⟩
    refine ⟨w', ?_, fun r cpu gpu => ?_, fun r req' mem => ?_, fun r notIn => ?_⟩
    · rw [foldlM_cons, bindRequest, load, ok_bind, pure_eq_ok, ok_bind, run]
    · -- the entries that follow are of other requests, whose metadata is as before
      grind
    · grind
    · grind

end Bind

/-- A lookup is remembered until the metadata is built. -/
theorem get?_lookups {lookups : List (RequestId × Nat × Nat)} (once : (lookups.map Prod.fst).Nodup)
    {r : RequestId} {numGpu numMatched : Nat} (mem : (r, numGpu, numMatched) ∈ lookups)
    (c : ConnectorScheduler) :
    (lookups.foldl getNumNewMatchedTokens c).numGpuComputedTokens.get? r = some numGpu ∧
      (lookups.foldl getNumNewMatchedTokens c).numCpuComputedTokens.get? r = some numMatched := by
  induction lookups using reverseRecOn with
  | nil => exact absurd mem not_mem_nil
  | append_singleton lookups last ih =>
    obtain ⟨id, computed, matched⟩ := last
    rw [map_append, nodup_append'] at once
    rw [foldl_append, foldl_cons, foldl_nil]
    rcases mem_append.mp mem with before | isLast
    · have ne : r ≠ id := fun eq => once.2.2 (mem_map_of_mem before) (by simp [eq])
      simp only [getNumNewMatchedTokens, Dict.get?_set_of_ne _ ne]
      exact ih once.1 before
    · simp only [mem_singleton] at isLast
      obtain ⟨rfl, rfl, rfl⟩ := isLast
      simp [getNumNewMatchedTokens]

section Loading

variable {cfg : Config} {w : Worker} {i : Step}

/-- The metadata of a new request that was looked up. -/
def Step.newEntry (i : Step) (q : NewReq) : RequestId × ReqMeta :=
  (q.reqId, ⟨(q.blockIds.head?.getD []).map .id, i.cpuBlockIds q.reqId, q.numScheduledTokens,
    q.numComputedTokens, (i.connector.numGpuComputedTokens.get? q.reqId).getD 0,
    (i.connector.numCpuComputedTokens.get? q.reqId).getD 0⟩)

def Step.entries (i : Step) : List (RequestId × ReqMeta) :=
  i.out.scheduledNewReqs.map i.newEntry ++
    i.out.scheduledCachedReqs.map (cachedReqMeta i.cpuBlockIds)

theorem Step.map_fst_entries (i : Step) :
    i.entries.map Prod.fst = i.out.numTokens.map Prod.fst := by
  rw [entries, SchedulerOutput.numTokens, map_append, map_append, map_map, map_map, map_map, map_map]
  rfl

theorem Step.notMem_of_find? {r : RequestId} (none : i.entries.find? (·.1 == r) = none) :
    r ∉ i.entries.map Prod.fst := by
  intro isKey
  obtain ⟨entry, isEntry, same⟩ := mem_map.mp isKey
  simpa [same] using find?_eq_none.mp none entry isEntry

/-- The step has made the pairs of its entries. -/
def Loaded (cfg : Config) (w : Worker) (i : Step) (w' : Worker) : Prop :=
  ∀ r req, (r, req) ∈ i.entries → ∀ cpu gpu,
    (r, cpu, gpu) ∈ w'.mapping ↔ Pairs cfg (merge (w.requests r) req) cpu gpu

section

variable (allowed : Allowed cfg w i)
include allowed

theorem Allowed.build : buildConnectorMeta i.connector i.out i.allocateSlots = .ok i.entries := by
  have each : ∀ q ∈ i.out.scheduledNewReqs,
      newReqMeta i.connector i.cpuBlockIds q = .ok (i.newEntry q) := by
    intro q mem
    obtain ⟨table, numGpu, numMatched, isTable, -, lookup⟩ := allowed.new q mem
    obtain ⟨gpu, cpu⟩ := get?_lookups allowed.lookedUpOnce lookup .init
    simp only [newReqMeta, Step.newEntry, Step.connector, isTable, gpu, cpu, Option.getD_some]
  exact bind_eq_ok.mpr ⟨_, mapM_of_forall each, rfl⟩

theorem Allowed.entries_once : (i.entries.map Prod.fst).Nodup :=
  i.map_fst_entries ▸ allowed.scheduledOnce

/-- A new request is asked for exactly the reported blocks. -/
theorem Allowed.newEntry_spec {q : NewReq} (mem : q ∈ i.out.scheduledNewReqs) {table : List Nat}
    (isTable : q.blockIds.head? = some table) {numGpu numMatched : Nat}
    (lookup : (q.reqId, numGpu, numMatched) ∈ i.lookups) :
    (i.newEntry q).2.gpuBlockIds = table.map .id ∧
      (i.newEntry q).2.numGpuComputedTokens = numGpu ∧
      q.numComputedTokens = numGpu + cfg.numReported numGpu numMatched ∧
      Covered cfg (i.newEntry q).2 := by
  have blocks : (i.newEntry q).2.gpuBlockIds = table.map .id := by
    simp only [Step.newEntry, isTable, Option.getD_some]
  have gpu : (i.newEntry q).2.numGpuComputedTokens = numGpu := by
    have remembered := (get?_lookups allowed.lookedUpOnce lookup .init).1
    simp only [Step.newEntry, Step.connector, remembered, Option.getD_some]
  obtain ⟨counted, room⟩ := allowed.counted lookup (.inl ⟨q, mem, rfl, rfl, isTable⟩)
  have listed := allowed.covers lookup
  refine ⟨blocks, gpu, counted, fun j le lt => ?_⟩
  rw [gpu] at le
  rw [blocks, length_map]
  simp only [Step.newEntry] at lt ⊢
  have inTable : q.numComputedTokens / cfg.blockSize ≤ table.length :=
    Nat.div_le_of_le_mul (Nat.mul_comm _ _ ▸ room)
  -- blocks are only reported up to the matched tokens
  have upTo : q.numComputedTokens = numGpu ∨ q.numComputedTokens = numMatched := by
    rw [Config.numReported] at counted
    split at counted <;> omega
  rcases upTo with same | matched
  · rw [same] at lt
    omega
  · rw [matched] at lt inTable
    omega

theorem Allowed.entries_covered : ∀ entry ∈ i.entries, Covered cfg entry.2 := by
  intro entry mem
  rcases mem_append.mp mem with new | cached
  · obtain ⟨q, inNew, rfl⟩ := mem_map.mp new
    obtain ⟨table, numGpu, numMatched, isTable, -, lookup⟩ := allowed.new q inNew
    exact (allowed.newEntry_spec inNew isTable lookup).2.2.2
  · obtain ⟨q, -, rfl⟩ := mem_map.mp cached
    exact fun j le lt => absurd lt (Nat.not_lt.mpr le)

/-- A step loads for each request what its metadata and the worker's record of it say, and the
worker keeps both. -/
theorem Allowed.exec_spec : ∃ w', exec cfg w i = .ok w' ∧ Loaded cfg w i w' ∧
    ∀ r, w'.requests r = if r ∈ i.sent then none
      else match i.entries.find? (·.1 == r) with
        | some (_, req) => some (merge (w.requests r) req)
        | none => w.requests r := by
  obtain ⟨bound, run, mem, merged, others⟩ :=
    bind_spec allowed.entries_once allowed.entries_covered { w with mapping := [] }
  refine ⟨_, by rw [exec, allowed.build, ok_bind, run]; rfl, fun r req entry cpu gpu => ?_,
    fun r => ?_⟩
  · have only : ∀ req', (r, req') ∈ i.entries → req' = req := fun req' entry' =>
      congrArg Prod.snd (inj_on_of_nodup_map allowed.entries_once entry' entry rfl)
    grind
  · dsimp only
    congr 1
    cases found : i.entries.find? (·.1 == r) with
    | some entry =>
      obtain ⟨id, req⟩ := entry
      obtain rfl : id = r := by simpa using find?_some found
      exact merged id req (mem_of_find?_eq_some found)
    | none => exact others r (Step.notMem_of_find? found)

section

variable {w' : Worker} (loaded : Loaded cfg w i w') {numGpu numMatched : Nat} {table : List Nat}
include loaded

section

variable {q : NewReq} (mem : q ∈ i.out.scheduledNewReqs) (isTable : q.blockIds.head? = some table)
  (lookup : (q.reqId, numGpu, numMatched) ∈ i.lookups)
include mem isTable lookup

end

section

variable {q : CachedReq} (mem : q ∈ i.out.scheduledCachedReqs)
include mem

end

end

end

/-- What holds between the steps: the worker has the requests that are known, and has blocks of
each. -/
def Inv (steps : List Step) (w : Worker) : Prop :=
  ∀ r, (w.requests r).isSome = known r steps ∧
    ∀ req, w.requests r = some req → req.gpuBlockIds ≠ []

theorem Inv.step {steps : List Step} {w' : Worker} (inv : Inv steps w)
    (taken : guarded (Allowed cfg) (succeeds (exec cfg)) w i w') : Inv (steps ++ [i]) w' := by
  obtain ⟨allowed, run⟩ := taken
  obtain ⟨w'', run', -, requests⟩ := allowed.exec_spec
  cases run.symm.trans run'
  intro r
  obtain ⟨isKnown, blocks⟩ := inv r
  rw [requests r, known, foldl_append, foldl_cons, foldl_nil, ← known, ← isKnown,
    ← i.map_fst_entries]
  by_cases sent : r ∈ i.sent
  · rw [if_pos sent]
    simp [sent]
  rw [if_neg sent]
  cases found : i.entries.find? (·.1 == r) with
  | none =>
    have notIn := Step.notMem_of_find? found
    exact ⟨by simp [sent, notIn], blocks⟩
  | some entry =>
    obtain ⟨id, req⟩ := entry
    obtain rfl : id = r := by simpa using find?_some found
    have isEntry := mem_of_find?_eq_some found
    have isKey : id ∈ i.entries.map Prod.fst := mem_map.mpr ⟨_, isEntry, rfl⟩
    refine ⟨by simp [sent, isKey], fun req' merged => ?_⟩
    cases merged
    rw [merge_eq]
    rcases mem_append.mp isEntry with new | cached
    · obtain ⟨q, inNew, same⟩ := mem_map.mp new
      obtain ⟨table, -, -, isTable, nonempty, -⟩ := allowed.new q inNew
      cases same
      simp [isTable, nonempty]
    · obtain ⟨q, inCached, same⟩ := mem_map.mp cached
      cases same
      obtain ⟨held, isHeld⟩ := Option.ne_none_iff_exists'.mp (allowed.cached q inCached)
      simp [isHeld, blocks held isHeld]

end Loading

/-- Request 0, of which the server has one block of one token, in an output with one more token
to compute. -/
def oneMatched (out : SchedulerOutput) : Step := ⟨[(0, 0, 1)], [0], out, fun _ _ _ => [2, 3], []⟩

/-- The request is scheduled for the first time. -/
def fresh : Step := oneMatched ⟨[⟨0, [[7, 8]], 1, 1⟩], []⟩

/-- The request is running when request 1 is scheduled for the first time. -/
def joined : Step where
  lookups := [(1, 0, 2)]
  allocated := [1]
  out := ⟨[⟨1, [[4, 5, 6]], 2, 1⟩], [⟨0, none, 2, 1⟩]⟩
  allocateSlots := fun _ _ r => if r = 1 then [11, 12, 13] else []
  sent := []

end Vllm.Ascend.CpuOffload
