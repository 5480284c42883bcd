import Vllm.Distributed.DPWave

/-!
The wave protocol strands no engine.

The invariant says that all engines are in one wave `w`, and who may be behind (`waves_of_run`).
Whatever names wave `w` shows that the coordinator has started it or will hear of it, and once it
has, every engine runs or is being told.

Steps of front ends (`Inv.frontEnd`), of the coordinator (`Inv.coordinate`) and of engines within the
wave (`Inv.engines`) keep the invariant for `w`; only an all-reduce without unfinished requests
(`Inv.nextWave`) goes on to `w + 1`.
-/

namespace Vllm.Distributed.DPWave

open Vllm.Lib.Steps List
open Vllm.Distributed.DPWave.Engine
open Function (update update_self update_of_ne)

variable {m : Nat} {κ ρ : Type}

/-! ### The invariant -/

/-- Some front end has yet to be heard. -/
def State.FirstReqPending (s : State m κ ρ) : Prop :=
  ∃ c, (s.clients c).firstReq ≠ [] ∨ s.toCoordinator c ≠ []

/-- The coordinator has started the wave, or will when it hears of a request. -/
def State.Woken (w : Nat) (s : State m κ ρ) : Prop :=
  s.coordinator.currentWave = w ∧ (s.coordinator.enginesRunning = true ∨ s.FirstReqPending)

/-- A message on its way to an engine, or in its queue. -/
def State.Inbound (s : State m κ ρ) (k : Fin (m + 2)) (input : Input m ρ) : Prop :=
  (∃ c, input ∈ s.toEngine c k) ∨ input ∈ s.broadcast k ∨ input ∈ (s.engines k).inputQueue

/-- The engine takes part in the wave. -/
def Engine.Active (e : Engine m ρ) : Prop :=
  e.enginesRunning = true ∨ e.requests ≠ [] ∨ e.pc ≠ .input

/-- What may be on its way to an engine. -/
def State.Expected (w : Nat) (s : State m κ ρ) : Input m ρ → Prop
  | .add _ wave => wave ≤ s.coordinator.currentWave ∧ (wave = w → s.Woken w)
  | .abort _ => True
  | .startDpWave wave _ => wave ≤ s.coordinator.currentWave ∧
      (wave = w → s.coordinator.enginesRunning = true)

structure Inv (w : Nat) (s : State m κ ρ) : Prop where
  wave : ∀ i, (s.engines i).currentWave = w
  steps : ∀ i k, (s.engines i).stepCounter = (s.engines k).stepCounter
  coordinator : s.coordinator.currentWave ≤ w
  complete : s.coordinator.currentWave < w → .waveComplete (w - 1) ∈ s.outputs 0
  client : ∀ c, (s.clients c).currentWave ≤ s.coordinator.currentWave ∧
    ((s.clients c).currentWave = w → (s.clients c).enginesRunning = true → s.Woken w)
  stats : ∀ c, ∀ msg ∈ s.toClient c, msg.1 ≤ s.coordinator.currentWave ∧
    (msg.1 = w → msg.2 = true → s.Woken w)
  inbound : ∀ k input, s.Inbound k input → s.Expected w input
  completed : ∀ k v, .waveComplete v ∈ s.outputs k → v < w
  started : ∀ k v, .startWave v ∈ s.outputs k →
    v ≤ w ∧ (v = w → (s.engines k).enginesRunning = true)
  told : s.coordinator.currentWave = w → s.coordinator.enginesRunning = true →
    ∀ k, (s.engines k).enginesRunning = true ∨
      ∃ exclude, s.Inbound k (.startDpWave w exclude) ∧ excludes k exclude = false
  active : ∀ i, (s.engines i).Active → s.Woken w ∨ ∃ k, .startWave w ∈ s.outputs k
  finished : ∀ i, (s.engines i).pc = .passing (some false) ∨ (s.engines i).pc = .reducing false →
    (s.engines i).requests = []
  identity : ∀ c, ∀ msg ∈ s.toCoordinator c, ∀ k, excludes k (some msg.1) = false

section Proofs

variable {w : Nat} {s s' : State m κ ρ}

theorem inv_init : Inv 0 (State.init : State m κ ρ) where
  wave := fun _ => rfl
  steps := fun _ _ => rfl
  coordinator := le_rfl
  complete := fun lt => absurd lt (lt_irrefl _)
  client := fun _ => ⟨le_rfl, nofun⟩
  stats := nofun
  inbound := by simp [State.Inbound, State.init]
  completed := nofun
  started := nofun
  told := nofun
  active := by simp [Engine.Active, State.init]
  finished := by simp [State.init]
  identity := nofun

section Channels

variable {ι α : Type} [DecidableEq ι] {channels : ι → List α} {i k : ι} {first a : α} {rest : List α}

section

variable (eq : channels k = first :: rest)
include eq

theorem mem_of_mem_update_tail (mem : a ∈ update channels k rest i) : a ∈ channels i := by
  rcases eq_or_ne i k with rfl | same
  · rw [update_self] at mem
    rw [eq]
    exact mem_cons_of_mem _ mem
  · rwa [update_of_ne same] at mem

theorem mem_update_tail_or (mem : a ∈ channels i) :
    a ∈ update channels k rest i ∨ i = k ∧ a = first := by
  rcases eq_or_ne i k with rfl | same
  · rw [update_self]
    rw [eq] at mem
    exact (mem_cons.mp mem).symm.imp_right fun head => ⟨rfl, head⟩
  · rw [update_of_ne same]
    exact .inl mem

theorem mem_update_tail (mem : a ∈ channels i) (ne : a ≠ first) : a ∈ update channels k rest i :=
  (mem_update_tail_or eq mem).resolve_right fun head => ne head.2

end

theorem mem_update_append {new : List α} :
    a ∈ update channels k (channels k ++ new) i ↔ a ∈ channels i ∨ i = k ∧ a ∈ new := by
  rcases eq_or_ne i k with rfl | same
  · simp
  · simp [same]

theorem forall_update {P : ι → α → Prop} {f : ι → α} (old : ∀ i, P i (f i)) (new : P k a) (i : ι) :
    P i (update f k a i) := by
  rcases eq_or_ne i k with rfl | same
  · rwa [update_self]
  · rw [update_of_ne same]
    exact old i

end Channels

/-- Nothing that wakes the wave is lost. -/
theorem State.Woken.mono (woken : s.Woken w) (coordinator : s'.coordinator = s.coordinator)
    (pending : s.FirstReqPending → s'.FirstReqPending) : s'.Woken w := by
  obtain ⟨current, started⟩ := woken
  exact ⟨coordinator ▸ current, started.imp (fun running => coordinator ▸ running) pending⟩

theorem State.Expected.mono {input : Input m ρ} (expected : s.Expected w input)
    (coordinator : s'.coordinator = s.coordinator)
    (pending : s.FirstReqPending → s'.FirstReqPending) : s'.Expected w input := by
  cases input with
  | add request wave =>
    exact ⟨coordinator ▸ expected.1, fun eq => (expected.2 eq).mono coordinator pending⟩
  | abort request => trivial
  | startDpWave wave exclude => exact ⟨coordinator ▸ expected.1, fun eq => coordinator ▸ expected.2 eq⟩

section

variable [DecidableEq κ]

/-- The requests that a front end has yet to tell of are kept. -/
theorem State.FirstReqPending.update (pending : s.FirstReqPending) {c : κ} {client : Client m}
    (grows : (s.clients c).firstReq ≠ [] → client.firstReq ≠ []) :
    ∃ d, (Function.update s.clients c client d).firstReq ≠ [] ∨ s.toCoordinator d ≠ [] := by
  obtain ⟨d, pending⟩ := pending
  refine ⟨d, pending.imp_left ?_⟩
  exact forall_update (P := fun d (new : Client m) => _ → new.firstReq ≠ []) (fun _ => id) grows d

theorem mem_update_update_append {c c' : κ} {k k' : Fin (m + 2)}
    {channels : κ → Fin (m + 2) → List (Input m ρ)} {new input : Input m ρ} :
    input ∈ update channels c (update (channels c) k (channels c k ++ [new])) c' k' ↔
      input ∈ channels c' k' ∨ (c' = c ∧ k' = k ∧ input = new) := by
  rcases eq_or_ne c' c with rfl | same
  · simp [mem_update_append]
  · simp [same]

end

section FrontEnd

variable (inv : Inv w s)
include inv

theorem Inv.safe : s.Safe where
  agree := by
    intro i k _ _
    exact ⟨(inv.wave i).trans (inv.wave k).symm, inv.steps i k⟩
  notStranded := by
    intro quiet i k barrier blocked
    have noInbound : ∀ input, ¬ s.Inbound k input := by
      rintro input (⟨c, mem⟩ | mem | mem)
      · rw [quiet.toEngine] at mem
        cases mem
      · rw [quiet.broadcast] at mem
        cases mem
      · rw [quiet.inputQueue] at mem
        cases mem
    rcases inv.active i (.inr (.inr barrier)) with woken | ⟨j, mem⟩
    · obtain ⟨current, running | ⟨c, pending | pending⟩⟩ := woken
      · rcases inv.told current running k with up | ⟨exclude, mem, -⟩
        · have := blocked.2.2
          simp [hasWork, up] at this
        · exact noInbound _ mem
      · exact pending (quiet.firstReq c)
      · exact pending (quiet.toCoordinator c)
    · rw [quiet.outputs] at mem
      cases mem

/-- A step of a front end, or a publication: engines and coordinator stay, nothing on its way to
an engine is lost, and what is new on its way is expected. -/
theorem Inv.frontEnd {clients : κ → Client m}
    {toEngine : κ → Fin (m + 2) → List (Input m ρ)} {toCoordinator : κ → List (Exclude m × Nat)}
    {toClient : κ → List (Nat × Bool)}
    (s_eq : s' = { s with
      clients := clients, toEngine := toEngine, toCoordinator := toCoordinator, toClient := toClient })
    (pending : s.FirstReqPending → s'.FirstReqPending)
    (client : ∀ c, clients c = s.clients c ∨ (clients c).currentWave ≤ s.coordinator.currentWave ∧
      ((clients c).currentWave = w → (clients c).enginesRunning = true → s'.Woken w))
    (stats : ∀ c, ∀ msg ∈ toClient c, msg ∈ s.toClient c ∨
      msg.1 ≤ s.coordinator.currentWave ∧ (msg.1 = w → msg.2 = true → s'.Woken w))
    (keeps : ∀ c k, ∀ input ∈ s.toEngine c k, input ∈ toEngine c k)
    (new : ∀ c k, ∀ input ∈ toEngine c k, input ∈ s.toEngine c k ∨ s'.Expected w input)
    (identity : ∀ c, ∀ msg ∈ toCoordinator c,
      msg ∈ s.toCoordinator c ∨ ∀ k, excludes k (some msg.1) = false) :
    Inv w s' := by
  subst s_eq
  refine { inv with
    client := ?_, stats := ?_, inbound := ?_, told := ?_, active := ?_, identity := ?_ }
  · intro c
    rcases client c with old | new
    · simp only [old]
      exact ⟨(inv.client c).1, fun eq up => ((inv.client c).2 eq up).mono rfl pending⟩
    · exact new
  · intro c msg mem
    rcases stats c msg mem with old | new
    · exact ⟨(inv.stats c msg old).1, fun eq up => ((inv.stats c msg old).2 eq up).mono rfl pending⟩
    · exact new
  · rintro k input (⟨c, mem⟩ | there)
    · rcases new c k input mem with old | expected
      · exact (inv.inbound k input (.inl ⟨c, old⟩)).mono rfl pending
      · exact expected
    · exact (inv.inbound k input (.inr there)).mono rfl pending
  · intro current running k
    rcases inv.told current running k with up | ⟨exclude, ⟨c, mem⟩ | there, notExcluded⟩
    · exact .inl up
    · exact .inr ⟨exclude, .inl ⟨c, keeps c k _ mem⟩, notExcluded⟩
    · exact .inr ⟨exclude, .inr there, notExcluded⟩
  · intro i active
    exact (inv.active i active).imp_left fun woken => woken.mono rfl pending
  · intro c msg mem
    exact (identity c msg mem).elim (inv.identity c msg) id

theorem Inv.publish : Inv w (publishFront s) := by
  refine inv.frontEnd rfl id (fun _ => .inl rfl) ?_ (fun _ _ _ mem => mem)
    (fun _ _ _ mem => .inl mem) fun _ _ mem => .inl mem
  intro c msg mem
  refine (mem_append.mp mem).imp_right fun new => ?_
  obtain rfl := mem_singleton.mp new
  exact ⟨le_rfl, fun eq up => ⟨eq, .inl up⟩⟩

variable [DecidableEq κ] [DecidableEq ρ] {c : κ} {k : Fin (m + 2)} {request : ρ}

theorem Inv.submit (run : exec s (.submit c k request) = some s') : Inv w s' := by
  let client' := if (s.clients c).enginesRunning then s.clients c
    else { s.clients c with firstReq := (s.clients c).firstReq ++ [k] }
  have wave : client'.currentWave = (s.clients c).currentWave := by
    simp only [client']
    split <;> rfl
  have grows : (s.clients c).firstReq ≠ [] → client'.firstReq ≠ [] := by
    intro some
    simp only [client']
    split
    · exact some
    · simp
  have pending : s.FirstReqPending → s'.FirstReqPending := by
    cases run
    exact fun pending => pending.update grows
  have current : s'.coordinator = s.coordinator := by
    cases run
    rfl
  -- A front end that takes the engines to be idle tells the coordinator of the request.
  have woken : (s.clients c).currentWave = w → s'.Woken w := by
    intro eq
    by_cases up : (s.clients c).enginesRunning = true
    · exact ((inv.client c).2 eq up).mono current pending
    · have le := (inv.client c).1
      have le' := inv.coordinator
      refine ⟨by rw [current]; omega, .inr ⟨c, .inl ?_⟩⟩
      cases run
      simp [up]
  refine inv.frontEnd (Option.some.inj run).symm pending ?_ (fun _ _ mem => .inl mem)
    (fun _ _ _ mem => mem_update_update_append.mpr (.inl mem)) ?_ fun _ _ mem => .inl mem
  · intro d
    rcases eq_or_ne d c with rfl | same
    · rw [update_self, wave]
      exact .inr ⟨(inv.client d).1, fun eq _ => woken eq⟩
    · exact .inl (update_of_ne same ..)
  · intro d i input mem
    refine (mem_update_update_append.mp mem).imp_right ?_
    rintro ⟨-, -, rfl⟩
    refine ⟨?_, woken⟩
    rw [current]
    exact (inv.client c).1

theorem Inv.abort (run : exec s (.abort c k request) = some s') : Inv w s' := by
  cases run
  refine inv.frontEnd rfl id (fun _ => .inl rfl) (fun _ _ mem => .inl mem)
    (fun _ _ _ mem => mem_update_update_append.mpr (.inl mem)) ?_ fun _ _ mem => .inl mem
  intro d i input mem
  refine (mem_update_update_append.mp mem).imp_right ?_
  rintro ⟨-, -, rfl⟩
  trivial

theorem Inv.firstReq (run : exec s (.firstReq c) = some s') : Inv w s' := by
  rcases eq : (s.clients c).firstReq with _ | ⟨target, rest⟩
  · simp [exec, eq] at run
  · have s_eq : s' = { s with
        clients := update s.clients c { s.clients c with enginesRunning := true, firstReq := rest }
        toCoordinator := update s.toCoordinator c
          (s.toCoordinator c ++ [(.identity target, (s.clients c).currentWave)]) } := by
      simpa [exec, eq] using run.symm
    have sent : s'.FirstReqPending := by
      refine ⟨c, .inr ?_⟩
      rw [s_eq]
      simp
    have current : s'.coordinator = s.coordinator := by rw [s_eq]
    have le := (inv.client c).1
    have le' := inv.coordinator
    refine inv.frontEnd s_eq (fun _ => sent) ?_ (fun _ _ mem => .inl mem) (fun _ _ _ mem => mem)
      (fun _ _ _ mem => .inl mem) ?_
    · intro d
      rcases eq_or_ne d c with rfl | same
      · rw [update_self]
        refine .inr ⟨le, fun (eq : (s.clients d).currentWave = w) _ => ⟨?_, .inr sent⟩⟩
        rw [current]
        omega
      · exact .inl (update_of_ne same ..)
    · intro d msg mem
      refine (mem_update_append.mp mem).imp_right fun ⟨_, new⟩ => ?_
      obtain rfl := mem_singleton.mp new
      exact fun _ => rfl

theorem Inv.receiveStats (run : exec s (.stats c) = some s') : Inv w s' := by
  rcases eq : s.toClient c with _ | ⟨⟨wave, running⟩, rest⟩
  · simp [exec, eq] at run
  · have s_eq : s' = { s with
        clients := update s.clients c
          { s.clients c with currentWave := wave, enginesRunning := running }
        toClient := update s.toClient c rest } := by
      simpa [exec, eq] using run.symm
    have pending : s.FirstReqPending → s'.FirstReqPending := by
      rw [s_eq]
      exact fun pending => pending.update id
    have current : s'.coordinator = s.coordinator := by rw [s_eq]
    refine inv.frontEnd s_eq pending ?_ (fun _ _ mem => .inl (mem_of_mem_update_tail eq mem))
      (fun _ _ _ mem => mem) (fun _ _ _ mem => .inl mem) fun _ _ mem => .inl mem
    intro d
    rcases eq_or_ne d c with rfl | same
    · rw [update_self]
      have message := inv.stats d (wave, running) (by simp [eq])
      exact .inr ⟨message.1, fun eq up => (message.2 eq up).mono current pending⟩
    · exact .inl (update_of_ne same ..)

end FrontEnd

section Coordinator

variable {changed : Bool} {k : Fin (m + 2)} {v : Nat} {rest : List Output} (inv : Inv w s)
include inv

/-- A step of the coordinator: front ends and engines stay. -/
theorem Inv.coordinate {coordinator : Coordinator}
    {toCoordinator : κ → List (Exclude m × Nat)} {broadcast : Fin (m + 2) → List (Input m ρ)}
    {outputs : Fin (m + 2) → List Output}
    (s_eq : s' = { s with
      coordinator := coordinator, toCoordinator := toCoordinator
      broadcast := broadcast, outputs := outputs })
    (heard : ∀ c, ∀ msg ∈ toCoordinator c, msg ∈ s.toCoordinator c)
    (grows : s.coordinator.currentWave ≤ coordinator.currentWave)
    (bound : coordinator.currentWave ≤ w)
    (woken : s.Woken w → s'.Woken w)
    (running : s.coordinator.currentWave = w → s.coordinator.enginesRunning = true →
      coordinator.enginesRunning = true)
    (complete : coordinator.currentWave < w → .waveComplete (w - 1) ∈ outputs 0)
    (taken : ∀ k, ∀ output ∈ outputs k, output ∈ s.outputs k)
    (keeps : ∀ k, ∀ input ∈ s.broadcast k, input ∈ broadcast k)
    (new : ∀ k, ∀ input ∈ broadcast k, input ∈ s.broadcast k ∨ s'.Expected w input)
    (told : coordinator.currentWave = w → coordinator.enginesRunning = true →
      (s.coordinator.currentWave = w ∧ s.coordinator.enginesRunning = true) ∨
      ∀ k, (s.engines k).enginesRunning = true ∨
        ∃ exclude, .startDpWave w exclude ∈ broadcast k ∧ excludes k exclude = false)
    (started : (∃ k, .startWave w ∈ s.outputs k) → s'.Woken w ∨ ∃ k, .startWave w ∈ outputs k) :
    Inv w s' := by
  have expected : ∀ k input, s.Inbound k input → s'.Expected w input := by
    intro k input there
    have old := inv.inbound k input there
    have current : s'.coordinator = coordinator := by rw [s_eq]
    cases input with
    | add request wave =>
      refine ⟨?_, fun eq => woken (old.2 eq)⟩
      rw [current]
      exact old.1.trans grows
    | abort request => trivial
    | startDpWave wave exclude =>
      rw [State.Expected, current]
      refine ⟨old.1.trans grows, fun eq => running ?_ (old.2 eq)⟩
      have := old.1
      omega
  subst s_eq
  constructor
  case wave => exact inv.wave
  case steps => exact inv.steps
  case coordinator => exact bound
  case complete => exact complete
  case client =>
    intro c
    exact ⟨(inv.client c).1.trans grows, fun eq up => woken ((inv.client c).2 eq up)⟩
  case stats =>
    intro c msg mem
    exact ⟨(inv.stats c msg mem).1.trans grows, fun eq up => woken ((inv.stats c msg mem).2 eq up)⟩
  case inbound =>
    rintro k input (there | mem | there)
    · exact expected k input (.inl there)
    · rcases new k input mem with old | new
      · exact expected k input (.inr (.inl old))
      · exact new
    · exact expected k input (.inr (.inr there))
  case completed =>
    intro k v mem
    exact inv.completed k v (taken k _ mem)
  case started =>
    intro k v mem
    exact inv.started k v (taken k _ mem)
  case told =>
    intro current up k
    rcases told current up with ⟨current, up⟩ | sent
    · rcases inv.told current up k with up | ⟨exclude, there | mem | there, other⟩
      · exact .inl up
      · exact .inr ⟨exclude, .inl there, other⟩
      · exact .inr ⟨exclude, .inr (.inl (keeps k _ mem)), other⟩
      · exact .inr ⟨exclude, .inr (.inr there), other⟩
    · rcases sent k with up | ⟨exclude, mem, other⟩
      · exact .inl up
      · exact .inr ⟨exclude, .inr (.inl mem), other⟩
  case active =>
    intro i active
    rcases inv.active i active with up | sent
    · exact .inl (woken up)
    · exact started sent
  case finished => exact inv.finished
  case identity =>
    intro c msg mem
    exact inv.identity c msg (heard c msg mem)

theorem Inv.waveComplete (eq : s.outputs k = .waveComplete v :: rest) :
    Inv w (handleOutput { s with outputs := update s.outputs k rest } k (.waveComplete v)).1 := by
  have le := inv.coordinator
  have old : v < w := inv.completed k v (by simp [eq])
  have complete : s.coordinator.currentWave < w → v ≠ w - 1 →
      .waveComplete (w - 1) ∈ update s.outputs k rest 0 :=
    fun lt ne => mem_update_tail eq (inv.complete lt) (by simpa using ne.symm)
  have started : (∃ i, .startWave w ∈ s.outputs i) →
      ∃ i, .startWave w ∈ update s.outputs k rest i :=
    fun ⟨i, mem⟩ => ⟨i, mem_update_tail eq mem (by simp)⟩
  simp only [handleOutput]
  split
  · rename_i behind
    -- Nobody was told of wave `w`, since the coordinator was behind it.
    refine inv.coordinate rfl (fun _ _ mem => mem) (Nat.le_succ_of_le behind) old ?_ ?_ ?_
      (fun _ _ mem => mem_of_mem_update_tail eq mem) (fun _ _ mem => mem) (fun _ _ mem => .inl mem) ?_
      fun sent => .inr (started sent)
    · intro woken
      have := woken.1
      omega
    · omega
    · intro (lt : v + 1 < w)
      exact complete (by omega) (by omega)
    · intro _ up
      cases up
  · refine inv.coordinate rfl (fun _ _ mem => mem) le_rfl le id (fun _ up => up) ?_
      (fun _ _ mem => mem_of_mem_update_tail eq mem) (fun _ _ mem => mem) (fun _ _ mem => .inl mem)
      (fun current up => .inl ⟨current, up⟩) fun sent => .inr (started sent)
    intro lt
    exact complete lt (by omega)

theorem Inv.startWave (eq : s.outputs k = .startWave v :: rest) :
    Inv w (handleOutput { s with outputs := update s.outputs k rest } k (.startWave v)).1 := by
  have le := inv.coordinator
  obtain ⟨bound, running⟩ := inv.started k v (by simp [eq])
  have complete : s.coordinator.currentWave < w →
      .waveComplete (w - 1) ∈ update s.outputs k rest 0 :=
    fun lt => mem_update_tail eq (inv.complete lt) (by simp)
  simp only [handleOutput]
  split
  · rename_i starts
    have grows : s.coordinator.currentWave ≤ v := by
      rcases starts with behind | ⟨same, -⟩
      · exact behind.le
      · exact le_of_eq same.symm
    refine inv.coordinate rfl (fun _ _ mem => mem) grows bound ?_ (fun _ _ => rfl) ?_
      (fun _ _ mem => mem_of_mem_update_tail eq mem)
      (fun _ _ mem => mem_append_left _ mem) ?_ ?_ ?_
    · intro woken
      have := woken.1
      exact ⟨by change v = w; omega, .inl rfl⟩
    · intro (lt : v < w)
      exact complete (by omega)
    · intro i input mem
      refine (mem_append.mp mem).imp_right fun new => ?_
      obtain rfl := mem_singleton.mp new
      exact ⟨le_rfl, fun _ => rfl⟩
    · -- The engine that caused the start is left out, and is running.
      intro (current : v = w) _
      refine .inr fun i => ?_
      by_cases same : i = k
      · exact .inl (same ▸ running current)
      · refine .inr ⟨some (.index k), ?_, by simp [excludes, Ne.symm same]⟩
        rw [current]
        exact mem_append_right _ (mem_singleton_self _)
    · rintro ⟨i, mem⟩
      by_cases current : v = w
      · exact .inl ⟨current, .inl rfl⟩
      · exact .inr ⟨i, mem_update_tail eq mem (by simpa using Ne.symm current)⟩
  · rename_i stays
    refine inv.coordinate rfl (fun _ _ mem => mem) le_rfl le id (fun _ up => up)
      complete (fun _ _ mem => mem_of_mem_update_tail eq mem) (fun _ _ mem => mem)
      (fun _ _ mem => .inl mem) (fun current up => .inl ⟨current, up⟩) ?_
    rintro ⟨i, mem⟩
    by_cases current : v = w
    · have same : v = s.coordinator.currentWave := by omega
      refine .inl ⟨same.symm.trans current, .inl ?_⟩
      by_contra down
      exact stays (.inr ⟨same, by simpa using down⟩)
    · exact .inr ⟨i, mem_update_tail eq mem (by simpa using Ne.symm current)⟩

theorem Inv.takeBack {back : Option (Fin (m + 2))}
    (run : takeBack s back = some (s', changed)) : Inv w s' := by
  cases back with
  | none =>
    cases run
    exact inv
  | some k =>
    rcases eq : s.outputs k with _ | ⟨output, rest⟩
    · simp [DPWave.takeBack, eq] at run
    · simp only [DPWave.takeBack, eq, Option.some.injEq] at run
      obtain rfl : _ = s' := congrArg Prod.fst run
      cases output with
      | waveComplete v => exact inv.waveComplete eq
      | startWave v => exact inv.startWave eq

/-- The coordinator hears of a request. -/
theorem Inv.takeFront [DecidableEq κ] {front : Option κ}
    (run : takeFront s front = some (s', changed)) : Inv w s' := by
  cases front with
  | none =>
    cases run
    exact inv
  | some c =>
    rcases eq : s.toCoordinator c with _ | ⟨⟨exclude, wave⟩, rest⟩
    · simp [DPWave.takeFront, eq] at run
    · have heard : ∀ d, ∀ msg ∈ update s.toCoordinator c rest d,
          msg ∈ s.toCoordinator d := fun _ _ mem => mem_of_mem_update_tail eq mem
      simp only [DPWave.takeFront, eq, handleNewRequest] at run
      split at run
      · rename_i up
        cases run
        exact inv.coordinate rfl heard le_rfl inv.coordinator
          (fun woken => ⟨woken.1, .inl up⟩) (fun _ _ => up) inv.complete (fun _ _ mem => mem)
          (fun _ _ mem => mem) (fun _ _ mem => .inl mem) (fun current _ => .inl ⟨current, up⟩) .inr
      · cases run
        refine inv.coordinate rfl heard le_rfl inv.coordinator
          (fun woken => ⟨woken.1, .inl rfl⟩) (fun _ _ => rfl) inv.complete (fun _ _ mem => mem)
          (fun _ _ mem => mem_append_left _ mem) ?_ ?_ .inr
        · intro k input mem
          refine (mem_append.mp mem).imp_right fun new => ?_
          obtain rfl := mem_singleton.mp new
          exact ⟨le_rfl, fun _ => rfl⟩
        · -- A front end names an engine by its identity, so that no engine is left out.
          intro current _
          refine .inr fun k => .inr
            ⟨if wave < s.coordinator.currentWave then none else some exclude, ?_, ?_⟩
          · rw [← show s.coordinator.currentWave = w from current]
            exact mem_append_right _ (mem_singleton_self _)
          · split
            · rfl
            · exact inv.identity c (exclude, wave) (by simp [eq]) k

end Coordinator

section Engines

variable {k : Fin (m + 2)} {input : Input m ρ} {e e' : Engine m ρ} {executed otherWork : Bool}
  {left : List ρ}

theorem of_all? {α : Type} {f : Fin (m + 2) → Option α} {g : Fin (m + 2) → α}
    (run : all? f = some g) (k : Fin (m + 2)) : f k = some (g k) := by
  unfold all? at run
  split at run
  · cases run
    exact (Option.some_get _).symm
  · cases run

theorem Engine.reducing {unfinished : Bool} (eq : e.localUnfinished = some unfinished) :
    e.pc = .reducing unfinished := by
  rcases pc : e.pc with _ | _ | local'
  case input => simp [localUnfinished, pc] at eq
  case passing => simp [localUnfinished, pc] at eq
  case reducing =>
    simp only [localUnfinished, pc, Option.some.injEq] at eq
    rw [eq]

section

variable [DecidableEq ρ]

/-- What an engine does up to a pass. It takes part in one only if it is active already. -/
structure Engine.Steps (e e' : Engine m ρ) : Prop where
  wave : e'.currentWave = e.currentWave
  counter : e'.stepCounter = e.stepCounter
  running : e'.enginesRunning = e.enginesRunning
  queue : e'.inputQueue = e.inputQueue
  active : e'.Active → e.Active
  finished : e'.pc = .passing (some false) ∨ e'.pc = .reducing false → e'.requests = []

theorem Engine.steps (run : e.step executed left otherWork = some e') : e.Steps e' := by
  rcases pc : e.pc with _ | _ | _
  case passing => simp [step, pc] at run
  case reducing => simp [step, pc] at run
  simp only [step, pc] at run
  split at run
  case isFalse => cases run
  rename_i guard
  have sublist : left.Sublist e.requests := by
    simp only [Bool.and_eq_true, isSublist_iff_sublist] at guard
    exact guard.2
  have unfinished : left ≠ [] → e.requests ≠ [] := by
    intro some none
    rw [none] at sublist
    exact some (sublist_nil.mp sublist)
  split at run
  · split at run
    · cases run
    · rename_i some
      cases run
      refine ⟨rfl, rfl, rfl, rfl, fun _ => .inr (.inl (by simpa using some)), ?_⟩
      rintro (eq | eq) <;> cases eq
  · split at run
    · cases run
      refine ⟨rfl, rfl, rfl, rfl, ?_, ?_⟩
      · rintro (up | some | busy)
        · exact .inl up
        · exact .inr (.inl (unfinished some))
        · exact absurd rfl busy
      · rintro (eq | eq) <;> cases eq
    · rename_i continues
      cases run
      refine ⟨rfl, rfl, rfl, rfl, ?_, ?_⟩
      · intro _
        by_cases up : e.enginesRunning = true
        · exact .inl up
        · refine .inr (.inl (unfinished ?_))
          intro none
          exact continues (by simp [none, up])
      · rintro (eq | eq)
        · simpa using eq
        · cases eq

structure Engine.Passes (e e' : Engine m ρ) : Prop where
  barrier : e.AtBarrier
  wave : e'.currentWave = e.currentWave
  counter : e'.stepCounter = e.stepCounter + 1
  running : e.enginesRunning = true → e'.enginesRunning = true
  queue : e'.inputQueue = e.inputQueue
  finished : e'.pc = .passing (some false) ∨ e'.pc = .reducing false → e'.requests = []

theorem Engine.passes (finished : e.pc = .passing (some false) → e.requests = [])
    (run : e.passed left otherWork = some e') : e.Passes e' := by
  rcases pc : e.pc with _ | (_ | unfinished) | _
  case input => simp [passed, pc] at run
  case reducing => simp [passed, pc] at run
  case passing.none =>
    simp only [passed, pc] at run
    split at run
    case isFalse => cases run
    cases run
    refine ⟨by simp [Engine.AtBarrier, pc], ?_, ?_, ?_, ?_, ?_⟩ <;> split <;> try rfl
    · exact fun _ => rfl
    · exact id
    · rintro (eq | eq) <;> cases eq
    · rintro (eq | eq)
      · cases eq
      · simpa using eq
  case passing.some =>
    simp only [passed, pc] at run
    cases run
    refine ⟨by simp [Engine.AtBarrier, pc], ?_, ?_, ?_, ?_, ?_⟩ <;> split <;> try rfl
    · exact fun _ => rfl
    · exact id
    · rintro (eq | eq) <;> cases eq
    · rintro (eq | eq)
      · cases eq
      · refine finished ?_
        simpa [pc] using eq

end

section

variable {toEngine : κ → Fin (m + 2) → List (Input m ρ)}
  {broadcast : Fin (m + 2) → List (Input m ρ)} (inv : Inv w s)
include inv

/-- A step of engines within the wave: front ends and coordinator stay, and an engine that is told
of the wave is running afterwards. -/
theorem Inv.engines {engines : Fin (m + 2) → Engine m ρ}
    {outputs : Fin (m + 2) → List Output}
    (s_eq : s' = { s with
      engines := engines, toEngine := toEngine, broadcast := broadcast, outputs := outputs })
    (wave : ∀ i, (engines i).currentWave = w)
    (steps : ∀ i k, (engines i).stepCounter = (engines k).stepCounter)
    (inbound : ∀ k input, s'.Inbound k input → s.Inbound k input)
    (running : ∀ k, (s.engines k).enginesRunning = true → (engines k).enginesRunning = true)
    (told : ∀ k exclude, excludes k exclude = false → s.Inbound k (.startDpWave w exclude) →
      (engines k).enginesRunning = true ∨ s'.Inbound k (.startDpWave w exclude))
    (keeps : ∀ k, ∀ output ∈ s.outputs k, output ∈ outputs k)
    (new : ∀ k, ∀ output ∈ outputs k,
      output ∈ s.outputs k ∨ output = .startWave w ∧ (engines k).enginesRunning = true)
    (active : ∀ i, (engines i).Active →
      (s.engines i).Active ∨ s.Woken w ∨ ∃ k, .startWave w ∈ outputs k)
    (finished : ∀ i, (engines i).pc = .passing (some false) ∨ (engines i).pc = .reducing false →
      (engines i).requests = []) :
    Inv w s' := by
  subst s_eq
  constructor
  case wave => exact wave
  case steps => exact steps
  case coordinator => exact inv.coordinator
  case complete =>
    intro behind
    exact keeps 0 _ (inv.complete behind)
  case client => exact inv.client
  case stats => exact inv.stats
  case inbound =>
    intro k input there
    exact inv.inbound k input (inbound k input there)
  case completed =>
    intro k v mem
    rcases new k _ mem with old | ⟨eq, -⟩
    · exact inv.completed k v old
    · cases eq
  case started =>
    intro k v mem
    rcases new k _ mem with old | ⟨eq, up⟩
    · exact (inv.started k v old).imp_right fun up eq => running k (up eq)
    · cases eq
      exact ⟨le_rfl, fun _ => up⟩
  case told =>
    intro current up k
    rcases inv.told current up k with up | ⟨exclude, there, other⟩
    · exact .inl (running k up)
    · exact (told k exclude other there).imp_right fun there => ⟨exclude, there, other⟩
  case active =>
    intro i here
    rcases active i here with before | new
    · exact (inv.active i before).imp_right fun ⟨k, mem⟩ => ⟨k, keeps k _ mem⟩
    · exact new
  case finished => exact finished
  case identity => exact inv.identity

/-- A step of one engine within the wave. -/
theorem Inv.engine {k : Fin (m + 2)} {e : Engine m ρ} {outputs : List Output}
    (s_eq : s' = { s with
      engines := update s.engines k e
      toEngine := toEngine
      broadcast := broadcast
      outputs := update s.outputs k (s.outputs k ++ outputs) }) (wave : e.currentWave = w)
    (steps : e.stepCounter = (s.engines k).stepCounter)
    (inbound : ∀ i input, s'.Inbound i input → s.Inbound i input)
    (running : (s.engines k).enginesRunning = true → e.enginesRunning = true)
    (told : ∀ i exclude, excludes i exclude = false → s.Inbound i (.startDpWave w exclude) →
      i = k ∧ e.enginesRunning = true ∨ s'.Inbound i (.startDpWave w exclude))
    (new : ∀ output ∈ outputs, output = .startWave w ∧ e.enginesRunning = true)
    (active : e.Active → (s.engines k).Active ∨ s.Woken w ∨ .startWave w ∈ outputs)
    (finished : e.pc = .passing (some false) ∨ e.pc = .reducing false → e.requests = []) :
    Inv w s' := by
  have counter : ∀ i, (update s.engines k e i).stepCounter = (s.engines k).stepCounter :=
    forall_update (P := fun _ (e : Engine m ρ) => e.stepCounter = _) (inv.steps · k) steps
  refine inv.engines s_eq ?_ ?_ inbound ?_ ?_ ?_ ?_ ?_ ?_
  · exact forall_update (P := fun _ (e : Engine m ρ) => e.currentWave = w) inv.wave wave
  · intro i j
    rw [counter i, counter j]
  · exact forall_update (P := fun _ (e : Engine m ρ) => _ → e.enginesRunning = true) (fun _ => id)
      running
  · intro i exclude other there
    rcases told i exclude other there with ⟨rfl, up⟩ | there
    · rw [update_self]
      exact .inl up
    · exact .inr there
  · exact fun i output mem => mem_update_append.mpr (.inl mem)
  · intro i output mem
    refine (mem_update_append.mp mem).imp_right ?_
    rintro ⟨rfl, mine⟩
    rw [update_self]
    exact new output mine
  · intro i here
    rcases eq_or_ne i k with rfl | same
    · rw [update_self] at here
      rcases active here with before | woken | sent
      · exact .inl before
      · exact .inr (.inl woken)
      · exact .inr (.inr ⟨i, mem_update_append.mpr (.inr ⟨rfl, sent⟩)⟩)
    · rw [update_of_ne same] at here
      exact .inl here
  · exact forall_update (P := fun _ (e : Engine m ρ) => e.pc = .passing (some false) ∨
      e.pc = .reducing false → e.requests = []) inv.finished finished

/-- An engine takes one of the messages that are in transit to it. -/
theorem Inv.queue
    (s_eq : s' = { s with
      engines := update s.engines k
        { s.engines k with inputQueue := (s.engines k).inputQueue ++ [input] }
      toEngine := toEngine
      broadcast := broadcast }) (first : (∃ c, input ∈ s.toEngine c k) ∨ input ∈ s.broadcast k)
    (taken : ∀ i other, (∃ c, other ∈ toEngine c i) ∨ other ∈ broadcast i →
      (∃ c, other ∈ s.toEngine c i) ∨ other ∈ s.broadcast i)
    (kept : ∀ i other, (∃ c, other ∈ s.toEngine c i) ∨ other ∈ s.broadcast i →
      ((∃ c, other ∈ toEngine c i) ∨ other ∈ broadcast i) ∨ i = k ∧ other = input) :
    Inv w s' := by
  have same : update s.outputs k (s.outputs k ++ []) = s.outputs := by
    rw [append_nil, Function.update_eq_self]
  rw [← same] at s_eq
  refine inv.engine s_eq (inv.wave k) rfl ?_ id ?_ ?_ .inl (inv.finished k)
  · intro i other there
    rw [s_eq, State.Inbound, ← or_assoc] at there
    rw [State.Inbound, ← or_assoc]
    rcases there with transit | mem
    · exact .inl (taken i other transit)
    · rcases eq_or_ne i k with rfl | same
      · simp only [update_self] at mem
        rcases mem_append.mp mem with old | new
        · exact .inr old
        · obtain rfl := mem_singleton.mp new
          exact .inl first
      · simp only [update_of_ne same] at mem
        exact .inr mem
  · intro i exclude _ there
    rw [State.Inbound, ← or_assoc] at there
    refine .inr ?_
    rw [s_eq, State.Inbound, ← or_assoc]
    rcases there with transit | mem
    · rcases kept i _ transit with transit | ⟨rfl, rfl⟩
      · exact .inl transit
      · refine .inr ?_
        simp only [update_self]
        exact mem_append_right _ (mem_singleton_self _)
    · refine .inr ?_
      rcases eq_or_ne i k with rfl | same
      · simp only [update_self]
        exact mem_append_left _ mem
      · simpa only [update_of_ne same] using mem
  · nofun

theorem Inv.handled {outputs : List Output} {rest : List (Input m ρ)}
    (queue : (s.engines k).inputQueue = input :: rest) (wave : e.currentWave = w)
    (steps : e.stepCounter = (s.engines k).stepCounter) (pc : e.pc = .input)
    (queue' : e.inputQueue = rest)
    (running : (s.engines k).enginesRunning = true → e.enginesRunning = true)
    (told : ∀ exclude, input = .startDpWave w exclude → excludes k exclude = false →
      e.enginesRunning = true)
    (new : ∀ output ∈ outputs, output = .startWave w ∧ e.enginesRunning = true)
    (active : e.Active → (s.engines k).Active ∨ s.Woken w ∨ .startWave w ∈ outputs) :
    Inv w (setEngine s k e outputs) := by
  refine inv.engine rfl wave steps ?_ running ?_ new active ?_
  · rintro i other (there | there | mem)
    · exact .inl there
    · exact .inr (.inl there)
    · refine .inr (.inr ?_)
      rcases eq_or_ne i k with rfl | same
      · simp only [setEngine, update_self, queue'] at mem
        rw [queue]
        exact mem_cons_of_mem _ mem
      · simpa only [setEngine, update_of_ne same] using mem
  · rintro i exclude other (there | there | mem)
    · exact .inr (.inl there)
    · exact .inr (.inr (.inl there))
    · rcases eq_or_ne i k with rfl | same
      · rw [queue] at mem
        rcases mem_cons.mp mem with eq | mem
        · exact .inl ⟨rfl, told exclude eq.symm other⟩
        · refine .inr (.inr (.inr ?_))
          simpa only [setEngine, update_self, queue'] using mem
      · refine .inr (.inr (.inr ?_))
        simpa only [setEngine, update_of_ne same] using mem
  · rw [pc]
    rintro (eq | eq) <;> cases eq

/-- Some engine has an unfinished request, and the wave goes on. -/
theorem Inv.goOn (barrier : ∀ k, (s.engines k).AtBarrier) :
    Inv w { s with engines := fun k => (s.engines k).reduced true } := by
  refine inv.engines rfl inv.wave inv.steps (fun _ _ there => there) (fun _ _ => rfl)
    (fun _ _ _ _ => .inl rfl) (fun _ _ mem => mem) (fun _ _ mem => .inl mem) ?_ ?_
  · intro i _
    exact .inl (.inr (.inr (barrier i)))
  · rintro i (eq | eq) <;> cases eq

/-- No engine has an unfinished request, and the wave ends. All that is on its way is of this wave
or of an earlier one. -/
theorem Inv.nextWave (reducing : ∀ k, (s.engines k).pc = .reducing false) :
    Inv (w + 1) { s with
      engines := fun k => (s.engines k).reduced false
      outputs := update s.outputs 0
        (s.outputs 0 ++ [.waveComplete (s.engines 0).currentWave]) } := by
  have le := inv.coordinator
  have outputs : ∀ k output, output ∈ update s.outputs 0
      (s.outputs 0 ++ [.waveComplete (s.engines 0).currentWave]) k →
      output ∈ s.outputs k ∨ output = .waveComplete w := by
    intro k output mem
    refine (mem_update_append.mp mem).imp_right fun ⟨_, new⟩ => ?_
    rw [inv.wave 0] at new
    exact mem_singleton.mp new
  constructor
  case wave =>
    intro i
    exact congrArg (· + 1) (inv.wave i)
  case steps =>
    intro i k
    rfl
  case coordinator => exact Nat.le_succ_of_le le
  case complete =>
    simp [inv.wave 0]
  case client =>
    intro c
    have bound := (inv.client c).1
    refine ⟨bound, fun eq => ?_⟩
    change (s.clients c).currentWave = w + 1 at eq
    omega
  case stats =>
    intro c msg mem
    have bound := (inv.stats c msg mem).1
    refine ⟨bound, fun eq => ?_⟩
    omega
  case inbound =>
    intro k input there
    have old := inv.inbound k input there
    cases input with
    | add request wave =>
      refine ⟨old.1, fun eq => ?_⟩
      have := old.1
      omega
    | abort request => trivial
    | startDpWave wave exclude =>
      refine ⟨old.1, fun eq => ?_⟩
      have := old.1
      omega
  case completed =>
    intro k v mem
    rcases outputs k _ mem with old | new
    · exact Nat.lt_succ_of_lt (inv.completed k v old)
    · cases new
      exact Nat.lt_succ_self _
  case started =>
    intro k v mem
    rcases outputs k _ mem with old | new
    · have bound := (inv.started k v old).1
      refine ⟨Nat.le_succ_of_le bound, fun eq => ?_⟩
      omega
    · cases new
  case told =>
    intro current
    change s.coordinator.currentWave = w + 1 at current
    omega
  case active =>
    rintro i (up | some | busy)
    · cases up
    · exact absurd (inv.finished i (.inr (reducing i))) some
    · exact absurd rfl busy
  case finished =>
    rintro i (eq | eq) <;> cases eq
  case identity => exact inv.identity

variable [DecidableEq κ] [DecidableEq ρ]

theorem Inv.receive {source : Option κ}
    (run : exec s (.receive k source) = some s') : Inv w s' := by
  cases source with
  | none =>
    rcases eq : s.broadcast k with _ | ⟨input, rest⟩
    · simp [exec, eq] at run
    · simp only [exec, eq, Option.some.injEq] at run
      refine inv.queue run.symm (.inr (by simp [eq])) ?_ ?_
      · intro i other
        exact Or.imp_right fun mem => mem_of_mem_update_tail eq mem
      · rintro i other (there | mem)
        · exact .inl (.inl there)
        · exact (mem_update_tail_or eq mem).imp_left .inr
  | some c =>
    rcases eq : s.toEngine c k with _ | ⟨input, rest⟩
    · simp [exec, eq] at run
    · simp only [exec, eq, Option.some.injEq] at run
      refine inv.queue run.symm (.inl ⟨c, by simp [eq]⟩) ?_ ?_
      · intro i other
        refine Or.imp_left fun ⟨d, mem⟩ => ⟨d, ?_⟩
        rcases eq_or_ne d c with rfl | same
        · rw [update_self] at mem
          exact mem_of_mem_update_tail eq mem
        · rwa [update_of_ne same] at mem
      · rintro i other (⟨d, mem⟩ | mem)
        · rcases eq_or_ne d c with rfl | same
          · refine (mem_update_tail_or eq mem).imp_left fun mem => .inl ⟨d, ?_⟩
            rwa [update_self]
          · refine .inl (.inl ⟨d, ?_⟩)
            rwa [update_of_ne same]
        · exact .inl (.inr mem)

theorem Inv.handle (run : exec s (.handle k) = some s') : Inv w s' := by
  rcases pc : (s.engines k).pc with _ | _ | _
  case passing => simp [exec, pc] at run
  case reducing => simp [exec, pc] at run
  rcases queue : (s.engines k).inputQueue with _ | ⟨input, rest⟩
  · simp [exec, queue] at run
  · simp only [exec, pc, queue, Option.some.injEq] at run
    subst run
    have expected := inv.inbound k input (.inr (.inr (by simp [queue])))
    have current := inv.wave k
    have le := inv.coordinator
    cases input with
    | abort request =>
      simp only [handleClientRequest]
      refine inv.handled queue current rfl rfl rfl id nofun nofun ?_
      · rintro (up | some | busy)
        · exact .inl (.inl up)
        · refine .inl (.inr (.inl fun none => some ?_))
          simp [none]
        · exact absurd rfl busy
    | startDpWave wave exclude =>
      obtain ⟨bound, running⟩ := expected
      simp only [handleClientRequest]
      split
      · have here : wave = w := by
          omega
        refine inv.handled queue here rfl rfl rfl (fun _ => rfl) (fun _ _ _ => rfl) nofun ?_
        intro _
        exact .inr (.inl ⟨by omega, .inl (running here)⟩)
      · rename_i ignored
        refine inv.handled queue current rfl rfl rfl id ?_ nofun ?_
        · intro other eq notExcluded
          cases eq
          exact absurd ⟨notExcluded, le_of_eq current⟩ ignored
        · rintro (up | some | busy)
          · exact .inl (.inl up)
          · exact .inl (.inr (.inl some))
          · exact absurd rfl busy
    | add request wave =>
      obtain ⟨bound, woken⟩ := expected
      simp only [handleClientRequest, addRequest]
      split
      · rename_i same
        exact inv.handled queue current rfl rfl rfl id nofun nofun fun _ =>
          .inr (.inl (woken (same.trans current)))
      · split
        · omega
        · split
          · rename_i up
            exact inv.handled queue current rfl rfl rfl id nofun nofun fun _ => .inl (.inl up)
          · refine inv.handled queue current rfl rfl rfl (fun _ => rfl) (fun _ _ _ => rfl) ?_ ?_
            · intro output mem
              obtain rfl := mem_singleton.mp mem
              exact ⟨congrArg _ current, rfl⟩
            · intro _
              refine .inr (.inr (mem_singleton.mpr ?_))
              exact congrArg _ current.symm

theorem Inv.step (run : exec s (.step k executed left otherWork) = some s') : Inv w s' := by
  obtain ⟨e, done, rfl⟩ := Option.map_eq_some_iff.mp run
  have steps := Engine.steps done
  have inbound : ∀ i input, (setEngine s k e []).Inbound i input ↔ s.Inbound i input := by
    intro i input
    rcases eq_or_ne i k with rfl | same
    · simp only [State.Inbound, setEngine, update_self, steps.queue]
    · simp only [State.Inbound, setEngine, update_of_ne same]
  refine inv.engine rfl (steps.wave.trans (inv.wave k)) steps.counter
    (fun i input => (inbound i input).mp) steps.running.trans ?_ nofun
    (fun active => .inl (steps.active active)) steps.finished
  intro i exclude _ there
  exact .inr ((inbound i _).mpr there)

theorem Inv.pass {left : Fin (m + 2) → List ρ} {otherWork : Fin (m + 2) → Bool}
    (run : exec s (.pass left otherWork) = some s') : Inv w s' := by
  obtain ⟨engines, done, rfl⟩ := Option.map_eq_some_iff.mp run
  have passes : ∀ k, (s.engines k).Passes (engines k) :=
    fun k => passes (fun pc => inv.finished k (.inl pc)) (of_all? done k)
  have inbound : ∀ i input, State.Inbound { s with engines := engines } i input ↔
      s.Inbound i input := by
    intro i input
    simp only [State.Inbound, (passes i).queue]
  refine inv.engines rfl ?_ ?_ (fun i input => (inbound i input).mp) (fun k => (passes k).running) ?_
    (fun _ _ mem => mem) (fun _ _ mem => .inl mem) ?_ fun k => (passes k).finished
  · intro i
    rw [(passes i).wave, inv.wave i]
  · intro i k
    rw [(passes i).counter, (passes k).counter, inv.steps i k]
  · intro k exclude _ there
    exact .inr ((inbound k _).mpr there)
  · intro i _
    exact .inl (.inr (.inr (passes i).barrier))

theorem Inv.reduce (run : exec s .reduce = some s') : ∃ w, Inv w s' := by
  obtain ⟨unfinished, done, rfl⟩ := Option.map_eq_some_iff.mp run
  have reducing : ∀ k, (s.engines k).pc = .reducing (unfinished k) :=
    fun k => reducing (of_all? done k)
  by_cases any : ∃ k, unfinished k = true
  · simp only [any]
    refine ⟨w, inv.goOn fun k => ?_⟩
    simp [Engine.AtBarrier, reducing k]
  · simp only [any]
    refine ⟨w + 1, inv.nextWave fun k => ?_⟩
    rw [reducing k]
    have none : unfinished k = false := by
      by_contra some
      exact any ⟨k, by simpa using some⟩
    rw [none]

end

end Engines

section Runs

variable [DecidableEq κ] [DecidableEq ρ]

theorem Inv.exec {action : Action m κ ρ} (inv : Inv w s) (run : exec s action = some s') :
    ∃ w, Inv w s' := by
  cases action with
  | submit c k request => exact ⟨w, inv.submit run⟩
  | abort c k request => exact ⟨w, inv.abort run⟩
  | firstReq c => exact ⟨w, inv.firstReq run⟩
  | stats c => exact ⟨w, inv.receiveStats run⟩
  | coordinate front back =>
    simp only [DPWave.exec] at run
    split at run
    · cases run
    · obtain ⟨⟨s₁, changed⟩, front, run⟩ := Option.bind_eq_some_iff.mp run
      obtain ⟨⟨s₂, changed'⟩, back, run⟩ := Option.bind_eq_some_iff.mp run
      have inv₂ : Inv w s₂ := (inv.takeFront front).takeBack back
      cases run
      refine ⟨w, ?_⟩
      split
      · exact inv₂.publish
      · exact inv₂
  | publish =>
    cases run
    exact ⟨w, inv.publish⟩
  | receive k source => exact ⟨w, inv.receive run⟩
  | handle k => exact ⟨w, inv.handle run⟩
  | step k executed left otherWork => exact ⟨w, inv.step run⟩
  | pass left otherWork => exact ⟨w, inv.pass run⟩
  | reduce => exact inv.reduce run

/-- In every run from idle engines, engines that meet in the all-reduce are in the same wave at the
same step, and once no message is left, no engine waits for one that is idle. -/
theorem safe_of_run {actions : List (Action m κ ρ)}
    (run : Run (enabled DPWave.exec) State.init actions s) : s.Safe := by
  have keeps : ∀ {s : State m κ ρ} {action s'}, (∃ w, Inv w s) →
      enabled DPWave.exec s action s' → ∃ w, Inv w s' :=
    fun ⟨_, inv⟩ step => inv.exec step
  obtain ⟨w, inv⟩ := run.invariant (fun s => ∃ w, Inv w s) keeps ⟨0, inv_init⟩
  exact inv.safe

/-- In every run all engines are in one wave at one step, no client is ahead of the coordinator, and
the coordinator is behind the engines only while the end of the last wave is on its way to it. -/
theorem waves_of_run {actions : List (Action m κ ρ)}
    (run : Run (enabled DPWave.exec) State.init actions s) :
    (∀ i k, (s.engines i).currentWave = (s.engines k).currentWave ∧
      (s.engines i).stepCounter = (s.engines k).stepCounter) ∧
    (∀ c, (s.clients c).currentWave ≤ s.coordinator.currentWave) ∧
    ∀ k, s.coordinator.currentWave = (s.engines k).currentWave ∨
      s.coordinator.currentWave < (s.engines k).currentWave ∧
        .waveComplete ((s.engines k).currentWave - 1) ∈ s.outputs 0 := by
  obtain ⟨w, inv⟩ := run.invariant (fun s => ∃ w, Inv w s) (fun ⟨_, inv⟩ step => inv.exec step)
    ⟨0, inv_init⟩
  simp only [inv.wave]
  refine ⟨fun i k => ⟨trivial, inv.steps i k⟩, fun c => (inv.client c).1, fun k => ?_⟩
  exact inv.coordinator.eq_or_lt.imp_right fun behind => ⟨behind, inv.complete behind⟩

end Runs

end Proofs

/-- Of two engines, engine 1 gets a request and goes up to a pass, while engine 0 is still idle: the
coordinator is yet to be told. -/
theorem firstRequest_safe : ∃ s : State 0 Unit Nat,
    Run (enabled exec) State.init
      [.submit () 1 7, .receive 1 (some ()), .handle 1, .step 1 true [7] false] s ∧
    (s.engines 1).AtBarrier ∧ (s.engines 0).Blocked ∧ s.Safe := by
  have run : Run (enabled (exec (m := 0))) State.init
      [.submit () 1 7, .receive 1 (some ()), .handle 1, .step 1 true [7] false] _ :=
    .of_enabled rfl
  refine ⟨_, run, ?_, ?_, safe_of_run run⟩
  · exact nofun
  · exact ⟨rfl, rfl, rfl⟩

/-! ### A wave -/

section Wave

/-- Wave 0 after `k` passes: the engines run, and engine 1 has a request. -/
def inWave (k : Nat) (requests : List Nat) (pc : Fin 2 → Pc) : State 0 Unit Nat where
  clients := fun _ => ⟨0, true, []⟩
  coordinator := ⟨0, true⟩
  engines := fun i => ⟨0, true, k, if i = 1 then requests else [], false, [], pc i⟩
  toEngine := fun _ _ => []
  toCoordinator := fun _ => []
  toClient := fun _ => [(0, true)]
  broadcast := fun _ => []
  outputs := fun _ => []

/-- Engine 1 is at a pass with its request, engine 0 at a dummy pass. -/
def atPass (i : Fin 2) : Pc := .passing (if i.val = 1 then none else some false)

theorem all?_eq_some {m : Nat} {α : Type} {f : Fin (m + 2) → Option α} {g : Fin (m + 2) → α}
    (each : ∀ k, f k = some (g k)) : all? f = some g := by
  simp [all?, each]

/-- A request is submitted, and the coordinator wakes both engines. -/
theorem start_inWave : Run (enabled exec) State.init
    [.submit () 1 7, .receive 1 (some ()), .handle 1, .firstReq (), .coordinate (some ()) none,
      .receive 0 none, .handle 0, .receive 1 none, .handle 1] (inWave 0 [7] fun _ => .input) := by
  refine .of_enabled (congrArg some (State.ext rfl rfl ?_ ?_ rfl rfl ?_ ?_))
  · funext i
    fin_cases i <;> rfl
  · funext c i
    fin_cases i <;> rfl
  · funext i
    fin_cases i <;> rfl
  · funext i
    fin_cases i <;> rfl

theorem step_inWave (k : Nat) :
    ∃ s, exec (inWave k [7] fun _ => .input) (.step 0 false [] false) = some s ∧
      exec s (.step 1 true [7] false) = some (inWave k [7] atPass) := by
  refine ⟨_, rfl, congrArg some (State.ext rfl rfl ?_ rfl rfl rfl rfl ?_)⟩
  · funext i
    fin_cases i <;> rfl
  · funext i
    fin_cases i <;> rfl

theorem pass_inWave {k : Nat} (early : (k + 1) % 32 ≠ 0) :
    exec (inWave k [7] atPass) (.pass (fun i => if i = 1 then [7] else []) fun _ => false) =
      some (inWave (k + 1) [7] fun _ => .input) := by
  have passed : ∀ i, ((inWave k [7] atPass).engines i).passed (if i = 1 then [7] else []) false =
      some ((inWave (k + 1) [7] fun _ => .input).engines i) := by
    intro i
    fin_cases i <;> simp [Engine.passed, inWave, atPass, early]
  rw [exec, all?_eq_some passed]
  rfl

/-- The 32nd pass finishes the request. -/
theorem pass_last : exec (inWave 31 [7] atPass) (.pass (fun _ => []) fun _ => false) =
    some (inWave 32 [] fun _ => .reducing false) := by
  have passed : ∀ i, ((inWave 31 [7] atPass).engines i).passed [] false =
      some ((inWave 32 [] fun _ => .reducing false).engines i) := by
    intro i
    fin_cases i <;> simp [Engine.passed, inWave, atPass]
  rw [exec, all?_eq_some passed]
  rfl

/-- The engines have ended the wave, and engine 0 tells the coordinator. -/
def afterWave : State 0 Unit Nat :=
  { inWave 0 [] fun _ => .input with
    engines := fun _ => ⟨1, false, 0, [], false, [], .input⟩
    outputs := fun i => if i = 0 then [.waveComplete 0] else [] }

theorem reduce_last :
    exec (inWave 32 [] fun _ => .reducing false) .reduce = some afterWave := by
  have unfinished : ∀ i, ((inWave 32 [] fun _ => .reducing false).engines i).localUnfinished =
      some false := fun _ => rfl
  rw [exec, all?_eq_some unfinished]
  refine congrArg some (State.ext rfl rfl ?_ rfl rfl rfl rfl ?_)
  · funext i
    fin_cases i <;> rfl
  · funext i
    fin_cases i <;> rfl

theorem reach_inWave {k : Nat} (before : k < 32) :
    ∃ actions, Run (enabled exec) State.init actions (inWave k [7] fun _ => .input) := by
  induction k with
  | zero => exact ⟨_, start_inWave⟩
  | succ k ih =>
    obtain ⟨actions, run⟩ := ih (by omega)
    obtain ⟨s, first, second⟩ := step_inWave k
    exact ⟨_, ((run.tail first).tail second).tail (pass_inWave (by omega))⟩

end Wave

/-- Wave 0 from its first request to the all-reduce that ends it: the engines are in wave 1, which
the coordinator is yet to hear of. -/
theorem firstRequest_waves : ∃ actions, ∃ s : State 0 Unit Nat,
    Run (enabled exec) State.init actions s ∧ (∀ i, (s.engines i).currentWave = 1) ∧
    s.coordinator.currentWave = 0 ∧
    (∀ i k, (s.engines i).currentWave = (s.engines k).currentWave ∧
      (s.engines i).stepCounter = (s.engines k).stepCounter) ∧
    (∀ c, (s.clients c).currentWave ≤ s.coordinator.currentWave) ∧
    ∀ k, s.coordinator.currentWave = (s.engines k).currentWave ∨
      s.coordinator.currentWave < (s.engines k).currentWave ∧
        .waveComplete ((s.engines k).currentWave - 1) ∈ s.outputs 0 := by
  obtain ⟨actions, run⟩ := reach_inWave (k := 31) (by decide)
  obtain ⟨s, first, second⟩ := step_inWave 31
  have run := (((run.tail first).tail second).tail pass_last).tail reduce_last
  exact ⟨_, _, run, fun _ => rfl, rfl, waves_of_run run⟩

end Vllm.Distributed.DPWave
