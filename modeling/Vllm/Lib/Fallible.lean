import Mathlib

/-!
Computations that may fail: how `Except` runs compose.
-/

namespace Vllm.Lib.Fallible

open List

variable {ε α β σ : Type}

@[simp] theorem ok_bind (a : α) (f : α → Except ε β) : ((Except.ok a : Except ε α) >>= f) = f a := rfl

@[simp] theorem error_bind (e : ε) (f : α → Except ε β) :
    ((Except.error e : Except ε α) >>= f) = .error e := rfl

@[simp] theorem pure_eq_ok (a : α) : (pure a : Except ε α) = .ok a := rfl

variable {x : Except ε α} {f : α → Except ε β} {b : β} {a : α} {xs : List α} {s s' : σ}
  {ys : List β}

/-- A sequence succeeds when both parts do. -/
theorem bind_eq_ok : x >>= f = .ok b ↔ ∃ a, x = .ok a ∧ f a = .ok b := by
  cases x with
  | error | ok => simp

/-- A sequence fails in its first part, or in the second after the first. -/
theorem bind_eq_error {e : ε} :
    x >>= f = .error e ↔ x = .error e ∨ ∃ a, x = .ok a ∧ f a = .error e := by
  cases x with
  | error | ok => simp

/-- A check that raises lets a run go on. -/
theorem guard_eq_ok {c : Prop} [Decidable c] {e : ε} :
    (if c then .error e else x) = .ok a ↔ ¬ c ∧ x = .ok a := by
  by_cases raises : c
  · simp [raises]
  · simp [raises]

theorem require_eq_ok {c : Prop} [Decidable c] {e : ε} :
    (if c then x else .error e) = .ok a ↔ c ∧ x = .ok a := by
  by_cases holds : c
  · simp [holds]
  · simp [holds]

/-- What can be read off the result of a run that succeeds. -/
theorem map_eq_ok {f : α → β} : x.map f = .ok b ↔ ∃ a, x = .ok a ∧ f a = b := by
  cases x with
  | error | ok => simp [Except.map]

/-- What every successful step keeps holds after a successful loop. -/
theorem foldlM_keeps {f : σ → α → Except ε σ} (Inv : σ → Prop)
    (keeps : ∀ s, ∀ a ∈ xs, ∀ s', Inv s → f s a = .ok s' → Inv s') (start : Inv s)
    (run : xs.foldlM f s = .ok s') : Inv s' := by
  induction xs generalizing s with
  | nil =>
    cases run
    exact start
  | cons a rest ih =>
    obtain ⟨t, step, run⟩ := bind_eq_ok.mp run
    exact ih (fun s a mem => keeps s a (by simp [mem])) (keeps s a (by simp) t start step) run

/-- A map that goes along with every step goes along with the loop. -/
theorem map_foldlM {τ : Type} {f : σ → α → Except ε σ} {f' : τ → α → Except ε τ} {g : σ → τ}
    (along : ∀ s a, (f s a).map g = f' (g s) a) (xs : List α) (s : σ) :
    (xs.foldlM f s).map g = xs.foldlM f' (g s) := by
  induction xs generalizing s with
  | nil => rfl
  | cons a rest ih =>
    rw [foldlM_cons, foldlM_cons, ← along]
    cases f s a with
    | error e => rfl
    | ok t => exact ih t

/-- A fold that comes by an element: what happens before it, there and after it. -/
theorem foldlM_split {f : σ → α → Except ε σ} (mem : a ∈ xs) (run : xs.foldlM f s = .ok s') :
    ∃ before after t u, xs = before ++ a :: after ∧ before.foldlM f s = .ok t ∧ f t a = .ok u ∧
      after.foldlM f u = .ok s' := by
  obtain ⟨before, after, rfl⟩ := append_of_mem mem
  rw [foldlM_append] at run
  obtain ⟨t, first, run⟩ := bind_eq_ok.mp run
  obtain ⟨u, there, run⟩ := bind_eq_ok.mp run
  exact ⟨before, after, t, u, rfl, first, there, run⟩

/-- The results of a `mapM` are those of the elements, in order. -/
theorem forall₂_of_mapM (run : xs.mapM f = .ok ys) :
    List.Forall₂ (fun x y => f x = .ok y) xs ys := by
  induction xs generalizing ys with
  | nil =>
    cases run
    exact .nil
  | cons a rest ih =>
    rw [mapM_cons] at run
    obtain ⟨b, first, run⟩ := bind_eq_ok.mp run
    obtain ⟨bs, others, run⟩ := bind_eq_ok.mp run
    cases run
    exact .cons first (ih others)

theorem mapM_eq_ok (run : xs.mapM f = .ok ys) :
    (∀ y ∈ ys, ∃ x ∈ xs, f x = .ok y) ∧ ∀ x ∈ xs, ∃ y ∈ ys, f x = .ok y := by
  have each := forall₂_of_mapM run
  clear run
  induction each with
  | nil => simp
  | cons first others ih =>
    constructor
    · intro y mem
      rcases mem_cons.mp mem with rfl | mem
      · exact ⟨_, by simp, first⟩
      · obtain ⟨x, memX, value⟩ := ih.1 y mem
        exact ⟨x, by simp [memX], value⟩
    · intro x mem
      rcases mem_cons.mp mem with rfl | mem
      · exact ⟨_, by simp, first⟩
      · obtain ⟨y, memY, value⟩ := ih.2 x mem
        exact ⟨y, by simp [memY], value⟩

/-- Where every element succeeds the whole does. -/
theorem mapM_of_forall {g : α → β} (each : ∀ a ∈ xs, f a = .ok (g a)) :
    xs.mapM f = .ok (xs.map g) := by
  induction xs with
  | nil => rfl
  | cons a rest ih =>
    rw [mapM_cons, each a (by simp), ih fun b mem => each b (by simp [mem])]
    rfl

/-! ### Outcomes -/

/-- If the computation succeeds its result meets `Q`, and if it fails the failure is
not one of `bad`. -/
def Ensures (bad : ε → Prop) (Q : α → Prop) (x : Except ε α) : Prop :=
  (∀ a, x = .ok a → Q a) ∧ ∀ e, x = .error e → ¬ bad e

section Ensures

variable {bad : ε → Prop} {Q : α → Prop} {R : β → Prop}

@[simp] theorem ensures_ok {a : α} : Ensures bad Q (.ok a : Except ε α) ↔ Q a := by
  simp [Ensures]

@[simp] theorem ensures_error {e : ε} : Ensures bad Q (.error e : Except ε α) ↔ ¬ bad e := by
  simp [Ensures]

variable {x : Except ε α} {f : α → Except ε β} {xs : List α} {s : σ}

/-- Where no failure is allowed there is a result. -/
theorem Ensures.exists_ok (ensures : Ensures (fun _ => True) Q x) : ∃ a, x = .ok a ∧ Q a := by
  cases x with
  | error e => exact absurd trivial (ensures.2 e rfl)
  | ok a => exact ⟨a, rfl, ensures.1 a rfl⟩

theorem Ensures.mono {Q' : α → Prop} (ensures : Ensures bad Q x) (imp : ∀ a, Q a → Q' a) :
    Ensures bad Q' x :=
  ⟨fun a run => imp a (ensures.1 a run), ensures.2⟩

/-- The second part starts where the first one ends. -/
theorem Ensures.bind (first : Ensures bad Q x)
    (second : ∀ a, x = .ok a → Q a → Ensures bad R (f a)) : Ensures bad R (x >>= f) := by
  cases x with
  | error e => exact ensures_error.mpr (first.2 e rfl)
  | ok a => exact second a rfl (first.1 a rfl)

/-- A loop, with an invariant that may speak of the elements still to come. -/
theorem ensures_foldlM {f : σ → α → Except ε σ} (Inv : List α → σ → Prop)
    (step : ∀ a rest s, Inv (a :: rest) s → Ensures bad (Inv rest) (f s a)) (start : Inv xs s) :
    Ensures bad (Inv []) (xs.foldlM f s) := by
  induction xs generalizing s with
  | nil => exact ensures_ok.mpr start
  | cons a rest ih =>
    exact (step a rest s start).bind fun t _ inv => ih inv

/-- A loop that does one thing for each element: before its turn an element is in
`Before`, afterwards in `After`, and the turns of the others keep it there. -/
theorem ensures_foldlM_each {f : σ → α → Except ε σ} (Inv : σ → Prop) (Before After : α → σ → Prop)
    (nodup : xs.Nodup)
    (step : ∀ s, ∀ a ∈ xs, Inv s → Before a s → (∀ b ∈ xs, Before b s ∨ After b s) →
      Ensures bad (fun s' => Inv s' ∧ After a s' ∧ ∀ b ∈ xs, b ≠ a →
        (Before b s → Before b s') ∧ (After b s → After b s')) (f s a)) (start : Inv s)
    (before : ∀ a ∈ xs, Before a s) :
    Ensures bad (fun s' => Inv s' ∧ ∀ a ∈ xs, After a s') (xs.foldlM f s) := by
  -- The elements still to come are in `Before`, the others in `After`.
  let Loop (rest : List α) (s : σ) : Prop := Inv s ∧ rest.Nodup ∧
    (∀ a ∈ rest, a ∈ xs ∧ Before a s) ∧ ∀ a ∈ xs, a ∉ rest → After a s
  have keeps : ∀ a rest s, Loop (a :: rest) s → Ensures bad (Loop rest) (f s a) := by
    rintro a rest s ⟨inv, nodup, todo, done⟩
    obtain ⟨notMem, nodup⟩ := nodup_cons.mp nodup
    obtain ⟨mem, beforeA⟩ := todo a (by simp)
    refine (step s a mem inv beforeA fun b memB => ?_).mono ?_
    · by_cases later : b ∈ a :: rest
      · exact .inl (todo b later).2
      · exact .inr (done b memB later)
    · rintro s' ⟨inv', afterA, others⟩
      refine ⟨inv', nodup, fun b memB => ?_, fun b memB notLater => ?_⟩
      · obtain ⟨memXs, beforeB⟩ := todo b (by simp [memB])
        exact ⟨memXs, (others b memXs fun same => notMem (same ▸ memB)).1 beforeB⟩
      · by_cases same : b = a
        · exact same ▸ afterA
        · exact (others b memB same).2 (done b memB (by simp [same, notLater]))
  refine (ensures_foldlM Loop keeps ⟨start, nodup, fun a mem => ⟨mem, before a mem⟩,
    fun a mem notMem => absurd mem notMem⟩).mono ?_
  rintro s' ⟨inv, -, -, done⟩
  exact ⟨inv, fun a mem => done a mem not_mem_nil⟩

theorem ensures_mapM (each : ∀ a ∈ xs, Ensures bad (fun _ => True) (f a)) :
    Ensures bad (fun _ => True) (xs.mapM f) := by
  induction xs with
  | nil => exact ensures_ok.mpr trivial
  | cons a rest ih =>
    rw [mapM_cons]
    refine (each a (by simp)).bind fun b _ _ => ?_
    refine (ih fun c mem => each c (by simp [mem])).bind fun bs _ _ => ?_
    exact ensures_ok.mpr trivial

end Ensures

variable {f : α → Except ε Int} {xs : List α}

/-- A sum of numbers that are all there. -/
theorem foldlM_sum {g : α → Nat} (values : ∀ a ∈ xs, f a = .ok (g a : Int)) (start : Nat) :
    xs.foldlM (fun sum a => f a >>= fun n => .ok (sum + n)) (start : Int) =
      .ok ((start + (xs.map g).sum : Nat) : Int) := by
  induction xs generalizing start with
  | nil => rfl
  | cons a rest ih =>
    have rest := ih (fun b mem => values b (by simp [mem])) (start + g a)
    rw [foldlM_cons, values a (by simp), map_cons, sum_cons, ← Nat.add_assoc]
    exact rest

/-- A sum of estimates is at least the sum of what each of them bounds. -/
theorem sum_le_foldlM (cost : α → Int) (le : ∀ a ∈ xs, ∀ n, f a = .ok n → cost a ≤ n)
    {start total : Int}
    (run : xs.foldlM (fun sum a => f a >>= fun n => .ok (sum + n)) start = .ok total) :
    start + (xs.map cost).sum ≤ total := by
  induction xs generalizing start with
  | nil =>
    cases run
    simp
  | cons a rest ih =>
    obtain ⟨sum, first, run⟩ := bind_eq_ok.mp run
    obtain ⟨n, estimate, first⟩ := bind_eq_ok.mp first
    cases first
    have := le a (by simp) n estimate
    have := ih (fun b mem => le b (by simp [mem])) run
    rw [map_cons, sum_cons]
    omega

end Vllm.Lib.Fallible
