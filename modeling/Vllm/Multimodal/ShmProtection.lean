import Vllm.Multimodal.ShmObjectStore

/-!
Objects of the shared-memory cache are not freed under a reader, if no request references a
new key twice.

An object has been handed out some number of times, to each of the `n` readers. Until `n`
gets have reached it, no touch is counted, and the count and the gets that are still to come
make up all gets (`Balance.early`). Whoever makes the `n`th get has touched more than it has
got, so at that point at least `n` touches were lost, and the count stays that much behind
(`Balance.late`). The writer's flag is behind by one touch as well, so the count comes to
`writer_flag * n` only when nothing is left to touch or to get (`Balance.unused`).
-/

namespace Vllm.Multimodal.Shm

open Vllm.Distributed Vllm.Lib.Steps Reader Writer RingBuffer Shm List

/-! ### The counts of one object -/

/-- The counts of an object: the flag of the writer, the count of the readers, the gets and
touches that all readers together still have to make, the references that the writer has
issued but not handed out, and the touches of the writer whose update is still to come.
If they are tight, the count is not behind by more. -/
structure Balance (tight : Prop) (n flag count gets touches issued owed : Nat) : Prop where
  flag_pos : 0 < flag
  fits : flag * n < idMax
  handed : ∃ handed, 2 * (handed + issued) + owed ≤ flag + 1 ∧
    (count < n → count + gets = n * handed) ∧
    (n ≤ count → count + gets + touches + n ≤ 2 * (n * handed)) ∧
    (tight → flag + 1 ≤ 2 * (handed + issued) + owed ∧
      (count < n → n * handed ≤ touches + n) ∧
      (n ≤ count → 2 * (n * handed) ≤ count + gets + touches + n))

namespace Balance

variable {tight : Prop} {n flag count gets touches issued owed : Nat}

/-- An object that was put for the request in progress. -/
theorem put (pos : 0 < n) (fits : n < idMax) : Balance tight n 1 0 0 0 1 0 where
  flag_pos := Nat.one_pos
  fits := by simpa using fits
  handed := by
    refine ⟨0, by omega, fun _ => rfl, fun le => absurd pos (by omega), fun _ => ?_⟩
    exact ⟨le_rfl, fun _ => Nat.zero_le _, fun _ => Nat.zero_le _⟩

section

variable (balance : Balance tight n flag count gets touches issued owed)
include balance

/-- The writer touches, or gives out the reference that its touch was for. -/
theorem raise {issued' owed' : Nat} (more : 2 * issued' + owed' = 2 * issued + owed + 1)
    (fits : (flag + 1) * n < idMax) :
    Balance tight n (flag + 1) count gets touches issued' owed' := by
  obtain ⟨handed, flags, early, late, equal⟩ := balance.handed
  refine ⟨Nat.succ_pos _, fits, handed, by omega, early, late, fun isTight => ?_⟩
  exact (equal isTight).imp_left fun _ => by omega

theorem handOut : Balance tight n flag count (gets + n * issued) (touches + n * issued) 0 owed := by
  obtain ⟨handed, flags, early, late, equal⟩ := balance.handed
  have total : n * (handed + issued) = n * handed + n * issued := Nat.mul_add n handed issued
  refine ⟨balance.flag_pos, balance.fits, handed + issued, by omega, by omega, by omega, ?_⟩
  intro isTight
  have := equal isTight
  omega

theorem abandon (loose : ¬ tight) : Balance tight n flag count gets touches 0 0 := by
  obtain ⟨handed, flags, early, late, -⟩ := balance.handed
  exact ⟨balance.flag_pos, balance.fits, handed, by omega, early, late, fun h => absurd h loose⟩

/-- As long as a get or a touch is to come, the count has not reached what the writer
expects, and can be increased. -/
theorem count_lt (more : 0 < gets + touches) : count + 1 < idMax := by
  obtain ⟨handed, flags, early, late, -⟩ := balance.handed
  have fits := balance.fits
  by_cases reached : n ≤ count
  · have expected : n * (2 * handed) ≤ n * (flag + 1) := Nat.mul_le_mul_left n (by omega)
    have : n * (2 * handed) = 2 * (n * handed) := by ring
    have : n * (flag + 1) = flag * n + n := by ring
    omega
  · have : n ≤ flag * n := Nat.le_mul_of_pos_left n balance.flag_pos
    omega

/-- An object that the writer takes as unused has nothing to come. -/
theorem unused (pos : 0 < n) (free : flag * n ≤ count) : gets = 0 ∧ issued = 0 ∧ owed = 0 := by
  obtain ⟨handed, flags, early, late, -⟩ := balance.handed
  have reached : n ≤ count := (Nat.le_mul_of_pos_left n balance.flag_pos).trans free
  have expected : n * (2 * (handed + issued) + owed) ≤ n * (flag + 1) :=
    Nat.mul_le_mul_left n flags
  have split : n * (2 * (handed + issued) + owed) =
      2 * (n * handed) + n * (2 * issued + owed) := by ring
  have total : n * (flag + 1) = flag * n + n := by ring
  have none : n * (2 * issued + owed) = 0 := by omega
  have := (Nat.mul_eq_zero.mp none).resolve_left (by omega)
  omega

end

/-- A reader touches an object that has been got `n` times. -/
theorem countTouch (balance : Balance tight n flag count gets (touches + 1) issued owed)
    (le : n ≤ count) : Balance tight n flag (count + 1) gets touches issued owed := by
  obtain ⟨handed, flags, early, late, equal⟩ := balance.handed
  refine ⟨balance.flag_pos, balance.fits, handed, flags, fun lt => absurd lt (by omega), ?_, ?_⟩
  · omega
  · intro isTight
    have := equal isTight
    omega

/-- A reader touches an object that has not. This is tight for the first `n` touches. -/
theorem skipTouch (balance : Balance tight n flag count gets (touches + 1) issued owed)
    (lt : count < n) (first : tight → count + gets < touches + 1 + n) :
    Balance tight n flag count gets touches issued owed := by
  obtain ⟨handed, flags, early, late, equal⟩ := balance.handed
  refine ⟨balance.flag_pos, balance.fits, handed, flags, early, fun le => absurd lt (by omega), ?_⟩
  intro isTight
  have := equal isTight
  have := first isTight
  omega

/-- A reader gets the object. There are no more touches to come than gets. -/
theorem get (balance : Balance tight n flag count (gets + 1) touches issued owed)
    (ahead : touches ≤ gets) : Balance tight n flag (count + 1) gets touches issued owed := by
  obtain ⟨handed, flags, early, late, equal⟩ := balance.handed
  refine ⟨balance.flag_pos, balance.fits, handed, flags, ?_, ?_, ?_⟩
  · omega
  · by_cases reached : n ≤ count
    · omega
    · -- the get that makes the count `n`
      omega
  · intro isTight
    have := equal isTight
    omega

/-- An object with nothing to come is one that the writer takes as unused. -/
theorem free (balance : Balance True n flag count 0 0 0 0) : flag * n ≤ count := by
  obtain ⟨handed, flags, early, late, equal⟩ := balance.handed
  obtain ⟨flagLe, early', late'⟩ := equal trivial
  have total : n * (2 * handed) = n * (flag + 1) := congrArg (n * ·) (by omega)
  have doubled : n * (2 * handed) = 2 * (n * handed) := by ring
  have expected : n * (flag + 1) = flag * n + n := by ring
  have once : n ≤ flag * n := Nat.le_mul_of_pos_left n balance.flag_pos
  omega

end Balance

/-! ### Lists and sums -/

/-- What all readers have to do when one of them has changed. -/
theorem sum_update {n : Nat} (readers : Fin n → Reader) (r : Fin n) (reader : Reader)
    (count : Reader → Nat) :
    ∑ i, count (Function.update readers r reader i) + count (readers r) =
      ∑ i, count (readers i) + count reader := by
  have changed : (fun i => count (Function.update readers r reader i)) =
      Function.update (fun i => count (readers i)) r (count reader) :=
    Function.comp_update count readers r reader
  rw [changed, Finset.sum_update_of_mem (Finset.mem_univ r),
    Finset.sum_eq_add_sum_sdiff_singleton_of_mem (Finset.mem_univ r) fun i => count (readers i)]
  omega

def countOf (serial : Nat) (refs : List Ref) : Nat := refs.countP fun ref => ref.serial = serial

@[simp] theorem countOf_nil (serial : Nat) : countOf serial [] = 0 := rfl

@[simp] theorem countOf_append (serial : Nat) (l₁ l₂ : List Ref) :
    countOf serial (l₁ ++ l₂) = countOf serial l₁ + countOf serial l₂ := countP_append

@[simp] theorem countOf_cons (serial : Nat) (ref : Ref) (refs : List Ref) :
    countOf serial (ref :: refs) = (if ref.serial = serial then 1 else 0) + countOf serial refs := by
  simp [countOf, countP_cons, Nat.add_comm]

theorem countOf_pos {serial : Nat} {refs : List Ref} {ref : Ref} (mem : ref ∈ refs)
    (eq : ref.serial = serial) : 0 < countOf serial refs :=
  countP_pos_iff.mpr ⟨ref, mem, by simpa using eq⟩

theorem nodup_map_append {α β : Type} {f : α → β} {l : List α} {a : α} (nodup : (l.map f).Nodup)
    (new : ∀ b ∈ l, f b ≠ f a) : ((l ++ [a]).map f).Nodup := by
  rw [map_append, nodup_append]
  refine ⟨nodup, by simp, ?_⟩
  rintro _ mem _ isNew rfl
  obtain ⟨b, memB, eq⟩ := mem_map.mp mem
  exact new b memB (eq.trans (mem_singleton.mp isNew))

theorem countOf_eq_zero {serial : Nat} {refs : List Ref}
    (ne : ∀ ref ∈ refs, ref.serial ≠ serial) : countOf serial refs = 0 :=
  countP_eq_zero.mpr fun ref mem => by simpa using ne ref mem

/-! ### The invariant -/

section Inv

variable {cfg : Config} {κ : Type} [DecidableEq κ]

def Writer.refs : Writer κ → List Ref
  | .idle => []
  | .touching _ _ => []
  | .updating _ refs => refs
  | .freeing _ _ _ _ refs => refs

/-- The keys that are still to be updated. -/
def Writer.keys : Writer κ → List κ
  | .idle => []
  | .touching done rest => done ++ rest
  | .updating rest _ => rest
  | .freeing key _ _ rest _ => key :: rest

/-- How often a key was touched whose update is still to come. -/
def Writer.owed (key : κ) : Writer κ → Nat
  | .idle => 0
  | .touching done _ => done.count key
  | .updating rest _ => rest.count key
  | .freeing _ _ _ rest _ => rest.count key

namespace State

/-- The gets of an object that all readers still have to make. -/
def gets (s : State cfg κ) (serial : Nat) : Nat := ∑ r, countOf serial (s.readers r).gets

def touches (s : State cfg κ) (serial : Nat) : Nat := ∑ r, countOf serial (s.readers r).touches

/-- The counts of the object are in balance. -/
def Accounted (tight : Prop) (s : State cfg κ) (chunk : Chunk (Object κ)) : Prop :=
  Balance tight cfg.nReaders chunk.data.writerFlag chunk.data.readerCount (s.gets chunk.serial)
    (s.touches chunk.serial) (countOf chunk.serial s.writer.refs) (s.writer.owed chunk.data.key)

/-- The reference is one of an object that is not freed. -/
def IsLive (s : State cfg κ) (ref : Ref) : Prop :=
  ∃ chunk ∈ s.storage.metadata, refOf chunk = ref

end State

/-- The object has been got `n` times, or fewer than `n` touches of it have been made: before,
each get counts one, so the count and the gets to come are all the touches handed out. -/
def State.FirstTouch (s : State cfg κ) (chunk : Chunk (Object κ)) : Prop :=
  chunk.data.readerCount < cfg.nReaders → chunk.data.readerCount + s.gets chunk.serial <
    s.touches chunk.serial + cfg.nReaders

/-- No request is given up, and a touch that is not counted is one of the first `n`. -/
def State.Tidy (s : State cfg κ) : Action cfg κ → Prop
  | .abandon => False
  | .readerTouch r =>
    ∀ ref ∈ (s.readers r).phase.touches.head?, ∀ chunk ∈ s.storage.metadata, refOf chunk = ref →
      s.FirstTouch chunk
  | _ => True

instance (s : State cfg κ) : ∀ a, Decidable (s.Tidy a)
  | .abandon => inferInstanceAs (Decidable False)
  | .readerTouch r =>
    inferInstanceAs (Decidable (∀ ref ∈ (s.readers r).phase.touches.head?,
      ∀ chunk ∈ s.storage.metadata, refOf chunk = ref → (_ < _ → _ < _)))
  | .begin _ | .touch | .update _ | .free | .handOut _ | .start _ | .readerGet _ =>
    inferInstanceAs (Decidable True)

/-- No request is in progress, and every reader is done with all it was handed. -/
structure State.Processed (s : State cfg κ) : Prop where
  idle : s.writer = .idle
  got : ∀ r, (s.readers r).gets = []

def State.Reclaimable (s : State cfg κ) : Prop :=
  ∀ chunk ∈ s.storage.metadata, isFree cfg chunk.data = true

structure Inv (tight : Prop) (s : State cfg κ) : Prop where
  valid : s.storage.Valid cfg.dataBufferSize
  serials : (s.storage.metadata.map (·.serial)).Nodup
  keys : (s.storage.metadata.map (·.data.key)).Nodup
  accounted : ∀ chunk ∈ s.storage.metadata, s.Accounted tight chunk
  pending : ∀ r, ∀ ref ∈ (s.readers r).gets, s.IsLive ref
  issued : ∀ ref ∈ s.writer.refs, s.IsLive ref
  once : ∀ key, (∃ chunk ∈ s.storage.metadata, chunk.data.key = key) ∨ s.writer.keys.count key ≤ 1
  fresh : ∀ {key size freedBytes rest refs}, s.writer = .freeing key size freedBytes rest refs →
    ∀ chunk ∈ s.storage.metadata, chunk.data.key ≠ key

variable {s s' : State cfg κ} {tight : Prop}

/-- What the writer and the readers have to do in `s'` is about the objects of `s`. -/
structure Due (s s' : State cfg κ) : Prop where
  pending : ∀ r, ∀ ref ∈ (s'.readers r).gets, s.IsLive ref
  issued : ∀ ref ∈ s'.writer.refs, s.IsLive ref
  once : ∀ key, (∃ chunk ∈ s.storage.metadata, chunk.data.key = key) ∨ s'.writer.keys.count key ≤ 1
  fresh : ∀ {key size freedBytes rest refs}, s'.writer = .freeing key size freedBytes rest refs →
    ∀ chunk ∈ s.storage.metadata, chunk.data.key ≠ key

theorem inv_init : Inv tight (State.init cfg κ) where
  valid := valid_new
  serials := nodup_nil
  keys := nodup_nil
  accounted := by simp [State.init, new]
  pending := by simp [State.init, gets, Phase.gets]
  issued := by simp [State.init, refs]
  once := by simp [State.init, Writer.keys]
  fresh := by simp [State.init]

variable {storage : Storage κ} {key : κ} {chunk : Chunk (Object κ)}

theorem lookup_eq_some (found : lookup storage key = some chunk) :
    chunk ∈ storage.metadata ∧ chunk.data.key = key :=
  ⟨mem_of_find?_eq_some found, by simpa using find?_some found⟩

theorem lookup_eq_none (none : lookup storage key = none) (mem : chunk ∈ storage.metadata) :
    chunk.data.key ≠ key := by
  simpa using find?_eq_none.mp none chunk mem

namespace Inv

variable {c d chunk target : Chunk (Object κ)} {writer : Writer κ} {done rest : List κ} {key : κ}

theorem eq_of_serial (inv : Inv tight s) (mc : c ∈ s.storage.metadata) (md : d ∈ s.storage.metadata)
    (eq : c.serial = d.serial) : c = d :=
  inj_on_of_nodup_map inv.serials mc md eq

theorem accessBuf_eq (inv : Inv tight s) (mem : chunk ∈ s.storage.metadata) :
    accessBuf cfg s.storage chunk.address = some chunk := by
  unfold accessBuf
  rw [inv.valid.memory_address mem]
  rw [Option.bind_some]
  cases found : s.storage.metadata.find? fun c => c.serial = chunk.serial with
  | none =>
    have := find?_eq_none.mp found chunk mem
    simp at this
  | some other =>
    have same : other.serial = chunk.serial := by simpa using find?_some found
    rw [inv.eq_of_serial (mem_of_find?_eq_some found) mem same]

omit [DecidableEq κ] in
theorem gets_pos (r : Fin cfg.nReaders) {ref : Ref} (mem : ref ∈ (s.readers r).gets) :
    0 < s.gets ref.serial :=
  (countOf_pos mem rfl).trans_le
    (Finset.single_le_sum (f := fun r => countOf ref.serial (s.readers r).gets)
      (fun _ _ => Nat.zero_le _) (Finset.mem_univ r))

/-- What is to be touched is to be got. -/
theorem countOf_touches_le (reader : Reader) (serial : Nat) :
    countOf serial reader.touches ≤ countOf serial reader.gets := by
  unfold touches gets
  cases reader.phase with
  | touching done rest => simp [Phase.touches, Phase.gets]
  | getting rest => simp [Phase.touches]

omit [DecidableEq κ] in
theorem touches_le_gets (serial : Nat) : s.touches serial ≤ s.gets serial :=
  Finset.sum_le_sum fun r _ => countOf_touches_le (s.readers r) serial

variable {r : Fin cfg.nReaders} {ref : Ref} {storage : Storage κ} {oldest : Chunk (Object κ)}
  {tail : List (Chunk (Object κ))} {reader : Reader}

omit [DecidableEq κ] in
/-- A reader that is about to get is past its touches. -/
theorem touches_lt_gets {rest : List Ref} (at_ : (s.readers r).phase = .getting (ref :: rest)) :
    s.touches ref.serial < s.gets ref.serial := by
  refine Finset.sum_lt_sum (fun r _ => countOf_touches_le (s.readers r) ref.serial)
    ⟨r, Finset.mem_univ r, ?_⟩
  simp only [touches, gets, at_, Phase.touches, Phase.gets, countOf_append,
    countOf_nil, countOf_cons, if_true]
  omega

section

variable (inv : Inv tight s)
include inv

theorem isProtected : s.Protected where
  live := by
    intro r ref mem
    obtain ⟨chunk, live, eq⟩ := inv.pending r ref mem
    exact ⟨chunk, live, eq, inv.valid.intact chunk live⟩
  got := by
    intro r ref rest phase
    have mem : ref ∈ (s.readers r).gets := by simp [gets, phase, Phase.gets]
    obtain ⟨chunk, live, rfl⟩ := inv.pending r ref mem
    have fits : chunk.data.readerCount + 1 < idMax :=
      (inv.accounted chunk live).count_lt (Nat.add_pos_left (gets_pos r mem) _)
    refine ⟨incrementReaderFlag s.storage chunk.serial, chunk, ?_, rfl⟩
    have at_ := inv.accessBuf_eq live
    simp [get, refOf, at_, Ref.monotonicId, fits]

/-! #### Steps that keep the objects -/

/-- The counts of the objects change, and what the writer and the readers still have to do. -/
theorem of_mapData (f : Chunk (Object κ) → Object κ) (key : ∀ chunk, (f chunk).key = chunk.data.key)
    (valid : s'.storage.Valid cfg.dataBufferSize)
    (metadata : s'.storage.metadata =
      s.storage.metadata.map fun chunk => { chunk with data := f chunk })
    (accounted : ∀ chunk ∈ s.storage.metadata, s'.Accounted tight { chunk with data := f chunk })
    (due : Due s s') : Inv tight s' := by
  have kept : ∀ {chunk}, chunk ∈ s.storage.metadata →
      { chunk with data := f chunk } ∈ s'.storage.metadata := by
    intro chunk mem
    rw [metadata]
    exact mem_map_of_mem mem
  have live : ∀ {ref}, s.IsLive ref → s'.IsLive ref := by
    rintro ref ⟨chunk, mem, rfl⟩
    exact ⟨_, kept mem, rfl⟩
  constructor
  case valid => exact valid
  case serials =>
    rw [metadata, map_map]
    exact inv.serials
  case keys =>
    rw [metadata, map_map]
    have same : ((·.data.key) ∘ fun chunk : Chunk (Object κ) => { chunk with data := f chunk }) =
        (·.data.key) := funext key
    rw [same]
    exact inv.keys
  case accounted =>
    rw [metadata]
    intro chunk mem
    obtain ⟨old, oldMem, rfl⟩ := mem_map.mp mem
    exact accounted old oldMem
  case pending => exact fun r ref mem => live (due.pending r ref mem)
  case issued => exact fun ref mem => live (due.issued ref mem)
  case once =>
    intro k
    refine (due.once k).imp_left ?_
    rintro ⟨chunk, mem, rfl⟩
    exact ⟨_, kept mem, key chunk⟩
  case fresh =>
    intro k size freedBytes rest refs eq chunk mem
    obtain ⟨old, oldMem, rfl⟩ := mem_map.mp (metadata ▸ mem)
    rw [key]
    exact due.fresh eq old oldMem

/-- Only what the writer and the readers still have to do changes. -/
theorem of_metadata_eq (valid : s'.storage.Valid cfg.dataBufferSize)
    (metadata : s'.storage.metadata = s.storage.metadata)
    (accounted : ∀ chunk ∈ s.storage.metadata, s'.Accounted tight chunk) (due : Due s s') :
    Inv tight s' := by
  refine inv.of_mapData (·.data) (fun _ => rfl) valid ?_ accounted due
  rw [metadata]
  exact (map_id _).symm

/-- The writer goes on, with the references it has and the updates it owes. -/
theorem ofWriter (refs : writer.refs = s.writer.refs)
    (owed : ∀ chunk ∈ s.storage.metadata, writer.owed chunk.data.key = s.writer.owed chunk.data.key)
    (due : (∀ ref ∈ writer.refs, s.IsLive ref) → Due s { s with writer := writer }) :
    Inv tight { s with writer := writer } := by
  refine inv.of_metadata_eq inv.valid rfl ?_ (due fun ref mem => inv.issued ref (refs ▸ mem))
  intro chunk mem
  unfold State.Accounted
  rw [refs, owed chunk mem]
  exact inv.accounted chunk mem

theorem begin {keys : List κ} (at_ : s.writer = .idle) (allowed : s.Allowed (.begin keys)) :
    Inv tight { s with writer := .touching [] keys } := by
  refine inv.ofWriter ?_ ?_ fun issued => ⟨inv.pending, issued, ?_, nofun⟩
  · rw [at_]
    rfl
  · intro chunk mem
    rw [at_]
    rfl
  · intro key
    by_cases asked : key ∈ keys
    · exact (allowed key asked).imp_left (by simp [isCached, lookup])
    · right
      exact (count_eq_zero.mpr asked).trans_le (Nat.zero_le _)

theorem incrementWriterFlag (targetMem : target ∈ s.storage.metadata)
    (balance : Balance tight cfg.nReaders (target.data.writerFlag + 1) target.data.readerCount
      (s.gets target.serial) (s.touches target.serial) (countOf target.serial writer.refs)
      (writer.owed target.data.key))
    (others : ∀ chunk ∈ s.storage.metadata, chunk.serial ≠ target.serial →
      chunk.data.key ≠ target.data.key →
      countOf chunk.serial writer.refs = countOf chunk.serial s.writer.refs ∧
        writer.owed chunk.data.key = s.writer.owed chunk.data.key)
    (due : Due s { s with writer := writer }) :
    Inv tight { s with
      storage := incrementWriterFlag s.storage target.serial, writer := writer } := by
  refine inv.of_mapData _ ?_ (inv.valid.mapData _) rfl ?_ { due with }
  · intro chunk
    split <;> rfl
  · intro chunk mem
    unfold State.Accounted
    by_cases same : chunk.serial = target.serial
    · cases inv.eq_of_serial mem targetMem same
      simp only
      exact balance
    · have other : chunk.data.key ≠ target.data.key :=
        fun eq => same (congrArg _ (inj_on_of_nodup_map inv.keys mem targetMem eq))
      obtain ⟨refs, owed⟩ := others chunk mem same other
      simp only [same, if_false, refs, owed]
      exact inv.accounted chunk mem

/-- The touch of a key that is not cached changes nothing, and nothing is owed for it. -/
theorem touch (at_ : s.writer = .touching done (key :: rest)) (fits : CountFits cfg s.storage key) :
    Inv tight { s with
      storage := writerTouch s.storage key, writer := .touching (done ++ [key]) rest } := by
  have once : ∀ k, (∃ chunk ∈ s.storage.metadata, chunk.data.key = k) ∨
      (done ++ [key] ++ rest).count k ≤ 1 := by
    intro k
    have := inv.once k
    rw [at_] at this
    simpa [Writer.keys] using this
  have sameOwed : ∀ {k}, k ≠ key →
      (touching (done ++ [key]) rest).owed k = s.writer.owed k := by
    intro k ne
    simp [at_, owed, ne.symm]
  cases found : lookup s.storage key with
  | none =>
    have storage : writerTouch s.storage key = s.storage := by simp [writerTouch, found]
    rw [storage]
    refine inv.ofWriter ?_ ?_ fun issued => ⟨inv.pending, issued, once, nofun⟩
    · rw [at_]
      rfl
    · exact fun chunk mem => sameOwed (lookup_eq_none found mem)
  | some target =>
    obtain ⟨targetMem, rfl⟩ := lookup_eq_some found
    have storage : writerTouch s.storage target.data.key =
        Shm.incrementWriterFlag s.storage target.serial := by simp [writerTouch, found]
    rw [storage]
    refine inv.incrementWriterFlag targetMem ?_ ?_ ⟨inv.pending, nofun, once, nofun⟩
    · have balance := inv.accounted target targetMem
      rw [State.Accounted, at_] at balance
      have fits : (target.data.writerFlag + 1) * cfg.nReaders < idMax := by
        simpa [CountFits, found] using fits
      refine balance.raise ?_ fits
      simp [owed, refs]
    · intro chunk mem _ ne
      refine ⟨?_, sameOwed ne⟩
      rw [at_]
      rfl

theorem touched (at_ : s.writer = .touching done []) :
    Inv tight { s with writer := .updating done [] } := by
  refine inv.ofWriter ?_ ?_ fun issued => ⟨inv.pending, issued, ?_, nofun⟩
  · rw [at_]
    rfl
  · intro chunk mem
    rw [at_]
    rfl
  · intro key
    have := inv.once key
    rw [at_] at this
    simpa [Writer.keys] using this

theorem update {refs : List Ref} (targetMem : target ∈ s.storage.metadata)
    (at_ : s.writer = .updating (target.data.key :: rest) refs)
    (fits : (target.data.writerFlag + 1) * cfg.nReaders < idMax) :
    Inv tight { s with
      storage := Shm.incrementWriterFlag s.storage target.serial
      writer := .updating rest (refs ++ [refOf target]) } := by
  refine inv.incrementWriterFlag targetMem ?_ ?_ ⟨inv.pending, ?_, ?_, nofun⟩
  · have balance := inv.accounted target targetMem
    rw [State.Accounted, at_] at balance
    refine balance.raise ?_ fits
    simp [Writer.owed, Writer.refs, refOf]
    omega
  · intro chunk mem serial key
    simp [at_, Writer.refs, Writer.owed, refOf, serial.symm, key.symm]
  · intro ref mem
    rcases mem_append.mp mem with old | new
    · refine inv.issued ref ?_
      rw [at_]
      exact old
    · exact ⟨target, targetMem, (mem_singleton.mp new).symm⟩
  · intro key
    have := inv.once key
    rw [at_] at this
    exact this.imp_right fun le => count_le_count_cons.trans le

theorem wrapAround : Inv tight { s with storage := s.storage.wrapAround cfg.dataBufferSize } :=
  inv.of_metadata_eq inv.valid.wrapAround (metadata_wrapAround _ _) inv.accounted
    ⟨inv.pending, inv.issued, inv.once, inv.fresh⟩

/-- No reader has a reference to an object that was never there. -/
theorem gets_eq_zero {serial : Nat}
    (none : ∀ chunk ∈ s.storage.metadata, chunk.serial ≠ serial) : s.gets serial = 0 := by
  refine Finset.sum_eq_zero fun r _ => countOf_eq_zero fun ref mem => ?_
  obtain ⟨chunk, live, rfl⟩ := inv.pending r ref mem
  exact none chunk live

end

/-! #### The writer puts an object -/

/-- The writer is at a key that is not cached. -/
structure Puts (s : State cfg κ) (key : κ) (rest : List κ) (refs : List Ref) : Prop where
  refs_eq : s.writer.refs = refs
  keys_eq : s.writer.keys = key :: rest
  owed_eq : ∀ k, k ≠ key → s.writer.owed k = rest.count k
  fresh : ∀ chunk ∈ s.storage.metadata, chunk.data.key ≠ key

theorem puts_of_updating {refs : List Ref} (at_ : s.writer = .updating (key :: rest) refs)
    (none : lookup s.storage key = none) :
    Puts s key rest refs where
  refs_eq := by rw [at_]; rfl
  keys_eq := by rw [at_]; rfl
  owed_eq := by
    intro k ne
    simp [at_, owed, ne.symm]
  fresh := fun _ mem => lookup_eq_none none mem

theorem puts_of_freeing (inv : Inv tight s) {size freedBytes : Nat} {refs : List Ref}
    (at_ : s.writer = .freeing key size freedBytes rest refs) :
    Puts s key rest refs where
  refs_eq := by rw [at_]; rfl
  keys_eq := by rw [at_]; rfl
  owed_eq := by
    intro k _
    rw [at_]
    rfl
  fresh := inv.fresh at_

section

variable {key : κ} {rest : List κ} {refs : List Ref} (puts : Puts s key rest refs)
include puts

theorem Puts.wrapAround :
    Puts { s with storage := s.storage.wrapAround cfg.dataBufferSize } key rest refs where
  refs_eq := puts.refs_eq
  keys_eq := puts.keys_eq
  owed_eq := puts.owed_eq
  fresh := by
    rw [metadata_wrapAround]
    exact puts.fresh

theorem Puts.freeOldest (head : s.storage.metadata = oldest :: tail) :
    Puts { s with storage := s.storage.freeOldest cfg.dataBufferSize } key rest refs where
  refs_eq := puts.refs_eq
  keys_eq := puts.keys_eq
  owed_eq := puts.owed_eq
  fresh := by
    rw [metadata_freeOldest _ _ head]
    exact fun chunk mem => puts.fresh chunk (head ▸ mem_cons_of_mem _ mem)

variable (inv : Inv tight s)
include inv

/-- The key is not among those that follow. -/
theorem Puts.count_eq_zero : rest.count key = 0 := by
  rcases inv.once key with ⟨chunk, mem, eq⟩ | once
  · exact absurd eq (puts.fresh chunk mem)
  · rw [puts.keys_eq, count_cons_self] at once
    omega

theorem Puts.once (k : κ) :
    (∃ chunk ∈ s.storage.metadata, chunk.data.key = k) ∨ rest.count k ≤ 1 := by
  have := inv.once k
  rw [puts.keys_eq] at this
  exact this.imp_right fun le => count_le_count_cons.trans le

/-- The object could not be put, and has no address. -/
theorem notPut : Inv tight { s with writer := .updating rest refs } := by
  refine inv.ofWriter puts.refs_eq.symm ?_ fun issued =>
    ⟨inv.pending, issued, puts.once inv, nofun⟩
  exact fun chunk mem => (puts.owed_eq _ (puts.fresh chunk mem)).symm

theorem mustFree (size freedBytes : Nat) :
    Inv tight { s with writer := .freeing key size freedBytes rest refs } := by
  refine inv.ofWriter puts.refs_eq.symm ?_ fun issued => ⟨inv.pending, issued, ?_, ?_⟩
  · exact fun chunk mem => (puts.owed_eq _ (puts.fresh chunk mem)).symm
  · intro k
    have := inv.once k
    rw [puts.keys_eq] at this
    exact this
  · intro k size freedBytes rest refs eq
    cases eq
    exact puts.fresh

variable (pos : 0 < cfg.nReaders)
include pos

theorem put (small : cfg.nReaders < idMax) {chunk : Chunk (Object κ)} {size : Nat}
    (run : allocate cfg s.storage key size = some (storage, chunk)) :
    Inv tight { s with storage := storage, writer := .updating rest (refs ++ [refOf chunk]) } := by
  have allocated := allocated_of_allocateBuf inv.valid run
  have metadata : storage.metadata = s.storage.metadata ++ [chunk] := by rw [allocated.eq]
  have keyEq : chunk.data.key = key := by rw [allocated.data_eq]
  have older : ∀ old ∈ s.storage.metadata, old.serial ≠ chunk.serial := by
    intro old mem
    rw [allocated.serial]
    exact (inv.valid.serial_lt old mem).ne
  have live : ∀ {ref}, s.IsLive ref → ∃ c ∈ storage.metadata, refOf c = ref := by
    rintro ref ⟨old, mem, rfl⟩
    exact ⟨old, metadata ▸ mem_append_left _ mem, rfl⟩
  have noGets := inv.gets_eq_zero older
  have noTouches : s.touches chunk.serial = 0 :=
    Nat.le_zero.mp (noGets ▸ touches_le_gets chunk.serial)
  have noRefs : countOf chunk.serial refs = 0 := by
    refine countOf_eq_zero fun ref mem => ?_
    obtain ⟨old, live, rfl⟩ := inv.issued ref (puts.refs_eq ▸ mem)
    exact older old live
  constructor
  case valid => exact allocated.valid inv.valid
  case serials =>
    rw [metadata]
    exact nodup_map_append inv.serials older
  case keys =>
    rw [metadata]
    exact nodup_map_append inv.keys fun old mem => keyEq ▸ puts.fresh old mem
  case accounted =>
    intro c mem
    rcases mem_append.mp (metadata ▸ mem) with old | new
    · have balance := inv.accounted c old
      have other : (refOf chunk).serial ≠ c.serial := (older c old).symm
      rw [State.Accounted, puts.refs_eq, puts.owed_eq _ (puts.fresh c old)] at balance
      simpa [State.Accounted, State.gets, State.touches, Writer.refs, Writer.owed, other]
        using balance
    · cases mem_singleton.mp new
      have same : (refOf chunk).serial = chunk.serial := rfl
      have zero : rest.count chunk.data.key = 0 := keyEq ▸ puts.count_eq_zero inv
      have balance : Balance tight _ _ _ _ _ _ _ := Balance.put pos small
      change Balance tight _ _ _ (s.gets chunk.serial) (s.touches chunk.serial)
        (countOf chunk.serial (refs ++ [refOf chunk])) (rest.count chunk.data.key)
      rw [noGets, noTouches, zero, allocated.data_eq, countOf_append, noRefs]
      simpa [same] using balance
  case pending => exact fun r ref mem => live (inv.pending r ref mem)
  case issued =>
    intro ref mem
    rcases mem_append.mp mem with old | new
    · exact live (inv.issued ref (puts.refs_eq ▸ old))
    · exact ⟨chunk, metadata ▸ by simp, (mem_singleton.mp new).symm⟩
  case once =>
    intro k
    refine (puts.once inv k).imp_left ?_
    rintro ⟨old, mem, eq⟩
    exact ⟨old, metadata ▸ mem_append_left _ mem, eq⟩
  case fresh => nofun

/-- An object that is taken as unused is not referenced, and no request needs it. -/
theorem freeOldest (head : s.storage.metadata = oldest :: tail)
    (free : isFree cfg oldest.data = true) :
    Inv tight { s with storage := s.storage.freeOldest cfg.dataBufferSize } := by
  have metadata := s.storage.metadata_freeOldest cfg.dataBufferSize head
  have oldestMem : oldest ∈ s.storage.metadata := head ▸ mem_cons_self
  have kept : ∀ {c}, c ∈ tail → c ∈ s.storage.metadata :=
    fun mem => head ▸ mem_cons_of_mem _ mem
  have balance := inv.accounted oldest oldestMem
  obtain ⟨noGets, noRefs, noKeys⟩ := balance.unused pos (of_decide_eq_true free)
  have live : ∀ {ref : Ref}, s.IsLive ref → ref.serial ≠ oldest.serial →
      ∃ c ∈ (s.storage.freeOldest cfg.dataBufferSize).metadata, refOf c = ref := by
    rintro ref ⟨c, mem, rfl⟩ ne
    rw [metadata]
    rcases mem_cons.mp (head ▸ mem) with rfl | mem
    · exact absurd rfl ne
    · exact ⟨c, mem, rfl⟩
  constructor
  case valid => exact inv.valid.freeOldest
  case serials =>
    have := inv.serials
    rw [head] at this
    rw [metadata]
    exact (nodup_cons.mp this).2
  case keys =>
    have := inv.keys
    rw [head] at this
    rw [metadata]
    exact (nodup_cons.mp this).2
  case accounted =>
    rw [metadata]
    exact fun c mem => inv.accounted c (kept mem)
  case pending =>
    intro r ref mem
    refine live (inv.pending r ref mem) fun eq => ?_
    have : 0 < s.gets ref.serial := gets_pos r mem
    rw [eq, noGets] at this
    exact absurd this (lt_irrefl 0)
  case issued =>
    intro ref mem
    refine live (inv.issued ref mem) fun eq => ?_
    have := countOf_pos mem eq
    rw [noRefs] at this
    exact absurd this (lt_irrefl 0)
  case once =>
    intro k
    rw [metadata]
    by_cases same : k = oldest.data.key
    · -- nothing that follows is touched, so the key is not asked for again
      right
      have ne := puts.fresh oldest oldestMem
      rw [puts.owed_eq _ ne] at noKeys
      rw [puts.keys_eq, same, count_cons_of_ne ne.symm, noKeys]
      exact Nat.zero_le 1
    · refine (inv.once k).imp_left ?_
      rintro ⟨c, mem, rfl⟩
      rcases mem_cons.mp (head ▸ mem) with rfl | mem
      · exact absurd rfl same
      · exact ⟨c, mem, rfl⟩
  case fresh =>
    rw [metadata]
    exact fun eq c mem => inv.fresh eq c (kept mem)

theorem allocateAgain (small : cfg.nReaders < idMax) (size : Nat) :
    Inv tight { s with
      storage := (allocateAgain cfg s.storage key size rest refs).1
      writer := (allocateAgain cfg s.storage key size rest refs).2 } := by
  unfold Shm.allocateAgain
  cases run : allocate cfg s.storage key size with
  | none => exact inv.notPut puts
  | some next => exact inv.put puts pos small run

theorem freeUnused (small : cfg.nReaders < idMax) (size freedBytes : Nat) :
    Inv tight { s with
      storage := (freeUnused cfg s.storage key size freedBytes rest refs).1
      writer := (Shm.freeUnused cfg s.storage key size freedBytes rest refs).2 } := by
  have again : Inv tight { s with
      storage := (Shm.allocateAgain cfg (s.storage.wrapAround cfg.dataBufferSize) key size rest
        refs).1
      writer := (Shm.allocateAgain cfg (s.storage.wrapAround cfg.dataBufferSize) key size rest
        refs).2 } :=
    inv.wrapAround.allocateAgain puts.wrapAround pos small size
  unfold Shm.freeUnused
  split
  · exact again
  · rename_i oldest tail head
    split
    · rename_i free
      have puts' : Puts { s with storage := s.storage.freeOldest cfg.dataBufferSize }
          key rest refs := puts.freeOldest head
      exact (inv.freeOldest puts pos head free.2).mustFree puts' size _
    · exact again

end

variable {refs : List Ref} (inv : Inv tight s)
include inv

/-- `get_and_update_item`: an object that is cached, too large, put, or without space. -/
theorem getAndUpdateItem (pos : 0 < cfg.nReaders)
    (at_ : s.writer = .updating (key :: rest) refs) (fits : CountFits cfg s.storage key)
    (size : Nat) :
    Inv tight { s with
      storage := (getAndUpdateItem cfg s.storage key size rest refs).1
      writer := (getAndUpdateItem cfg s.storage key size rest refs).2 } := by
  unfold Shm.getAndUpdateItem
  unfold CountFits at fits
  cases found : lookup s.storage key with
  | some target =>
    rw [found] at fits
    obtain ⟨targetMem, rfl⟩ := lookup_eq_some found
    exact inv.update targetMem at_ fits
  | none =>
    rw [found] at fits
    have puts := puts_of_updating at_ found
    dsimp only
    split
    · exact inv.notPut puts
    · cases run : allocate cfg s.storage key size with
      | some next => exact inv.put puts pos fits run
      | none => exact inv.mustFree puts size 0

/-! #### Requests reach the readers -/

theorem handOut {sent : List Ref} (at_ : s.writer = .updating [] refs)
    (perm : sent.Perm refs) :
    Inv tight { s with
      writer := .idle
      readers := fun r => { s.readers r with inbox := (s.readers r).inbox ++ [sent] } } := by
  refine inv.of_metadata_eq inv.valid rfl ?_ ⟨?_, nofun, ?_, nofun⟩
  · intro chunk mem
    have balance := inv.accounted chunk mem
    rw [State.Accounted, at_] at balance
    have handed := balance.handOut
    have sum : ∀ f : Fin cfg.nReaders → Nat, ∑ r, (f r + countOf chunk.serial sent) =
        ∑ r, f r + cfg.nReaders * countOf chunk.serial refs := by
      intro f
      rw [Finset.sum_add_distrib, Finset.sum_const, Finset.card_univ, Fintype.card_fin, smul_eq_mul]
      unfold countOf
      rw [perm.countP_eq]
    have gets : ∀ reader : Reader,
        countOf chunk.serial { reader with inbox := reader.inbox ++ [sent] }.gets =
          countOf chunk.serial reader.gets + countOf chunk.serial sent := by
      intro reader
      simp [gets, Nat.add_assoc]
    have touches : ∀ reader : Reader,
        countOf chunk.serial { reader with inbox := reader.inbox ++ [sent] }.touches =
          countOf chunk.serial reader.touches + countOf chunk.serial sent := by
      simp [touches, Nat.add_assoc]
    unfold State.Accounted State.gets State.touches
    simp only [gets, touches, sum]
    exact handed
  · intro r ref mem
    have : ref ∈ (s.readers r).gets ∨ ref ∈ sent := by
      simpa [gets, or_assoc] using mem
    rcases this with old | new
    · exact inv.pending r ref old
    · refine inv.issued ref ?_
      rw [at_]
      exact perm.mem_iff.mp new
  · exact fun _ => .inr (Nat.zero_le 1)

theorem abandon (loose : ¬ tight) : Inv tight { s with writer := .idle } := by
  refine inv.of_metadata_eq inv.valid rfl ?_ ⟨inv.pending, nofun, ?_, nofun⟩
  · exact fun chunk mem => (inv.accounted chunk mem).abandon loose
  · exact fun _ => .inr (Nat.zero_le 1)

/-- A reader has nothing new to get. -/
theorem pending_update (less : ∀ ref ∈ reader.gets, ref ∈ (s.readers r).gets)
    (i : Fin cfg.nReaders) :
    ∀ ref ∈ (Function.update s.readers r reader i).gets, s.IsLive ref := by
  intro ref mem
  rcases eq_or_ne i r with rfl | same
  · rw [Function.update_self] at mem
    exact inv.pending i ref (less ref mem)
  · rw [Function.update_of_ne same] at mem
    exact inv.pending i ref mem

/-- A reader steps without a count. -/
theorem ofReader (gets : reader.gets = (s.readers r).gets)
    (touches : reader.touches = (s.readers r).touches) :
    Inv tight { s with readers := Function.update s.readers r reader } := by
  refine inv.of_metadata_eq inv.valid rfl ?_
    ⟨inv.pending_update fun _ mem => gets ▸ mem, inv.issued, inv.once, inv.fresh⟩
  intro chunk mem
  have balance := inv.accounted chunk mem
  have sameGets := sum_update s.readers r reader (countOf chunk.serial ·.gets)
  have sameTouches := sum_update s.readers r reader (countOf chunk.serial ·.touches)
  rw [gets] at sameGets
  rw [touches] at sameTouches
  unfold State.Accounted State.gets State.touches
  rw [Nat.add_right_cancel sameGets, Nat.add_right_cancel sameTouches]
  exact balance

/-- A reader steps at an object: what it has to do with other objects stays. -/
theorem atObject {target : Chunk (Object κ)} (targetMem : target ∈ s.storage.metadata)
    {f : Object κ → Object κ} (key : ∀ object, (f object).key = object.key) {got touched : Nat}
    (gets : ∀ serial, countOf serial (s.readers r).gets =
      countOf serial reader.gets + if target.serial = serial then got else 0)
    (touches : ∀ serial, countOf serial (s.readers r).touches =
      countOf serial reader.touches + if target.serial = serial then touched else 0)
    (less : ∀ ref ∈ reader.gets, ref ∈ (s.readers r).gets)
    (balance : ∀ g t, s.gets target.serial = g + got → s.touches target.serial = t + touched →
      Balance tight cfg.nReaders (f target.data).writerFlag (f target.data).readerCount g t
        (countOf target.serial s.writer.refs) (s.writer.owed target.data.key)) :
    Inv tight { s with
      storage := modify s.storage target.serial f
      readers := Function.update s.readers r reader } := by
  refine inv.of_mapData _ ?_ (inv.valid.mapData _) rfl ?_
    ⟨inv.pending_update less, inv.issued, inv.once, inv.fresh⟩
  · intro chunk
    split
    · exact key _
    · rfl
  · intro chunk mem
    have moreGets := sum_update s.readers r reader (countOf chunk.serial ·.gets)
    have moreTouches := sum_update s.readers r reader (countOf chunk.serial ·.touches)
    rw [gets] at moreGets
    rw [touches] at moreTouches
    unfold State.Accounted
    by_cases same : chunk.serial = target.serial
    · cases inv.eq_of_serial mem targetMem same
      rw [if_pos rfl] at moreGets moreTouches
      simp only [if_true, key]
      refine balance _ _ ?_ ?_
      · dsimp only [State.gets]
        omega
      · dsimp only [State.touches]
        omega
    · rw [if_neg (Ne.symm same), Nat.add_zero] at moreGets moreTouches
      unfold State.gets State.touches
      simp only [same]
      rw [Nat.add_right_cancel moreGets, Nat.add_right_cancel moreTouches]
      exact inv.accounted chunk mem

theorem readerTouch {done rest : List Ref}
    (at_ : (s.readers r).phase = .touching done (ref :: rest))
    (tidy : tight → ∀ chunk ∈ s.storage.metadata, refOf chunk = ref → s.FirstTouch chunk)
    (run : readerTouch cfg s.storage ref = some storage) :
    Inv tight { s with
      storage := storage
      readers := Function.update s.readers r
        { s.readers r with phase := .touching (done ++ [ref]) rest } } := by
  have getsEq : (s.readers r).gets = done ++ ref :: rest ++ (s.readers r).inbox.flatten := by
    simp [gets, at_, Phase.gets]
  have touchesEq : (s.readers r).touches = ref :: rest ++ (s.readers r).inbox.flatten := by
    simp [touches, at_, Phase.touches]
  obtain ⟨target, targetMem, rfl⟩ := inv.pending r ref (by simp [getsEq])
  set reader : Reader := { s.readers r with phase := .touching (done ++ [refOf target]) rest }
  have newGets : reader.gets = (s.readers r).gets := by
    rw [getsEq]
    simp [reader, gets, Phase.gets]
  have gets : ∀ serial, countOf serial (s.readers r).gets =
      countOf serial reader.gets + if target.serial = serial then 0 else 0 := by
    simp [newGets]
  have touches : ∀ serial, countOf serial (s.readers r).touches =
      countOf serial reader.touches + if target.serial = serial then 1 else 0 := by
    intro serial
    rw [touchesEq, cons_append, countOf_cons, Nat.add_comm]
    rfl
  have less : ∀ ref ∈ reader.gets, ref ∈ (s.readers r).gets := fun ref mem => newGets ▸ mem
  have balance := inv.accounted target targetMem
  simp only [readerTouch, refOf, inv.accessBuf_eq targetMem, Option.bind_some] at run
  split at run
  · rename_i early
    cases run
    have := inv.atObject targetMem (fun _ => rfl) gets touches less fun g t sameGets more => by
      rw [State.Accounted, more] at balance
      rw [sameGets] at balance
      refine balance.skipTouch early fun isTight => ?_
      rw [← more, ← sameGets]
      exact tidy isTight target targetMem rfl early
    simpa [modify, mapData] using this
  · rename_i late
    split at run
    · cases run
      refine inv.atObject targetMem ?_ gets touches less ?_
      · exact fun _ => rfl
      · intro g t sameGets more
        rw [State.Accounted, more, sameGets] at balance
        exact balance.countTouch (not_lt.mp late)
    · cases run

theorem readerGet {rest : List Ref} {got : Chunk (Object κ)}
    (at_ : (s.readers r).phase = .getting (ref :: rest))
    (run : get cfg s.storage ref = some (storage, got)) :
    Inv tight { s with
      storage := storage
      readers := Function.update s.readers r { s.readers r with phase := .getting rest } } := by
  have getsEq : (s.readers r).gets = ref :: rest ++ (s.readers r).inbox.flatten := by
    simp [gets, at_, Phase.gets]
  have touchesEq : (s.readers r).touches = (s.readers r).inbox.flatten := by
    simp [touches, at_, Phase.touches]
  obtain ⟨target, targetMem, rfl⟩ := inv.pending r ref (by simp [getsEq])
  set reader : Reader := { s.readers r with phase := .getting rest }
  have gets : ∀ serial, countOf serial (s.readers r).gets =
      countOf serial reader.gets + if target.serial = serial then 1 else 0 := by
    intro serial
    rw [getsEq, cons_append, countOf_cons, Nat.add_comm]
    rfl
  have touches : ∀ serial, countOf serial (s.readers r).touches =
      countOf serial reader.touches + if target.serial = serial then 0 else 0 := by
    intro serial
    rw [touchesEq, ite_self]
    rfl
  have less : ∀ ref ∈ reader.gets, ref ∈ (s.readers r).gets := by
    intro ref mem
    rw [getsEq, cons_append]
    exact mem_cons_of_mem _ mem
  have sameId : ¬ target.serial % idMax ≠ (refOf target).monotonicId := not_not.mpr rfl
  have found : accessBuf cfg s.storage (refOf target).address = some target :=
    inv.accessBuf_eq targetMem
  have ahead : s.touches target.serial < s.gets target.serial := touches_lt_gets at_
  rw [get, found, Option.bind_some, if_neg sameId] at run
  split at run
  · cases run
    refine inv.atObject targetMem ?_ gets touches less ?_
    · exact fun _ => rfl
    intro g t more sameTouches
    have balance := inv.accounted got targetMem
    rw [State.Accounted, more, sameTouches] at balance
    rw [more, sameTouches] at ahead
    exact balance.get (Nat.le_of_lt_succ ahead)
  · cases run

end Inv

/-! ### Steps and runs -/

theorem inv_stepReader (inv : Inv tight s) {r : Fin cfg.nReaders} {a : Action cfg κ}
    (tidy : tight → s.Tidy a) (own : ∀ r', a = .readerTouch r' → r' = r)
    (run : stepReader s r a = some s') : Inv tight s' := by
  obtain ⟨⟨storage, reader⟩, step, rfl⟩ := Option.map_eq_some_iff.mp run
  cases a with
  | start _ =>
    simp only [readerExec] at step
    split at step
    · rename_i request inbox waits at_
      cases step
      apply inv.ofReader
      · simp [gets, Phase.gets, waits, at_]
      · simp [touches, Phase.touches, waits, at_]
    · cases step
  | readerTouch r' =>
    cases own r' rfl
    simp only [readerExec] at step
    split at step
    · rename_i done ref rest at_
      obtain ⟨storage, touched, eq⟩ := Option.map_eq_some_iff.mp step
      cases eq
      refine inv.readerTouch at_ (fun isTight => tidy isTight ref ?_) touched
      simp [Phase.touches, at_]
    · rename_i done at_
      cases step
      apply inv.ofReader
      · simp [gets, Phase.gets, at_]
      · simp [touches, Phase.touches, at_]
    · cases step
  | readerGet _ =>
    simp only [readerExec] at step
    split at step
    · rename_i ref rest at_
      obtain ⟨got, gotEq, eq⟩ := Option.map_eq_some_iff.mp step
      cases eq
      exact inv.readerGet at_ gotEq
    · cases step
  | _ => cases step

/-- A step that is allowed keeps the invariant. -/
theorem inv_exec (pos : 0 < cfg.nReaders) (inv : Inv tight s) {a : Action cfg κ}
    (allowed : s.Allowed a) (tidy : tight → s.Tidy a) (run : exec s a = some s') :
    Inv tight s' := by
  cases a with
  | begin keys =>
    simp only [exec] at run
    split at run
    · rename_i at_
      cases run
      exact inv.begin at_ allowed
    · cases run
  | touch =>
    simp only [exec] at run
    split at run
    · rename_i done key rest at_
      cases run
      rw [State.Allowed, at_] at allowed
      exact inv.touch at_ allowed
    · rename_i done at_
      cases run
      exact inv.touched at_
    · cases run
  | update size =>
    simp only [exec] at run
    split at run
    · rename_i key rest refs at_
      cases run
      rw [State.Allowed, at_] at allowed
      exact inv.getAndUpdateItem pos at_ allowed.1 size
    · cases run
  | free =>
    simp only [exec] at run
    split at run
    · rename_i key size freedBytes rest refs at_
      cases run
      exact inv.freeUnused (inv.puts_of_freeing at_) pos allowed size freedBytes
    · cases run
  | handOut sent =>
    simp only [exec] at run
    split at run
    · rename_i refs at_
      split at run
      · rename_i perm
        cases run
        exact inv.handOut at_ (isPerm_iff.mp perm)
      · cases run
    · cases run
  | abandon =>
    cases run
    exact inv.abandon tidy
  | start r | readerGet r => exact inv_stepReader inv tidy (fun _ same => nomatch same) run
  | readerTouch r => exact inv_stepReader inv tidy (fun _ same => by cases same; rfl) run

/-- No object is reclaimed under a reader, in any run in which no request references a new
key twice and the counts fit. -/
theorem protected_of_run {as : List (Action cfg κ)}
    (run : Run (guarded State.Allowed (enabled exec)) (State.init cfg κ) as s) : s.Protected := by
  rcases Nat.eq_zero_or_pos cfg.nReaders with none | pos
  · have noReader : ∀ r : Fin cfg.nReaders, False := fun r => by
      have := r.isLt
      omega
    exact ⟨fun r => (noReader r).elim, fun r => (noReader r).elim⟩
  · have inv : Inv False s := run.invariant (Inv False)
      (fun inv step => inv_exec pos inv step.1 False.elim step.2) inv_init
    exact inv.isProtected

theorem Inv.reclaimable (inv : Inv True s) (processed : s.Processed) : s.Reclaimable := by
  intro chunk mem
  have noGets : s.gets chunk.serial = 0 := by
    refine Finset.sum_eq_zero fun r _ => ?_
    rw [processed.got r]
    rfl
  have noTouches : s.touches chunk.serial = 0 :=
    Nat.le_zero.mp (noGets ▸ Inv.touches_le_gets chunk.serial)
  have balance := inv.accounted chunk mem
  rw [State.Accounted, noGets, noTouches, processed.idle] at balance
  exact decide_eq_true balance.free

/-- Once every request is processed no object is in use, in any such run in which no request
is given up and a touch that is not counted is one of the first `n` of its object. -/
theorem reclaimable_of_run {as : List (Action cfg κ)}
    (run : Run (guarded (fun s a => s.Allowed a ∧ s.Tidy a) (enabled exec)) (State.init cfg κ) as s)
    (processed : s.Processed) : s.Reclaimable := by
  rcases Nat.eq_zero_or_pos cfg.nReaders with none | pos
  · intro chunk _
    simp [isFree, none]
  · have inv : Inv True s := run.invariant (Inv True)
      (fun inv step => inv_exec pos inv step.1.1 (fun _ => step.1.2) step.2) inv_init
    exact inv.reclaimable processed

end Inv

/-! ### Two readers, and a buffer for one object -/

abbrev twoReaders : Config := ⟨2, 20, 12⟩

/-- One request with one key is put, handed out and got by the first reader. -/
def onceReferenced : List (Action twoReaders Bool) :=
  [.begin [false], .touch, .touch, .update 12, .handOut [⟨0, 0⟩],
    .start 0, .readerTouch 0, .readerTouch 0, .readerGet 0]

theorem onceReferenced_protected :
    ∃ s, Run (guarded State.Allowed (enabled exec)) (State.init twoReaders Bool) onceReferenced s ∧
      (s.readers 0).gets = [] ∧ (s.readers 1).gets = [⟨0, 0⟩] ∧ s.Protected := by
  have small : 2 < idMax := by decide
  have once : (State.init twoReaders Bool).Allowed (.begin [false]) := by simp [State.Allowed]
  have run : Run (guarded State.Allowed (enabled exec)) (State.init twoReaders Bool)
      onceReferenced _ :=
    .head ⟨once, rfl⟩ <| .head ⟨small, rfl⟩ <| .head ⟨trivial, rfl⟩ <|
      .head ⟨⟨small, .inr (by decide)⟩, rfl⟩ <| .head ⟨trivial, rfl⟩ <| .head ⟨trivial, rfl⟩ <|
      .head ⟨trivial, rfl⟩ <| .head ⟨trivial, rfl⟩ <| .head ⟨trivial, rfl⟩ <| .refl _
  exact ⟨_, run, rfl, rfl, protected_of_run run⟩

theorem onceReferenced_reclaimable :
    ∃ s, Run (guarded (fun s a => s.Allowed a ∧ s.Tidy a) (enabled exec))
        (State.init twoReaders Bool)
        (onceReferenced ++ [.start 1, .readerTouch 1, .readerTouch 1, .readerGet 1]) s ∧
      s.Processed ∧ s.storage.metadata ≠ [] ∧ s.Reclaimable := by
  have small : 2 < idMax := by decide
  have once : (State.init twoReaders Bool).Allowed (.begin [false]) := by simp [State.Allowed]
  have run : Run (guarded (fun s a => s.Allowed a ∧ s.Tidy a) (enabled exec))
      (State.init twoReaders Bool)
      (onceReferenced ++ [.start 1, .readerTouch 1, .readerTouch 1, .readerGet 1]) _ :=
    .head ⟨⟨once, trivial⟩, rfl⟩ <| .head ⟨⟨small, trivial⟩, rfl⟩ <|
      .head ⟨⟨trivial, trivial⟩, rfl⟩ <| .head ⟨⟨⟨small, .inr (by decide)⟩, trivial⟩, rfl⟩ <|
      .head ⟨⟨trivial, trivial⟩, rfl⟩ <| .head ⟨⟨trivial, trivial⟩, rfl⟩ <|
      .head ⟨⟨trivial, by decide⟩, rfl⟩ <| .head ⟨⟨trivial, by decide⟩, rfl⟩ <|
      .head ⟨⟨trivial, trivial⟩, rfl⟩ <| .head ⟨⟨trivial, trivial⟩, rfl⟩ <|
      .head ⟨⟨trivial, by decide⟩, rfl⟩ <| .head ⟨⟨trivial, by decide⟩, rfl⟩ <|
      .head ⟨⟨trivial, trivial⟩, rfl⟩ <| .refl _
  refine ⟨_, run, ?processed, cons_ne_nil _ _, reclaimable_of_run run ?processed⟩
  exact ⟨rfl, by decide⟩

/-- Two requests reference one key. The first reader touches it for the second request before
the second reader has touched it for the first, and no one has got it twice by then. -/
def touchedEarly : List (Action twoReaders Bool) :=
  [.begin [false], .touch, .touch, .update 12, .handOut [⟨0, 0⟩],
    .begin [false], .touch, .touch, .update 12, .handOut [⟨0, 0⟩],
    .start 0, .readerTouch 0, .readerTouch 0, .readerGet 0, .start 0, .readerTouch 0,
    .readerTouch 0, .start 1, .readerTouch 1, .readerTouch 1, .readerGet 0, .readerGet 1,
    .start 1, .readerTouch 1, .readerTouch 1, .readerGet 1]

/-- All is processed, and the readers have counted five of the six that the writer expects. -/
theorem touchedEarly_leaks :
    ∃ s, Run (enabled exec) (State.init twoReaders Bool) touchedEarly s ∧ s.Processed ∧
      (s.storage.metadata.map fun c => (c.data.writerFlag, c.data.readerCount)) = [(3, 5)] ∧
      ¬ s.Reclaimable := by
  have run : Run (enabled exec) (State.init twoReaders Bool) touchedEarly _ := .of_enabled rfl
  refine ⟨_, run, ⟨rfl, by decide⟩, rfl, fun free => ?_⟩
  have := free _ (mem_singleton_self _)
  cases this

/-- A request references a new key twice. The first reader gets it twice, the second reader
touches it twice, and the count is four, as the writer expects of an object that both have
got: the next request takes its place. -/
def twiceReferenced : List (Action twoReaders Bool) :=
  [.begin [false, false], .touch, .touch, .touch, .update 12, .update 12,
    .handOut [⟨0, 0⟩, ⟨0, 0⟩],
    .start 0, .readerTouch 0, .readerTouch 0, .readerTouch 0, .readerGet 0, .readerGet 0,
    .start 1, .readerTouch 1, .readerTouch 1, .readerTouch 1,
    .begin [true], .touch, .touch, .update 12, .free, .free]

/-- The second reader's `get` raises. -/
theorem twiceReferenced_reclaimed :
    ∃ s, Run (enabled exec) (State.init twoReaders Bool) twiceReferenced s ∧
      (s.readers 1).phase = .getting [⟨0, 0⟩, ⟨0, 0⟩] ∧
      get twoReaders s.storage ⟨0, 0⟩ = none ∧ ¬ s.Protected := by
  have run : Run (enabled exec) (State.init twoReaders Bool) twiceReferenced _ :=
    .of_enabled rfl
  refine ⟨_, run, rfl, rfl, fun safe => ?_⟩
  obtain ⟨storage, chunk, got, -⟩ := safe.got 1 ⟨0, 0⟩ [⟨0, 0⟩] rfl
  cases got

end Vllm.Multimodal.Shm
