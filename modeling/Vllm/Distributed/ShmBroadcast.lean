import Vllm.Lib.Steps

/-!
The shared-memory ring buffer of `MessageQueue`
(`acquire_write` and `acquire_read` in
`vllm/distributed/device_communicators/shm_broadcast.py`).

One writer and `n` readers go round the chunks. A chunk has a written flag and a read
flag for each reader, and every step below reads or writes a single byte, of the flags or
of the data. The caller's code between acquiring and releasing a chunk may also fail.

The log of written chunks and the finished reads are kept beside the shared memory
(`broadcast_of_run`).
-/

namespace Vllm.Distributed

open Vllm.Lib.Steps List
open Function (update update_self update_of_ne)

/-- Where the writer is in `acquire_write`. -/
inductive WriterPC where
  /-- Before a check. -/
  | idle
  /-- `sum(metadata_buffer[1:])`: the flags of the readers below `next` are counted. -/
  | counting (next count : Nat)
  /-- The check was passed. -/
  | passed
  /-- The written flag is cleared, the caller fills the chunk. -/
  | filling
  /-- The read flags of the readers below `next` are cleared. -/
  | resetting (next : Nat)
  deriving DecidableEq, Repr

/-- Where a reader is in `acquire_read`. `O` are the offsets in a chunk, `B` the bytes. -/
inductive ReaderPC (O B : Type) where
  | idle
  /-- Its read flag was read, the written flag comes next. -/
  | saw (readFlag : Bool)
  /-- The caller reads the chunk; these bytes were seen so far. -/
  | reading (seen : List (O × B))

/-- A reader with its `current_idx` and the reads that it has finished. -/
structure Reader (O B : Type) where
  pc : ReaderPC O B
  currentIdx : Nat
  reads : List (List (O × B))

/-- The shared memory and the processes. `written` is the log of the chunks as they were
when they were marked as written. -/
structure Ring (n : Nat) (O B : Type) where
  writtenFlag : Nat → Bool
  readFlag : Nat → Fin n → Bool
  data : Nat → O → B
  writer : WriterPC
  currentIdx : Nat
  reader : Fin n → Reader O B
  written : List (O → B)

inductive Access (n : Nat) (O B : Type) where
  /-- The writer starts a check, or gives up and starts again. -/
  | check
  /-- The writer reads the next read flag, or the written flag after the last. -/
  | count
  /-- `metadata_buffer[0] = 0`. -/
  | clear
  /-- The caller writes one byte. -/
  | fill (offset : O) (byte : B)
  /-- The caller fails, and the chunk is not marked. -/
  | failFill
  /-- The caller is done. -/
  | filled
  /-- `metadata_buffer[i] = 0`. -/
  | reset
  /-- `metadata_buffer[0] = 1`, and on to the next chunk. -/
  | publish
  /-- A reader starts a check and reads its read flag. -/
  | see (r : Fin n)
  /-- It reads the written flag. -/
  | ready (r : Fin n)
  /-- The caller reads one byte. -/
  | read (r : Fin n) (offset : O)
  /-- The caller fails, and the read flag is not set. -/
  | failRead (r : Fin n)
  /-- The read flag is set, and on to the next chunk. -/
  | release (r : Fin n)

variable {n : Nat} {O B : Type}

namespace Ring

/-- All flags are cleared when the buffer is created. -/
def start (data : Nat → O → B) : Ring n O B where
  writtenFlag := fun _ => false
  readFlag := fun _ _ => false
  data
  writer := .idle
  currentIdx := 0
  reader := fun _ => ⟨.idle, 0, []⟩
  written := []

def setFlag (flags : Nat → Fin n → Bool) (i : Nat) (r : Fin n) (flag : Bool) : Nat → Fin n → Bool :=
  fun j q => if j = i ∧ q = r then flag else flags j q

/-- A reader goes on. -/
def setReader (s : Ring n O B) (r : Fin n) (reader : Reader O B) : Ring n O B :=
  { s with reader := update s.reader r reader }

section Exec

variable (maxChunks : Nat) [DecidableEq O]

def writerAccess (s : Ring n O B) : Access n O B → Option (Ring n O B)
  | .check =>
    match s.writer with
    | .idle | .counting .. | .passed => some { s with writer := .counting 0 0 }
    | _ => none
  | .count =>
    match s.writer with
    | .counting next count =>
      if h : next < n then
        some { s with
          writer := .counting (next + 1) (count + (s.readFlag s.currentIdx ⟨next, h⟩).toNat) }
      -- `not (written_flag and read_count != n_reader)`
      else if s.writtenFlag s.currentIdx && count != n then some { s with writer := .idle }
      else some { s with writer := .passed }
    | _ => none
  | .clear =>
    match s.writer with
    | .passed =>
      some { s with
        writtenFlag := update s.writtenFlag s.currentIdx false
        writer := .filling }
    | _ => none
  | .fill offset byte =>
    match s.writer with
    | .filling =>
      some { s with
        data := update s.data s.currentIdx (update (s.data s.currentIdx) offset byte) }
    | _ => none
  | .failFill =>
    match s.writer with
    | .filling => some { s with writer := .idle }
    | _ => none
  | .filled =>
    match s.writer with
    | .filling => some { s with writer := .resetting 0 }
    | _ => none
  | .reset =>
    match s.writer with
    | .resetting next =>
      if h : next < n then
        some { s with
          readFlag := setFlag s.readFlag s.currentIdx ⟨next, h⟩ false
          writer := .resetting (next + 1) }
      else none
    | _ => none
  | .publish =>
    match s.writer with
    | .resetting next =>
      if next = n then
        some { s with
          writtenFlag := update s.writtenFlag s.currentIdx true
          writer := .idle
          currentIdx := (s.currentIdx + 1) % maxChunks
          written := s.written ++ [s.data s.currentIdx] }
      else none
    | _ => none
  | _ => none

def readerAccess (s : Ring n O B) : Access n O B → Option (Ring n O B)
  | .see r =>
    match (s.reader r).pc with
    | .reading _ => none
    | _ =>
      some (s.setReader r { s.reader r with
        pc := .saw (s.readFlag (s.reader r).currentIdx r) })
  | .ready r =>
    match (s.reader r).pc with
    | .saw readFlag =>
      -- `not (not written_flag or read_flag)`
      if s.writtenFlag (s.reader r).currentIdx && !readFlag then
        some (s.setReader r { s.reader r with pc := .reading [] })
      else some (s.setReader r { s.reader r with pc := .idle })
    | _ => none
  | .read r offset =>
    match (s.reader r).pc with
    | .reading seen =>
      some (s.setReader r { s.reader r with
        pc := .reading (seen ++ [(offset, s.data (s.reader r).currentIdx offset)]) })
    | _ => none
  | .failRead r =>
    match (s.reader r).pc with
    | .reading _ => some (s.setReader r { s.reader r with pc := .idle })
    | _ => none
  | .release r =>
    match (s.reader r).pc with
    | .reading seen =>
      some { s with
        readFlag := setFlag s.readFlag (s.reader r).currentIdx r true
        reader := update s.reader r
          ⟨.idle, ((s.reader r).currentIdx + 1) % maxChunks, (s.reader r).reads ++ [seen]⟩ }
    | _ => none
  | _ => none

/-- One access; `none` where it cannot come next. -/
def exec (s : Ring n O B) (access : Access n O B) : Option (Ring n O B) :=
  (s.writerAccess maxChunks access).or (s.readerAccess maxChunks access)

end Exec

/-! ### What holds in every state -/

/-- The bytes of a read are those of the chunk. -/
def Shows (seen : List (O × B)) (chunk : O → B) : Prop := ∀ p ∈ seen, chunk p.1 = p.2

/-- The writer has passed its check and not marked the chunk yet. -/
def Filling (s : Ring n O B) : Prop :=
  match s.writer with
  | .filling | .resetting _ => True
  | _ => False

/-- Delivery in order, exclusion, and no early overwriting. -/
structure Broadcast (maxChunks : Nat) (s : Ring n O B) : Prop where
  /-- Each reader has read the first written chunks, one after the other. -/
  delivered : ∀ r, ∃ rest, ∃ front, s.written = front ++ rest ∧
    List.Forall₂ Shows (s.reader r).reads front
  /-- No reader reads the chunk that is being filled. -/
  exclusive : ∀ r seen, (s.reader r).pc = .reading seen → s.Filling →
    (s.reader r).currentIdx ≠ s.currentIdx
  /-- What a chunk held before it is filled has been read by all readers. -/
  released : s.Filling → ∀ r, s.written.length < (s.reader r).reads.length + maxChunks

/-! ### The invariant -/

/-- Two numbers less than a round of `N` apart are at different chunks. -/
theorem mod_ne_of_near {m w N : Nat} (lt : m < w) (near : w < m + N) :
    m % N ≠ w % N := by
  intro same
  have dvd : N ∣ w - m :=
    Nat.dvd_of_mod_eq_zero (Nat.sub_mod_eq_zero_of_mod_eq same.symm)
  have := Nat.le_of_dvd (by omega) dvd
  omega

/-- A chunk that holds the written chunk number `m`. -/
structure Holds (N : Nat) (s : Ring n O B) (m : Nat) : Prop where
  writtenFlag : s.writtenFlag (m % N) = true
  data : s.written[m]? = some (s.data (m % N))
  readFlag : ∀ r, s.readFlag (m % N) r = decide (m < (s.reader r).reads.length)

/-- What the writer knows at each point. -/
def WriterOk (s : Ring n O B) : Prop :=
  match s.writer with
  | .idle => True
  | .counting next count => next ≤ n ∧ count ≤ next ∧
      (count = next → ∀ r : Fin n, r.val < next → s.readFlag s.currentIdx r = true)
  | .passed => s.writtenFlag s.currentIdx = true → ∀ r, s.readFlag s.currentIdx r = true
  | .filling => s.writtenFlag s.currentIdx = false
  | .resetting next => s.writtenFlag s.currentIdx = false ∧ next ≤ n ∧
      ∀ r : Fin n, r.val < next → s.readFlag s.currentIdx r = false

/-- What a reader knows at each point. -/
def ReaderOk (s : Ring n O B) (r : Fin n) : Prop :=
  match (s.reader r).pc with
  | .idle => True
  | .saw readFlag => readFlag = false → s.readFlag (s.reader r).currentIdx r = false
  | .reading seen => (s.reader r).reads.length < s.written.length ∧
      ∀ chunk, s.written[(s.reader r).reads.length]? = some chunk → Shows seen chunk

/-- Between the number of written chunks and the number of chunks that a reader has read
there is at most one round. -/
structure Inv (N : Nat) (s : Ring n O B) : Prop where
  currentIdx : s.currentIdx = s.written.length % N
  readerIdx : ∀ r, (s.reader r).currentIdx = (s.reader r).reads.length % N
  le : ∀ r, (s.reader r).reads.length ≤ s.written.length
  lap : ∀ r, s.written.length ≤ (s.reader r).reads.length + N
  /-- The other chunks hold what was last written to them. -/
  holds : ∀ m < s.written.length, s.written.length < m + N → Holds N s m
  /-- The writer's own chunk does so if it is marked, -/
  own : s.writtenFlag s.currentIdx = true →
    N ≤ s.written.length ∧ Holds N s (s.written.length - N)
  /-- and otherwise has been released by all readers. -/
  free : s.writtenFlag s.currentIdx = false →
    ∀ r, s.written.length < (s.reader r).reads.length + N
  /-- In the first round. -/
  fresh : ∀ j, s.written.length ≤ j → j < N →
    s.writtenFlag j = false ∧ ∀ r, s.readFlag j r = false
  writer : WriterOk s
  reader : ∀ r, ReaderOk s r
  reads : ∀ r, List.Forall₂ Shows (s.reader r).reads (s.written.take (s.reader r).reads.length)

theorem inv_start {N : Nat} (pos : 0 < N) (data : Nat → O → B) :
    Inv N (start data : Ring n O B) where
  currentIdx := (Nat.zero_mod _).symm
  readerIdx := fun _ => (Nat.zero_mod _).symm
  le := fun _ => le_rfl
  lap := fun _ => Nat.zero_le _
  holds := fun m lt => absurd lt (Nat.not_lt_zero m)
  own := nofun
  free := fun _ _ => pos.trans_le (Nat.le_add_left _ _)
  fresh := fun _ _ _ => ⟨rfl, fun _ => rfl⟩
  writer := trivial
  reader := fun _ => trivial
  reads := fun _ => .nil

section Steps

variable {N : Nat} {s s' : Ring n O B}

theorem Inv.setWriter (inv : Inv N s) (writer : WriterPC)
    (ok : WriterOk { s with writer }) : Inv N { s with writer } :=
  { inv with
    holds := fun m lt near => ⟨(inv.holds m lt near).1, (inv.holds m lt near).2,
      (inv.holds m lt near).3⟩
    own := fun marked => ⟨(inv.own marked).1, (inv.own marked).2.1, (inv.own marked).2.2,
      (inv.own marked).2.3⟩
    writer := ok }

variable {r : Fin n} {next count m : Nat} {seen : List (O × B)} {access : Access n O B}

/-- A reader that stays where it is minds neither a flag that is cleared nor more chunks. -/
theorem ReaderOk.keep (ok : ReaderOk s r) (same : s'.reader r = s.reader r)
    (unset : s.readFlag (s.reader r).currentIdx r = false →
      s'.readFlag (s.reader r).currentIdx r = false)
    {more : List (O → B)} (written : s'.written = s.written ++ more) : ReaderOk s' r := by
  unfold ReaderOk at ok ⊢
  rw [same, written]
  split at ok
  · trivial
  · exact fun unread => unset (ok unread)
  · refine ⟨ok.1.trans_le (by simp), fun chunk at_ => ok.2 chunk ?_⟩
    rwa [getElem?_append_left ok.1] at at_

section

variable (inv : Inv N s)
include inv

/-- A reader holds on to a chunk that still holds what it is to read. -/
theorem Inv.holds_read (more : (s.reader r).reads.length < s.written.length) :
    Holds N s (s.reader r).reads.length := by
  by_cases near : s.written.length < (s.reader r).reads.length + N
  · exact inv.holds _ more near
  · have lap := inv.lap r
    have marked : s.writtenFlag s.currentIdx = true := by
      by_contra unmarked
      exact near (inv.free (by simpa using unmarked) r)
    have holds := (inv.own marked).2
    have same : s.written.length - N = (s.reader r).reads.length := by omega
    rwa [same] at holds

/-! #### The writer -/

theorem Inv.countFlag (pc : s.writer = .counting next count) (more : next < n) :
    Inv N { s with
      writer := .counting (next + 1) (count + (s.readFlag s.currentIdx ⟨next, more⟩).toNat) } := by
  apply inv.setWriter
  have ok := inv.writer
  simp only [WriterOk, pc] at ok ⊢
  obtain ⟨-, le, all⟩ := ok
  cases flag : s.readFlag s.currentIdx ⟨next, more⟩ with
  | false => exact ⟨more, by simp; omega, fun eq => by simp at eq; omega⟩
  | true =>
    refine ⟨more, by simp; omega, fun eq r lt => ?_⟩
    by_cases last : r.val = next
    · rw [← flag]
      congr 1
      exact Fin.ext last
    · exact all (by simpa using eq) r (by omega)

theorem Inv.pass (pc : s.writer = .counting next count) (all : ¬ next < n)
    (passed : (s.writtenFlag s.currentIdx && count != n) = false) :
    Inv N { s with writer := .passed } := by
  apply inv.setWriter
  have ok := inv.writer
  simp only [WriterOk, pc] at ok ⊢
  obtain ⟨le, -, counted⟩ := ok
  intro marked r
  have eq : count = n := by simpa [marked] using passed
  exact counted (by omega) r (by omega)

theorem Inv.released_of_passed (pc : s.writer = .passed) (r : Fin n) :
    s.written.length < (s.reader r).reads.length + N := by
  cases marked : s.writtenFlag s.currentIdx with
  | false => exact inv.free marked r
  | true =>
    have ok := inv.writer
    simp only [WriterOk, pc] at ok
    obtain ⟨round, holds⟩ := inv.own marked
    have same : (s.written.length - N) % N = s.currentIdx := by
      rw [inv.currentIdx, ← Nat.mod_eq_sub_mod round]
    have flag := holds.readFlag r
    rw [same, ok marked r] at flag
    have := of_decide_eq_true flag.symm
    omega

/-- A step at the writer's chunk leaves the other chunks alone. -/
theorem Inv.ne_currentIdx (lt : m < s.written.length) (near : s.written.length < m + N) :
    m % N ≠ s.currentIdx := by
  rw [inv.currentIdx]
  exact mod_ne_of_near lt near

theorem Inv.clear (pc : s.writer = .passed) :
    Inv N { s with
      writtenFlag := update s.writtenFlag s.currentIdx false, writer := .filling } :=
  { inv with
    holds := fun m lt near => by
      have holds := inv.holds m lt near
      exact ⟨(update_of_ne (inv.ne_currentIdx lt near) _ _).trans holds.writtenFlag,
        holds.data, holds.readFlag⟩
    own := fun marked => by cases (update_self _ _ _).symm.trans marked
    free := fun _ => inv.released_of_passed pc
    fresh := fun j le lt => by
      refine ⟨?_, (inv.fresh j le lt).2⟩
      by_cases same : j = s.currentIdx
      · exact same ▸ update_self _ _ _
      · exact (update_of_ne same _ _).trans (inv.fresh j le lt).1
    writer := update_self _ _ _ }

theorem Inv.fill (pc : s.writer = .filling) (chunk : O → B) :
    Inv N { s with data := update s.data s.currentIdx chunk } := by
  have unmarked : s.writtenFlag s.currentIdx = false := by
    have ok := inv.writer
    simpa only [WriterOk, pc] using ok
  refine { inv with
    holds := fun m lt near => ?_
    own := fun marked => absurd (unmarked.symm.trans marked) (by simp) }
  have holds := inv.holds m lt near
  refine ⟨holds.writtenFlag, holds.data.trans (congrArg some ?_), holds.readFlag⟩
  exact (update_of_ne (inv.ne_currentIdx lt near) _ _).symm

/-- Clearing the read flag of one reader in the writer's unmarked chunk. -/
theorem Inv.reset (pc : s.writer = .resetting next) (more : next < n) :
    Inv N { s with
      readFlag := setFlag s.readFlag s.currentIdx ⟨next, more⟩ false
      writer := .resetting (next + 1) } := by
  have ok := inv.writer
  simp only [WriterOk, pc] at ok
  obtain ⟨unmarked, -, cleared⟩ := ok
  have lowered : ∀ j r, s.readFlag j r = false →
      setFlag s.readFlag s.currentIdx ⟨next, more⟩ false j r = false := by
    intro j r unset
    unfold setFlag
    split
    · rfl
    · exact unset
  refine { inv with
    holds := ?holds
    own := fun marked => absurd (unmarked.symm.trans marked) (by simp)
    fresh := ?fresh, writer := ?writer, reader := ?reader }
  case holds =>
    intro m lt near
    have holds := inv.holds m lt near
    refine ⟨holds.writtenFlag, holds.data, fun r => ?_⟩
    exact (if_neg fun both => inv.ne_currentIdx lt near both.1).trans (holds.readFlag r)
  case fresh =>
    intro j le lt
    obtain ⟨unwritten, unread⟩ := inv.fresh j le lt
    exact ⟨unwritten, fun r => lowered j r (unread r)⟩
  case writer =>
    refine ⟨unmarked, more, fun r lt => ?_⟩
    by_cases last : r.val = next
    · exact if_pos ⟨rfl, Fin.ext last⟩
    · exact lowered _ r (cleared r (by omega))
  case reader => exact fun r => (inv.reader r).keep rfl (lowered _ r) (append_nil _).symm

/-- The chunk is marked as written, and the writer goes on to the next. -/
theorem Inv.publish (pos : 0 < N) (pc : s.writer = .resetting n) :
    Inv N { s with
      writtenFlag := update s.writtenFlag s.currentIdx true
      writer := .idle
      currentIdx := (s.currentIdx + 1) % N
      written := s.written ++ [s.data s.currentIdx] } := by
  have ok := inv.writer
  simp only [WriterOk, pc] at ok
  obtain ⟨unmarked, -, cleared⟩ := ok
  set s' : Ring n O B := { s with
    writtenFlag := update s.writtenFlag s.currentIdx true
    writer := .idle
    currentIdx := (s.currentIdx + 1) % N
    written := s.written ++ [s.data s.currentIdx] }
  have length : s'.written.length = s.written.length + 1 := by simp [s']
  have next : s'.currentIdx = (s.written.length + 1) % N := by
    show (s.currentIdx + 1) % N = _
    rw [inv.currentIdx, Nat.mod_add_mod]
  have newest : Holds N s' s.written.length := by
    refine ⟨?_, ?_, fun r => ?_⟩
    · rw [← inv.currentIdx]
      exact update_self _ _ _
    · rw [← inv.currentIdx]
      exact getElem?_concat_length
    · rw [← inv.currentIdx]
      exact (cleared r r.isLt).trans (decide_eq_false (not_lt.mpr (inv.le r))).symm
  have older : ∀ m < s.written.length, s.written.length < m + N → Holds N s' m := by
    intro m lt near
    have holds := inv.holds m lt near
    exact ⟨(update_of_ne (inv.ne_currentIdx lt near) _ _).trans holds.writtenFlag,
      (getElem?_append_left lt).trans holds.data, holds.readFlag⟩
  -- After a full round the next chunk holds what was written a round ago.
  have round : N ≤ s.written.length + 1 →
      Holds N s' (s.written.length + 1 - N) := by
    intro full
    by_cases single : s.written.length + 1 - N = s.written.length
    · rw [single]
      exact newest
    · exact older _ (by omega) (by omega)
  have other : ∀ j, s.written.length + 1 ≤ j → j < N →
      s'.writtenFlag j = false ∧ ∀ r, s'.readFlag j r = false := by
    intro j le lt
    have ne : j ≠ s.currentIdx := by
      rw [inv.currentIdx, Nat.mod_eq_of_lt (by omega)]
      omega
    obtain ⟨unwritten, unread⟩ := inv.fresh j (by omega) lt
    exact ⟨(update_of_ne ne _ _).trans unwritten, unread⟩
  constructor
  case currentIdx => rw [length, next]
  case readerIdx => exact inv.readerIdx
  case le => exact fun r => length ▸ Nat.le_succ_of_le (inv.le r)
  case lap => exact fun r => length ▸ inv.free unmarked r
  case holds =>
    intro m lt near
    by_cases last : m = s.written.length
    · exact last ▸ newest
    · exact older m (by omega) (by omega)
  case own =>
    rw [length, next]
    intro marked
    by_cases full : N ≤ s.written.length + 1
    · exact ⟨full, round full⟩
    · rw [Nat.mod_eq_of_lt (by omega), (other _ le_rfl (by omega)).1] at marked
      cases marked
  case free =>
    rw [next]
    intro unmarked' r
    by_cases full : N ≤ s.written.length + 1
    · have marked := (round full).writtenFlag
      rw [← Nat.mod_eq_sub_mod full, unmarked'] at marked
      cases marked
    · omega
  case fresh => exact fun j le lt => other j (length ▸ le) lt
  case writer => trivial
  case reader => exact fun r => (inv.reader r).keep rfl id rfl
  case reads =>
    intro r
    rw [take_append_of_le_length (inv.le r)]
    exact inv.reads r

/-! #### A reader -/

/-- A reader stays at its chunk. -/
theorem Inv.setPC (r : Fin n) (pc : ReaderPC O B)
    (ok : match pc with
      | .idle => True
      | .saw readFlag => readFlag = false → s.readFlag (s.reader r).currentIdx r = false
      | .reading seen => (s.reader r).reads.length < s.written.length ∧
          ∀ chunk, s.written[(s.reader r).reads.length]? = some chunk → Shows seen chunk) :
    Inv N (s.setReader r { s.reader r with pc }) := by
  have kept : ∀ {α : Type} (read : Reader O B → α), read { s.reader r with pc } = read (s.reader r) →
      ∀ q, read ((s.setReader r { s.reader r with pc }).reader q) = read (s.reader q) := by
    intro α read same q
    show read (update s.reader r _ q) = _
    by_cases eq : q = r
    · rw [eq, update_self, same]
    · rw [update_of_ne eq]
  have idx := kept (·.currentIdx) rfl
  have reads := kept (·.reads) rfl
  have holds : ∀ {m}, Holds N s m →
      Holds N (s.setReader r { s.reader r with pc }) m := by
    intro m holds
    exact ⟨holds.writtenFlag, holds.data, fun q => (holds.readFlag q).trans (by rw [reads])⟩
  constructor
  case currentIdx => exact inv.currentIdx
  case readerIdx => exact fun q => by rw [idx, reads]; exact inv.readerIdx q
  case le => exact fun q => by rw [reads]; exact inv.le q
  case lap => exact fun q => by rw [reads]; exact inv.lap q
  case holds => exact fun m lt near => holds (inv.holds m lt near)
  case own => exact fun marked => ⟨(inv.own marked).1, holds (inv.own marked).2⟩
  case free => exact fun unmarked q => by rw [reads]; exact inv.free unmarked q
  case fresh => exact inv.fresh
  case writer => exact inv.writer
  case reader =>
    intro q
    rcases eq_or_ne q r with rfl | same
    · have at_ : (s.setReader q { s.reader q with pc }).reader q = { s.reader q with pc } :=
        update_self _ _ _
      unfold ReaderOk
      rw [at_]
      exact ok
    · exact (inv.reader q).keep (update_of_ne same _ _) id (append_nil _).symm
  case reads => exact fun q => by rw [reads]; exact inv.reads q

/-- A reader whose check is passed has a chunk to read. -/
theorem Inv.ready (pos : 0 < N) {readFlag : Bool} (pc : (s.reader r).pc = .saw readFlag)
    (passed : (s.writtenFlag (s.reader r).currentIdx && !readFlag) = true) :
    Inv N (s.setReader r { s.reader r with pc := .reading [] }) := by
  obtain ⟨marked, unread⟩ := Bool.and_eq_true_iff.mp passed
  have ok := inv.reader r
  simp only [ReaderOk, pc] at ok
  have flag := ok (by simpa using unread)
  refine inv.setPC r _ ⟨?_, nofun⟩
  -- A reader that has read everything is at the writer's chunk, which it has released.
  by_contra all
  have all : (s.reader r).reads.length = s.written.length := le_antisymm (inv.le r) (by omega)
  have same : (s.reader r).currentIdx = s.currentIdx := by
    rw [inv.readerIdx, inv.currentIdx, all]
  rw [same] at marked flag
  obtain ⟨full, holds⟩ := inv.own marked
  have released := holds.readFlag r
  rw [← Nat.mod_eq_sub_mod full, ← inv.currentIdx, flag] at released
  have := of_decide_eq_false released.symm
  omega

theorem Inv.read (pc : (s.reader r).pc = .reading seen) (offset : O) :
    Inv N (s.setReader r { s.reader r with
      pc := .reading (seen ++ [(offset, s.data (s.reader r).currentIdx offset)]) }) := by
  have ok := inv.reader r
  simp only [ReaderOk, pc] at ok
  obtain ⟨more, shows⟩ := ok
  refine inv.setPC r _ ⟨more, fun chunk at_ p mem => ?_⟩
  rcases mem_append.mp mem with old | new
  · exact shows chunk at_ p old
  · cases mem_singleton.mp new
    have data := (inv.holds_read more).data
    rw [at_, ← inv.readerIdx r] at data
    cases data
    rfl

/-- The reader's chunk is the only one whose flag for it changes. -/
theorem Inv.release_flag (more : (s.reader r).reads.length < s.written.length)
    (lt : m < s.written.length) (near : s.written.length ≤ m + N)
    (flag : s.readFlag (m % N) r = decide (m < (s.reader r).reads.length)) :
    setFlag s.readFlag (s.reader r).currentIdx r true (m % N) r =
      decide (m < (s.reader r).reads.length + 1) := by
  have lap := inv.lap r
  unfold setFlag
  rw [inv.readerIdx r]
  rcases lt_trichotomy m (s.reader r).reads.length with before | same | after
  · rw [if_neg fun both => mod_ne_of_near before (by omega) both.1, flag,
      decide_eq_true before, decide_eq_true (Nat.lt_succ_of_lt before)]
  · rw [same, if_pos ⟨rfl, rfl⟩, decide_eq_true (Nat.lt_succ_self _)]
  · rw [if_neg fun both => mod_ne_of_near after (by omega) both.1.symm, flag,
      decide_eq_false (by omega), decide_eq_false (by omega)]

theorem Inv.release (pc : (s.reader r).pc = .reading seen) :
    Inv N { s with
      readFlag := setFlag s.readFlag (s.reader r).currentIdx r true
      reader := update s.reader r
        ⟨.idle, ((s.reader r).currentIdx + 1) % N, (s.reader r).reads ++ [seen]⟩ } := by
  have ok := inv.reader r
  simp only [ReaderOk, pc] at ok
  obtain ⟨more, shows⟩ := ok
  set done : Reader O B :=
    ⟨.idle, ((s.reader r).currentIdx + 1) % N, (s.reader r).reads ++ [seen]⟩
  set s' : Ring n O B := { s with
    readFlag := setFlag s.readFlag (s.reader r).currentIdx r true
    reader := update s.reader r done }
  have self : s'.reader r = done := update_self _ _ _
  have other : ∀ {q}, q ≠ r → s'.reader q = s.reader q := fun ne => update_of_ne ne _ _
  have length : (s'.reader r).reads.length = (s.reader r).reads.length + 1 := by
    rw [self]
    exact length_append
  have raised : ∀ j q, s.readFlag j q = true → s'.readFlag j q = true := by
    intro j q set_
    show setFlag _ _ _ _ _ _ = _
    unfold setFlag
    split
    · rfl
    · exact set_
  have same_flag : ∀ j {q}, q ≠ r → s'.readFlag j q = s.readFlag j q :=
    fun j q ne => if_neg fun both => ne both.2
  have grown : ∀ q, (s.reader q).reads.length ≤ (s'.reader q).reads.length := by
    intro q
    by_cases eq : q = r
    · rw [eq, length]
      exact Nat.le_succ _
    · rw [other eq]
  have holds : ∀ {m}, m < s.written.length → s.written.length ≤ m + N →
      Holds N s m → Holds N s' m := by
    intro m lt near holds
    refine ⟨holds.writtenFlag, holds.data, fun q => ?_⟩
    rcases eq_or_ne q r with rfl | eq
    · rw [length]
      exact inv.release_flag more lt near (holds.readFlag q)
    · rw [same_flag _ eq, other eq]
      exact holds.readFlag q
  constructor
  case currentIdx => exact inv.currentIdx
  case readerIdx =>
    intro q
    rcases eq_or_ne q r with rfl | eq
    · rw [length, self]
      show ((s.reader q).currentIdx + 1) % N = _
      rw [inv.readerIdx, Nat.mod_add_mod]
    · rw [other eq]
      exact inv.readerIdx q
  case le =>
    intro q
    by_cases eq : q = r
    · rw [eq, length]
      exact more
    · rw [other eq]
      exact inv.le q
  case lap => exact fun q => (inv.lap q).trans (Nat.add_le_add_right (grown q) _)
  case holds => exact fun m lt near => holds lt near.le (inv.holds m lt near)
  case own =>
    intro marked
    obtain ⟨full, old⟩ := inv.own marked
    have lap := inv.lap r
    have before : s.written.length - N < s.written.length := by omega
    have near : s.written.length ≤ s.written.length - N + N := by omega
    exact ⟨full, holds before near old⟩
  case free =>
    exact fun unmarked q =>
      (inv.free unmarked q).trans_le (Nat.add_le_add_right (grown q) _)
  case fresh =>
    intro j le lt
    have le : s.written.length ≤ j := le
    obtain ⟨unwritten, unread⟩ := inv.fresh j le lt
    refine ⟨unwritten, fun q => (if_neg fun both => ?_).trans (unread q)⟩
    have at_ := both.1
    rw [inv.readerIdx r, Nat.mod_eq_of_lt (by omega)] at at_
    omega
  case writer =>
    have ok := inv.writer
    have same : s'.writer = s.writer := rfl
    unfold WriterOk at ok ⊢
    rw [same]
    split at ok
    · trivial
    · exact ⟨ok.1, ok.2.1, fun eq q lt => raised _ q (ok.2.2 eq q lt)⟩
    · exact fun marked q => raised _ q (ok marked q)
    · exact ok
    · obtain ⟨unmarked, le, cleared⟩ := ok
      refine ⟨unmarked, le, fun q lt => (if_neg fun both => ?_).trans (cleared q lt)⟩
      rw [inv.readerIdx r] at both
      exact inv.ne_currentIdx more (inv.free unmarked r) both.1.symm
  case reader =>
    intro q
    rcases eq_or_ne q r with rfl | eq
    · unfold ReaderOk
      rw [self]
      trivial
    · exact (inv.reader q).keep (other eq) (same_flag _ eq).trans (append_nil _).symm
  case reads =>
    intro q
    rcases eq_or_ne q r with rfl | eq
    · rw [length, self, take_add_one]
      have data := (inv.holds_read more).data
      refine rel_append (inv.reads q) ?_
      rw [data]
      exact .cons (shows _ data) .nil
    · rw [other eq]
      exact inv.reads q

theorem Inv.writerAccess [DecidableEq O] (pos : 0 < N)
    (step : s.writerAccess N access = some s') : Inv N s' := by
  revert step
  fun_cases Ring.writerAccess N s access with
  | case1 | case2 | case3 =>
    rintro ⟨⟩
    exact inv.setWriter _ ⟨Nat.zero_le _, le_rfl, fun _ _ lt => absurd lt (by simp)⟩
  | case5 next count pc more =>
    rintro ⟨⟩
    exact inv.countFlag pc more
  | case7 next count pc all passed =>
    rintro ⟨⟩
    exact inv.pass pc all (by simpa using passed)
  | case9 pc =>
    rintro ⟨⟩
    exact inv.clear pc
  | case11 offset byte pc =>
    rintro ⟨⟩
    exact inv.fill pc _
  | case6 | case13 =>
    rintro ⟨⟩
    exact inv.setWriter _ trivial
  | case15 pc =>
    rintro ⟨⟩
    have ok := inv.writer
    simp only [WriterOk, pc] at ok
    exact inv.setWriter _ ⟨ok, Nat.zero_le _, fun _ lt => absurd lt (Nat.not_lt_zero _)⟩
  | case17 next pc more =>
    rintro ⟨⟩
    exact inv.reset pc more
  | case20 pc =>
    rintro ⟨⟩
    exact inv.publish pos pc
  -- The access cannot come next.
  | _ => exact nofun

theorem Inv.readerAccess (pos : 0 < N) (step : s.readerAccess N access = some s') :
    Inv N s' := by
  revert step
  fun_cases Ring.readerAccess N s access with
  | case2 r =>
    rintro ⟨⟩
    exact inv.setPC r _ fun unset => unset
  | case3 r readFlag pc passed =>
    rintro ⟨⟩
    exact inv.ready pos pc passed
  | case6 r offset seen pc =>
    rintro ⟨⟩
    exact inv.read pc offset
  | case4 r | case8 r =>
    rintro ⟨⟩
    exact inv.setPC r _ trivial
  | case10 r seen pc =>
    rintro ⟨⟩
    exact inv.release pc
  | _ => exact nofun

theorem Inv.broadcast : Broadcast N s := by
  have unmarked : s.Filling → s.writtenFlag s.currentIdx = false := by
    intro filling
    have ok := inv.writer
    unfold Filling at filling
    unfold WriterOk at ok
    split at filling
    · simpa only [*] using ok
    · rename_i next pc
      rw [pc] at ok
      exact ok.1
    · cases filling
  constructor
  case delivered =>
    intro r
    exact ⟨s.written.drop (s.reader r).reads.length, s.written.take (s.reader r).reads.length,
      (take_append_drop _ _).symm, inv.reads r⟩
  case exclusive =>
    intro r seen pc filling
    have ok := inv.reader r
    simp only [ReaderOk, pc] at ok
    rw [inv.readerIdx r]
    exact inv.ne_currentIdx ok.1 (inv.free (unmarked filling) r)
  case released => exact fun filling => inv.free (unmarked filling)

end

end Steps

/-- In every interleaving of one writer and `n` readers over any number of chunks, from
cleared flags: each reader has read the first written chunks in order, none of them while
it is filled, and no chunk is filled before all readers have released it. -/
theorem broadcast_of_run [DecidableEq O] {maxChunks : Nat} (pos : 0 < maxChunks)
    (data : Nat → O → B) {accesses : List (Access n O B)} {s : Ring n O B}
    (run : Run (enabled (exec maxChunks)) (start data) accesses s) : Broadcast maxChunks s := by
  have inv : Inv maxChunks s := by
    refine run.invariant (Inv maxChunks) ?_ (inv_start pos data)
    intro s access s' inv step
    rcases Option.or_eq_some_iff.mp step with writer | ⟨-, reader⟩
    · exact inv.writerAccess pos writer
    · exact inv.readerAccess pos reader
  exact inv.broadcast

/-- The writer passes its check and writes a message of one byte for two readers. -/
def writeByte (byte : Nat) : List (Access 2 Unit Nat) :=
  [.check, .count, .count, .count, .clear, .fill () byte, .filled, .reset, .reset, .publish]

def readByte (r : Fin 2) : List (Access 2 Unit Nat) := [.see r, .ready r, .read r (), .release r]

/-- Three messages through two chunks. The writer is held up at the first chunk until the slow
reader has read it, and fills it again while that one reads the second one. -/
def threeBytes (fast slow : Fin 2) : List (Access 2 Unit Nat) :=
  [writeByte 5, writeByte 6, readByte fast, readByte fast, [.check, .count, .count, .count],
    readByte slow, [.see slow, .ready slow], writeByte 7, [.read slow (), .release slow],
    readByte fast].flatten

theorem threeBytes_broadcast :
    0 < 2 ∧ ∃ s, Run (enabled (exec 2)) (start fun _ _ => 0) (threeBytes 0 1) s ∧
      s.written.map (· ()) = [5, 6, 7] ∧ (s.reader 0).reads = [[((), 5)], [((), 6)], [((), 7)]] ∧
      (s.reader 1).reads = [[((), 5)], [((), 6)]] ∧ Broadcast 2 s := by
  have evaluated : ((threeBytes 0 1).foldlM (exec 2) (start fun _ _ => 0)).map (fun s =>
      (s.written.map (· ()), (s.reader 0).reads, (s.reader 1).reads)) =
      some ([5, 6, 7], [[((), 5)], [((), 6)], [((), 7)]], [[((), 5)], [((), 6)]]) := by
    decide +kernel
  obtain ⟨s, ends, shown⟩ := Option.map_eq_some_iff.mp evaluated
  obtain ⟨written, first, second⟩ : _ ∧ _ ∧ _ := by simpa only [Prod.mk.injEq] using shown
  have run : Run (enabled (exec 2)) (start fun _ _ => 0) (threeBytes 0 1) s := .of_enabled ends
  exact ⟨Nat.two_pos, s, run, written, first, second, broadcast_of_run Nat.two_pos _ run⟩

end Ring

end Vllm.Distributed
