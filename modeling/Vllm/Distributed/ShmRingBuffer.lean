import Mathlib

/-!
The allocator of `SingleWriterShmRingBuffer`
(`vllm/distributed/device_communicators/shm_object_storage.py`).

Chunks are allocated at growing addresses, which count modulo the size of the buffer, and
freed in the order of their allocation. A chunk does not go over the end of the buffer.
`memory` records which chunk the bytes of the buffer were last written for; chunks that
are not freed keep their bytes (`Valid.intact`).
-/

namespace Vllm.Distributed

open List

/-- A chunk with its address, its size with the header, and what the writer keeps about
it. `serial` counts the allocations; the monotonic id is `serial % ID_MAX`. -/
structure Chunk (α : Type) where
  serial : Nat
  address : Nat
  size : Nat
  data : α

/-- `SingleWriterShmRingBuffer`: `metadata` holds the chunks that are not freed, in the
order of their ids. -/
structure RingBuffer (α : Type) where
  metadata : List (Chunk α)
  monotonicIdEnd : Nat
  dataBufferStart : Nat
  dataBufferEnd : Nat
  memory : Nat → Option Nat

namespace RingBuffer

variable {α : Type}

def new : RingBuffer α := ⟨[], 0, 0, 0, fun _ => none⟩

/-- `MD_SIZE`: four bytes each for the id and the size. -/
def mdSize : Nat := 8

section Operations

variable (dataBufferSize : Nat)

/-- Where a chunk of this size comes: at the next start of the buffer if it does not fit
before its end. -/
def bufferEndReset (rb : RingBuffer α) (size : Nat) : Nat :=
  if dataBufferSize < rb.dataBufferEnd % dataBufferSize + size then
    (rb.dataBufferEnd / dataBufferSize + 1) * dataBufferSize
  else rb.dataBufferEnd

/-- `allocate_buf`; `none` for `MemoryError`. The caller then fills the whole chunk. -/
def allocateBuf (rb : RingBuffer α) (size : Nat) (data : α) : Option (RingBuffer α × Chunk α) :=
  let size := size + mdSize
  let bufferEndReset := rb.bufferEndReset dataBufferSize size
  if rb.dataBufferStart + dataBufferSize < bufferEndReset + size then none
  else
    let chunk : Chunk α := ⟨rb.monotonicIdEnd, bufferEndReset, size, data⟩
    let bufIdx := bufferEndReset % dataBufferSize
    some ({
      metadata := rb.metadata ++ [chunk]
      monotonicIdEnd := rb.monotonicIdEnd + 1
      dataBufferStart := rb.dataBufferStart
      dataBufferEnd := bufferEndReset + size
      memory := fun b =>
        if bufIdx ≤ b ∧ b < bufIdx + size then some rb.monotonicIdEnd else rb.memory b }, chunk)

/-- One round of the loop of `free_buf`, for the oldest chunk. -/
def freeOldest (rb : RingBuffer α) : RingBuffer α :=
  match rb.metadata with
  | [] => rb
  | [_] => { rb with metadata := [], dataBufferStart := 0, dataBufferEnd := 0 }
  | _ :: next :: rest =>
    { rb with
      metadata := next :: rest
      dataBufferStart := rb.dataBufferStart +
        (((next.address : Int) - rb.dataBufferStart) % dataBufferSize).toNat }

/-- The end of `free_buf`. -/
def wrapAround (rb : RingBuffer α) : RingBuffer α :=
  if dataBufferSize ≤ rb.dataBufferStart then
    { rb with
      dataBufferStart := rb.dataBufferStart - dataBufferSize
      dataBufferEnd := rb.dataBufferEnd - dataBufferSize }
  else rb

theorem metadata_wrapAround (rb : RingBuffer α) :
    (rb.wrapAround dataBufferSize).metadata = rb.metadata := by
  unfold wrapAround
  split <;> rfl

theorem metadata_freeOldest (rb : RingBuffer α) {oldest : Chunk α} {tail : List (Chunk α)}
    (head : rb.metadata = oldest :: tail) : (rb.freeOldest dataBufferSize).metadata = tail := by
  unfold freeOldest
  rw [head]
  cases tail <;> rfl

end Operations

/-- What the writer keeps about the chunks changes. -/
def mapData (f : Chunk α → α) (rb : RingBuffer α) : RingBuffer α :=
  { rb with metadata := rb.metadata.map fun chunk => { chunk with data := f chunk } }

/-! ### Where the chunks are -/

/-- A chunk at a position that is its address up to rounds, within the buffer of `N` bytes. -/
structure FitsAt (N : Nat) (chunk : Chunk α) (pos : Nat) : Prop where
  address : pos % N = chunk.address % N
  size_pos : 0 < chunk.size
  within : pos % N + chunk.size ≤ N

/-- Chunks one after the other from one position to another. -/
inductive Chain (N : Nat) : Nat → List (Chunk α) → Nat → Prop
  | last {chunk : Chunk α} {pos : Nat} : FitsAt N chunk pos →
      Chain N pos [chunk] (pos + chunk.size)
  | cons {chunk : Chunk α} {pos next last : Nat} {rest : List (Chunk α)} :
      FitsAt N chunk pos → pos + chunk.size ≤ next →
      Chain N next rest last → Chain N pos (chunk :: rest) last

variable {N pos last : Nat} {chunks : List (Chunk α)}

theorem Chain.le (chain : Chain N pos chunks last) : pos < last := by
  induction chain with
  | last fits | cons fits =>
    have := fits.size_pos
    omega

variable {chunk : Chunk α}

theorem Chain.head (chain : Chain N pos (chunk :: chunks) last) :
    FitsAt N chunk pos := by
  cases chain with
  | last fits | cons fits => exact fits

section

variable (chain : Chain N pos chunks last)
include chain

/-- Every chunk has a place between the two positions. -/
theorem Chain.place (mem : chunk ∈ chunks) :
    ∃ p, pos ≤ p ∧ p + chunk.size ≤ last ∧ FitsAt N chunk p := by
  induction chain with
  | last fits =>
    cases mem_singleton.mp mem
    exact ⟨_, le_rfl, le_rfl, fits⟩
  | @cons first pos next last rest fits le tail ih =>
    rcases mem_cons.mp mem with rfl | later
    · exact ⟨pos, le_rfl, le.trans tail.le.le, fits⟩
    · obtain ⟨p, behind, before, fits'⟩ := ih later
      exact ⟨p, by omega, before, fits'⟩

theorem Chain.append {next : Nat} (le : last ≤ next) (fits : FitsAt N chunk next) :
    Chain N pos (chunks ++ [chunk]) (next + chunk.size) := by
  induction chain with
  | last first => exact .cons first le (.last fits)
  | cons first gap _ ih => exact .cons first gap (ih le)

/-- All positions may be a round lower. -/
theorem Chain.lower (le : N ≤ pos) :
    Chain N (pos - N) chunks (last - N) := by
  have lowered : ∀ {chunk : Chunk α} {p}, N ≤ p → FitsAt N chunk p →
      FitsAt N chunk (p - N) := by
    intro chunk p le fits
    have same : (p - N) % N = p % N :=
      (Nat.mod_eq_sub_mod le).symm
    exact ⟨same.trans fits.address, fits.size_pos, same ▸ fits.within⟩
  induction chain with
  | @last chunk pos fits =>
    have : pos + chunk.size - N = pos - N + chunk.size := by omega
    rw [this]
    exact .last (lowered le fits)
  | cons fits gap tail ih =>
    exact .cons (lowered le fits) (by omega) (ih (by omega))

end

theorem Chain.map (f : Chunk α → α) (chain : Chain N pos chunks last) :
    Chain N pos (chunks.map fun chunk => { chunk with data := f chunk }) last := by
  induction chain with
  | last fits => exact .last { fits with }
  | cons fits gap _ ih => exact .cons { fits with } gap ih

/-- Two places less than a round apart do not share a byte of the buffer. -/
theorem disjoint_of_near {p q b size size' : Nat} (after : p + size ≤ q)
    (near : q + size' ≤ p + N)
    (left : p % N ≤ b ∧ b < p % N + size)
    (right : q % N ≤ b ∧ b < q % N + size') : False := by
  obtain ⟨i, rfl⟩ := Nat.exists_eq_add_of_le left.1
  obtain ⟨j, same⟩ := Nat.exists_eq_add_of_le right.1
  have congr : (p + i) % N = (q + j) % N := by
    rw [← Nat.mod_add_mod p, same, Nat.mod_add_mod]
  have dvd : N ∣ q + j - (p + i) :=
    Nat.dvd_of_mod_eq_zero (Nat.sub_mod_eq_zero_of_mod_eq congr.symm)
  have := Nat.le_of_dvd (by omega) dvd
  omega

/-! ### Buffers -/

/-- The chunks follow each other within one round, and their bytes are their own. -/
structure Valid (N : Nat) (rb : RingBuffer α) : Prop where
  empty : rb.metadata = [] → rb.dataBufferStart = 0 ∧ rb.dataBufferEnd = 0
  chain : rb.metadata ≠ [] → Chain N rb.dataBufferStart rb.metadata rb.dataBufferEnd
  room : rb.dataBufferEnd ≤ rb.dataBufferStart + N
  intact : ∀ chunk ∈ rb.metadata, ∀ b, chunk.address % N ≤ b →
    b < chunk.address % N + chunk.size → rb.memory b = some chunk.serial
  serial_lt : ∀ chunk ∈ rb.metadata, chunk.serial < rb.monotonicIdEnd

theorem valid_new : Valid N (new : RingBuffer α) where
  empty := fun _ => ⟨rfl, rfl⟩
  chain := fun ne => absurd rfl ne
  room := Nat.zero_le _
  intact := by simp [new]
  serial_lt := by simp [new]

variable {rb rb' : RingBuffer α}

theorem Valid.mapData (valid : Valid N rb) (f : Chunk α → α) :
    Valid N (rb.mapData f) where
  empty := fun none => valid.empty (map_eq_nil_iff.mp none)
  chain := fun ne => (valid.chain fun none => ne (by simp [RingBuffer.mapData, none])).map f
  room := valid.room
  intact := by
    intro chunk mem
    obtain ⟨old, oldMem, rfl⟩ := mem_map.mp mem
    exact valid.intact old oldMem
  serial_lt := by
    intro chunk mem
    obtain ⟨old, oldMem, rfl⟩ := mem_map.mp mem
    exact valid.serial_lt old oldMem

variable {size : Nat} {chunk : Chunk α} {data : α}

/-- Where the next chunk comes: behind the last one, and not over the end. -/
theorem bufferEndReset_spec (rb : RingBuffer α) (pos : 0 < size) (fits : size ≤ N) :
    rb.dataBufferEnd ≤ rb.bufferEndReset N size ∧
      rb.bufferEndReset N size % N + size ≤ N := by
  unfold bufferEndReset
  split
  · constructor
    · have := Nat.lt_div_mul_add (a := rb.dataBufferEnd) (b := N) (by omega)
      rw [Nat.add_mul]
      omega
    · rw [Nat.mul_mod_left]
      omega
  · exact ⟨le_rfl, by omega⟩

section

variable (valid : Valid N rb)
include valid

theorem Valid.start_le : rb.dataBufferStart ≤ rb.dataBufferEnd := by
  by_cases none : rb.metadata = []
  · rw [(valid.empty none).1]
    exact Nat.zero_le _
  · exact (valid.chain none).le.le

/-- There is no room for a chunk larger than the buffer. -/
theorem Valid.lt_bufferEndReset_add (big : N < size) :
    rb.dataBufferStart + N < rb.bufferEndReset N size + size := by
  have ordered := valid.start_le
  have beyond : N < rb.dataBufferEnd % N + size := by omega
  rw [bufferEndReset, if_pos beyond]
  rcases Nat.eq_zero_or_pos N with rfl | some
  · -- a buffer of no bytes holds no chunk
    have room := valid.room
    have none : rb.metadata = [] := by
      by_contra ne
      have := (valid.chain ne).le
      omega
    have := (valid.empty none).1
    omega
  · have := Nat.lt_div_mul_add (a := rb.dataBufferEnd) some
    rw [Nat.add_mul]
    omega

/-- An allocation that does not fail, as a change of the buffer. -/
structure Allocated (N : Nat) (rb rb' : RingBuffer α) (chunk : Chunk α) (size : Nat)
    (data : α) : Prop where
  serial : chunk.serial = rb.monotonicIdEnd
  size_eq : chunk.size = size + mdSize
  data_eq : chunk.data = data
  behind : rb.dataBufferEnd ≤ chunk.address
  within : chunk.address % N + chunk.size ≤ N
  room : chunk.address + chunk.size ≤ rb.dataBufferStart + N
  empty : rb.dataBufferEnd = 0 → chunk.address = 0
  eq : rb' = {
    metadata := rb.metadata ++ [chunk]
    monotonicIdEnd := rb.monotonicIdEnd + 1
    dataBufferStart := rb.dataBufferStart
    dataBufferEnd := chunk.address + chunk.size
    memory := fun b =>
      if chunk.address % N ≤ b ∧ b < chunk.address % N + chunk.size
      then some rb.monotonicIdEnd else rb.memory b }

/-- Every allocation is `Allocated`, if the buffer is valid. -/
theorem allocated_of_allocateBuf
    (run : rb.allocateBuf N size data = some (rb', chunk)) :
    Allocated N rb rb' chunk size data := by
  unfold allocateBuf at run
  dsimp only at run
  split at run
  · cases run
  · rename_i room
    cases run
    have pos : 0 < size + mdSize := Nat.succ_pos _
    have fits : size + mdSize ≤ N :=
      not_lt.mp fun big => room (valid.lt_bufferEndReset_add big)
    obtain ⟨behind, within⟩ := rb.bufferEndReset_spec pos fits
    constructor
    case empty =>
      intro zero
      have small : ¬ N < rb.dataBufferEnd % N + (size + mdSize) := by
        rw [zero, Nat.zero_mod]
        omega
      exact (if_neg small).trans zero
    case room => exact not_lt.mp room
    all_goals first | rfl | assumption

end

/-- An allocation keeps the chunks that are there, and their bytes. -/
theorem Allocated.valid (allocated : Allocated N rb rb' chunk size data)
    (valid : Valid N rb) : Valid N rb' := by
  have fits : FitsAt N chunk chunk.address := by
    refine ⟨rfl, ?_, allocated.within⟩
    rw [allocated.size_eq]
    exact Nat.succ_pos _
  have room := allocated.room
  have behind := allocated.behind
  rw [allocated.eq]
  constructor
  case empty => simp
  case chain =>
    intro _
    by_cases none : rb.metadata = []
    · obtain ⟨start, stop⟩ := valid.empty none
      have first := Chain.last fits
      rw [allocated.empty stop] at first ⊢
      simpa only [none, start, nil_append] using first
    · exact (valid.chain none).append behind fits
  case room => exact room
  case intact =>
    intro other mem b low high
    rcases mem_append.mp mem with old | new
    · -- an older chunk is at least a chunk and at most a round before the new one
      obtain ⟨p, start, stop, place⟩ :=
        (valid.chain (ne_nil_of_mem old)).place old
      have apart : ¬ (chunk.address % N ≤ b ∧
          b < chunk.address % N + chunk.size) := by
        intro inside
        refine disjoint_of_near (stop.trans behind) ?_ ?_ inside
        · omega
        · rw [place.address]
          exact ⟨low, high⟩
      exact (if_neg apart).trans (valid.intact other old b low high)
    · cases mem_singleton.mp new
      exact (if_pos ⟨low, high⟩).trans (congrArg some allocated.serial.symm)
  case serial_lt =>
    intro other mem
    rcases mem_append.mp mem with old | new
    · exact Nat.lt_succ_of_lt (valid.serial_lt other old)
    · cases mem_singleton.mp new
      rw [allocated.serial]
      exact Nat.lt_succ_self _

/-- The way from the start to the place of the second chunk. -/
theorem emod_of_place {start next address : Nat} (le : start ≤ next)
    (near : next < start + N)
    (same : next % N = address % N) :
    start + (((address : Int) - start) % N).toNat = next := by
  have congr : ((address : Int) - start) % N =
      ((next : Int) - start) % N := by
    rw [Int.sub_emod, ← Int.natCast_mod address, ← same, Int.natCast_mod, ← Int.sub_emod]
  have small : ((next : Int) - start) % N = (next : Int) - start :=
    Int.emod_eq_of_lt (by omega) (by omega)
  omega

section

variable (valid : Valid N rb)
include valid

theorem Valid.freeOldest : Valid N (rb.freeOldest N) := by
  unfold RingBuffer.freeOldest
  split
  · exact valid
  · constructor <;> simp
  · rename_i oldest next rest some
    have chain := valid.chain (by simp [some])
    rw [some] at chain
    cases chain with
    | @cons _ _ second _ _ fits gap tail =>
    have room := valid.room
    have start : rb.dataBufferStart +
        (((next.address : Int) - rb.dataBufferStart) % N).toNat = second := by
      have := tail.le
      exact emod_of_place (by omega) (by omega) tail.head.address
    have old : ∀ {chunk}, chunk ∈ next :: rest → chunk ∈ rb.metadata := by
      intro chunk mem
      rw [some]
      exact mem_cons_of_mem _ mem
    constructor
    case empty => simp
    case chain =>
      intro _
      rw [start]
      exact tail
    case room =>
      rw [start]
      have le : rb.dataBufferStart ≤ second := by omega
      exact room.trans (Nat.add_le_add_right le _)
    case intact => exact fun chunk mem => valid.intact chunk (old mem)
    case serial_lt => exact fun chunk mem => valid.serial_lt chunk (old mem)

theorem Valid.wrapAround : Valid N (rb.wrapAround N) := by
  unfold RingBuffer.wrapAround
  split
  · rename_i le
    constructor
    case empty =>
      intro none
      obtain ⟨start, stop⟩ := valid.empty none
      exact ⟨by simp [start], by simp [stop]⟩
    case chain => exact fun ne => (valid.chain ne).lower le
    case room =>
      have := valid.room
      dsimp only
      omega
    case intact => exact valid.intact
    case serial_lt => exact valid.serial_lt
  · exact valid

/-- The first bytes of a chunk hold its id and its size, so the chunk is found at its
address. -/
theorem Valid.memory_address (mem : chunk ∈ rb.metadata) :
    rb.memory (chunk.address % N) = some chunk.serial := by
  obtain ⟨p, -, -, fits⟩ := (valid.chain (ne_nil_of_mem mem)).place mem
  exact valid.intact chunk mem _ le_rfl (Nat.lt_add_of_pos_right fits.size_pos)

end

end RingBuffer

end Vllm.Distributed
