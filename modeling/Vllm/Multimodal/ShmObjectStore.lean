import Vllm.Distributed.ShmRingBuffer
import Vllm.Lib.Steps

/-!
The shared-memory multi-modal processor cache: one writer, `ShmObjectStoreSenderCache`, and
`n` readers, `ShmObjectStoreReceiverCache`, around a `SingleWriterShmObjectStorage`
(`vllm/multimodal/cache.py`, `vllm/distributed/device_communicators/shm_object_storage.py`).

The writer counts in `writer_flag` how often it touched or gave out an object, the readers
count in the object how often they touched or got it. The writer takes an object as unused
when the readers' count has come to `writer_flag * n_readers`. A reader's touch of an object
that fewer than `n_readers` gets have reached is not counted, as the writer does not count
the touch of a key that it is about to put. For a new key that a request references twice,
the writer counts two, and the readers may count four.
-/

namespace Vllm.Multimodal.Shm

open Vllm.Distributed Vllm.Lib.Steps

/-! ### The storage -/

/-- What the storage has about an object: `key_index` and `id_index`, `writer_flag`, and the
count that the readers keep in the first bytes of the object. -/
structure Object (κ : Type) where
  key : κ
  writerFlag : Nat
  readerCount : Nat

abbrev Storage (κ : Type) : Type := RingBuffer (Object κ)

/-- What a request holds for a feature: the address and the id of its object. -/
structure Ref where
  serial : Nat
  address : Nat
  deriving DecidableEq

/-- `ID_MAX`, and the bound of the four signed bytes of a count. -/
def idMax : Nat := 2 ^ 31

def Ref.monotonicId (ref : Ref) : Nat := ref.serial % idMax

structure Config where
  nReaders : Nat
  dataBufferSize : Nat
  maxObjectSize : Nat

section Storage

variable {κ : Type} [DecidableEq κ]

def refOf (chunk : Chunk (Object κ)) : Ref := ⟨chunk.serial, chunk.address⟩

def lookup (storage : Storage κ) (key : κ) : Option (Chunk (Object κ)) :=
  storage.metadata.find? fun chunk => chunk.data.key = key

def isCached (storage : Storage κ) (key : κ) : Bool := (lookup storage key).isSome

def modify (storage : Storage κ) (serial : Nat) (f : Object κ → Object κ) : Storage κ :=
  storage.mapData fun chunk => if chunk.serial = serial then f chunk.data else chunk.data

def incrementWriterFlag (storage : Storage κ) (serial : Nat) : Storage κ :=
  modify storage serial fun object => { object with writerFlag := object.writerFlag + 1 }

def incrementReaderFlag (storage : Storage κ) (serial : Nat) : Storage κ :=
  modify storage serial fun object => { object with readerCount := object.readerCount + 1 }

/-- `default_is_free_check`. -/
def isFree (cfg : Config) (object : Object κ) : Bool :=
  object.writerFlag * cfg.nReaders ≤ object.readerCount

/-- `touch` of the writer. -/
def writerTouch (storage : Storage κ) (key : κ) : Storage κ :=
  match lookup storage key with
  | none => storage
  | some chunk => incrementWriterFlag storage chunk.serial

/-- `access_buf`: the object whose bytes are at the address, if it was not freed. -/
def accessBuf (cfg : Config) (storage : Storage κ) (address : Nat) : Option (Chunk (Object κ)) :=
  (storage.memory (address % cfg.dataBufferSize)).bind fun serial =>
    storage.metadata.find? fun chunk => chunk.serial = serial

/-- `touch` of a reader; `none` when the count does not fit in its bytes. -/
def readerTouch (cfg : Config) (storage : Storage κ) (ref : Ref) : Option (Storage κ) :=
  (accessBuf cfg storage ref.address).bind fun chunk =>
    if chunk.data.readerCount < cfg.nReaders then some storage
    else if chunk.data.readerCount + 1 < idMax then
      some (incrementReaderFlag storage chunk.serial)
    else none

/-- `get` of a reader, with the object that it returns; `none` when it raises. -/
def get (cfg : Config) (storage : Storage κ) (ref : Ref) : Option (Storage κ × Chunk (Object κ)) :=
  (accessBuf cfg storage ref.address).bind fun chunk =>
    if chunk.serial % idMax ≠ ref.monotonicId then none
    else if chunk.data.readerCount + 1 < idMax then
      some (incrementReaderFlag storage chunk.serial, chunk)
    else none

/-- `put` with one try to allocate: the new object has one writer flag and no reader. -/
def allocate (cfg : Config) (storage : Storage κ) (key : κ) (size : Nat) :
    Option (Storage κ × Chunk (Object κ)) :=
  storage.allocateBuf cfg.dataBufferSize size ⟨key, 1, 0⟩

end Storage

/-! ### The writer and the readers -/

/-- Where the writer is in a request: it touches all keys (`done` are touched), then updates
them, with the references it made so far, and may be in the middle of `free_unused` for one
of them. -/
inductive Writer (κ : Type)
  | idle
  | touching (done rest : List κ)
  | updating (rest : List κ) (refs : List Ref)
  | freeing (key : κ) (size freedBytes : Nat) (rest : List κ) (refs : List Ref)

/-- Where a reader is in a request: it touches all references, then gets them. -/
inductive Phase
  | touching (done rest : List Ref)
  | getting (rest : List Ref)

/-- A reader has its requests in the order in which they were handed out. -/
structure Reader where
  inbox : List (List Ref)
  phase : Phase

structure State (cfg : Config) (κ : Type) where
  storage : Storage κ
  writer : Writer κ
  readers : Fin cfg.nReaders → Reader

/-- Nothing cached, nothing asked. -/
def State.init (cfg : Config) (κ : Type) : State cfg κ :=
  ⟨.new, .idle, fun _ => ⟨[], .getting []⟩⟩

/-- A step of the writer or of a reader. `update` is given the size of the object in case it
is to be put; a request is handed out in the order of the positions of its features, and
what has no address is not looked at by the readers; a request may also fail for a reason
outside the cache. -/
inductive Action (cfg : Config) (κ : Type)
  | begin (keys : List κ)
  | touch
  | update (size : Nat)
  | free
  | handOut (sent : List Ref)
  | abandon
  | start (reader : Fin cfg.nReaders)
  | readerTouch (reader : Fin cfg.nReaders)
  | readerGet (reader : Fin cfg.nReaders)

section Steps

variable {cfg : Config} {κ : Type} [DecidableEq κ]

/-- `get_and_update_item` of the writer. -/
def getAndUpdateItem (cfg : Config) (storage : Storage κ) (key : κ) (size : Nat)
    (rest : List κ) (refs : List Ref) : Storage κ × Writer κ :=
  match lookup storage key with
  | some chunk => (incrementWriterFlag storage chunk.serial, .updating rest (refs ++ [refOf chunk]))
  | none =>
    if cfg.maxObjectSize < size then (storage, .updating rest refs)
    else
      match allocate cfg storage key size with
      | some (storage, chunk) => (storage, .updating rest (refs ++ [refOf chunk]))
      | none => (storage, .freeing key size 0 rest refs)

/-- `put` after `free_unused`. -/
def allocateAgain (cfg : Config) (storage : Storage κ) (key : κ) (size : Nat) (rest : List κ)
    (refs : List Ref) : Storage κ × Writer κ :=
  match allocate cfg storage key size with
  | some (storage, chunk) => (storage, .updating rest (refs ++ [refOf chunk]))
  | none => (storage, .updating rest refs)

/-- One round of `free_unused`; when the rounds are over, the positions wrap around. -/
def freeUnused (cfg : Config) (storage : Storage κ) (key : κ) (size freedBytes : Nat)
    (rest : List κ) (refs : List Ref) : Storage κ × Writer κ :=
  let finished := allocateAgain cfg (storage.wrapAround cfg.dataBufferSize) key size rest refs
  match storage.metadata with
  | [] => finished
  | oldest :: _ =>
    if freedBytes < 2 * cfg.maxObjectSize ∧ isFree cfg oldest.data then
      (storage.freeOldest cfg.dataBufferSize,
        .freeing key size (freedBytes + oldest.size) rest refs)
    else finished

/-- A step of a reader; `none` if it is not there, or raises. -/
def readerExec (cfg : Config) (storage : Storage κ) (reader : Reader) :
    Action cfg κ → Option (Storage κ × Reader)
  | .start _ =>
    match reader.inbox, reader.phase with
    | request :: inbox, .getting [] => some (storage, ⟨inbox, .touching [] request⟩)
    | _, _ => none
  | .readerTouch _ =>
    match reader.phase with
    | .touching done (ref :: rest) =>
      (readerTouch cfg storage ref).map fun storage =>
        (storage, { reader with phase := .touching (done ++ [ref]) rest })
    | .touching done [] => some (storage, { reader with phase := .getting done })
    | .getting _ => none
  | .readerGet _ =>
    match reader.phase with
    | .getting (ref :: rest) =>
      (get cfg storage ref).map fun got =>
        (got.1, { reader with phase := .getting rest })
    | _ => none
  | _ => none

def stepReader (s : State cfg κ) (r : Fin cfg.nReaders) (a : Action cfg κ) : Option (State cfg κ) :=
  (readerExec cfg s.storage (s.readers r) a).map fun next =>
    { s with storage := next.1, readers := Function.update s.readers r next.2 }

def exec (s : State cfg κ) : Action cfg κ → Option (State cfg κ)
  | .begin keys =>
    match s.writer with
    | .idle => some { s with writer := .touching [] keys }
    | _ => none
  | .touch =>
    match s.writer with
    | .touching done (key :: rest) =>
      some { s with
        storage := writerTouch s.storage key, writer := .touching (done ++ [key]) rest }
    | .touching done [] => some { s with writer := .updating done [] }
    | _ => none
  | .update size =>
    match s.writer with
    | .updating (key :: rest) refs =>
      let next := getAndUpdateItem cfg s.storage key size rest refs
      some { s with storage := next.1, writer := next.2 }
    | _ => none
  | .free =>
    match s.writer with
    | .freeing key size freedBytes rest refs =>
      let next := freeUnused cfg s.storage key size freedBytes rest refs
      some { s with storage := next.1, writer := next.2 }
    | _ => none
  | .handOut sent =>
    match s.writer with
    | .updating [] refs =>
      if sent.isPerm refs then
        some { s with
          writer := .idle
          readers := fun r =>
            { s.readers r with inbox := (s.readers r).inbox ++ [sent] } }
      else none
    | _ => none
  | .abandon => some { s with writer := .idle }
  | .start r => stepReader s r (.start r)
  | .readerTouch r => stepReader s r (.readerTouch r)
  | .readerGet r => stepReader s r (.readerGet r)

end Steps

/-! ### What a reader still has to do -/

/-- The references that a reader has not yet got. -/
def Phase.gets : Phase → List Ref
  | .touching done rest => done ++ rest
  | .getting rest => rest

/-- The references that a reader has not yet touched. -/
def Phase.touches : Phase → List Ref
  | .touching _ rest => rest
  | .getting _ => []

def Reader.gets (reader : Reader) : List Ref := reader.phase.gets ++ reader.inbox.flatten

def Reader.touches (reader : Reader) : List Ref := reader.phase.touches ++ reader.inbox.flatten

/-- Every object that some reader has yet to get is where the writer put it, none of its bytes
is overwritten, and a reader that is about to get it gets it. -/
structure State.Protected {cfg : Config} {κ : Type} (s : State cfg κ) : Prop where
  live : ∀ r, ∀ ref ∈ (s.readers r).gets, ∃ chunk ∈ s.storage.metadata, refOf chunk = ref ∧
    ∀ b, chunk.address % cfg.dataBufferSize ≤ b →
      b < chunk.address % cfg.dataBufferSize + chunk.size →
      s.storage.memory b = some chunk.serial
  got : ∀ r ref rest, (s.readers r).phase = .getting (ref :: rest) →
    ∃ storage chunk, get cfg s.storage ref = some (storage, chunk) ∧ refOf chunk = ref

section Condition

variable {cfg : Config} {κ : Type} [DecidableEq κ]

/-- The readers can count as far as the writer will expect them to. -/
def CountFits (cfg : Config) (storage : Storage κ) (key : κ) : Prop :=
  match lookup storage key with
  | some chunk => (chunk.data.writerFlag + 1) * cfg.nReaders < idMax
  | none => cfg.nReaders < idMax

/-- A request references a key that is not cached at most once, and the counts, the sizes and
the ids fit in their four bytes. -/
def State.Allowed (s : State cfg κ) : Action cfg κ → Prop
  | .begin keys => ∀ key ∈ keys, isCached s.storage key ∨ keys.count key ≤ 1
  | .touch =>
    match s.writer with
    | .touching _ (key :: _) => CountFits cfg s.storage key
    | _ => True
  | .update size =>
    match s.writer with
    | .updating (key :: _) _ => CountFits cfg s.storage key ∧
        (isCached s.storage key ∨
          size + RingBuffer.mdSize < idMax ∧ s.storage.metadata.length < idMax)
    | _ => True
  | .free => cfg.nReaders < idMax
  | _ => True

end Condition

end Vllm.Multimodal.Shm
