import Vllm.Lib.Arrays
import Vllm.Lib.Fallible

/-!
Expert weight rearrangement (`vllm/distributed/eplb/rebalance_execute.py`).

Every rank runs `move_to_buffer`, which copies local experts and posts sends and
receives, then the communicator's `execute`, then `move_from_buffer`. Senders and
receivers work the pairing out on their own, from the same index arrays.

An index array is a list of expert ids, `-1` for an empty slot; an array over the rows
of one rank is a function of the row. The tensors of a slot are one value of type `W`.
Arrays padded with `-1` are lists of the filled part.
-/

namespace Vllm.Eplb

open Vllm.Lib.Arrays Vllm.Lib.Fallible

inductive EplbError where
  /-- `assert old_indices.shape == new_indices.shape`. -/
  | shapeMismatch
  /-- An index array shorter than the ranks' slots. -/
  | indexError
  /-- `send_map[expert]` without an entry. -/
  | keyError (expert : Int)
  /-- `ranks.index(ep_rank)` of a rank that is not in the list. -/
  | valueError (rank : Nat)
  deriving DecidableEq, Repr

/-- An empty slot. -/
abbrev noExpert : Int := -1

def expertAt (indices : List Int) (position : Nat) : Int := indices.getD position noExpert

/-! ### Ranks that have an expert -/

/-- The ranks of the positions that hold one of the experts, by expert, each rank once
in the order of appearance. -/
def ranksByExpert (numLocalExperts : Nat) (indices : List Int) (uniqueExperts : List Int) :
    List (Int × List Nat) :=
  let relevantPositions := (List.range indices.length).filter (expertAt indices · ∈ uniqueExperts)
  (positionsByKey (expertAt indices) relevantPositions).filterMap fun run =>
    run.head?.map fun first =>
      (expertAt indices first, firstAppearances (run.map (· / numLocalExperts)))

/-- Experts that the dictionary has no entry for get the empty list. -/
def withMissing (ranks : List (Int × List Nat)) (uniqueExperts : List Int) :
    List (Int × List Nat) :=
  ranks ++ (uniqueExperts.filter fun expert => (ranks.lookup expert).isNone).map (·, [])

/-- `get_ep_ranks_with_experts_batch`: the ranks that send and the ranks that receive
each of the experts. A rank that has the expert does not receive it. -/
def getEpRanksWithExpertsBatch (expertIds : List Int) (numLocalExperts : Nat)
    (oldIndices newIndices : List Int) : List (Int × List Nat) × List (Int × List Nat) :=
  if expertIds = [] then ([], [])
  else
    let uniqueExperts := (unique expertIds).map Prod.fst
    let ranksToSend := ranksByExpert numLocalExperts oldIndices uniqueExperts
    let ranksToRecv := (ranksByExpert numLocalExperts newIndices uniqueExperts).map fun entry =>
      (entry.1, entry.2.filter (· ∉ (ranksToSend.lookup entry.1).getD []))
    (withMissing ranksToSend uniqueExperts, withMissing ranksToRecv uniqueExperts)

/-- `ranks_map[expert]`. -/
def ranksOf (ranks : List (Int × List Nat)) (expert : Int) : Except EplbError (List Nat) :=
  match ranks.lookup expert with
  | some ranks => .ok ranks
  | none => .error (.keyError expert)

/-- `ranks.index(ep_rank)`. -/
def indexOf (ranks : List Nat) (epRank : Nat) : Except EplbError Nat :=
  if epRank ∈ ranks then .ok (ranks.idxOf epRank) else .error (.valueError epRank)

/-! ### Posted operations -/

/-- `communicator.add_send(tensors, dst, expert_id)`. -/
structure Send (W : Type) where
  dst : Nat
  expert : Int
  tensor : W

/-- `communicator.add_recv(tensors, src, expert_id)` into a row of the buffer. -/
structure Recv where
  src : Nat
  expert : Int
  row : Nat
  deriving DecidableEq, Repr

/-- `TransferMetadata`, with `recv_expert_ids` and `recv_dst_rows` as one list. -/
structure TransferMetadata where
  isUnchanged : Nat → Bool
  isReceivedLocally : Nat → Bool
  recvPrimaryMask : Nat → Bool
  recv : List (Int × Nat)

/-- What `move_to_buffer` leaves on a rank before the exchange. -/
structure Posted (W : Type) where
  buffer : Nat → W
  sends : List (Send W)
  recvs : List Recv
  metadata : TransferMetadata

/-- The receivers that fall to the sender at `senderPos`: a block of them, and one of
the remainder. -/
def recvRanksOf (ranksToSend ranksToRecv : List Nat) (senderPos : Nat) : List Nat :=
  let numDstPerSender := ranksToRecv.length / ranksToSend.length
  let recvBegin := senderPos * numDstPerSender
  let recvRanks := (ranksToRecv.drop recvBegin).take numDstPerSender
  let remainderStart := ranksToSend.length * numDstPerSender
  match ranksToRecv[remainderStart + senderPos]? with
  | some last => recvRanks ++ [last]
  | none => recvRanks

/-- The sender that the receiver at `recverPos` waits for. -/
def senderOf (ranksToSend ranksToRecv : List Nat) (recverPos : Nat) : Except EplbError Nat :=
  let numDstPerSender := ranksToRecv.length / ranksToSend.length
  let remainderStart := ranksToSend.length * numDstPerSender
  let senderPos := if recverPos < remainderStart then recverPos / numDstPerSender
    else recverPos - remainderStart
  match ranksToSend[senderPos]? with
  | some src => .ok src
  | none => .error .indexError

section Rank

variable {W : Type} (numLocalExperts : Nat) (oldIndices newIndices : List Int) (epRank : Nat)

/-- `old_local_expert_ids`, `new_local_expert_ids`. -/
def localExpertIds (indices : List Int) (row : Nat) : Int :=
  expertAt indices (epRank * numLocalExperts + row)

def isUnchanged (row : Nat) : Bool :=
  localExpertIds numLocalExperts epRank oldIndices row =
    localExpertIds numLocalExperts epRank newIndices row

def isReceivedLocally (row : Nat) : Bool :=
  let newLocal := localExpertIds numLocalExperts epRank newIndices row
  isUnchanged numLocalExperts oldIndices newIndices epRank row ||
    (newLocal ≠ noExpert &&
      newLocal ∈ (List.range numLocalExperts).map (localExpertIds numLocalExperts epRank oldIndices))

/-- The distinct experts of the given rows, each with its first row. -/
def firstRows (indices : List Int) (rows : List Nat) : List (Int × Nat) :=
  (unique (rows.map (localExpertIds numLocalExperts epRank indices))).filterMap fun entry =>
    rows[entry.2]?.map (entry.1, ·)

/-- `send_expert_ids` with `send_src_rows`. -/
def sendRows : List (Int × Nat) :=
  firstRows numLocalExperts epRank oldIndices <| (List.range numLocalExperts).filter fun row =>
    localExpertIds numLocalExperts epRank oldIndices row ≠ noExpert

/-- `recv_expert_ids` with `recv_dst_rows`: the primary row of each expert that comes
from another rank. -/
def recvRows : List (Int × Nat) :=
  firstRows numLocalExperts epRank newIndices <| (List.range numLocalExperts).filter fun row =>
    !isReceivedLocally numLocalExperts oldIndices newIndices epRank row &&
      localExpertIds numLocalExperts epRank newIndices row ≠ noExpert

def moveLocally (weights buffer : Nat → W) : Nat → W :=
  let expertToSrc := sendRows numLocalExperts oldIndices epRank
  let destIndices := (List.range numLocalExperts).filter fun row =>
    !isUnchanged numLocalExperts oldIndices newIndices epRank row &&
      isReceivedLocally numLocalExperts oldIndices newIndices epRank row
  destIndices.foldl
    (fun buffer dst =>
      match expertToSrc.lookup (localExpertIds numLocalExperts epRank newIndices dst) with
      | some src => Function.update buffer dst (weights src)
      | none => buffer)
    buffer

def postSends (sendMap recvMap : List (Int × List Nat)) (weights : Nat → W) (entry : Int × Nat) :
    Except EplbError (List (Send W)) := do
  let ranksToSend ← ranksOf sendMap entry.1
  let ranksToRecv ← ranksOf recvMap entry.1
  if ranksToSend = [] ∨ ranksToRecv = [] then return []
  let senderPos ← indexOf ranksToSend epRank
  return (recvRanksOf ranksToSend ranksToRecv senderPos).map fun dst =>
    ⟨dst, entry.1, weights entry.2⟩

def postRecv (sendMap recvMap : List (Int × List Nat)) (entry : Int × Nat) :
    Except EplbError (List Recv) := do
  let ranksToSend ← ranksOf sendMap entry.1
  let ranksToRecv ← ranksOf recvMap entry.1
  if ranksToSend = [] ∨ ranksToRecv = [] then return []
  let recverPos ← indexOf ranksToRecv epRank
  let src ← senderOf ranksToSend ranksToRecv recverPos
  return [⟨src, entry.1, entry.2⟩]

/-- Posting in the order of the expert ids. -/
def postAll {β : Type} (rows : List (Int × Nat))
    (post : List (Int × List Nat) → List (Int × List Nat) → Int × Nat →
      Except EplbError (List β)) : Except EplbError (List β) := do
  let ordered := rows.insertionSort (·.1 ≤ ·.1)
  let (sendMap, recvMap) := getEpRanksWithExpertsBatch (ordered.map Prod.fst) numLocalExperts
    oldIndices newIndices
  let posted ← ordered.mapM (post sendMap recvMap)
  return posted.flatten

/-- `move_to_buffer` up to the call of `execute`. -/
def moveToBuffer (weights buffer : Nat → W) : Except EplbError (Posted W) := do
  if oldIndices.length ≠ newIndices.length then .error .shapeMismatch
  if oldIndices.length < epRank * numLocalExperts + numLocalExperts then .error .indexError
  let recv := recvRows numLocalExperts oldIndices newIndices epRank
  let sends ← postAll numLocalExperts oldIndices newIndices
    (sendRows numLocalExperts oldIndices epRank)
    fun sendMap recvMap => postSends epRank sendMap recvMap weights
  let recvs ← postAll numLocalExperts oldIndices newIndices recv (postRecv epRank)
  return {
    buffer := moveLocally numLocalExperts oldIndices newIndices epRank weights buffer
    sends, recvs
    metadata := {
      isUnchanged := isUnchanged numLocalExperts oldIndices newIndices epRank
      isReceivedLocally := isReceivedLocally numLocalExperts oldIndices newIndices epRank
      recvPrimaryMask := fun row => row ∈ recv.map Prod.snd
      recv } }

def moveFromBuffer (metadata : TransferMetadata) (weights buffer : Nat → W) : Nat → W :=
  let rows := List.range numLocalExperts
  let destIndices := rows.filter fun row =>
    !metadata.isUnchanged row && (metadata.isReceivedLocally row || metadata.recvPrimaryMask row)
  let weights := destIndices.foldl (fun weights dst => Function.update weights dst (buffer dst))
    weights
  let localExperts := localExpertIds numLocalExperts epRank newIndices
  -- Rows that share their expert with a primary row.
  let dupDstRows := rows.filter fun row =>
    !metadata.isUnchanged row && !metadata.isReceivedLocally row &&
      (!metadata.recvPrimaryMask row && localExperts row ≠ noExpert)
  let primSorted := metadata.recv.insertionSort (·.1 ≤ ·.1)
  let matched := dupDstRows.filterMap fun dst =>
    match primSorted[searchsorted (primSorted.map Prod.fst) (localExperts dst)]? with
    | some (expert, src) => if expert = localExperts dst then some (dst, src) else none
    | none => none
  matched.foldl (fun weights copy => Function.update weights copy.1 (weights copy.2)) weights

end Rank

/-! ### The exchange -/

section Exchange

variable {W : Type} (numRanks : Nat) (posted : Nat → Posted W)

/-- The sends from one rank to another, in the order in which they were posted. -/
def channelSends (src dst : Nat) : List (Send W) := (posted src).sends.filter (·.dst = dst)

def channelRecvs (src dst : Nat) : List Recv := (posted dst).recvs.filter (·.src = src)

/-- Between two ranks operations match in the order in which they were posted. -/
def deliver (dst : Nat) : Nat → W :=
  (List.range numRanks).foldl
    (fun buffer src => ((channelRecvs posted src dst).zip (channelSends posted src dst)).foldl
      (fun buffer pair => Function.update buffer pair.1.row pair.2.tensor) buffer)
    (posted dst).buffer

/-- `execute` on all ranks. An operation without its counterpart never completes. -/
def execute : Option (Nat → Nat → W) :=
  if ∀ src < numRanks, ∀ dst < numRanks,
      (channelSends posted src dst).length = (channelRecvs posted src dst).length then
    some (deliver numRanks posted)
  else none

def allSends : List (Nat × Nat × Int) :=
  (List.range numRanks).flatMap fun src =>
    (posted src).sends.map fun send => (src, send.dst, send.expert)

def allRecvs : List (Nat × Nat × Int) :=
  (List.range numRanks).flatMap fun dst =>
    (posted dst).recvs.map fun recv => (recv.src, dst, recv.expert)

end Exchange

end Vllm.Eplb
