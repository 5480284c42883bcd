import Vllm.Lib.OrderedDict
import Vllm.Lib.Steps

/-!
The persistent batch of a worker, `InputBatch` (`vllm/v1/worker/gpu_input_batch.py`), with its
block tables (`vllm/v1/worker/block_table.py`) and the removals that `BatchUpdateBuilder` keeps
(`vllm/v1/sample/logits_processor/state.py`).

The source has an array, a dictionary or a tensor for each piece of data, indexed by the row;
here a `Row` has all that is at one index. A row of a tensor is a view: in `swapStates` the
second assignment to `allowed_token_ids_mask_cpu_tensor` reads what the first one wrote. Until
that tensor is allocated, its rows are taken to be what they are allocated as.
-/

namespace Vllm.Worker

open Vllm.Lib Vllm.Lib.Steps
open Function (update)

structure Config where
  maxNumReqs : Nat
  vocabSize : Nat
  isPoolingModel : Bool
  numGroups : Nat
  blocksPerKvBlock : Fin numGroups → Nat

/-! ### Requests -/

inductive SamplingType
  | greedy
  | random
  | randomSeed
  deriving DecidableEq

/-- The parameters that rows are made of. An empty list is also for `None`. -/
structure SamplingParams (φ : Type) where
  samplingType : SamplingType
  temperature : φ
  topP : φ
  topK : Int
  frequencyPenalty : φ
  presencePenalty : φ
  repetitionPenalty : φ
  allowedTokenIds : List Nat
  badWordsTokenIds : List (List Nat)

/-- `sampling_params` or `pooling_params`. -/
inductive Params (φ : Type)
  | sampling (params : SamplingParams φ)
  | pooling

/-- `CachedRequestState`. The prompt is given by token ids or by embeddings, or by both with one
length. -/
structure CachedRequestState (cfg : Config) (ρ ε γ φ : Type) where
  reqId : ρ
  promptTokenIds : Option (List Nat)
  promptIsTokenIds : Option (List Bool)
  promptEmbeds : Option (List ε)
  outputTokenIds : List Nat
  numComputedTokens : Nat
  blockIds : Fin cfg.numGroups → List Nat
  params : Params φ
  generator : Option γ
  loraRequest : Option Nat
  prompt_given : promptTokenIds.isSome ∨ promptEmbeds.isSome
  prompt_length : ∀ ids ∈ promptTokenIds, ∀ embeds ∈ promptEmbeds, embeds.length = ids.length

namespace CachedRequestState

variable {cfg : Config} {ρ ε γ φ : Type} (r : CachedRequestState cfg ρ ε γ φ)

/-- `length_from_prompt_token_ids_or_embeds`. -/
def numPromptTokens : Nat :=
  match r.promptTokenIds with
  | some ids => ids.length
  | none => (r.promptEmbeds.map List.length).getD 0

def numTokens : Nat := r.numPromptTokens + r.outputTokenIds.length

def promptIsToken (j : Nat) : Bool :=
  match r.promptTokenIds with
  | some _ => (r.promptIsTokenIds.map fun mask => mask.getD j false).getD true
  | none => false

/-- `allowed_token_ids`, of a request that samples. -/
def allowedTokenIds : List Nat :=
  match r.params with
  | .sampling params => params.allowedTokenIds
  | .pooling => []

/-- `bad_words_token_ids`, of a request that samples. -/
def badWordsTokenIds : List (List Nat) :=
  match r.params with
  | .sampling params => params.badWordsTokenIds
  | .pooling => []

/-- `generator`, of a request that samples. -/
def samplingGenerator : Option γ :=
  match r.params with
  | .sampling _ => r.generator
  | .pooling => none

end CachedRequestState

/-! ### Rows -/

/-- A row of a `BlockTable`. -/
structure BlockRow where
  numBlocksPerRow : Nat
  blockTable : Nat → Nat

/-- The sampling parameters of a row, each in an array of its own in the source. -/
structure SamplingRow (φ : Type) where
  temperature : φ
  topP : φ
  topK : Int
  frequencyPenalty : φ
  presencePenalty : φ
  repetitionPenalty : φ

structure Row (cfg : Config) (ε γ φ : Type) where
  tokenIds : Nat → Nat
  isTokenIds : Nat → Bool
  promptEmbeds : Option (List ε)
  numTokensNoSpec : Nat
  numPromptTokens : Nat
  numComputedTokens : Nat
  blocks : Fin cfg.numGroups → BlockRow
  sampling : SamplingRow φ
  numAcceptedTokens : Nat
  loraMapping : Nat
  generator : Option γ
  badWordsTokenIds : Option (List (List Nat))
  allowedTokenIdsMask : Nat → Bool

/-- `row[start : start + len(values)] = values`. -/
def writeSlice {α : Type} (row : Nat → α) (start : Nat) (values : List α) : Nat → α :=
  fun j => if start ≤ j then values.getD (j - start) (row j) else row j

/-- `tgt[:n] = src[:n]`. -/
def copySlice {α : Type} (n : Nat) (src tgt : Nat → α) : Nat → α :=
  fun j => if j < n then src j else tgt j

def mapToKernelBlocks (blocksPerKvBlock : Nat) (ids : List Nat) : List Nat :=
  if blocksPerKvBlock = 1 then ids
  else ids.flatMap fun id => (List.range blocksPerKvBlock).map (id * blocksPerKvBlock + ·)

namespace BlockRow

/-- `BlockTable.add_row`. -/
def addRow (row : BlockRow) (ids : List Nat) : BlockRow :=
  { numBlocksPerRow := ids.length, blockTable := writeSlice row.blockTable 0 ids }

/-- `BlockTable.clear_row`. -/
def clearRow (row : BlockRow) : BlockRow :=
  { numBlocksPerRow := 0, blockTable := copySlice row.numBlocksPerRow (fun _ => 0) row.blockTable }

/-- `BlockTable.move_row`, for the target. -/
def moveRow (src tgt : BlockRow) : BlockRow :=
  { numBlocksPerRow := src.numBlocksPerRow
    blockTable := copySlice src.numBlocksPerRow src.blockTable tgt.blockTable }

end BlockRow

section Rows

variable {cfg : Config} {ρ ε γ φ : Type}

/-- The sampling parameters of a row that `add_request` writes. -/
def samplingRow [Zero φ] (cfg : Config) (params : SamplingParams φ) : SamplingRow φ where
  temperature := if params.samplingType = .greedy then 0 else params.temperature
  topP := params.topP
  topK := if 0 < params.topK ∧ params.topK < cfg.vocabSize then params.topK else cfg.vocabSize
  frequencyPenalty := params.frequencyPenalty
  presencePenalty := params.presencePenalty
  repetitionPenalty := params.repetitionPenalty

namespace Row

/-- What `add_request` writes to the row. What the request does not have is left as it is,
apart from the LoRA id. -/
def addRequest [Zero φ] (row : Row cfg ε γ φ) (r : CachedRequestState cfg ρ ε γ φ) :
    Row cfg ε γ φ where
  tokenIds :=
    let row := match r.promptTokenIds with
      | some ids => writeSlice row.tokenIds 0 ids
      | none => row.tokenIds
    writeSlice row r.numPromptTokens r.outputTokenIds
  isTokenIds := copySlice r.numPromptTokens r.promptIsToken
    (writeSlice row.isTokenIds r.numPromptTokens (r.outputTokenIds.map fun _ => true))
  promptEmbeds := r.promptEmbeds.or row.promptEmbeds
  numTokensNoSpec := r.numTokens
  numPromptTokens := r.numPromptTokens
  numComputedTokens := r.numComputedTokens
  blocks := fun g =>
    (row.blocks g).addRow (mapToKernelBlocks (cfg.blocksPerKvBlock g) (r.blockIds g))
  sampling :=
    match r.params with
    | .sampling params => samplingRow cfg params
    | .pooling => row.sampling
  numAcceptedTokens := 1
  loraMapping := r.loraRequest.getD 0
  generator := r.samplingGenerator.or row.generator
  badWordsTokenIds := if r.badWordsTokenIds = [] then row.badWordsTokenIds
    else some r.badWordsTokenIds
  allowedTokenIdsMask := if r.allowedTokenIds = [] then row.allowedTokenIdsMask
    else fun token => !r.allowedTokenIds.contains token

/-- What `remove_request` does to the row. -/
def removeRequest (row : Row cfg ε γ φ) : Row cfg ε γ φ :=
  let row := { row with blocks := fun g => (row.blocks g).clearRow, loraMapping := 0 }
  if cfg.isPoolingModel then row
  else { row with
    generator := none, badWordsTokenIds := none, allowedTokenIdsMask := fun _ => false }

/-- The row that `condense` fills from another one, of which `numTokens` tokens are active. -/
def moveTo (src : Row cfg ε γ φ) (numTokens : Nat) (tgt : Row cfg ε γ φ) : Row cfg ε γ φ :=
  let tgt := { tgt with
    tokenIds := copySlice numTokens src.tokenIds tgt.tokenIds
    isTokenIds := copySlice numTokens src.isTokenIds tgt.isTokenIds
    promptEmbeds := src.promptEmbeds.or tgt.promptEmbeds
    numTokensNoSpec := src.numTokensNoSpec
    numPromptTokens := src.numPromptTokens
    numComputedTokens := src.numComputedTokens
    blocks := fun g => (src.blocks g).moveRow (tgt.blocks g)
    loraMapping := src.loraMapping }
  if cfg.isPoolingModel then tgt
  else { tgt with
    sampling := src.sampling
    numAcceptedTokens := src.numAcceptedTokens
    generator := src.generator.or tgt.generator
    allowedTokenIdsMask := src.allowedTokenIdsMask
    badWordsTokenIds := src.badWordsTokenIds.or tgt.badWordsTokenIds }

/-- The row that `condense` has moved away: what is in dictionaries is popped. -/
def moveAway (src : Row cfg ε γ φ) : Row cfg ε γ φ :=
  let src := { src with promptEmbeds := none }
  if cfg.isPoolingModel then src
  else { src with generator := none, badWordsTokenIds := none }

/-- The row at one index after `swap_states`, from the rows at this and the other index.
`mask` is what the mask's row at the other index holds when it is read. -/
def swapWith (row other : Row cfg ε γ φ) (numTokens : Nat) (mask : Nat → Bool) : Row cfg ε γ φ :=
  let row := { row with
    tokenIds := copySlice numTokens other.tokenIds row.tokenIds
    isTokenIds := copySlice numTokens other.isTokenIds row.isTokenIds
    promptEmbeds := other.promptEmbeds
    numTokensNoSpec := other.numTokensNoSpec
    numPromptTokens := other.numPromptTokens
    numComputedTokens := other.numComputedTokens
    blocks := other.blocks
    loraMapping := other.loraMapping }
  if cfg.isPoolingModel then row
  else { row with
    sampling := other.sampling
    numAcceptedTokens := other.numAcceptedTokens
    generator := other.generator
    badWordsTokenIds := other.badWordsTokenIds
    allowedTokenIdsMask := mask }

end Row

end Rows

/-! ### The batch -/

/-- `InputBatch`. `removed` are the indices that `BatchUpdateBuilder` has as removed; once they
are sorted they stand in ascending order, so the lowest one is popped from the front. -/
structure InputBatch (cfg : Config) (ρ ε γ φ : Type) where
  reqIds : List (Option ρ)
  reqIdToIndex : Dict ρ Nat
  specTokenIds : List (List Nat)
  removed : List Nat
  isRemovedSorted : Bool
  rows : Nat → Row cfg ε γ φ

inductive Error
  /-- `Cannot register new removed request after self.removed has been read.` -/
  | removedWasRead
  /-- `assert new_req_index < self.max_num_reqs` -/
  | tooManyRequests
  /-- `assert req_id is not None`, or an index that is not in the list -/
  | noRequest

namespace InputBatch

variable {cfg : Config} {ρ ε γ φ : Type}

/-- A batch without requests. The arrays that hold numbers are not all initialised. -/
def new (cfg : Config) (row : Row cfg ε γ φ) : InputBatch cfg ρ ε γ φ where
  reqIds := []
  reqIdToIndex := .empty
  specTokenIds := List.replicate cfg.maxNumReqs []
  removed := []
  isRemovedSorted := false
  rows := fun _ => { row with
    promptEmbeds := none, generator := none, badWordsTokenIds := none
    allowedTokenIdsMask := fun _ => false }

variable (s : InputBatch cfg ρ ε γ φ)

def numReqs : Nat := s.reqIdToIndex.entries.length

def ensureRemovedSorted : InputBatch cfg ρ ε γ φ :=
  if s.isRemovedSorted then s
  else { s with removed := s.removed.insertionSort (· ≤ ·), isRemovedSorted := true }

def popRemoved : Option Nat × InputBatch cfg ρ ε γ φ :=
  match s.removed with
  | [] => (none, s)
  | _ =>
    let s := s.ensureRemovedSorted
    (s.removed.head?, { s with removed := s.removed.tail })

def getActiveTokenCount (i : Nat) : Nat :=
  (s.rows i).numTokensNoSpec + (s.specTokenIds.getD i []).length

section Operations

variable [DecidableEq ρ] [Zero φ]

def addRequest (r : CachedRequestState cfg ρ ε γ φ) : Except Error (InputBatch cfg ρ ε γ φ) :=
  let (popped, s) := s.popRemoved
  let reqIndex := popped.getD s.numReqs
  if cfg.maxNumReqs ≤ reqIndex then .error .tooManyRequests
  else if s.reqIds.length < reqIndex then .error .noRequest
  else
    let atEnd := reqIndex = s.reqIds.length
    .ok { s with
      reqIds := if atEnd then s.reqIds ++ [some r.reqId] else s.reqIds.set reqIndex (some r.reqId)
      specTokenIds := if atEnd then s.specTokenIds ++ [[]] else s.specTokenIds.set reqIndex []
      reqIdToIndex := s.reqIdToIndex.set r.reqId reqIndex
      rows := update s.rows reqIndex ((s.rows reqIndex).addRequest r) }


def removeRequest (reqId : ρ) : Except Error (InputBatch cfg ρ ε γ φ) :=
  match s.reqIdToIndex.get? reqId with
  | none => .ok s
  | some reqIndex =>
    if s.isRemovedSorted then .error .removedWasRead
    else .ok { s with
      reqIdToIndex := s.reqIdToIndex.erase reqId
      removed := s.removed ++ [reqIndex]
      reqIds := s.reqIds.set reqIndex none
      specTokenIds := s.specTokenIds.set reqIndex []
      rows := update s.rows reqIndex (s.rows reqIndex).removeRequest }

/-- `update_req_spec_token_ids` for a request with these draft tokens; a request that is not in
the batch is a `KeyError`. -/
def updateReqSpecTokenIds (reqId : ρ) (specTokenIds : List Nat) :
    Except Error (InputBatch cfg ρ ε γ φ) :=
  match s.reqIdToIndex.get? reqId with
  | none => .error .noRequest
  | some reqIndex =>
    let row := s.rows reqIndex
    .ok { s with
      specTokenIds := s.specTokenIds.set reqIndex specTokenIds
      rows := update s.rows reqIndex { row with
        tokenIds := writeSlice row.tokenIds row.numTokensNoSpec specTokenIds
        isTokenIds :=
          writeSlice row.isTokenIds row.numTokensNoSpec (specTokenIds.map fun _ => true) } }

/-- `swap_states`. The mask's row at `i2` is read before anything is written to it, its row at
`i1` after `i1` was overwritten. -/
def swapStates (i1 i2 : Nat) : Except Error (InputBatch cfg ρ ε γ φ) :=
  match s.reqIds[i1]?, s.reqIds[i2]? with
  | some (some id1), some (some id2) =>
    let numTokens := max (s.getActiveTokenCount i1) (s.getActiveTokenCount i2)
    let row1 := s.rows i1
    let row2 := s.rows i2
    let new1 := row1.swapWith row2 numTokens row2.allowedTokenIdsMask
    let new2 := row2.swapWith row1 numTokens new1.allowedTokenIdsMask
    let index1 := s.reqIdToIndex.get? id1
    let index2 := s.reqIdToIndex.get? id2
    .ok { s with
      reqIds := (s.reqIds.set i1 (some id2)).set i2 (some id1)
      specTokenIds := (s.specTokenIds.set i1 (s.specTokenIds.getD i2 [])).set i2
        (s.specTokenIds.getD i1 [])
      reqIdToIndex := (s.reqIdToIndex.set id1 (index2.getD 0)).set id2 (index1.getD 0)
      rows := update (update s.rows i1 new1) i2 new2 }
  | _, _ => .error .noRequest

/-- The move of a request down to an empty row, in the loop of `condense`. -/
def moveDown (emptyIndex lastReqIndex : Nat) (reqId : ρ) : InputBatch cfg ρ ε γ φ :=
  let src := s.rows lastReqIndex
  { s with
    reqIds := (s.reqIds.set emptyIndex (some reqId)).set lastReqIndex none
    reqIdToIndex := s.reqIdToIndex.set reqId emptyIndex
    specTokenIds := (s.specTokenIds.set emptyIndex (s.specTokenIds.getD lastReqIndex [])).set
      lastReqIndex []
    rows := update
      (update s.rows emptyIndex
        (src.moveTo (s.getActiveTokenCount lastReqIndex) (s.rows emptyIndex)))
      lastReqIndex src.moveAway }

/-- `while last_req_index in empty_req_indices: last_req_index -= 1`. -/
def skipEmpty (emptyReqIndices : List Nat) : Nat → Nat
  | 0 => 0
  | last + 1 => if last + 1 ∈ emptyReqIndices then skipEmpty emptyReqIndices last else last + 1

/-- The loop of `condense`, over the empty indices from the lowest one up. -/
def condenseLoop : List Nat → Nat → InputBatch cfg ρ ε γ φ → Except Error (InputBatch cfg ρ ε γ φ)
  | [], _, s => .ok { s with removed := [] }
  | emptyIndex :: more, lastReqIndex, s =>
    let last := skipEmpty (emptyIndex :: more) lastReqIndex
    if last ≤ emptyIndex then .ok { s with removed := emptyIndex :: more }
    else
      match s.reqIds[last]? with
      | some (some reqId) => condenseLoop more (last - 1) (s.moveDown emptyIndex last reqId)
      | _ => .error .noRequest

def condense : Except Error (InputBatch cfg ρ ε γ φ) :=
  let numReqs := s.numReqs
  let s := s.ensureRemovedSorted
  if s.removed = [] then .ok s
  else if numReqs = 0 then .ok { s with reqIds := [], specTokenIds := [] }
  else
    (condenseLoop s.removed (numReqs + s.removed.length - 1) s).map fun s =>
      { s with
        reqIds := s.reqIds.take numReqs
        specTokenIds := s.specTokenIds.take numReqs }

/-- `refresh_metadata`, as far as it resets the removals. -/
def refreshMetadata : InputBatch cfg ρ ε γ φ :=
  { s with removed := [], isRemovedSorted := false }

end Operations

end InputBatch

/-! ### Steps -/

/-- What is done to the batch before it is condensed. -/
inductive Change (cfg : Config) (ρ ε γ φ : Type)
  | remove (reqId : ρ)
  | add (r : CachedRequestState cfg ρ ε γ φ)
  | updateSpec (reqId : ρ) (specTokenIds : List Nat)

/-- A step: removals and additions, `condense`, swaps of rows, and `refresh_metadata`. -/
structure Step (cfg : Config) (ρ ε γ φ : Type) where
  changes : List (Change cfg ρ ε γ φ)
  swaps : List (Nat × Nat)

section Exec

variable {cfg : Config} {ρ ε γ φ : Type} [DecidableEq ρ] [Zero φ]

def execChange (s : InputBatch cfg ρ ε γ φ) :
    Change cfg ρ ε γ φ → Except Error (InputBatch cfg ρ ε γ φ)
  | .remove reqId => s.removeRequest reqId
  | .add r => s.addRequest r
  | .updateSpec reqId specTokenIds => s.updateReqSpecTokenIds reqId specTokenIds

def execSwap (s : InputBatch cfg ρ ε γ φ) (swap : Nat × Nat) :
    Except Error (InputBatch cfg ρ ε γ φ) :=
  s.swapStates swap.1 swap.2

def exec (s : InputBatch cfg ρ ε γ φ) (step : Step cfg ρ ε γ φ) :
    Except Error (InputBatch cfg ρ ε γ φ) := do
  let s ← step.changes.foldlM execChange s
  let s ← s.condense
  let s ← step.swaps.foldlM execSwap s
  return s.refreshMetadata

end Exec

end Vllm.Worker
