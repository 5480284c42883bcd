import Mathlib

/-!
Requests as the engine core keeps them (`vllm/v1/request.py`).

`Request H` is the record shared by the block hasher and the KV cache manager; `H`
is the type of block hashes. The record holds the attributes that a modelled
function reads or writes.

`num_computed_tokens` is an integer: Python subtracts from it, and nothing in the
source stops it from going below zero.
-/

namespace Vllm

/-- Token ids are plain integers; `-1` is the draft placeholder. -/
abbrev TokenId := Int

/-- Request ids are only compared for equality. -/
abbrev RequestId := Nat

/-- `RequestStatus` (request.py): the order of the constructors is the order of
the `IntEnum`, so that "after `PREEMPTED`" means finished. -/
inductive RequestStatus where
  | waiting
  | waitingForStructuredOutputGrammar
  | waitingForRemoteKvs
  | waitingForStreamingReq
  | running
  | preempted
  | finishedStopped
  | finishedLengthCapped
  | finishedAborted
  | finishedIgnored
  | finishedError
  | finishedRepetition
  deriving DecidableEq, Repr

/-- `RequestStatus.is_finished`: `status > RequestStatus.PREEMPTED`. -/
def RequestStatus.isFinished (status : RequestStatus) : Bool :=
  RequestStatus.preempted.ctorIdx < status.ctorIdx

/-- A multimodal item of the prompt: `MultiModalFeatureSpec.identifier` with its
`PlaceholderRange`. The processor emits no empty placeholder. -/
@[ext]
structure MMFeature where
  identifier : String
  offset : Nat
  length : Nat
  length_pos : 0 < length
  deriving Repr

instance : DecidableEq MMFeature := fun _ _ => decidable_of_iff _ MMFeature.ext_iff.symm

def MMFeature.stop (m : MMFeature) : Nat := m.offset + m.length

/-- The LoRA adapter of a request: `lora_name` keys the prefix cache, and events have
both. -/
structure LoRARequest where
  loraName : String
  loraIntId : Nat
  deriving DecidableEq, Repr

/-- Sampling parameters; a session takes over those of its next chunk. -/
structure SamplingParams where
  minTokens : Nat := 0
  eosTokenId : Option TokenId := none
  stopTokenIds : List TokenId := []
  deriving DecidableEq, Repr

/-- `StreamingUpdate`: the next input chunk of a streaming session. -/
structure StreamingUpdate where
  mmFeatures : List MMFeature
  promptTokenIds : List TokenId
  maxTokens : Nat
  arrivalTime : Int
  samplingParams : SamplingParams
  deriving DecidableEq, Repr

/-- `Request` (request.py), over the type `H` of block hashes. -/
structure Request (H : Type) where
  requestId : RequestId
  arrivalTime : Int := 0
  status : RequestStatus := .waiting
  samplingParams : SamplingParams := {}
  loraRequest : Option LoRARequest := none
  cacheSalt : Option String := none
  mmFeatures : List MMFeature := []
  /-- The digest of `prompt_embeds[start:end]`, when the prompt has embeddings. -/
  promptEmbeds : Option (Nat → Nat → String) := none
  promptTokenIds : List TokenId := []
  outputTokenIds : List TokenId := []
  allTokenIds : List TokenId := []
  numPromptTokens : Nat := 0
  numComputedTokens : Int := 0
  blockHashes : List H := []
  skipReadingPrefixCache : Bool := false

namespace Request

variable {H : Type}

def numTokens (r : Request H) : Nat := r.allTokenIds.length

end Request

end Vllm
