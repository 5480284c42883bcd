import Vllm.Lib.Ceil

/-!
KV cache specs (`vllm/v1/kv_cache_interface.py`).

A spec says how a layer uses its cache: which attention it has and how many
tokens a block holds. The classes become the constructors of `SpecKind`, each
with the attributes that the managers read; subclasses that share a manager
(MLA and sliding-window MLA among them) are the same kind.
-/

namespace Vllm.KVCache

open Vllm.Lib.Ceil

inductive MambaCacheMode where
  | none
  | all
  | align
  deriving DecidableEq, Repr

/-- The spec classes, by manager class. -/
inductive SpecKind where
  | fullAttention
  | slidingWindow (slidingWindow : Nat)
  | chunkedLocalAttention (attentionChunkSize : Nat)
  | mamba (mambaCacheMode : MambaCacheMode) (numSpeculativeBlocks : Nat)
  | crossAttention
  deriving DecidableEq, Repr

/-- A statement about the speculative blocks of an align-mode spec. -/
instance decidableForallAlign : (kind : SpecKind) → (P : Nat → Prop) → [DecidablePred P] →
    Decidable (∀ k, kind = .mamba .align k → P k)
  | .mamba .align k, P, _ => decidable_of_iff (P k)
      ⟨fun holds _ same => by cases same; exact holds, fun all => all k rfl⟩
  | .mamba .none _, _, _ | .mamba .all _, _, _ | .fullAttention, _, _ | .slidingWindow _, _, _
  | .chunkedLocalAttention _, _, _ | .crossAttention, _, _ => .isTrue nofun

/-- A statement about the mode of a Mamba spec. -/
instance decidableForallMamba : (kind : SpecKind) → (P : MambaCacheMode → Nat → Prop) →
    [∀ mode k, Decidable (P mode k)] → Decidable (∀ mode k, kind = .mamba mode k → P mode k)
  | .mamba mode k, P, _ => decidable_of_iff (P mode k)
      ⟨fun holds _ _ same => by cases same; exact holds, fun all => all mode k rfl⟩
  | .fullAttention, _, _ | .slidingWindow _, _, _ | .chunkedLocalAttention _, _, _
  | .crossAttention, _, _ => .isTrue nofun

/-- `KVCacheSpec`. Layers with equal specs share a lookup; `layerShape` stands
for the attributes (heads, sizes, dtype) that only that comparison reads. -/
structure KVCacheSpec where
  kind : SpecKind
  blockSize : Nat
  pageSizeBytes : Nat := 1
  layerShape : Nat := 0
  blockSize_pos : 0 < blockSize := by decide
  deriving DecidableEq, Repr

namespace KVCacheSpec

variable (spec : KVCacheSpec)

/-- `isinstance(spec, FullAttentionSpec)`. -/
def isFullAttention : Bool := spec.kind = .fullAttention

/-- `isinstance(manager, CrossAttentionManager)`. -/
def isCrossAttention : Bool := spec.kind = .crossAttention

/-- `get_num_skipped_tokens`: tokens before the attention window of the next
token. The `-1` that the source gives for Mamba before the first token acts as
zero wherever it is used. -/
def getNumSkippedTokens (numComputedTokens : Nat) : Nat :=
  match spec.kind with
  | .fullAttention | .crossAttention => 0
  | .slidingWindow w => numComputedTokens + 1 - w
  | .chunkedLocalAttention c => numComputedTokens / c * c
  | .mamba _ _ => numComputedTokens - 1

/-- `max_admission_blocks_per_request`, which only the two recycling specs
define. -/
def maxAdmissionBlocksPerRequest (maxNumBatchedTokens maxModelLen : Nat) : Option Nat :=
  match spec.kind with
  | .slidingWindow w =>
    some (cdiv (min (w - 1 + maxNumBatchedTokens) maxModelLen) spec.blockSize + 1)
  | .chunkedLocalAttention c =>
    some (cdiv (min (c + maxNumBatchedTokens) maxModelLen) spec.blockSize)
  | _ => none

theorem getNumSkippedTokens_le (n : Nat) (window : spec.kind ≠ .slidingWindow 0) :
    spec.getNumSkippedTokens n ≤ n := by
  rcases h : spec.kind with _ | w | c | ⟨mode, k⟩ | _ <;> simp only [getNumSkippedTokens, h]
  · omega
  · have : w ≠ 0 := fun zero => window (by rw [h, zero])
    omega
  · exact Nat.div_mul_le_self n c
  · omega
  · omega

theorem getNumSkippedTokens_mono {n n' : Nat} (le : n ≤ n') :
    spec.getNumSkippedTokens n ≤ spec.getNumSkippedTokens n' := by
  rcases h : spec.kind with _ | w | c | ⟨mode, k⟩ | _ <;> simp only [getNumSkippedTokens, h]
  · exact Nat.le_refl 0
  · omega
  · exact Nat.mul_le_mul_right c (Nat.div_le_div_right le)
  · omega
  · exact Nat.le_refl 0

end KVCacheSpec

end Vllm.KVCache
