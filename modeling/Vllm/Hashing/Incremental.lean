import Vllm.Hashing.Hasher
import Vllm.Lib.Steps

/-!
Incremental block hashing over the life of a request.

`Request.append_output_token_ids` (request.py) and
`Scheduler._update_request_as_session` (scheduler.py) both end in
`update_block_hashes`. The results compare the list that grows this way with
`oneShotHashes`, the list a fresh request with the same data would get.

The two differ in two situations, which `StepOk` excludes. Once a hash is
stored, the scan for multimodal items restarts at the last item, so an earlier
item that reaches into a new block is missed. And a session update truncates
the tokens without looking at the hashes of the blocks it cuts off.
-/

namespace Vllm.Hashing

open Vllm.Lib.Steps List

variable {H : Type}

/-! ### The operations -/

/-- `Request.append_output_token_ids`. -/
def appendOutputTokenIds (B : BlockHasher H) (r : Request H) (tokenIds : List TokenId) :
    Request H :=
  B.updateBlockHashes
    { r with
      outputTokenIds := r.outputTokenIds ++ tokenIds
      allTokenIds := r.allTokenIds ++ tokenIds }

/-- The placeholder moved behind the tokens that are already there. -/
def shiftPosition (base : Nat) (m : MMFeature) : MMFeature := { m with offset := m.offset + base }

/-- The tokens that a session keeps: those that are computed. -/
def keptTokens (session : Request H) : List TokenId :=
  session.allTokenIds.take session.numComputedTokens.toNat

/-- The next chunk of a session, before its blocks are hashed: the computed
tokens become the prompt, and the chunk's tokens and items follow them. -/
def extendSession (session : Request H) (update : StreamingUpdate) : Request H :=
  { session with
    outputTokenIds := []
    mmFeatures := session.mmFeatures ++
      update.mmFeatures.map (shiftPosition (keptTokens session).length)
    allTokenIds := keptTokens session ++ update.promptTokenIds
    promptTokenIds := session.promptTokenIds ++
      (keptTokens session).drop session.numPromptTokens ++ update.promptTokenIds }

/-- `Scheduler._update_request_as_session`. The count of sessions that wait for
input is the scheduler's. -/
def updateRequestAsSession (B : BlockHasher H) (session : Request H) (update : StreamingUpdate) :
    Request H :=
  let hashed := B.updateBlockHashes (extendSession session update)
  { hashed with
    numPromptTokens := hashed.promptTokenIds.length
    arrivalTime := update.arrivalTime
    samplingParams := update.samplingParams
    status := .waiting }

/-- What happens to a request's tokens: output is appended, the scheduler moves
`num_computed_tokens`, the session gets its next chunk. -/
inductive TokenOp where
  | append (tokenIds : List TokenId)
  | computed (numComputedTokens : Nat)
  | session (update : StreamingUpdate)

def TokenOp.apply (B : BlockHasher H) (r : Request H) : TokenOp → Request H
  | .append tokenIds => appendOutputTokenIds B r tokenIds
  | .computed n => { r with numComputedTokens := n }
  | .session update => updateRequestAsSession B r update

/-- `Request.__init__` ends in `update_block_hashes`. -/
def freshRequest (B : BlockHasher H) (r : Request H) : Request H :=
  B.updateBlockHashes { r with blockHashes := [] }

/-! ### The condition on a step -/

/-- Offset order without overlap. -/
def Disjoint (mm : List MMFeature) : Prop := mm.Pairwise fun a b => a.stop ≤ b.offset

/-- No item but the last reaches into the tokens `[start, stop)`. -/
def NewBlocksClear (mm : List MMFeature) (start stop : Nat) : Prop :=
  ∀ m ∈ mm.dropLast, m.stop ≤ start ∨ stop ≤ m.offset

/-- Hashing a request that has `hashed` hashes, once it has `numTokens` tokens
and the items `mm`: if a hash is stored and a block gets full, the blocks that
get full are clear of all items but the last. -/
def HashOk (B : BlockHasher H) (hashed numTokens : Nat) (mm : List MMFeature) : Prop :=
  0 < hashed → hashed < numTokens / B.blockSize →
    NewBlocksClear mm (hashed * B.blockSize) (numTokens / B.blockSize * B.blockSize)

/-- The condition on an operation, in the state before it. -/
def StepOk (B : BlockHasher H) (r : Request H) : TokenOp → Prop
  | .append tokenIds =>
    HashOk B r.blockHashes.length (r.numTokens + tokenIds.length) r.mmFeatures
  | .computed _ => True
  | .session update =>
    let next := extendSession r update
    r.blockHashes.length * B.blockSize ≤ (keptTokens r).length ∧ Disjoint next.mmFeatures ∧
      HashOk B r.blockHashes.length next.numTokens next.mmFeatures

instance (mm : List MMFeature) : Decidable (Disjoint mm) :=
  inferInstanceAs (Decidable (mm.Pairwise _))

instance (mm : List MMFeature) (start stop : Nat) : Decidable (NewBlocksClear mm start stop) :=
  inferInstanceAs (Decidable (∀ m ∈ mm.dropLast, _))

instance (B : BlockHasher H) (hashed numTokens : Nat) (mm : List MMFeature) :
    Decidable (HashOk B hashed numTokens mm) :=
  inferInstanceAs (Decidable (_ → _ → _))

instance (B : BlockHasher H) (r : Request H) : (op : TokenOp) → Decidable (StepOk B r op)
  | .append _ => inferInstanceAs (Decidable (HashOk ..))
  | .computed _ => inferInstanceAs (Decidable True)
  | .session _ => inferInstanceAs (Decidable (_ ∧ _ ∧ _))

/-! ### Keys of blocks that items do not reach -/

variable {s e : Nat} {mm later : List MMFeature}

theorem genMmKeysLoop_of_clear (clear : ∀ m ∈ mm, m.stop ≤ s ∨ e ≤ m.offset) (idx : Nat) :
    (genMmKeysLoop s e mm idx).1 = [] := by
  induction mm generalizing idx with
  | nil => rfl
  | cons m rest ih =>
    have ih := ih (fun m mem => clear m (by simp [mem])) (idx + 1)
    rw [genMmKeysLoop]
    rcases clear m (by simp) with ended | later
    · split
      · exact ih
      · rfl
    · rw [if_neg (by omega)]

theorem genMmExtraHashKeys_of_clear (clear : ∀ m ∈ mm, m.stop ≤ s ∨ e ≤ m.offset) (idx : Int) :
    (genMmExtraHashKeys mm s e idx).1 = [] := by
  cases isLast : mm.getLast? with
  | none => simp only [genMmExtraHashKeys, isLast]
  | some last =>
    simp only [genMmExtraHashKeys, isLast]
    split
    · rfl
    · exact genMmKeysLoop_of_clear (fun m mem => clear m (mem_of_mem_drop mem)) _

/-- Items behind the block do not change its keys. -/
theorem genMmKeysLoop_append_right (mm : List MMFeature) (behind : ∀ m ∈ later, e ≤ m.offset)
    (idx : Nat) :
    (genMmKeysLoop s e (mm ++ later) idx).1 = (genMmKeysLoop s e mm idx).1 := by
  induction mm generalizing idx with
  | nil =>
    cases later with
    | nil => rfl
    | cons m rest =>
      have notReached : ¬ m.offset < e := Nat.not_lt.mpr (behind m (by simp))
      simp [genMmKeysLoop, notReached]
  | cons m rest ih =>
    rw [cons_append, genMmKeysLoop, genMmKeysLoop]
    split
    · split
      · exact ih _
      · split
        · simp only [ih]
        · rfl
    · rfl

/-- Without overlaps an item that has ended is the last one for the whole scan. -/
theorem genMmExtraHashKeys_of_disjoint (disjoint : Disjoint mm) :
    (genMmExtraHashKeys mm s e 0).1 = (genMmKeysLoop s e mm 0).1 := by
  cases isLast : mm.getLast? with
  | none =>
    rw [getLast?_eq_none_iff] at isLast
    subst isLast
    rfl
  | some last =>
    simp only [genMmExtraHashKeys, isLast]
    split
    · rename_i ended
      obtain ⟨front, rfl⟩ := getLast?_eq_some_iff.mp isLast
      refine (genMmKeysLoop_of_clear (fun m mem => .inl ?_) 0).symm
      rcases mem_append.mp mem with mem | mem
      · have := (pairwise_append.mp disjoint).2.2 m mem last (by simp)
        have stopEq : last.stop = last.offset + last.length := rfl
        omega
      · rwa [mem_singleton.mp mem]
    · rfl

theorem genMmExtraHashKeys_append_right (disjoint : Disjoint (mm ++ later))
    (behind : ∀ m ∈ later, e ≤ m.offset) :
    (genMmExtraHashKeys (mm ++ later) s e 0).1 = (genMmExtraHashKeys mm s e 0).1 := by
  rw [genMmExtraHashKeys_of_disjoint disjoint,
    genMmExtraHashKeys_of_disjoint (pairwise_append.mp disjoint).1]
  exact genMmKeysLoop_append_right mm behind 0

/-! ### One call of the hasher -/

namespace BlockHasher

variable (B : BlockHasher H)

/-- The hash chain over the first `blocks` blocks of a request. -/
def chainAt (r : Request H) (blocks : Nat) : H :=
  ((range blocks).map fun k => B.blockInput r (k * B.blockSize)).foldl B.link B.noneHash

theorem getElem?_oneShotHashes_chainAt (r : Request H) {i : Nat} (inRange : i < B.numFullBlocks r) :
    (B.oneShotHashes r)[i]? = some (B.chainAt r (i + 1)) :=
  B.getElem?_oneShotHashes r inRange

/-- The one-shot list depends on the block inputs only. -/
theorem oneShotHashes_congr {r r' : Request H} (tokens : r.numTokens = r'.numTokens)
    (inputs : ∀ start, B.blockInput r start = B.blockInput r' start) :
    B.oneShotHashes r = B.oneShotHashes r' := by
  have blocks : B.numFullBlocks r = B.numFullBlocks r' := by rw [numFullBlocks, tokens, numFullBlocks]
  refine ext_getElem? fun j => ?_
  by_cases inBlocks : j < B.numFullBlocks r
  · simp only [B.getElem?_oneShotHashes r inBlocks,
      B.getElem?_oneShotHashes r' (blocks ▸ inBlocks), inputs]
  · rw [getElem?_eq_none (by rw [length_oneShotHashes]; omega),
      getElem?_eq_none (by rw [length_oneShotHashes]; omega)]

/-- Blocks that no item reaches have the same inputs from any scan position. -/
theorem blockInputs_of_clear (r : Request H) (n : Nat) {start : Nat} (idx : Int)
    (clear : ∀ m ∈ r.mmFeatures, m.stop ≤ start ∨ start + n * B.blockSize ≤ m.offset) :
    B.blockInputs r n start idx =
      (range n).map fun k => B.blockInput r (start + k * B.blockSize) := by
  refine B.blockInputs_of_reads r (P := fun n start _ =>
    ∀ m ∈ r.mmFeatures, m.stop ≤ start ∨ start + n * B.blockSize ≤ m.offset) ?_ clear
  intro n start idx clear
  rw [Nat.succ_mul] at clear
  have noKeys := genMmExtraHashKeys_of_clear (s := start) (e := start + B.blockSize)
    fun m mem => (clear m mem).imp_right fun h => by omega
  refine ⟨by rw [noKeys, noKeys], fun m mem => ?_⟩
  exact (clear m mem).imp (fun h => by omega) (fun h => by omega)

/-- Restarting at the last item is harmless when the new blocks are clear of the
others. -/
theorem blockInputs_of_newBlocksClear (r : Request H) (disjoint : Disjoint r.mmFeatures)
    (n start : Nat) (clear : NewBlocksClear r.mmFeatures start (start + n * B.blockSize)) :
    B.blockInputs r n start (-1) =
      (range n).map fun k => B.blockInput r (start + k * B.blockSize) := by
  by_cases ended : ∀ m ∈ r.mmFeatures.dropLast, m.stop ≤ start
  · refine B.blockInputs_of_passed r n fun m mem => ended m ?_
    have position : currMmIdx r.mmFeatures (-1) = r.mmFeatures.length - 1 := by
      rw [currMmIdx, if_pos (by decide)]
      omega
    rwa [position, ← dropLast_eq_take] at mem
  · -- An earlier item starts behind the new blocks, so the last one does too.
    refine B.blockInputs_of_clear r n _ fun m mem => ?_
    have mSplit : m ∈ r.mmFeatures.dropLast ∨ r.mmFeatures.getLast? = some m := by
      cases isLast : r.mmFeatures.getLast? with
      | none => simp_all
      | some last =>
        obtain ⟨front, split⟩ := getLast?_eq_some_iff.mp isLast
        rw [split] at mem ⊢
        simpa [eq_comm] using mem
    rcases mSplit with mem | isLast
    · exact clear m mem
    · obtain ⟨x, xMem, running⟩ : ∃ x ∈ r.mmFeatures.dropLast, ¬ x.stop ≤ start := by
        simpa using ended
      have xLater := (clear x xMem).resolve_left running
      obtain ⟨front, split⟩ := getLast?_eq_some_iff.mp isLast
      have order : x.stop ≤ m.offset := by
        rw [split] at xMem disjoint
        exact (pairwise_append.mp disjoint).2.2 x (by simpa using xMem) m (by simp)
      simp only [MMFeature.stop] at order
      exact .inr (by omega)

/-- A request whose stored hashes are those of its first blocks gets the one-shot
list from the next call of the hasher. -/
theorem updateBlockHashes_eq (r : Request H) (disjoint : Disjoint r.mmFeatures)
    (inRange : r.blockHashes.length ≤ B.numFullBlocks r)
    (stored : ∀ j < r.blockHashes.length, r.blockHashes[j]? = some (B.chainAt r (j + 1)))
    (ok : HashOk B r.blockHashes.length r.numTokens r.mmFeatures) :
    (B.updateBlockHashes r).blockHashes = B.oneShotHashes r := by
  generalize lenEq : r.blockHashes.length = k at *
  have remaining : (r.numTokens - k * B.blockSize) / B.blockSize = B.numFullBlocks r - k := by
    rw [Nat.mul_comm, Nat.sub_mul_div, numFullBlocks]
  have previous : r.blockHashes.getLast?.getD B.noneHash = B.chainAt r k := by
    cases k with
    | zero => simp [eq_nil_of_length_eq_zero lenEq, chainAt]
    | succ k => rw [getLast?_eq_getElem?, lenEq, Nat.add_sub_cancel, stored k (by omega)]; rfl
  have inputs : B.blockInputs r (B.numFullBlocks r - k) (k * B.blockSize)
      (if 0 < k * B.blockSize then -1 else 0) =
      (range (B.numFullBlocks r - k)).map
        fun j => B.blockInput r (k * B.blockSize + j * B.blockSize) := by
    by_cases grows : k < B.numFullBlocks r
    · split
      · rename_i started
        have stop : k * B.blockSize + (B.numFullBlocks r - k) * B.blockSize =
            B.numFullBlocks r * B.blockSize := by
          rw [← Nat.add_mul, Nat.add_sub_cancel' inRange]
        refine B.blockInputs_of_newBlocksClear r disjoint _ _ ?_
        rw [stop]
        exact ok (Nat.pos_of_mul_pos_right started) grows
      · exact B.blockInputs_of_passed r _ (passed_zero _ _)
    · rw [Nat.sub_eq_zero_of_le (by omega)]
      rfl
  have newHashes : ∀ j < B.numFullBlocks r - k,
      (B.requestBlockHasher r)[j]? = some (B.chainAt r (k + (j + 1))) := by
    intro j lt
    simp only [requestBlockHasher, lenEq, remaining]
    rw [getElem?_hasherLoop _ _ _ _ _ _ lt, inputs, previous, ← map_take, take_range,
      Nat.min_eq_left (by omega)]
    simp only [chainAt, range_add, map_append, foldl_append, map_map,
      Function.comp_def, Nat.add_mul]
  refine ext_getElem? fun j => ?_
  change (r.blockHashes ++ B.requestBlockHasher r)[j]? = _
  by_cases inBlocks : j < B.numFullBlocks r
  · rw [B.getElem?_oneShotHashes_chainAt r inBlocks]
    by_cases old : j < k
    · rw [getElem?_append_left (by omega), stored j old]
    · rw [getElem?_append_right (by omega), newHashes _ (by omega)]
      congr 2
      omega
  · have newLength : (B.requestBlockHasher r).length = B.numFullBlocks r - k := by
      simp only [requestBlockHasher, length_hasherLoop, lenEq, remaining]
    rw [getElem?_eq_none (by rw [length_append]; omega),
      getElem?_eq_none (by rw [length_oneShotHashes]; omega)]

/-- The next call of the hasher keeps the list a one-shot list, when the blocks
that have a hash kept their inputs. -/
theorem updateBlockHashes_of_kept {r r' : Request H} (hashes : r.blockHashes = B.oneShotHashes r)
    (sameHashes : r'.blockHashes = r.blockHashes)
    (inRange : r.blockHashes.length ≤ B.numFullBlocks r')
    (kept : ∀ k < r.blockHashes.length,
      B.blockInput r' (k * B.blockSize) = B.blockInput r (k * B.blockSize))
    (disjoint : Disjoint r'.mmFeatures)
    (ok : HashOk B r.blockHashes.length r'.numTokens r'.mmFeatures) :
    (B.updateBlockHashes r').blockHashes = B.oneShotHashes r' := by
  refine B.updateBlockHashes_eq r' disjoint (by rwa [sameHashes]) (fun j lt => ?_)
    (by rwa [sameHashes])
  rw [sameHashes] at lt ⊢
  have inBlocks : j < B.numFullBlocks r := by rwa [hashes, length_oneShotHashes] at lt
  rw [hashes, B.getElem?_oneShotHashes_chainAt r inBlocks, chainAt]
  congr 2
  exact map_congr_left fun k mem => (kept k (by have := mem_range.mp mem; omega)).symm

end BlockHasher

/-! ### Runs -/

/-- A slice of the kept tokens does not see what is cut off or appended. -/
theorem slice_take_append {start size n : Nat} {tokens : List TokenId}
    (inside : start + size ≤ min n tokens.length) (more : List TokenId) :
    ((tokens.take n ++ more).drop start).take size = (tokens.drop start).take size := by
  rw [drop_append_of_le_length (by rw [length_take]; omega),
    take_append_of_le_length (by rw [length_drop, length_take]; omega),
    drop_take, take_take, Nat.min_eq_left (by omega)]

/-- The state invariant: the hashes are those of a fresh request. -/
structure HashesCurrent (B : BlockHasher H) (r : Request H) : Prop where
  hashes : r.blockHashes = B.oneShotHashes r
  disjoint : Disjoint r.mmFeatures

namespace HashesCurrent

variable {B : BlockHasher H} {r : Request H}

theorem block_le {k : Nat} (lt : k < r.blockHashes.length) :
    k * B.blockSize + B.blockSize ≤ r.blockHashes.length * B.blockSize := by
  rw [← Nat.succ_mul]
  exact Nat.mul_le_mul_right _ lt

section

variable (current : HashesCurrent B r)
include current

theorem append (tokenIds : List TokenId) (ok : StepOk B r (.append tokenIds)) :
    HashesCurrent B (appendOutputTokenIds B r tokenIds) := by
  have hashedLe : r.blockHashes.length * B.blockSize ≤ r.numTokens := by
    rw [current.hashes, B.length_oneShotHashes]
    exact Nat.div_mul_le_self _ _
  refine ⟨B.updateBlockHashes_of_kept current.hashes rfl ?_ (fun k lt => ?_) current.disjoint ?_,
    current.disjoint⟩
  · refine (Nat.le_div_iff_mul_le B.blockSize_pos).mpr ?_
    simp only [Request.numTokens, length_append] at hashedLe ⊢
    omega
  · have inside : k * B.blockSize + B.blockSize ≤ min r.allTokenIds.length r.allTokenIds.length := by
      have := block_le (B := B) lt
      rw [Nat.min_self]
      exact Nat.le_trans this hashedLe
    have slice := slice_take_append inside tokenIds
    rw [take_length] at slice
    exact Prod.ext slice rfl
  · simpa only [StepOk, Request.numTokens, length_append] using ok

theorem session (update : StreamingUpdate) (ok : StepOk B r (.session update)) :
    HashesCurrent B (updateRequestAsSession B r update) := by
  obtain ⟨notCut, disjoint, hashOk⟩ := ok
  have keptInput : ∀ k < r.blockHashes.length, B.blockInput (extendSession r update)
      (k * B.blockSize) = B.blockInput r (k * B.blockSize) := by
    intro k lt
    have inside := block_le (B := B) lt
    have keptLength : (keptTokens r).length = min r.numComputedTokens.toNat r.allTokenIds.length :=
      length_take
    refine Prod.ext (slice_take_append (by omega) _) ?_
    have behind : ∀ m ∈ update.mmFeatures.map (shiftPosition (keptTokens r).length),
        k * B.blockSize + B.blockSize ≤ m.offset := by
      intro m mem
      obtain ⟨item, -, rfl⟩ := mem_map.mp mem
      simp only [shiftPosition]
      omega
    simp only [BlockHasher.blockInput, generateBlockHashExtraKeys, extendSession,
      genMmExtraHashKeys_append_right disjoint behind]
    rfl
  refine ⟨?_, disjoint⟩
  calc (updateRequestAsSession B r update).blockHashes
      = (B.updateBlockHashes (extendSession r update)).blockHashes := rfl
    _ = B.oneShotHashes (extendSession r update) := by
        refine B.updateBlockHashes_of_kept current.hashes rfl ?_ keptInput disjoint hashOk
        refine (Nat.le_div_iff_mul_le B.blockSize_pos).mpr ?_
        simp only [Request.numTokens, extendSession, length_append]
        omega
    _ = B.oneShotHashes (updateRequestAsSession B r update) := B.oneShotHashes_congr rfl fun _ => rfl

theorem step {op : TokenOp} (ok : StepOk B r op) : HashesCurrent B (op.apply B r) := by
  cases op with
  | append tokenIds => exact current.append tokenIds ok
  | computed n =>
    exact ⟨current.hashes.trans (B.oneShotHashes_congr rfl fun _ => rfl), current.disjoint⟩
  | session update => exact current.session update ok

end

theorem fresh (B : BlockHasher H) (disjoint : Disjoint r.mmFeatures) :
    HashesCurrent B (freshRequest B r) :=
  ⟨B.oneShotHashes_congr rfl fun _ => rfl, disjoint⟩

end HashesCurrent

/-- The operations on a request's tokens, and those that meet the condition. -/
abbrev TokenStep (B : BlockHasher H) : Request H → TokenOp → Request H → Prop :=
  calls (TokenOp.apply B)

/-- In every run whose operations meet the condition, the stored hashes are
those of a fresh request with the same data. -/
theorem blockHashes_eq_oneShotHashes {B : BlockHasher H} {r₀ r : Request H} {ops : List TokenOp}
    (disjoint : Disjoint r₀.mmFeatures)
    (run : Run (guarded (StepOk B) (TokenStep B)) (freshRequest B r₀) ops r) :
    r.blockHashes = B.oneShotHashes r := by
  refine (run.invariant (HashesCurrent B) ?_ (.fresh B disjoint)).hashes
  rintro r op r' current ⟨ok, rfl⟩
  exact current.step ok

/-- A prompt that ends in two adjacent images: the first fills up the block that
the second one opens. -/
def twoImages : Request SymbolicHash :=
  { requestId := 0
    allTokenIds := [1, 2, 3, 4, 5, 6]
    promptTokenIds := [1, 2, 3, 4, 5, 6]
    numPromptTokens := 6
    mmFeatures := [⟨"A", 4, 1, by decide⟩, ⟨"B", 5, 1, by decide⟩] }

/-- Appending two tokens hashes the second block without the first image. -/
theorem twoImages_append_not_current :
    let B := symbolicHasher 4 (by decide)
    Disjoint twoImages.mmFeatures ∧
      ∃ r, Run (TokenStep B) (freshRequest B twoImages) [.append [7, 8]] r ∧
        r.blockHashes ≠ B.oneShotHashes r :=
  ⟨by decide, _, .tail (.refl _) rfl, by decide⟩

/-- A session whose update cuts into a hashed block: the stale hash stays. -/
example :
    let B := symbolicHasher 2 (by decide)
    let r := TokenOp.apply B (freshRequest B { requestId := 0, allTokenIds := [1, 2, 3, 4] })
      (.session ⟨[], [5, 6], 4, 0, {}⟩)
    r.allTokenIds = [5, 6] ∧ r.blockHashes ≠ B.oneShotHashes r := by
  decide

/-- With blocks of two tokens the images fill a block, and appending meets the
condition; so does the session update that follows. -/
theorem twoImages_session_current :
    let B := symbolicHasher 2 (by decide)
    let ops := [.append [7], .computed 6, .session ⟨[⟨"C", 1, 2, by decide⟩], [8, 9, 10], 4, 0, {}⟩]
    Along (StepOk B) (TokenOp.apply B) (freshRequest B twoImages) ops ∧
      (ops.foldl (TokenOp.apply B) (freshRequest B twoImages)).blockHashes =
        B.oneShotHashes (ops.foldl (TokenOp.apply B) (freshRequest B twoImages)) := by
  intro B ops
  have along : Along (StepOk B) (TokenOp.apply B) (freshRequest B twoImages) ops := by decide
  exact ⟨along, blockHashes_eq_oneShotHashes (by decide) (Run.of_along along)⟩

end Vllm.Hashing
