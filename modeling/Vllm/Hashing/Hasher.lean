import Vllm.Request
import Vllm.Lib.InjectiveChain

/-!
Block hashing (`vllm/v1/core/kv_cache_utils.py`).

`requestBlockHasher` is the closure returned by `get_request_block_hasher`: it
hashes the full blocks of a request that have no hash yet. The hash of a block
covers its parent hash, its token ids and its extra keys (LoRA name, multimodal
items, cache salt, prompt embeddings), flattened into one untagged tuple.

The caching hash function is a parameter of the model (`BlockHasher.hashFn`);
`SymbolicHash` is the free instance, on which two hashes are equal only if
their inputs are.
-/

namespace Vllm.Hashing

open Vllm.Lib.InjectiveChain List

/-- One item of the flattened `extra_keys` tuple. LoRA names and cache salts are
both plain strings there, which is why one constructor stands for the two. -/
inductive ExtraKey where
  | str (value : String)
  | mm (identifier : String) (offset : Int)
  | embeds (digest : String)
  deriving DecidableEq, Repr

/-- The argument of the caching hash function:
`(parent_block_hash, curr_block_token_ids_tuple, extra_keys)`. -/
abbrev HashInput (H : Type) := H × List TokenId × Option (List ExtraKey)

/-- What `get_request_block_hasher` closes over, with the `NONE_HASH` seed. -/
structure BlockHasher (H : Type) where
  blockSize : Nat
  blockSize_pos : 0 < blockSize
  hashFn : HashInput H → H
  noneHash : H

/-- The free hash: a digest is its own input. -/
inductive SymbolicHash where
  | none
  | node (parent : SymbolicHash) (tokens : List TokenId) (extraKeys : Option (List ExtraKey))
  deriving DecidableEq, Repr

def symbolicHasher (blockSize : Nat) (pos : 0 < blockSize) : BlockHasher SymbolicHash where
  blockSize := blockSize
  blockSize_pos := pos
  hashFn := fun input => .node input.1 input.2.1 input.2.2
  noneHash := .none

theorem symbolicHasher_injective (blockSize : Nat) (pos : 0 < blockSize) :
    Function.Injective (symbolicHasher blockSize pos).hashFn := by
  rintro ⟨p, t, k⟩ ⟨p', t', k'⟩ same
  obtain ⟨rfl, rfl, rfl⟩ := same
  rfl

/-! ### Extra keys -/

/-- The `while` loop of `_gen_mm_extra_hash_keys`, over the items from
`curr_mm_idx` on. It stops at the first item that the block does not reach, and
also at the first item that reaches past the end of the block. -/
def genMmKeysLoop (startTokenIdx endTokenIdx : Nat) : List MMFeature → Nat → List ExtraKey × Nat
  | [], currMmIdx => ([], currMmIdx)
  | m :: rest, currMmIdx =>
    if m.offset < endTokenIdx then
      if m.stop ≤ startTokenIdx then
        -- This block has passed the current item.
        genMmKeysLoop startTokenIdx endTokenIdx rest (currMmIdx + 1)
      else
        let key := ExtraKey.mm m.identifier ((m.offset : Int) - startTokenIdx)
        if m.stop ≤ endTokenIdx then
          let tail := genMmKeysLoop startTokenIdx endTokenIdx rest (currMmIdx + 1)
          (key :: tail.1, tail.2)
        else ([key], currMmIdx)
    else ([], currMmIdx)

/-- The list position that `start_mm_idx` stands for. A negative index
counts from the end of the list. -/
def currMmIdx (mmFeatures : List MMFeature) (startMmIdx : Int) : Nat :=
  if startMmIdx < 0 then (mmFeatures.length + startMmIdx).toNat else startMmIdx.toNat

/-- `_gen_mm_extra_hash_keys`. The index is handed back unchanged when the block
lies after the last item. -/
def genMmExtraHashKeys (mmFeatures : List MMFeature) (startTokenIdx endTokenIdx : Nat)
    (startMmIdx : Int) : List ExtraKey × Int :=
  match mmFeatures.getLast? with
  | none => ([], startMmIdx)
  | some last =>
    if last.stop ≤ startTokenIdx then ([], startMmIdx)
    else
      let curr := currMmIdx mmFeatures startMmIdx
      let out := genMmKeysLoop startTokenIdx endTokenIdx (mmFeatures.drop curr) curr
      (out.1, out.2)

/-! ### The scan position

A scan that starts behind items which end before the block reads the same keys
as a scan of the whole list. -/

/-- Every item before the scan position ends by token `s`. -/
def Passed (mmFeatures : List MMFeature) (s : Nat) (startMmIdx : Int) : Prop :=
  ∀ m ∈ mmFeatures.take (currMmIdx mmFeatures startMmIdx), m.stop ≤ s

theorem passed_zero (mm : List MMFeature) (s : Nat) : Passed mm s 0 := by
  simp [Passed, currMmIdx]

variable {mm : List MMFeature} {s e : Nat} {idx : Int}

theorem Passed.mono (passed : Passed mm s idx) (le : s ≤ e) : Passed mm e idx :=
  fun m mem => Nat.le_trans (passed m mem) le

/-- The keys of the loop do not depend on the running index, and it steps over
items that end within the block only. -/
theorem genMmKeysLoop_index (s e : Nat) (lt : s < e) (mm : List MMFeature) (idx idx' : Nat) :
    (genMmKeysLoop s e mm idx).1 = (genMmKeysLoop s e mm idx').1 ∧
      ∃ k, (genMmKeysLoop s e mm idx).2 = idx + k ∧ ∀ m ∈ mm.take k, m.stop ≤ e := by
  induction mm generalizing idx idx' with
  | nil => exact ⟨rfl, 0, rfl, by simp⟩
  | cons m rest ih =>
    obtain ⟨sameKeys, k, index, before⟩ := ih (idx + 1) (idx' + 1)
    have advance : m.stop ≤ e → ∀ m' ∈ (m :: rest).take (k + 1), m'.stop ≤ e := by
      intro ends m' mem
      rcases mem_cons.mp (by simpa using mem) with rfl | mem
      · exact ends
      · exact before m' mem
    rw [genMmKeysLoop, genMmKeysLoop]
    by_cases reached : m.offset < e
    · by_cases gone : m.stop ≤ s
      · rw [if_pos reached, if_pos gone, if_pos reached, if_pos gone]
        exact ⟨sameKeys, k + 1, by rw [index]; omega, advance (by omega)⟩
      · rw [if_pos reached, if_neg gone, if_pos reached, if_neg gone]
        by_cases ends : m.stop ≤ e
        · simp only [if_pos ends]
          exact ⟨by rw [sameKeys], k + 1, by rw [index]; omega, advance ends⟩
        · simp only [if_neg ends]
          exact ⟨trivial, 0, rfl, by simp⟩
    · simp only [if_neg reached]
      exact ⟨trivial, 0, rfl, by simp⟩

/-- Items that end before the block contribute no key. -/
theorem genMmKeysLoop_append (lt : s < e) {gone : List MMFeature} (ended : ∀ m ∈ gone, m.stop ≤ s)
    (mm : List MMFeature) (idx : Nat) :
    (genMmKeysLoop s e (gone ++ mm) idx).1 = (genMmKeysLoop s e mm idx).1 := by
  induction gone generalizing idx with
  | nil => rfl
  | cons m rest ih =>
    have mEnded : m.stop ≤ s := ended m (by simp)
    have reached : m.offset < e := by simp only [MMFeature.stop] at mEnded; omega
    rw [cons_append, genMmKeysLoop, if_pos reached, if_pos mEnded,
      ih (fun m mem => ended m (by simp [mem]))]
    exact (genMmKeysLoop_index s e lt mm _ _).1

/-- A scan from a passed position reads the keys of the whole list, and leaves a
position that is passed for the next block. -/
theorem genMmExtraHashKeys_of_passed (lt : s < e) (passed : Passed mm s idx) :
    (genMmExtraHashKeys mm s e idx).1 = (genMmExtraHashKeys mm s e 0).1 ∧
      Passed mm e (genMmExtraHashKeys mm s e idx).2 := by
  cases isLast : mm.getLast? with
  | none =>
    simp only [genMmExtraHashKeys, isLast]
    exact ⟨trivial, passed.mono (by omega)⟩
  | some last =>
    by_cases ended : last.stop ≤ s
    · simp only [genMmExtraHashKeys, isLast, if_pos ended]
      exact ⟨trivial, passed.mono (by omega)⟩
    · simp only [genMmExtraHashKeys, isLast, if_neg ended]
      have whole := genMmKeysLoop_append lt passed (mm.drop (currMmIdx mm idx)) (currMmIdx mm idx)
      rw [take_append_drop] at whole
      obtain ⟨-, k, index, stepped⟩ := genMmKeysLoop_index s e lt
        (mm.drop (currMmIdx mm idx)) (currMmIdx mm idx) 0
      constructor
      · exact whole.symm.trans (genMmKeysLoop_index s e lt mm _ _).1
      · intro m mem
        rw [index] at mem
        have position : currMmIdx mm ((currMmIdx mm idx + k : Nat) : Int) =
            currMmIdx mm idx + k := by
          conv_lhs => rw [currMmIdx]
          rw [if_neg (by omega), Int.toNat_natCast]
        rw [position, take_add] at mem
        rcases mem_append.mp mem with mem | mem
        · exact Nat.le_trans (passed m mem) (by omega)
        · exact stepped m mem

variable {H : Type}

def genLoraExtraHashKeys (r : Request H) : List ExtraKey :=
  match r.loraRequest with
  | none => []
  | some lora => [.str lora.loraName]

/-- The salt keys of `generate_block_hash_extra_keys`: only the first block
carries the salt, and an empty salt counts as none. -/
def genCacheSaltKeys (r : Request H) (startTokenIdx : Nat) : List ExtraKey :=
  match r.cacheSalt with
  | none => []
  | some salt => if startTokenIdx = 0 ∧ salt ≠ "" then [.str salt] else []

def genPromptEmbedsExtraHashKeys (r : Request H) (startTokenIdx endTokenIdx : Nat) :
    List ExtraKey :=
  match r.promptEmbeds with
  | none => []
  | some digest => [.embeds (digest startTokenIdx endTokenIdx)]

/-- `generate_block_hash_extra_keys`: LoRA, multimodal, salt and embedding keys
in one tuple, `None` when there are none. -/
def generateBlockHashExtraKeys (r : Request H) (startTokenIdx endTokenIdx : Nat)
    (startMmIdx : Int) : Option (List ExtraKey) × Int :=
  let mm := genMmExtraHashKeys r.mmFeatures startTokenIdx endTokenIdx startMmIdx
  let extraKeys := genLoraExtraHashKeys r ++ mm.1 ++ genCacheSaltKeys r startTokenIdx ++
    genPromptEmbedsExtraHashKeys r startTokenIdx endTokenIdx
  (if extraKeys = [] then none else some extraKeys, mm.2)

/-! ### The hasher -/

namespace BlockHasher

variable (B : BlockHasher H)

/-- `hash_block_tokens`: a missing parent is replaced by `NONE_HASH`. -/
def hashBlockTokens (parentBlockHash : Option H) (currBlockTokenIds : List TokenId)
    (extraKeys : Option (List ExtraKey)) : H :=
  B.hashFn (parentBlockHash.getD B.noneHash, currBlockTokenIds, extraKeys)

/-- The `while True` loop of `request_block_hasher`, over the number of full
blocks that are left from `startTokenIdx` on. -/
def hasherLoop (r : Request H) : Nat → Nat → Option H → Int → List H
  | 0, _, _, _ => []
  | blocks + 1, startTokenIdx, prevBlockHash, currMmIdx =>
    let endTokenIdx := startTokenIdx + B.blockSize
    let extra := generateBlockHashExtraKeys r startTokenIdx endTokenIdx currMmIdx
    let blockTokens := (r.allTokenIds.drop startTokenIdx).take B.blockSize
    let blockHash := B.hashBlockTokens prevBlockHash blockTokens extra.1
    blockHash :: hasherLoop r blocks endTokenIdx (some blockHash) extra.2

/-- `request_block_hasher`: the hashes of the full blocks that have none yet.
Past the first block the multimodal index restarts at `-1`, the last item. -/
def requestBlockHasher (r : Request H) : List H :=
  let startTokenIdx := r.blockHashes.length * B.blockSize
  let currMmIdx : Int := if 0 < startTokenIdx then -1 else 0
  B.hasherLoop r ((r.numTokens - startTokenIdx) / B.blockSize) startTokenIdx
    r.blockHashes.getLast? currMmIdx

/-- `Request.update_block_hashes`. -/
def updateBlockHashes (r : Request H) : Request H :=
  { r with blockHashes := r.blockHashes ++ B.requestBlockHasher r }

/-- The block hashes of a fresh request with the same tokens, multimodal items,
LoRA, salt and embeddings: one call of the hasher. -/
def oneShotHashes (r : Request H) : List H :=
  B.requestBlockHasher { r with blockHashes := [] }

/-! ### The hash chain

What the hasher feeds to the hash function, block by block, and the chain of
hashes it makes of it. -/

/-- One link of the chain. -/
def link (parent : H) (block : List TokenId × Option (List ExtraKey)) : H :=
  B.hashFn (parent, block.1, block.2)

/-- Tokens and extra keys of the blocks that `hasherLoop` visits. -/
def blockInputs (r : Request H) : Nat → Nat → Int → List (List TokenId × Option (List ExtraKey))
  | 0, _, _ => []
  | blocks + 1, startTokenIdx, currMmIdx =>
    let endTokenIdx := startTokenIdx + B.blockSize
    let extra := generateBlockHashExtraKeys r startTokenIdx endTokenIdx currMmIdx
    ((r.allTokenIds.drop startTokenIdx).take B.blockSize, extra.1) ::
      blockInputs r blocks endTokenIdx extra.2

section

variable (r : Request H)
include r

@[simp] theorem length_blockInputs (n start : Nat) (idx : Int) :
    (B.blockInputs r n start idx).length = n := by
  induction n generalizing start idx with
  | zero => rfl
  | succ n ih => simp [blockInputs, ih]

@[simp] theorem length_hasherLoop (n start : Nat) (prev : Option H) (idx : Int) :
    (B.hasherLoop r n start prev idx).length = n := by
  induction n generalizing start prev idx with
  | zero => rfl
  | succ n ih => simp [hasherLoop, ih]

/-- The `j`-th hash is the chain of the first `j + 1` block inputs. -/
theorem getElem?_hasherLoop (n start : Nat) (prev : Option H) (idx : Int) {j : Nat}
    (inRange : j < n) :
    (B.hasherLoop r n start prev idx)[j]? =
      some (((B.blockInputs r n start idx).take (j + 1)).foldl B.link (prev.getD B.noneHash)) := by
  induction n generalizing start prev idx j with
  | zero => omega
  | succ n ih =>
    cases j with
    | zero => simp [hasherLoop, blockInputs, link, hashBlockTokens]
    | succ j =>
      simp only [hasherLoop, getElem?_cons_succ]
      rw [ih _ _ _ (by omega)]
      rfl

/-- Tokens and extra keys of the block at `start`, read off the whole request. -/
def blockInput (r : Request H) (start : Nat) : List TokenId × Option (List ExtraKey) :=
  ((r.allTokenIds.drop start).take B.blockSize,
    (generateBlockHashExtraKeys r start (start + B.blockSize) 0).1)

/-- A loop that reads each block's own keys reads each block's own inputs. -/
theorem blockInputs_of_reads {P : Nat → Nat → Int → Prop}
    (step : ∀ {n start idx}, P (n + 1) start idx →
      (genMmExtraHashKeys r.mmFeatures start (start + B.blockSize) idx).1 =
          (genMmExtraHashKeys r.mmFeatures start (start + B.blockSize) 0).1 ∧
        P n (start + B.blockSize)
          (genMmExtraHashKeys r.mmFeatures start (start + B.blockSize) idx).2)
    {n start : Nat} {idx : Int} (reads : P n start idx) :
    B.blockInputs r n start idx =
      (range n).map fun k => B.blockInput r (start + k * B.blockSize) := by
  induction n generalizing start idx with
  | zero => rfl
  | succ n ih =>
    obtain ⟨sameKeys, next⟩ := step reads
    rw [blockInputs, range_succ_eq_map, map_cons, map_map]
    congr 1
    · simp only [blockInput, Nat.zero_mul, Nat.add_zero, generateBlockHashExtraKeys, sameKeys]
    · refine (ih next).trans (map_congr_left fun k _ => ?_)
      simp only [Function.comp, Nat.succ_eq_add_one, Nat.add_mul]
      congr 1
      omega

/-- From a passed scan position the loop reads each block's own inputs. -/
theorem blockInputs_of_passed (n : Nat) {start : Nat} {idx : Int}
    (passed : Passed r.mmFeatures start idx) :
    B.blockInputs r n start idx =
      (range n).map fun k => B.blockInput r (start + k * B.blockSize) :=
  B.blockInputs_of_reads r (P := fun _ => Passed r.mmFeatures)
    (genMmExtraHashKeys_of_passed (Nat.lt_add_of_pos_right B.blockSize_pos)) passed

def numFullBlocks (r : Request H) : Nat := r.numTokens / B.blockSize

theorem getElem?_oneShotHashes {i : Nat} (inRange : i < B.numFullBlocks r) :
    (B.oneShotHashes r)[i]? = some
      (((range (i + 1)).map fun k => B.blockInput r (k * B.blockSize)).foldl B.link
        B.noneHash) := by
  have start : (r.numTokens - 0 * B.blockSize) / B.blockSize = B.numFullBlocks r := by
    simp [numFullBlocks]
  change (B.hasherLoop { r with blockHashes := [] } ((r.numTokens - 0 * B.blockSize) / B.blockSize)
    (0 * B.blockSize) none (if 0 < 0 * B.blockSize then -1 else 0))[i]? = _
  rw [start, getElem?_hasherLoop _ _ _ _ _ _ inRange, Nat.zero_mul]
  simp only [Nat.lt_irrefl, if_false]
  rw [blockInputs_of_passed _ _ _ (passed_zero _ _), ← map_take, take_range,
    Nat.min_eq_left (by omega)]
  simp only [Nat.zero_add]
  rfl

@[simp] theorem length_oneShotHashes : (B.oneShotHashes r).length = B.numFullBlocks r := by
  simp [oneShotHashes, requestBlockHasher, numFullBlocks, Request.numTokens]

end

/-! ### Hash lists of a request -/

/-- A list of block hashes as the hasher makes them: each is the chain of the blocks
up to it. -/
def Chained (hashes : List H) : Prop :=
  ∃ inputs : List (List TokenId × Option (List ExtraKey)),
    inputs.length = hashes.length ∧ ∀ i, i < hashes.length →
      hashes[i]? = some ((inputs.take (i + 1)).foldl B.link B.noneHash)

theorem chained_nil : B.Chained [] := ⟨[], rfl, fun _ lt => absurd lt (Nat.not_lt_zero _)⟩

variable {B} in
theorem Chained.getLast {hashes : List H} {inputs : List (List TokenId × Option (List ExtraKey))}
    (length : inputs.length = hashes.length) (chain : ∀ i, i < hashes.length →
      hashes[i]? = some ((inputs.take (i + 1)).foldl B.link B.noneHash)) :
    hashes.getLast?.getD B.noneHash = inputs.foldl B.link B.noneHash := by
  rcases Nat.eq_zero_or_pos hashes.length with zero | pos
  · rw [length_eq_zero_iff.mp zero, length_eq_zero_iff.mp (length.trans zero)]
    rfl
  · rw [getLast?_eq_getElem?, chain _ (by omega), Option.getD_some,
      take_of_length_le (by omega)]

variable {B} in
/-- `update_block_hashes` makes the chain longer, whatever happened to the tokens. -/
theorem Chained.updateBlockHashes {r : Request H} (chained : B.Chained r.blockHashes) :
    B.Chained (B.updateBlockHashes r).blockHashes := by
  obtain ⟨inputs, length, chain⟩ := chained
  let start := r.blockHashes.length * B.blockSize
  let blocks := (r.numTokens - start) / B.blockSize
  let idx : Int := if 0 < start then -1 else 0
  have newHashes : (B.updateBlockHashes r).blockHashes =
      r.blockHashes ++ B.hasherLoop r blocks start r.blockHashes.getLast? idx := rfl
  refine ⟨inputs ++ B.blockInputs r blocks start idx, by simp [newHashes, length], fun i lt => ?_⟩
  rw [newHashes, length_append, length_hasherLoop] at lt
  rw [newHashes, take_append, foldl_append]
  by_cases old : i < r.blockHashes.length
  · rw [getElem?_append_left old, chain i old, Nat.sub_eq_zero_of_le (by omega)]
    rfl
  · rw [getElem?_append_right (by omega), getElem?_hasherLoop _ _ _ _ _ _ (by omega),
      Chained.getLast length chain, take_of_length_le (l := inputs) (by omega),
      show i - r.blockHashes.length + 1 = i + 1 - inputs.length by omega]

variable {B} in
theorem link_injective (inj : Function.Injective B.hashFn) : Function.Injective2 B.link := by
  intro parent parent' block block' same
  have := inj same
  simp only [Prod.mk.injEq] at this
  exact ⟨this.1, Prod.ext this.2.1 this.2.2⟩

variable {B} in
/-- With an injective hash function that never returns `NONE_HASH`, the hashes of a
request differ from each other. -/
theorem Chained.nodup (inj : Function.Injective B.hashFn) (fresh : ∀ input, B.hashFn input ≠ B.noneHash)
    {hashes : List H} (chained : B.Chained hashes) : hashes.Nodup := by
  obtain ⟨inputs, length, chain⟩ := chained
  rw [List.nodup_iff_getElem?_ne_getElem?]
  intro i j lt inRange same
  rw [chain i (by omega), chain j inRange, Option.some.injEq] at same
  have takes := foldl_inj_of_seed (link_injective inj) (fun t a => fresh _) same
  have := congrArg List.length takes
  rw [length_take, length_take] at this
  omega

end BlockHasher

end Vllm.Hashing
