import Vllm.Hashing.Hasher

/-!
What a block hash determines (tenant separation of the prefix cache).

With an injective hash function, the `i`-th block hash of a request determines
the tokens and the extra keys of its first `i + 1` blocks, but not all that the
keys are made of:

* the scan for multimodal items stops at the first item that runs past the
  block, so an overlapping item behind it may be in no key at all. Where no item
  is hidden in this way (`Unmasked`), the keys name them all;
* LoRA name and salt are told apart by position only. In the first block,
  without a multimodal key between them, a lone LoRA name and a lone salt are
  the same one-element tuple (`LoraSaltCollision`), which is then the only way
  in which two requests collide (`separated_iff`).

A key has the identifier and the offset of an item, not its length.
-/

namespace Vllm.Hashing

open Vllm.Lib.InjectiveChain ExtraKey List

/-! ### Reading items off the multimodal keys -/

/-- The items of the keys whose relative offset is not negative: those that
start in the block. -/
def startKeys (keys : List ExtraKey) : List (String × Int) :=
  keys.filterMap fun
    | .mm identifier offset => if 0 ≤ offset then some (identifier, offset) else none
    | _ => none

/-- Items of `mm` that start in `[s, e)`, as the block's keys name them. -/
def startsIn (mm : List MMFeature) (s e : Nat) : List (String × Int) :=
  (mm.filter fun m => decide (s ≤ m.offset ∧ m.offset < e)).map
    fun m => (m.identifier, (m.offset : Int) - s)

/-- Identifier and offset of the items that reach into the first `limit`
tokens. Their lengths, which no key has, are not compared. -/
def itemsBelow (mm : List MMFeature) (limit : Nat) : List (String × Nat) :=
  (mm.filter fun m => decide (m.offset < limit)).map fun m => (m.identifier, m.offset)

/-- Offset order, the standing assumption of `_gen_mm_extra_hash_keys`. -/
def OffsetSorted (mm : List MMFeature) : Prop := mm.Pairwise fun a b => a.offset ≤ b.offset

/-- No item is hidden from the block it starts in: whatever comes before an item
that starts below `limit` ends by the end of that item's first block. -/
def Unmasked (blockSize : Nat) (mm : List MMFeature) (limit : Nat) : Prop :=
  mm.Pairwise fun a b => b.offset < limit → a.stop ≤ (b.offset / blockSize + 1) * blockSize

/-- Items one after the other are not masked. -/
theorem unmasked_of_disjoint {blockSize : Nat} (pos : 0 < blockSize) {mm : List MMFeature}
    (disjoint : mm.Pairwise fun a b => a.stop ≤ b.offset) (limit : Nat) :
    Unmasked blockSize mm limit := by
  refine disjoint.imp fun {a b} before _ => Nat.le_trans before (Nat.le_of_lt ?_)
  rw [Nat.mul_comm]
  exact Nat.lt_mul_div_succ b.offset pos

section Scan

variable {mm : List MMFeature} {s e : Nat}

/-- The keys name every item that starts in the block, if the items before it end there. -/
theorem startKeys_genMmKeysLoop (idx : Nat) (sorted : OffsetSorted mm)
    (unmasked : mm.Pairwise fun a b => s ≤ b.offset → b.offset < e → a.stop ≤ e) :
    startKeys (genMmKeysLoop s e mm idx).1 = startsIn mm s e := by
  induction mm generalizing idx with
  | nil => rfl
  | cons m rest ih =>
    obtain ⟨mSorted, sorted⟩ := pairwise_cons.mp sorted
    obtain ⟨mUnmasked, unmasked⟩ := pairwise_cons.mp unmasked
    have pos := m.length_pos
    have stopEq : m.stop = m.offset + m.length := rfl
    -- Past an item that the scan stops at, nothing else starts in the block.
    have noneLeft : (∀ b ∈ rest, s ≤ b.offset → e ≤ b.offset) → startsIn rest s e = [] := by
      simp [startsIn]
    have itemHead : m.offset < e → startsIn (m :: rest) s e =
        startKeys [.mm m.identifier ((m.offset : Int) - s)] ++ startsIn rest s e := by
      intro reached
      by_cases h : s ≤ m.offset <;> simp [startKeys, startsIn, h, reached]
    rw [genMmKeysLoop]
    split
    case isTrue reached =>
      rw [itemHead reached]
      split
      · rw [ih _ sorted unmasked, startKeys, filterMap_cons_none, filterMap_nil, nil_append]
        exact if_neg (by omega)
      · split
        · rw [← ih _ sorted unmasked]
          exact filterMap_append (l := [_])
        case isFalse runsPast =>
          rw [noneLeft, append_nil]
          intro b mem lower
          by_contra upper
          exact runsPast (mUnmasked b mem lower (not_le.mp upper))
    case isFalse =>
      rw [startsIn, filter_cons_of_neg (by simp; omega)]
      refine (noneLeft fun b mem _ => ?_).symm
      have := mSorted b mem
      omega

variable {blockSize block : Nat}

/-- On an unmasked list the keys of a block, scanned from the front, name the
items that start in the block. -/
theorem startKeys_genMmExtraHashKeys (sorted : OffsetSorted mm)
    (unmasked : Unmasked blockSize mm ((block + 1) * blockSize)) :
    startKeys (genMmExtraHashKeys mm (block * blockSize) ((block + 1) * blockSize) 0).1 =
      startsIn mm (block * blockSize) ((block + 1) * blockSize) := by
  cases isLast : mm.getLast? with
  | none =>
    rw [getLast?_eq_none_iff] at isLast
    subst isLast
    rfl
  | some last =>
    by_cases ended : last.stop ≤ block * blockSize
    · simp only [genMmExtraHashKeys, isLast, if_pos ended]
      -- The last item starts last, so no item starts in the block.
      rw [startsIn, filter_eq_nil_iff.mpr]
      · rfl
      · obtain ⟨front, rfl⟩ := getLast?_eq_some_iff.mp isLast
        intro m mem
        have pos := last.length_pos
        have before : m.offset ≤ last.offset := by
          rcases mem_append.mp mem with mem | mem
          · exact (pairwise_append.mp sorted).2.2 m mem last (by simp)
          · rw [mem_singleton.mp mem]
        simp only [MMFeature.stop] at ended
        simp only [decide_eq_true_eq]
        omega
    · simp only [genMmExtraHashKeys, isLast, if_neg ended]
      refine startKeys_genMmKeysLoop _ sorted (unmasked.imp fun ends lower upper => ?_)
      rw [← Nat.div_eq_of_lt_le lower upper]
      exact ends upper

end Scan

/-- The item that a start key of the block at `s` stands for. -/
def itemOfStartKey (s : Nat) (key : String × Int) : String × Nat :=
  (key.1, (key.2 + s).toNat)

variable {mm : List MMFeature}

/-- In offset order, the items below the end of a block are those below its
start followed by those that start in it. -/
theorem itemsBelow_split (sorted : OffsetSorted mm) {s e : Nat} (le : s ≤ e) :
    itemsBelow mm e = itemsBelow mm s ++ (startsIn mm s e).map (itemOfStartKey s) := by
  induction mm with
  | nil => rfl
  | cons m rest ih =>
    obtain ⟨mSorted, sorted⟩ := pairwise_cons.mp sorted
    have ih := ih sorted
    by_cases below : m.offset < s
    · have : m.offset < e := by omega
      simp_all [itemsBelow, startsIn]
    · -- Nothing in the list starts below the block.
      have noneBelow : rest.filter (fun m => decide (m.offset < s)) = [] := by
        refine filter_eq_nil_iff.mpr fun b mem => ?_
        have := mSorted b mem
        simp only [decide_eq_true_eq]
        omega
      by_cases inside : m.offset < e
      · simp_all [itemsBelow, startsIn, itemOfStartKey, -filter_eq_nil_iff]
      · simp_all [itemsBelow, startsIn, -filter_eq_nil_iff]

/-- Keys that agree block by block name the same items, when none is masked. -/
theorem itemsBelow_eq_of_keys {blockSize : Nat} {mm₁ mm₂ : List MMFeature} {blocks : Nat}
    (sorted₁ : OffsetSorted mm₁) (sorted₂ : OffsetSorted mm₂)
    (unmasked₁ : Unmasked blockSize mm₁ (blocks * blockSize))
    (unmasked₂ : Unmasked blockSize mm₂ (blocks * blockSize))
    (same : ∀ k < blocks,
      (genMmExtraHashKeys mm₁ (k * blockSize) ((k + 1) * blockSize) 0).1 =
        (genMmExtraHashKeys mm₂ (k * blockSize) ((k + 1) * blockSize) 0).1) :
    itemsBelow mm₁ (blocks * blockSize) = itemsBelow mm₂ (blocks * blockSize) := by
  induction blocks with
  | zero => simp [itemsBelow]
  | succ blocks ih =>
    have le : blocks * blockSize ≤ (blocks + 1) * blockSize :=
      Nat.mul_le_mul_right _ (by omega)
    have shrink : ∀ {mm : List MMFeature}, Unmasked blockSize mm ((blocks + 1) * blockSize) →
        Unmasked blockSize mm (blocks * blockSize) := fun unmasked =>
      unmasked.imp fun h lt => h (Nat.lt_of_lt_of_le lt le)
    rw [itemsBelow_split sorted₁ le, itemsBelow_split sorted₂ le,
      ih (shrink unmasked₁) (shrink unmasked₂) fun k lt => same k (by omega),
      ← startKeys_genMmExtraHashKeys sorted₁ unmasked₁,
      ← startKeys_genMmExtraHashKeys sorted₂ unmasked₂, same blocks (by omega)]

/-- The first block has a multimodal key as soon as an item starts in it. -/
theorem genMmExtraHashKeys_first_eq_nil (sorted : OffsetSorted mm) (e : Nat) :
    (genMmExtraHashKeys mm 0 e 0).1 = [] ↔ ∀ m ∈ mm, e ≤ m.offset := by
  cases mm with
  | nil => simp [genMmExtraHashKeys]
  | cons m rest =>
    obtain ⟨mSorted, -⟩ := pairwise_cons.mp sorted
    obtain ⟨last, isLast⟩ : ∃ last, (m :: rest).getLast? = some last :=
      ⟨_, getLast?_eq_some_getLast (by simp)⟩
    have lastPos := last.length_pos
    have pos := m.length_pos
    simp only [genMmExtraHashKeys, isLast, if_neg (show ¬ last.stop ≤ 0 by
      simp only [MMFeature.stop]; omega)]
    change (genMmKeysLoop 0 e (m :: rest) 0).1 = [] ↔ _
    rw [genMmKeysLoop, if_neg (show ¬ m.stop ≤ 0 by simp only [MMFeature.stop]; omega)]
    by_cases reached : m.offset < e
    · rw [if_pos reached]
      refine iff_of_false (by split <;> simp) fun all => ?_
      have := all m (by simp)
      omega
    · rw [if_neg reached]
      refine iff_of_true rfl fun b mem => ?_
      rcases mem_cons.mp mem with rfl | mem
      · omega
      · have := mSorted b mem
        omega

/-! ### Parsing the flattened tuple -/

/-- The items of the tuple that came from multimodal inputs. -/
def ExtraKey.isMm : ExtraKey → Bool
  | .mm _ _ => true
  | _ => false

/-- The items of the tuple that are prompt embedding digests. -/
def ExtraKey.isEmbeds : ExtraKey → Bool
  | .embeds _ => true
  | _ => false

theorem genMmKeysLoop_isMm (s e : Nat) (mm : List MMFeature) (idx : Nat) :
    ∀ key ∈ (genMmKeysLoop s e mm idx).1, key.isMm = true := by
  induction mm generalizing idx with
  | nil => simp [genMmKeysLoop]
  | cons m rest ih =>
    rw [genMmKeysLoop]
    split
    · split
      · exact ih _
      · split
        · intro key mem
          rcases mem_cons.mp mem with rfl | mem
          · rfl
          · exact ih _ key mem
        · simp [isMm]
    · simp

theorem genMmExtraHashKeys_isMm (mm : List MMFeature) (s e : Nat) (idx : Int) :
    ∀ key ∈ (genMmExtraHashKeys mm s e idx).1, key.isMm = true := by
  rw [genMmExtraHashKeys]
  split
  · simp
  · split
    · simp
    · exact genMmKeysLoop_isMm _ _ _ _

/-- The keys of an optional string. -/
def strKeys (value : Option String) : List ExtraKey := value.toList.map .str

theorem strKeys_inj {a b : Option String} (same : strKeys a = strKeys b) : a = b := by
  cases a <;> cases b <;> simp_all [strKeys]

/-- What the tuple of a block determines: the multimodal and embedding keys, and
LoRA name and salt up to the one confusion of the two. -/
theorem keyTuple_inj {l₁ l₂ s₁ s₂ : Option String} {mm₁ mm₂ embeds₁ embeds₂ : List ExtraKey}
    (isMm₁ : ∀ key ∈ mm₁, key.isMm = true) (isMm₂ : ∀ key ∈ mm₂, key.isMm = true)
    (isEmbeds₁ : ∀ key ∈ embeds₁, key.isEmbeds = true)
    (isEmbeds₂ : ∀ key ∈ embeds₂, key.isEmbeds = true)
    (same : strKeys l₁ ++ mm₁ ++ strKeys s₁ ++ embeds₁ =
      strKeys l₂ ++ mm₂ ++ strKeys s₂ ++ embeds₂) :
    mm₁ = mm₂ ∧ embeds₁ = embeds₂ ∧
      (l₁ = l₂ ∧ s₁ = s₂ ∨ mm₁ = [] ∧ (l₁ = none ∨ s₁ = none) ∧ l₁ = s₂ ∧ s₁ = l₂) := by
  have strNot : ∀ (value : Option String) (p : ExtraKey → Bool), (∀ v, p (.str v) = false) →
      (strKeys value).filter p = [] := by
    intro value p h
    cases value <;> simp [strKeys, h]
  have otherKind : ∀ {p q : ExtraKey → Bool} {keys : List ExtraKey},
      (∀ key, q key = true → p key = false) → (∀ key ∈ keys, q key = true) →
      keys.filter p = [] :=
    fun apart all => filter_eq_nil_iff.mpr fun key mem => by simp [apart key (all key mem)]
  have embedsNotMm : ∀ key : ExtraKey, key.isEmbeds = true → key.isMm = false := by
    rintro ⟨⟩ <;> simp [isMm, isEmbeds]
  have mmNotEmbeds : ∀ key : ExtraKey, key.isMm = true → key.isEmbeds = false := by
    rintro ⟨⟩ <;> simp [isMm, isEmbeds]
  have sameMm : mm₁ = mm₂ := by
    have := congrArg (filter isMm) same
    simpa only [filter_append, strNot _ isMm fun _ => rfl, otherKind embedsNotMm isEmbeds₁,
      otherKind embedsNotMm isEmbeds₂, filter_eq_self.mpr isMm₁, filter_eq_self.mpr isMm₂,
      nil_append, append_nil] using this
  have sameEmbeds : embeds₁ = embeds₂ := by
    have := congrArg (filter isEmbeds) same
    simpa only [filter_append, strNot _ isEmbeds fun _ => rfl, otherKind mmNotEmbeds isMm₁,
      otherKind mmNotEmbeds isMm₂, filter_eq_self.mpr isEmbeds₁, filter_eq_self.mpr isEmbeds₂,
      nil_append] using this
  subst sameMm sameEmbeds
  refine ⟨rfl, rfl, ?_⟩
  have front := append_cancel_right same
  cases mm₁ with
  | nil => cases l₁ <;> cases l₂ <;> cases s₁ <;> cases s₂ <;> simp_all [strKeys]
  | cons key rest =>
    -- A multimodal key between them keeps LoRA name and salt apart.
    have keyIsMm := isMm₁ key (by simp)
    have notStr : ∀ v, key ≠ .str v := by
      rintro v rfl
      exact absurd keyIsMm (by simp [isMm])
    left
    cases l₁ with
    | none =>
      cases l₂ with
      | none => exact ⟨rfl, strKeys_inj (append_cancel_left front)⟩
      | some v => exact absurd (cons.inj front).1 (notStr v)
    | some v =>
      cases l₂ with
      | none => exact absurd (cons.inj front).1.symm (notStr v)
      | some w =>
        obtain ⟨sameName, front⟩ := cons.inj front
        exact ⟨congrArg some (str.inj sameName),
          strKeys_inj (append_cancel_left front)⟩

/-! ### What two equal hashes have in common -/

variable {H : Type}

def loraName (r : Request H) : Option String := r.loraRequest.map (·.loraName)

theorem genLoraExtraHashKeys_eq (r : Request H) :
    genLoraExtraHashKeys r = strKeys (loraName r) := by
  cases h : r.loraRequest <;> simp [genLoraExtraHashKeys, loraName, strKeys, h]

/-- The salt as the block at `s` sees it. -/
def saltAt (r : Request H) (s : Nat) : Option String := if s = 0 then r.cacheSalt else none

theorem genCacheSaltKeys_eq {r : Request H} (nonEmpty : r.cacheSalt ≠ some "") (s : Nat) :
    genCacheSaltKeys r s = strKeys (saltAt r s) := by
  cases h : r.cacheSalt with
  | none => simp [genCacheSaltKeys, saltAt, strKeys, h]
  | some salt =>
    have : salt ≠ "" := fun eq => nonEmpty (by rw [h, eq])
    by_cases first : s = 0 <;> simp [genCacheSaltKeys, saltAt, strKeys, h, first, this]

theorem genPromptEmbedsExtraHashKeys_isEmbeds (r : Request H) (s e : Nat) :
    ∀ key ∈ genPromptEmbedsExtraHashKeys r s e, key.isEmbeds = true := by
  cases h : r.promptEmbeds <;> simp [genPromptEmbedsExtraHashKeys, h, isEmbeds]

/-- The multimodal keys of a block, scanned from the front of the list. -/
def mmKeysAt (r : Request H) (s e : Nat) : List ExtraKey :=
  (genMmExtraHashKeys r.mmFeatures s e 0).1

/-- The tuple of a block with `None` read as the empty tuple. -/
def keyTuple (r : Request H) (s e : Nat) : List ExtraKey :=
  strKeys (loraName r) ++ mmKeysAt r s e ++ strKeys (saltAt r s) ++
    genPromptEmbedsExtraHashKeys r s e

variable {r₁ r₂ : Request H} {B : BlockHasher H} {i : Nat}

theorem generateBlockHashExtraKeys_inj (salt₁ : r₁.cacheSalt ≠ some "")
    (salt₂ : r₂.cacheSalt ≠ some "") (s e : Nat) :
    (generateBlockHashExtraKeys r₁ s e 0).1 = (generateBlockHashExtraKeys r₂ s e 0).1 ↔
      keyTuple r₁ s e = keyTuple r₂ s e := by
  have fold : ∀ {r : Request H}, r.cacheSalt ≠ some "" →
      (generateBlockHashExtraKeys r s e 0).1 =
        if keyTuple r s e = [] then none else some (keyTuple r s e) := by
    intro r nonEmpty
    simp only [generateBlockHashExtraKeys, genLoraExtraHashKeys_eq, genCacheSaltKeys_eq nonEmpty]
    rfl
  rw [fold salt₁, fold salt₂]
  by_cases empty₁ : keyTuple r₁ s e = [] <;> by_cases empty₂ : keyTuple r₂ s e = [] <;>
    simp [empty₁, empty₂]

/-- Two token lists agree on the first blocks when they agree block by block. -/
theorem take_eq_iff_blocks (blockSize : Nat) (xs ys : List TokenId) (blocks : Nat) :
    xs.take (blocks * blockSize) = ys.take (blocks * blockSize) ↔
      ∀ k < blocks, (xs.drop (k * blockSize)).take blockSize =
        (ys.drop (k * blockSize)).take blockSize := by
  constructor
  · intro same k lt
    have le : k * blockSize + blockSize ≤ blocks * blockSize := by
      rw [← Nat.succ_mul]
      exact Nat.mul_le_mul_right _ lt
    have slice : ∀ zs : List TokenId, (zs.drop (k * blockSize)).take blockSize =
        ((zs.take (blocks * blockSize)).drop (k * blockSize)).take blockSize := by
      intro zs
      rw [drop_take, take_take, Nat.min_eq_left (by omega)]
    rw [slice xs, slice ys, same]
  · intro slices
    induction blocks with
    | zero => simp
    | succ blocks ih =>
      rw [Nat.succ_mul, take_add, take_add, ih fun k lt => slices k (by omega),
        slices blocks (by omega)]

/-- Everything about the first `i + 1` blocks that the keys show, LoRA name and
salt apart. -/
structure SameShown (B : BlockHasher H) (r₁ r₂ : Request H) (i : Nat) : Prop where
  tokens : r₁.allTokenIds.take ((i + 1) * B.blockSize) = r₂.allTokenIds.take ((i + 1) * B.blockSize)
  mmKeys : ∀ k < i + 1, mmKeysAt r₁ (k * B.blockSize) ((k + 1) * B.blockSize) =
    mmKeysAt r₂ (k * B.blockSize) ((k + 1) * B.blockSize)
  embeds : ∀ k < i + 1,
    genPromptEmbedsExtraHashKeys r₁ (k * B.blockSize) ((k + 1) * B.blockSize) =
      genPromptEmbedsExtraHashKeys r₂ (k * B.blockSize) ((k + 1) * B.blockSize)

/-- LoRA name and salt trade places: the one request has only the first, the
other only the second. -/
structure Swapped (r₁ r₂ : Request H) : Prop where
  lone : loraName r₁ = none ∨ r₁.cacheSalt = none
  loraIsSalt : loraName r₁ = r₂.cacheSalt
  saltIsLora : r₁.cacheSalt = loraName r₂

/-- With an injective hash function, equal hashes mean equal block inputs. -/
theorem sameHash_iff_blockInput (inj : Function.Injective B.hashFn) (full₁ : i < B.numFullBlocks r₁)
    (full₂ : i < B.numFullBlocks r₂) :
    (B.oneShotHashes r₁)[i]? = (B.oneShotHashes r₂)[i]? ↔
      ∀ k < i + 1, B.blockInput r₁ (k * B.blockSize) = B.blockInput r₂ (k * B.blockSize) := by
  rw [B.getElem?_oneShotHashes r₁ full₁, B.getElem?_oneShotHashes r₂ full₂]
  constructor
  · intro same k lt
    have inputs := (foldl_inj_of_length_eq (BlockHasher.link_injective inj) (by simp) (Option.some.inj same)).2
    have := congrArg (fun inputs => inputs[k]?) inputs
    simpa [lt] using this
  · intro same
    rw [map_congr_left fun k mem => same k (mem_range.mp mem)]

/-- The block inputs agree when the shown data does and LoRA name and salt
either agree or trade places in a first block without multimodal keys. -/
theorem blockInput_iff (salt₁ : r₁.cacheSalt ≠ some "") (salt₂ : r₂.cacheSalt ≠ some "") (i : Nat) :
    (∀ k < i + 1, B.blockInput r₁ (k * B.blockSize) = B.blockInput r₂ (k * B.blockSize)) ↔
      SameShown B r₁ r₂ i ∧
        (loraName r₁ = loraName r₂ ∧ r₁.cacheSalt = r₂.cacheSalt ∨
          i = 0 ∧ mmKeysAt r₁ 0 B.blockSize = [] ∧ Swapped r₁ r₂) := by
  have stop : ∀ k, k * B.blockSize + B.blockSize = (k + 1) * B.blockSize := fun k =>
    (Nat.succ_mul _ _).symm
  have byBlock : ∀ k, B.blockInput r₁ (k * B.blockSize) = B.blockInput r₂ (k * B.blockSize) ↔
      (r₁.allTokenIds.drop (k * B.blockSize)).take B.blockSize =
          (r₂.allTokenIds.drop (k * B.blockSize)).take B.blockSize ∧
        keyTuple r₁ (k * B.blockSize) ((k + 1) * B.blockSize) =
          keyTuple r₂ (k * B.blockSize) ((k + 1) * B.blockSize) := by
    intro k
    rw [BlockHasher.blockInput, BlockHasher.blockInput, Prod.mk.injEq,
      generateBlockHashExtraKeys_inj salt₁ salt₂, stop]
  simp only [byBlock]
  constructor
  · intro same
    have parsed := fun k lt => keyTuple_inj (genMmExtraHashKeys_isMm _ _ _ _)
      (genMmExtraHashKeys_isMm _ _ _ _) (genPromptEmbedsExtraHashKeys_isEmbeds _ _ _)
      (genPromptEmbedsExtraHashKeys_isEmbeds _ _ _) (same k lt).2
    refine ⟨⟨(take_eq_iff_blocks _ _ _ _).mpr fun k lt => (same k lt).1, fun k lt => (parsed k lt).1,
      fun k lt => (parsed k lt).2.1⟩, ?_⟩
    have first := (parsed 0 (by omega)).2.2
    simp only [Nat.zero_mul, saltAt, if_true, Nat.zero_add, Nat.one_mul] at first
    rcases first with agree | ⟨noKeys, lone, loraIsSalt, saltIsLora⟩
    · exact .inl agree
    · cases i with
      | zero => exact .inr ⟨rfl, noKeys, lone, loraIsSalt, saltIsLora⟩
      | succ i =>
        -- The second block repeats the LoRA name without the salt.
        have second := (parsed 1 (by omega)).2.2
        have pos : 1 * B.blockSize ≠ 0 := by
          have := B.blockSize_pos
          omega
        simp only [saltAt, if_neg pos] at second
        have sameLora : loraName r₁ = loraName r₂ := by
          rcases second with ⟨sameLora, -⟩ | ⟨-, -, isNone, isNone'⟩
          · exact sameLora
          · rw [isNone, ← isNone']
        exact .inl ⟨sameLora, by rw [saltIsLora, ← loraIsSalt, sameLora]⟩
  · rintro ⟨shown, tags⟩ k lt
    refine ⟨(take_eq_iff_blocks _ _ _ _).mp shown.tokens k lt, ?_⟩
    rcases tags with ⟨sameLora, sameSalt⟩ | ⟨rfl, noKeys, swapped⟩
    · simp only [keyTuple, saltAt, sameLora, sameSalt, shown.mmKeys k lt, shown.embeds k lt]
    · obtain rfl : k = 0 := by omega
      have mmKeys := shown.mmKeys 0 (by omega)
      have embeds := shown.embeds 0 (by omega)
      simp only [Nat.zero_mul, Nat.zero_add, Nat.one_mul] at mmKeys embeds ⊢
      simp only [keyTuple, saltAt, ← mmKeys, ← embeds, noKeys,
        swapped.loraIsSalt, swapped.saltIsLora]
      rcases swapped.lone with isNone | isNone
      · rw [← swapped.loraIsSalt, isNone]
        simp [strKeys]
      · rw [← swapped.saltIsLora, isNone]
        simp [strKeys]

/-! ### Separation -/

/-- Equal hashes of block `i` mean equal prefixes, equal multimodal items (by identifier
and offset) that reach into the prefix, equal LoRA names and equal salts. -/
def Separated (B : BlockHasher H) (r₁ r₂ : Request H) (i : Nat) : Prop :=
  ∀ h, (B.oneShotHashes r₁)[i]? = some h → (B.oneShotHashes r₂)[i]? = some h →
    r₁.allTokenIds.take ((i + 1) * B.blockSize) = r₂.allTokenIds.take ((i + 1) * B.blockSize) ∧
    itemsBelow r₁.mmFeatures ((i + 1) * B.blockSize) =
      itemsBelow r₂.mmFeatures ((i + 1) * B.blockSize) ∧
    loraName r₁ = loraName r₂ ∧ r₁.cacheSalt = r₂.cacheSalt

/-- A request with a LoRA and no salt against a request without LoRA whose salt
is the LoRA's name, on a first block where no multimodal item starts. -/
structure LoraSaltCollision (B : BlockHasher H) (r₁ r₂ : Request H) (i : Nat) : Prop where
  first : i = 0
  full₁ : B.blockSize ≤ r₁.numTokens
  full₂ : B.blockSize ≤ r₂.numTokens
  tokens : r₁.allTokenIds.take B.blockSize = r₂.allTokenIds.take B.blockSize
  embeds : genPromptEmbedsExtraHashKeys r₁ 0 B.blockSize =
    genPromptEmbedsExtraHashKeys r₂ 0 B.blockSize
  noItem₁ : ∀ m ∈ r₁.mmFeatures, B.blockSize ≤ m.offset
  noItem₂ : ∀ m ∈ r₂.mmFeatures, B.blockSize ≤ m.offset
  swapped : Swapped r₁ r₂
  differ : loraName r₁ ≠ loraName r₂

/-- The items that reach into the first `limit` tokens, with their lengths. -/
def featuresBelow (mm : List MMFeature) (limit : Nat) : List MMFeature :=
  mm.filter fun m => decide (m.offset < limit)

/-- Moreover the items have the same lengths. -/
def SeparatedWithLengths (B : BlockHasher H) (r₁ r₂ : Request H) (i : Nat) : Prop :=
  Separated B r₁ r₂ i ∧ ∀ h, (B.oneShotHashes r₁)[i]? = some h → (B.oneShotHashes r₂)[i]? = some h →
    featuresBelow r₁.mmFeatures ((i + 1) * B.blockSize) =
      featuresBelow r₂.mmFeatures ((i + 1) * B.blockSize)

/-- An identifier stands for one content, which has one length. -/
def SameLengths (mm₁ mm₂ : List MMFeature) : Prop :=
  ∀ a ∈ mm₁, ∀ b ∈ mm₂, a.identifier = b.identifier → a.length = b.length

theorem features_eq_of_items {mm₁ mm₂ : List MMFeature} (lengths : SameLengths mm₁ mm₂)
    (same : mm₁.map (fun m => (m.identifier, m.offset)) =
      mm₂.map fun m => (m.identifier, m.offset)) : mm₁ = mm₂ := by
  induction mm₁ generalizing mm₂ with
  | nil => exact (map_eq_nil_iff.mp same.symm).symm
  | cons a mm₁ ih =>
    cases mm₂ with
    | nil => cases same
    | cons b mm₂ =>
      obtain ⟨item, same⟩ := cons.inj same
      obtain ⟨identifier, offset⟩ := Prod.mk.inj item
      rw [MMFeature.ext identifier offset (lengths a (by simp) b (by simp) identifier),
        ih (fun a mem b mem' => lengths a (by simp [mem]) b (by simp [mem'])) same]

theorem lt_numFullBlocks_iff (B : BlockHasher H) (r : Request H) (i : Nat) :
    i < B.numFullBlocks r ↔ (i + 1) * B.blockSize ≤ r.numTokens :=
  Nat.le_div_iff_mul_le B.blockSize_pos

section SeparationTheorem

variable {B : BlockHasher H} (inj : Function.Injective B.hashFn) {r₁ r₂ : Request H}
  (salt₁ : r₁.cacheSalt ≠ some "") (salt₂ : r₂.cacheSalt ≠ some "") {i : Nat}

include inj salt₁ salt₂

/-- Requests that agree on what is shown, or are swapped, do share the hash. -/
theorem exists_sameHash (full₁ : (i + 1) * B.blockSize ≤ r₁.numTokens)
    (full₂ : (i + 1) * B.blockSize ≤ r₂.numTokens) (shown : SameShown B r₁ r₂ i)
    (tags : loraName r₁ = loraName r₂ ∧ r₁.cacheSalt = r₂.cacheSalt ∨
      i = 0 ∧ mmKeysAt r₁ 0 B.blockSize = [] ∧ Swapped r₁ r₂) :
    ∃ h, (B.oneShotHashes r₁)[i]? = some h ∧ (B.oneShotHashes r₂)[i]? = some h := by
  have lt₁ := (lt_numFullBlocks_iff B r₁ i).mpr full₁
  have lt₂ := (lt_numFullBlocks_iff B r₂ i).mpr full₂
  have same := (sameHash_iff_blockInput inj lt₁ lt₂).mpr
    ((blockInput_iff salt₁ salt₂ i).mpr ⟨shown, tags⟩)
  exact ⟨_, B.getElem?_oneShotHashes r₁ lt₁, same ▸ B.getElem?_oneShotHashes r₁ lt₁⟩

/-- Conversely, a shared hash shows that much. -/
theorem shown_of_sameHash {h : H} (hash₁ : (B.oneShotHashes r₁)[i]? = some h)
    (hash₂ : (B.oneShotHashes r₂)[i]? = some h) :
    (i + 1) * B.blockSize ≤ r₁.numTokens ∧ (i + 1) * B.blockSize ≤ r₂.numTokens ∧
      SameShown B r₁ r₂ i ∧
      (loraName r₁ = loraName r₂ ∧ r₁.cacheSalt = r₂.cacheSalt ∨
        i = 0 ∧ mmKeysAt r₁ 0 B.blockSize = [] ∧ Swapped r₁ r₂) := by
  have full : ∀ {r : Request H}, (B.oneShotHashes r)[i]? = some h → i < B.numFullBlocks r := by
    intro r hash
    have := (List.getElem?_eq_some_iff.mp hash).1
    rwa [B.length_oneShotHashes] at this
  have inputs := (sameHash_iff_blockInput inj (full hash₁) (full hash₂)).mp (hash₁.trans hash₂.symm)
  exact ⟨(lt_numFullBlocks_iff B r₁ i).mp (full hash₁), (lt_numFullBlocks_iff B r₂ i).mp (full hash₂),
    (blockInput_iff salt₁ salt₂ i).mp inputs⟩

/-- Unmasked requests are separated, if those whose LoRA name and salt trade places are. -/
theorem separated_of_unmasked (sorted₁ : OffsetSorted r₁.mmFeatures)
    (sorted₂ : OffsetSorted r₂.mmFeatures)
    (unmasked₁ : Unmasked B.blockSize r₁.mmFeatures ((i + 1) * B.blockSize))
    (unmasked₂ : Unmasked B.blockSize r₂.mmFeatures ((i + 1) * B.blockSize))
    (untraded : (i + 1) * B.blockSize ≤ r₁.numTokens → (i + 1) * B.blockSize ≤ r₂.numTokens →
      SameShown B r₁ r₂ i → i = 0 → mmKeysAt r₁ 0 B.blockSize = [] → Swapped r₁ r₂ →
      loraName r₁ = loraName r₂) : Separated B r₁ r₂ i := by
  intro h hash₁ hash₂
  obtain ⟨full₁, full₂, shown, tags⟩ := shown_of_sameHash inj salt₁ salt₂ hash₁ hash₂
  have sameTags : loraName r₁ = loraName r₂ ∧ r₁.cacheSalt = r₂.cacheSalt := by
    rcases tags with agree | ⟨first, noKeys, swapped⟩
    · exact agree
    · have sameLora := untraded full₁ full₂ shown first noKeys swapped
      exact ⟨sameLora, by rw [swapped.saltIsLora, ← sameLora, swapped.loraIsSalt]⟩
  exact ⟨shown.tokens, itemsBelow_eq_of_keys sorted₁ sorted₂ unmasked₁ unmasked₂ shown.mmKeys,
    sameTags⟩

/-- Block hashes separate two requests without masked items, except for the one collision. -/
theorem separated_iff (sorted₁ : OffsetSorted r₁.mmFeatures) (sorted₂ : OffsetSorted r₂.mmFeatures)
    (unmasked₁ : Unmasked B.blockSize r₁.mmFeatures ((i + 1) * B.blockSize))
    (unmasked₂ : Unmasked B.blockSize r₂.mmFeatures ((i + 1) * B.blockSize))
    (lengths : SameLengths r₁.mmFeatures r₂.mmFeatures) :
    SeparatedWithLengths B r₁ r₂ i ↔ ¬ LoraSaltCollision B r₁ r₂ i := by
  constructor
  · rintro ⟨separated, -⟩ ⟨rfl, full₁, full₂, tokens, embeds, noItem₁, noItem₂, swapped, differ⟩
    have noKeys₁ := (genMmExtraHashKeys_first_eq_nil sorted₁ B.blockSize).mpr noItem₁
    have noKeys₂ := (genMmExtraHashKeys_first_eq_nil sorted₂ B.blockSize).mpr noItem₂
    have shown : SameShown B r₁ r₂ 0 := by
      refine ⟨by simpa using tokens, fun k lt => ?_, fun k lt => ?_⟩
      · obtain rfl : k = 0 := by omega
        simpa only [mmKeysAt, Nat.zero_mul, Nat.zero_add, Nat.one_mul, noKeys₁] using noKeys₂.symm
      · obtain rfl : k = 0 := by omega
        simpa using embeds
    obtain ⟨h, hash₁, hash₂⟩ := exists_sameHash inj salt₁ salt₂ (by simpa using full₁)
      (by simpa using full₂) shown (.inr ⟨rfl, noKeys₁, swapped⟩)
    exact differ (separated h hash₁ hash₂).2.2.1
  · intro noSwap
    have separated : Separated B r₁ r₂ i := by
      refine separated_of_unmasked inj salt₁ salt₂ sorted₁ sorted₂ unmasked₁ unmasked₂ ?_
      rintro full₁ full₂ shown rfl noKeys swapped
      by_contra differ
      refine noSwap ⟨rfl, by simpa using full₁, by simpa using full₂, by simpa using shown.tokens,
        by simpa using shown.embeds 0 (by omega), ?_, ?_, swapped, differ⟩
      · exact (genMmExtraHashKeys_first_eq_nil sorted₁ _).mp noKeys
      · have same := shown.mmKeys 0 (by omega)
        simp only [Nat.zero_mul, Nat.zero_add, Nat.one_mul, noKeys] at same
        exact (genMmExtraHashKeys_first_eq_nil sorted₂ _).mp same.symm
    refine ⟨separated, fun h hash₁ hash₂ => ?_⟩
    refine features_eq_of_items (fun a mem b mem' => ?_) (separated h hash₁ hash₂).2.1
    exact lengths a (mem_of_mem_filter mem) b (mem_of_mem_filter mem')

/-- Where items do not overlap, block hashes separate two requests from the second block on, and
in the first block if the LoRA names are the same. -/
theorem separated_of_disjoint (disjoint₁ : r₁.mmFeatures.Pairwise fun a b => a.stop ≤ b.offset)
    (disjoint₂ : r₂.mmFeatures.Pairwise fun a b => a.stop ≤ b.offset)
    (later : 0 < i ∨ loraName r₁ = loraName r₂) : Separated B r₁ r₂ i := by
  have sorted : ∀ {mm : List MMFeature}, (mm.Pairwise fun a b => a.stop ≤ b.offset) →
      OffsetSorted mm := fun disjoint => disjoint.imp (Nat.le_add_right _ _).trans
  refine separated_of_unmasked inj salt₁ salt₂ (sorted disjoint₁) (sorted disjoint₂)
    (unmasked_of_disjoint B.blockSize_pos disjoint₁ _)
    (unmasked_of_disjoint B.blockSize_pos disjoint₂ _) ?_
  intro _ _ _ first _ _
  exact later.resolve_left (by omega)

end SeparationTheorem

/-- A request of tenant `x`, known by the LoRA it uses. -/
def loraTenant : Request SymbolicHash :=
  { requestId := 0, allTokenIds := [1, 2, 3, 4], loraRequest := some ⟨"x", 1⟩ }

/-- A request of another tenant, whose salt is the name of that LoRA. -/
def saltTenant : Request SymbolicHash :=
  { requestId := 1, allTokenIds := [1, 2, 3, 4], cacheSalt := some "x" }

/-- The two tenants share the hash of their first block. -/
theorem loraTenant_saltTenant_not_separated :
    ¬ Separated (symbolicHasher 4 (by decide)) loraTenant saltTenant 0 := by
  intro separated
  have := (separated _ rfl (by decide)).2.2.1
  exact absurd this (by decide)

/-- A request of that tenant with an image that starts in the first block. -/
def imageTenant (tokens : List TokenId) : Request SymbolicHash :=
  { saltTenant with allTokenIds := tokens, mmFeatures := [⟨"a", 2, 3, by decide⟩] }

theorem imageTenant_separated : SeparatedWithLengths (symbolicHasher 4 (by decide))
    (imageTenant [1, 2, 3, 4]) (imageTenant [1, 2, 3, 4, 5]) 0 := by
  have alone : ∀ {R : MMFeature → MMFeature → Prop} tokens,
      (imageTenant tokens).mmFeatures.Pairwise R := fun _ => pairwise_singleton _ _
  have lengths : SameLengths (imageTenant [1, 2, 3, 4]).mmFeatures
      (imageTenant [1, 2, 3, 4, 5]).mmFeatures := by
    unfold SameLengths
    decide
  exact (separated_iff (symbolicHasher_injective 4 (by decide)) (by decide) (by decide) (alone _)
    (alone _) (alone _) (alone _) lengths).mpr fun collision => collision.differ rfl

/-- A second request of that tenant, with two images in its block. -/
theorem saltTenant_images_separated : Separated (symbolicHasher 4 (by decide)) saltTenant
    { saltTenant with mmFeatures := [⟨"a", 0, 2, by decide⟩, ⟨"b", 2, 1, by decide⟩] } 0 :=
  separated_of_disjoint (symbolicHasher_injective 4 (by decide)) (by decide) (by decide)
    .nil (by decide) (.inr rfl)

end Vllm.Hashing
