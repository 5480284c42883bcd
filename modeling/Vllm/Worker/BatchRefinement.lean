import Vllm.Lib.Fallible
import Vllm.Worker.InputBatch

/-!
The rows of the persistent batch refine a map from request ids to requests.

`Holds r row` says that all that a row stores is that of the request. Three operations may
break it: `swapStates`, which gives both rows the mask of the second one; `addRequest`, which
leaves a mask that `condense` left in the row, or prompt embeddings of a removed request; and
`condense`, which leaves such embeddings too. `Allowed` excludes just that (`refines_of_run`).
-/

namespace Vllm.Worker

open Vllm.Lib Vllm.Lib.Steps Vllm.Lib.Fallible CachedRequestState InputBatch Dict List
open Function (update update_self update_of_ne update_comm update_idem update_apply update_eq_self)

variable {cfg : Config} {ρ ε γ φ : Type}

/-! ### Rows of requests -/

namespace CachedRequestState

variable (r : CachedRequestState cfg ρ ε γ φ)

/-- `get_token_id`, for the tokens that are known. -/
def tokenAt (j : Nat) : Option Nat :=
  if j < r.numPromptTokens then r.promptTokenIds.bind (·[j]?)
  else r.outputTokenIds[j - r.numPromptTokens]?

def isTokenAt (j : Nat) : Bool := if j < r.numPromptTokens then r.promptIsToken j else true

def isMasked (token : Nat) : Bool :=
  if r.allowedTokenIds = [] then false else !r.allowedTokenIds.contains token

def badWords : Option (List (List Nat)) :=
  if r.badWordsTokenIds = [] then none else some r.badWordsTokenIds

end CachedRequestState

/-- The row of a block table has exactly these blocks. -/
def BlockRow.Has (row : BlockRow) (ids : List Nat) : Prop :=
  row.numBlocksPerRow = ids.length ∧ ∀ j id, ids[j]? = some id → row.blockTable j = id

/-- All that the row stores is that of the request. -/
structure Holds [Zero φ] (r : CachedRequestState cfg ρ ε γ φ) (row : Row cfg ε γ φ) : Prop where
  tokenIds : ∀ j token, r.tokenAt j = some token → row.tokenIds j = token
  isTokenIds : ∀ j, j < r.numTokens → row.isTokenIds j = r.isTokenAt j
  promptEmbeds : row.promptEmbeds = r.promptEmbeds
  numTokensNoSpec : row.numTokensNoSpec = r.numTokens
  numPromptTokens : row.numPromptTokens = r.numPromptTokens
  numComputedTokens : row.numComputedTokens = r.numComputedTokens
  blocks : ∀ g, (row.blocks g).Has (mapToKernelBlocks (cfg.blocksPerKvBlock g) (r.blockIds g))
  sampling : ∀ params, r.params = .sampling params → row.sampling = samplingRow cfg params
  loraMapping : row.loraMapping = r.loraRequest.getD 0
  generator : row.generator = r.samplingGenerator
  badWordsTokenIds : row.badWordsTokenIds = r.badWords
  allowedTokenIdsMask : ∀ token, row.allowedTokenIdsMask token = r.isMasked token

/-- The row has no entry in the dictionaries that a sampling request may leave empty. -/
structure Bare (row : Row cfg ε γ φ) : Prop where
  generator : row.generator = none
  badWordsTokenIds : row.badWordsTokenIds = none

def Unmasked (row : Row cfg ε γ φ) : Prop := ∀ token, row.allowedTokenIdsMask token = false

variable {α : Type} {start j : Nat}

theorem writeSlice_of_getElem? {row : Nat → α} {values : List α} {v : α} (le : start ≤ j)
    (at_ : values[j - start]? = some v) : writeSlice row start values j = v := by
  rw [writeSlice, if_pos le, getD_eq_getElem?_getD, at_]
  rfl

theorem writeSlice_of_lt {row : Nat → α} (values : List α) (lt : j < start) :
    writeSlice row start values j = row j :=
  if_neg (by omega)

theorem copySlice_of_lt {src tgt : Nat → α} {n : Nat} (lt : j < n) :
    copySlice n src tgt j = src j :=
  if_pos lt

theorem tokenAt_lt {r : CachedRequestState cfg ρ ε γ φ} {token : Nat}
    (at_ : r.tokenAt j = some token) : j < r.numTokens := by
  unfold tokenAt at at_
  unfold numTokens
  split at at_
  · omega
  · have := (List.getElem?_eq_some_iff.mp at_).1
    omega

theorem BlockRow.Has.moveRow {src : BlockRow} {ids : List Nat} (has : src.Has ids)
    (tgt : BlockRow) : (src.moveRow tgt).Has ids := by
  refine ⟨has.1, fun j id at_ => ?_⟩
  have lt : j < src.numBlocksPerRow := by
    rw [has.1]
    exact (List.getElem?_eq_some_iff.mp at_).1
  exact (copySlice_of_lt lt).trans (has.2 j id at_)

section Rows

variable [Zero φ] {r : CachedRequestState cfg ρ ε γ φ} {row src tgt other : Row cfg ε γ φ}

/-- A request that is added to a row where nothing is left over. -/
theorem holds_addRequest (bare : Bare row)
    (embeds : r.promptEmbeds = none → row.promptEmbeds = none)
    (mask : r.allowedTokenIds = [] → Unmasked row) : Holds r (row.addRequest r) where
  tokenIds := by
    intro j token at_
    unfold tokenAt at at_
    split at at_
    · rename_i lt
      obtain ⟨ids, given, at_⟩ := Option.bind_eq_some_iff.mp at_
      simp only [Row.addRequest]
      rw [writeSlice_of_lt _ lt, given]
      exact writeSlice_of_getElem? (Nat.zero_le _) at_
    · rename_i le
      exact writeSlice_of_getElem? (not_lt.mp le) at_
  isTokenIds := by
    intro j lt
    unfold isTokenAt
    by_cases inPrompt : j < r.numPromptTokens
    · rw [if_pos inPrompt]
      exact copySlice_of_lt inPrompt
    · rw [if_neg inPrompt]
      refine (if_neg inPrompt).trans (writeSlice_of_getElem? (not_lt.mp inPrompt) ?_)
      unfold numTokens at lt
      rw [getElem?_map, getElem?_eq_getElem (by omega)]
      rfl
  promptEmbeds := by
    simp only [Row.addRequest]
    cases given : r.promptEmbeds with
    | none => exact (Option.none_or).trans (embeds given)
    | some embeds => rfl
  numTokensNoSpec := rfl
  numPromptTokens := rfl
  numComputedTokens := rfl
  blocks := fun g => ⟨rfl, fun _ _ at_ => writeSlice_of_getElem? (Nat.zero_le _) at_⟩
  sampling := by
    intro params given
    simp only [Row.addRequest, given]
  loraMapping := rfl
  generator := by
    simp only [Row.addRequest, bare.generator, Option.or_none]
  badWordsTokenIds := by
    simp only [Row.addRequest, bare.badWordsTokenIds, badWords]
  allowedTokenIdsMask := by
    intro token
    simp only [Row.addRequest, isMasked]
    split
    · rename_i none
      exact mask none token
    · rfl

/-- What concerns sampling is stored as the request has it. -/
structure HoldsSampling (r : CachedRequestState cfg ρ ε γ φ) (row : Row cfg ε γ φ) : Prop where
  sampling : ∀ params, r.params = .sampling params → row.sampling = samplingRow cfg params
  generator : row.generator = r.samplingGenerator
  badWordsTokenIds : row.badWordsTokenIds = r.badWords
  allowedTokenIdsMask : ∀ token, row.allowedTokenIdsMask token = r.isMasked token

/-- A pooling request needs nothing of that. -/
theorem holdsSampling_of_pooling (pooling : r.params = .pooling) (bare : Bare row)
    (unmasked : Unmasked row) : HoldsSampling r row where
  sampling := by simp [pooling]
  generator := by rw [bare.generator, samplingGenerator, pooling]
  badWordsTokenIds := by
    simp [bare.badWordsTokenIds, badWords,
      badWordsTokenIds, pooling]
  allowedTokenIdsMask := by
    intro token
    simp [unmasked token, isMasked, allowedTokenIds, pooling]

variable {numTokens : Nat}

/-- Whatever else changes, the active tokens and the counts are copied. -/
theorem Holds.copied (holds : Holds r src) (active : r.numTokens ≤ numTokens)
    (tokenIds : row.tokenIds = copySlice numTokens src.tokenIds tgt.tokenIds)
    (isTokenIds : row.isTokenIds = copySlice numTokens src.isTokenIds tgt.isTokenIds)
    (embeds : row.promptEmbeds = src.promptEmbeds)
    (numTokensNoSpec : row.numTokensNoSpec = src.numTokensNoSpec)
    (numPromptTokens : row.numPromptTokens = src.numPromptTokens)
    (numComputedTokens : row.numComputedTokens = src.numComputedTokens)
    (blocks : ∀ g ids, (src.blocks g).Has ids → (row.blocks g).Has ids)
    (loraMapping : row.loraMapping = src.loraMapping) (sampling : HoldsSampling r row) :
    Holds r row where
  tokenIds := by
    intro j token at_
    rw [tokenIds, copySlice_of_lt ((tokenAt_lt at_).trans_le active)]
    exact holds.tokenIds j token at_
  isTokenIds := by
    intro j lt
    rw [isTokenIds, copySlice_of_lt (lt.trans_le active)]
    exact holds.isTokenIds j lt
  promptEmbeds := embeds.trans holds.promptEmbeds
  numTokensNoSpec := numTokensNoSpec.trans holds.numTokensNoSpec
  numPromptTokens := numPromptTokens.trans holds.numPromptTokens
  numComputedTokens := numComputedTokens.trans holds.numComputedTokens
  blocks := fun g => blocks g _ (holds.blocks g)
  loraMapping := loraMapping.trans holds.loraMapping
  sampling := sampling.sampling
  generator := sampling.generator
  badWordsTokenIds := sampling.badWordsTokenIds
  allowedTokenIdsMask := sampling.allowedTokenIdsMask

/-- In a pooling model what concerns sampling is not moved, and is not needed. -/
structure PoolingOnly (r : CachedRequestState cfg ρ ε γ φ) (row : Row cfg ε γ φ) : Prop where
  params : r.params = .pooling
  bare : Bare row
  unmasked : Unmasked row

theorem Holds.poolingOnly (holds : Holds r row) (params : r.params = .pooling) :
    PoolingOnly r row where
  params := params
  bare := by
    constructor
    · rw [holds.generator, CachedRequestState.samplingGenerator, params]
    · simp [holds.badWordsTokenIds, CachedRequestState.badWords,
        CachedRequestState.badWordsTokenIds, params]
  unmasked := by
    intro token
    simp [holds.allowedTokenIdsMask, isMasked,
      allowedTokenIds, params]

/-- A request that is moved to a row where nothing is left over. -/
theorem Holds.moveTo (holds : Holds r src) (active : r.numTokens ≤ numTokens) (bare : Bare tgt)
    (embeds : tgt.promptEmbeds = none) (pooling : cfg.isPoolingModel = true → PoolingOnly r tgt) :
    Holds r (src.moveTo numTokens tgt) := by
  have noEmbeds : src.promptEmbeds.or tgt.promptEmbeds = src.promptEmbeds := by
    rw [embeds, Option.or_none]
  unfold Row.moveTo
  split
  · rename_i isPooling
    obtain ⟨params, bare, unmasked⟩ := pooling isPooling
    exact holds.copied active rfl rfl noEmbeds rfl rfl rfl (fun g _ has => has.moveRow _) rfl
      (holdsSampling_of_pooling params { bare with } unmasked)
  · refine holds.copied active rfl rfl noEmbeds rfl rfl rfl (fun g _ has => has.moveRow _) rfl
      ⟨holds.sampling, ?_, ?_, holds.allowedTokenIdsMask⟩
    · simp only [bare.generator, Option.or_none]
      exact holds.generator
    · simp only [bare.badWordsTokenIds, Option.or_none]
      exact holds.badWordsTokenIds

theorem Holds.swapWith (holds : Holds r other) (active : r.numTokens ≤ numTokens)
    {mask : Nat → Bool} (mask_eq : cfg.isPoolingModel = false → mask = other.allowedTokenIdsMask)
    (pooling : cfg.isPoolingModel = true → PoolingOnly r row) :
    Holds r (row.swapWith other numTokens mask) := by
  unfold Row.swapWith
  split
  · rename_i isPooling
    obtain ⟨params, bare, unmasked⟩ := pooling isPooling
    exact holds.copied active rfl rfl rfl rfl rfl rfl (fun _ _ has => has) rfl
      (holdsSampling_of_pooling params { bare with } unmasked)
  · rename_i isPooling
    refine holds.copied active rfl rfl rfl rfl rfl rfl (fun _ _ has => has) rfl
      ⟨holds.sampling, holds.generator, holds.badWordsTokenIds, fun token => ?_⟩
    have := mask_eq (Bool.not_eq_true _ ▸ isPooling)
    subst this
    exact holds.allowedTokenIdsMask token

theorem Holds.numTokens_le {s : InputBatch cfg ρ ε γ φ} {i : Nat} (holds : Holds r (s.rows i)) :
    r.numTokens ≤ s.getActiveTokenCount i := by
  rw [getActiveTokenCount, holds.numTokensNoSpec]
  exact Nat.le_add_right _ _

end Rows

/-! ### The map of requests -/

/-- Requests by their id: what the batch stands for. -/
abbrev RequestMap (cfg : Config) (ρ ε γ φ : Type) : Type :=
  ρ → Option (CachedRequestState cfg ρ ε γ φ)

/-- The request at a row, if there is one. -/
def activeAt (reqIds : List (Option ρ)) (i : Nat) : Option ρ := reqIds[i]?.join

variable {reqIds : List (Option ρ)} {i : Nat} {id : ρ}

theorem activeAt_eq_some : activeAt reqIds i = some id ↔ reqIds[i]? = some (some id) :=
  Option.join_eq_some_iff

theorem lt_of_activeAt (at_ : activeAt reqIds i = some id) : i < reqIds.length :=
  (List.getElem?_eq_some_iff.mp (activeAt_eq_some.mp at_)).1

theorem activeAt_set (lt : i < reqIds.length) (x : Option ρ) :
    activeAt (reqIds.set i x) = update (activeAt reqIds) i x := by
  funext j
  rcases eq_or_ne j i with rfl | here
  · simp [activeAt, lt]
  · simp [activeAt, getElem?_set_ne (Ne.symm here), here]

theorem activeAt_append (reqIds : List (Option ρ)) (id : ρ) :
    activeAt (reqIds ++ [some id]) = update (activeAt reqIds) reqIds.length (some id) := by
  funext j
  rcases lt_trichotomy j reqIds.length with lt | rfl | gt
  · simp [activeAt, getElem?_append_left lt, lt.ne]
  · simp [activeAt]
  · have : (reqIds ++ [some id]).length ≤ j := by simpa using Nat.succ_le_of_lt gt
    simp [activeAt, getElem?_eq_none this, getElem?_eq_none gt.le, gt.ne']

section Batch

variable [DecidableEq ρ] [Zero φ]

/-- The request that is at each row, if there is one; the dictionary is the inverse; the rows
hold the requests of the map, and rows without a request are bare. -/
structure Core (active : Nat → Option ρ) (index : Dict ρ Nat) (rows : Nat → Row cfg ε γ φ)
    (m : RequestMap cfg ρ ε γ φ) : Prop where
  inverse : ∀ {id i}, index.get? id = some i ↔ active i = some id
  held : ∀ {i id}, active i = some id → ∃ r, m id = some r ∧ r.reqId = id ∧ Holds r (rows i)
  domain : ∀ {id r}, m id = some r → ∃ i, active i = some id
  idle : ∀ {i}, active i = none → Bare (rows i)
  pooling : cfg.isPoolingModel = true → (∀ i, Bare (rows i) ∧ Unmasked (rows i)) ∧
    ∀ id r, m id = some r → r.params = .pooling

namespace Core

variable {active : Nat → Option ρ} {index : Dict ρ Nat} {rows : Nat → Row cfg ε γ φ}
  {m : RequestMap cfg ρ ε γ φ} {i j : Nat} {id id' : ρ}

theorem inj (core : Core active index rows m) (ati : active i = some id)
    (atj : active j = some id) : i = j :=
  Option.some.inj ((core.inverse.mpr ati).symm.trans (core.inverse.mpr atj))

variable {r : CachedRequestState cfg ρ ε γ φ} {row : Row cfg ε γ φ}

section

variable (core : Core active index rows m)
include core

theorem poolingOnly (mapped : m id = some r) (j : Nat) (pooling : cfg.isPoolingModel = true) :
    PoolingOnly r (rows j) :=
  have ⟨all, params⟩ := core.pooling pooling
  ⟨params _ _ mapped, (all j).1, (all j).2⟩

/-- A row is written. The requests at the others stay in the map, and no more than the one at this
row comes to it. -/
theorem write {new : Option ρ} {index' : Dict ρ Nat} {m' : RequestMap cfg ρ ε γ φ}
    (inverse : ∀ {id j}, index'.get? id = some j ↔ update active i new j = some id)
    (held : ∀ {id}, new = some id → ∃ r, m' id = some r ∧ r.reqId = id ∧ Holds r row ∧
      (cfg.isPoolingModel = true → r.params = .pooling))
    (idle : new = none → Bare row ∧ (cfg.isPoolingModel = true → Unmasked row))
    (others : ∀ {j id}, j ≠ i → active j = some id → m' id = m id)
    (mapped : ∀ {id r}, m' id = some r → new = some id ∨ m id = some r ∧ active i ≠ some id) :
    Core (update active i new) index' (update rows i row) m' := by
  have here := fun {α : Type} (f : Nat → α) (a : α) => update_self i a f
  constructor
  case inverse => exact inverse
  case held =>
    intro j id at_
    by_cases same : j = i
    · rw [same, here] at at_ ⊢
      obtain ⟨r, mapped, eq, holds, -⟩ := held at_
      exact ⟨r, mapped, eq, holds⟩
    · rw [update_of_ne same] at at_ ⊢
      rw [others same at_]
      exact core.held at_
  case domain =>
    intro id r isMapped
    rcases mapped isMapped with isNew | ⟨old, other⟩
    · exact ⟨i, (here _ _).trans isNew⟩
    · obtain ⟨j, at_⟩ := core.domain old
      have ne : j ≠ i := fun same => other (same ▸ at_)
      exact ⟨j, (update_of_ne ne ..).trans at_⟩
  case idle =>
    intro j none
    by_cases same : j = i
    · rw [same, here] at none ⊢
      exact (idle none).1
    · rw [update_of_ne same] at none ⊢
      exact core.idle none
  case pooling =>
    intro isPooling
    obtain ⟨all, params⟩ := core.pooling isPooling
    refine ⟨fun j => ?_, fun id r isMapped => ?_⟩
    · by_cases same : j = i
      · rw [same, here]
        cases isNew : new with
        | none => exact (idle isNew).imp_right (· isPooling)
        | some id =>
          obtain ⟨r, -, -, holds, params⟩ := held isNew
          have only := holds.poolingOnly (params isPooling)
          exact ⟨only.bare, only.unmasked⟩
      · rw [update_of_ne same]
        exact all j
    · rcases mapped isMapped with isNew | ⟨old, -⟩
      · obtain ⟨_, same, -, -, params⟩ := held isNew
        cases isMapped.symm.trans same
        exact params isPooling
      · exact params id r old

theorem add (free : active i = none) (fresh : index.get? r.reqId = none) (holds : Holds r row)
    (pooling : cfg.isPoolingModel = true → r.params = .pooling) :
    Core (update active i (some r.reqId)) (index.set r.reqId i)
      (update rows i row) (update m r.reqId (some r)) := by
  have absent : ∀ {j}, active j ≠ some r.reqId := by
    intro j at_
    rw [core.inverse.mpr at_] at fresh
    cases fresh
  refine core.write ?_ ?_ (by cases ·) ?_ ?_
  · intro id j
    rw [get?_set, update_apply]
    split <;> split
    · exact iff_of_true (congrArg _ ‹j = i›.symm) (congrArg _ ‹id = _›.symm)
    · exact iff_of_false (fun eq => ‹¬ j = i› (Option.some.inj eq).symm) (‹id = _› ▸ absent)
    · rw [core.inverse, ‹j = i›, free]
      exact iff_of_false (by cases ·) fun eq => ‹¬ id = _› (Option.some.inj eq).symm
    · exact core.inverse
  · rintro _ ⟨⟩
    exact ⟨r, update_self .., rfl, holds, pooling⟩
  · exact fun _ at_ => update_of_ne (fun same => absent (same ▸ at_)) ..
  · intro id other mapped
    rw [update_apply] at mapped
    split at mapped
    · exact .inl (congrArg _ ‹id = _›.symm)
    · exact .inr ⟨mapped, by rw [free]; exact (by cases ·)⟩

theorem remove (at_ : active i = some id) (bare : Bare row)
    (pooling : cfg.isPoolingModel = true → Unmasked row) :
    Core (update active i none) (index.erase id) (update rows i row) (update m id none) := by
  refine core.write ?_ (by cases ·) (fun _ => ⟨bare, pooling⟩) ?_ ?_
  · intro other j
    rw [get?_erase, update_apply]
    split <;> split
    · exact iff_of_false (by cases ·) (by cases ·)
    · refine iff_of_false (by cases ·) fun atj => ‹¬ j = i› (core.inj atj ?_)
      rwa [‹other = id›]
    · rw [core.inverse, ‹j = i›, at_]
      exact iff_of_false (fun eq => ‹¬ other = id› (Option.some.inj eq).symm) (by cases ·)
    · exact core.inverse
  · intro j other here atj
    have ne : other ≠ id := fun same => here (core.inj atj (same ▸ at_))
    exact update_of_ne ne ..
  · intro other r mapped
    rw [update_apply] at mapped
    split at mapped
    · cases mapped
    · exact .inr ⟨mapped, fun eq => ‹¬ other = id› (Option.some.inj (at_.symm.trans eq)).symm⟩

/-- Only what the dictionary returns matters. -/
theorem congr {index' : Dict ρ Nat} (same : ∀ id, index'.get? id = index.get? id) :
    Core active index' rows m :=
  { core with
    inverse := by
      intro id i
      rw [same]
      exact core.inverse }

/-- A row is written with what holds the same request. -/
theorem setRow (at_ : active i = some id)
    (holds : ∀ r, m id = some r → Holds r (rows i) → Holds r row) :
    Core active index (update rows i row) m := by
  rw [← update_eq_self i active]
  refine core.write ?_ ?_ ?_ (fun _ _ => rfl) ?_
  · rw [update_eq_self]
    exact core.inverse
  · intro other same
    cases at_.symm.trans same
    obtain ⟨r, mapped, eq, held⟩ := core.held at_
    exact ⟨r, mapped, eq, holds r mapped held, fun isPooling => (core.pooling isPooling).2 _ _ mapped⟩
  · rw [at_]
    nofun
  · intro other r mapped
    exact (em _).imp_right fun ne => ⟨mapped, ne⟩

theorem move {src tgt : Row cfg ε γ φ} {e l : Nat} (from_ : active l = some id)
    (free : active e = none) (mapped : m id = some r) (bare : Bare src)
    (pooling : cfg.isPoolingModel = true → Unmasked src) (holds : Holds r tgt) :
    Core (update (update active l none) e (some id)) (index.set id e)
      (update (update rows l src) e tgt) m := by
  obtain ⟨other, same, rfl, -⟩ := core.held from_
  cases mapped.symm.trans same
  have params : cfg.isPoolingModel = true → r.params = .pooling :=
    fun isPooling => (core.pooling isPooling).2 _ _ mapped
  have left := core.remove from_ bare pooling
  have ne : e ≠ l := by
    rintro rfl
    rw [free] at from_
    cases from_
  have back := left.add (by rw [update_of_ne ne, free]) (get?_erase_self _ _) holds params
  have map : update (update m r.reqId none) r.reqId (some r) = m := by
    rw [update_idem, ← mapped, update_eq_self]
  rw [map] at back
  refine back.congr fun id => ?_
  rw [get?_set, get?_set, get?_erase]
  split <;> rfl

end

/-- Two cells that are emptied and then written. -/
theorem update_update_of_ne {α : Type} (f : Nat → α) (ne : i ≠ j) (a b c d : α) :
    update (update (update (update f i a) j b) i c) j d = update (update f i c) j d := by
  rw [update_comm ne.symm, update_idem, update_idem]

theorem swap (core : Core active index rows m) {rowi rowj : Row cfg ε γ φ}
    {ri rj : CachedRequestState cfg ρ ε γ φ} (ne : i ≠ j) (ati : active i = some id)
    (atj : active j = some id') (mappedi : m id = some ri) (mappedj : m id' = some rj)
    (holdsi : Holds rj rowi) (holdsj : Holds ri rowj) :
    Core (update (update active i (some id')) j (some id))
      ((index.set id j).set id' i) (update (update rows i rowi) j rowj) m := by
  obtain ⟨_, same, rfl, -⟩ := core.held ati
  cases mappedi.symm.trans same
  obtain ⟨_, same, rfl, -⟩ := core.held atj
  cases mappedj.symm.trans same
  have idNe : ri.reqId ≠ rj.reqId := fun eq => ne (core.inj ati (eq ▸ atj))
  have params : ∀ {id r}, m id = some r → cfg.isPoolingModel = true → r.params = .pooling :=
    fun mapped isPooling => (core.pooling isPooling).2 _ _ mapped
  -- both requests are taken out, and put back
  let empty : Row cfg ε γ φ := { rowi with
    generator := none, badWordsTokenIds := none, allowedTokenIdsMask := fun _ => false }
  have bare : Bare empty := ⟨rfl, rfl⟩
  have unmasked : Unmasked empty := fun _ => rfl
  have without := (core.remove ati bare fun _ => unmasked).remove
    (by rw [update_of_ne ne.symm, atj]) bare fun _ => unmasked
  have one := without.add (by rw [update_of_ne ne, update_self])
    (get?_erase_self _ _) holdsi (params mappedj)
  have both := one.add (i := j)
    (by rw [update_of_ne ne.symm, update_self])
    (by rw [get?_set_of_ne _ idNe, get?_erase_of_ne _ idNe, get?_erase_self])
    holdsj (params mappedi)
  rw [update_update_of_ne _ ne, update_update_of_ne _ ne] at both
  have map : update (update (update (update m ri.reqId none)
      rj.reqId none) rj.reqId (some rj)) ri.reqId (some ri) = m := by
    rw [update_idem, update_comm idNe, update_idem, ← mappedi, ← mappedj,
      update_eq_self, update_eq_self]
  rw [map] at both
  refine both.congr fun id => ?_
  simp only [get?_set, get?_erase]
  by_cases eqi : id = ri.reqId
  · simp [eqi, idNe]
  · by_cases eqj : id = rj.reqId <;> simp [eqi, eqj, idNe.symm]

end Core

/-! ### Batches -/

namespace InputBatch

/-- The batch refines the map, up to empty rows. -/
def Core (s : InputBatch cfg ρ ε γ φ) (m : RequestMap cfg ρ ε γ φ) : Prop :=
  Worker.Core (activeAt s.reqIds) s.reqIdToIndex s.rows m

/-- While requests are removed and added: the empty rows are those that are registered as
removed. -/
structure Open (s : InputBatch cfg ρ ε γ φ) (m : RequestMap cfg ρ ε γ φ) : Prop where
  core : s.Core m
  removed : ∀ {i}, i ∈ s.removed ↔ i < s.reqIds.length ∧ activeAt s.reqIds i = none
  nodup : s.removed.Nodup
  sorted : s.isRemovedSorted = true → s.removed.Pairwise (· ≤ ·)

/-- After `condense`: there is no empty row. -/
structure Full (s : InputBatch cfg ρ ε γ φ) (m : RequestMap cfg ρ ε γ φ) : Prop where
  core : s.Core m
  active : ∀ {i}, i < s.reqIds.length → activeAt s.reqIds i ≠ none

variable {s : InputBatch cfg ρ ε γ φ} {m : RequestMap cfg ρ ε γ φ}

variable {holes : List Nat} {e last : Nat} {s' : InputBatch cfg ρ ε γ φ}
  {r : CachedRequestState cfg ρ ε γ φ} {reqId : ρ}

/-- Requests and empty rows together are the rows. -/
theorem Core.numReqs_add {n : Nat} (core : s.Core m) (nodup : holes.Nodup)
    (empty : ∀ i, i ∈ holes → activeAt s.reqIds i = none)
    (covers : ∀ i, i < n ↔ activeAt s.reqIds i ≠ none ∨ i ∈ holes) :
    s.numReqs + holes.length = n := by
  have values : ∀ i, i ∈ s.reqIdToIndex.entries.map Prod.snd ↔ activeAt s.reqIds i ≠ none := by
    intro i
    constructor
    · intro mem
      obtain ⟨entry, memEntry, rfl⟩ := mem_map.mp mem
      have := core.inverse.mp (mem_contents.mp memEntry)
      rw [this]
      simp
    · intro some
      obtain ⟨id, at_⟩ := Option.ne_none_iff_exists'.mp some
      have := mem_entries_of_get? (core.inverse.mpr at_)
      exact mem_map.mpr ⟨_, this, rfl⟩
  have nodupValues : (s.reqIdToIndex.entries.map Prod.snd).Nodup := by
    refine List.Nodup.map_on ?_ (List.Nodup.of_map _ s.reqIdToIndex.nodup)
    intro a memA b memB eq
    have ata := core.inverse.mp (mem_contents.mp memA)
    have atb := core.inverse.mp (mem_contents.mp memB)
    rw [eq, atb] at ata
    exact Prod.ext (Option.some.inj ata).symm eq
  have perm : (s.reqIdToIndex.entries.map Prod.snd ++ holes).Perm (range n) := by
    refine (perm_ext_iff_of_nodup ?_ nodup_range).mpr fun i => ?_
    · refine nodup_append.mpr ⟨nodupValues, nodup, ?_⟩
      rintro i mem _ hole rfl
      exact (values i).mp mem (empty i hole)
    · rw [mem_append, values, mem_range, covers]
  have := perm.length_eq
  simpa [numReqs] using this

/-- The row that the next request gets: the lowest one that is registered as removed, or one at
the end. -/
def nextIndex (s : InputBatch cfg ρ ε γ φ) : Nat := s.popRemoved.1.getD s.popRemoved.2.numReqs

theorem Open.numReqs_add (opened : s.Open m) : s.numReqs + s.removed.length = s.reqIds.length := by
  refine opened.core.numReqs_add opened.nodup (fun i mem => (opened.removed.mp mem).2) fun i => ?_
  rw [opened.removed]
  constructor
  · intro lt
    by_cases empty : activeAt s.reqIds i = none
    · exact .inr ⟨lt, empty⟩
    · exact .inl empty
  · rintro (some | ⟨lt, -⟩)
    · obtain ⟨id, at_⟩ := Option.ne_none_iff_exists'.mp some
      exact lt_of_activeAt at_
    · exact lt

theorem Open.ensureRemovedSorted (opened : s.Open m) : s.ensureRemovedSorted.Open m := by
  unfold InputBatch.ensureRemovedSorted
  split
  · exact opened
  · exact {
      core := opened.core
      removed := by
        intro i
        rw [mem_insertionSort]
        exact opened.removed
      nodup := (perm_insertionSort _ _).nodup_iff.mpr opened.nodup
      sorted := fun _ => pairwise_insertionSort _ _ }

omit [DecidableEq ρ] [Zero φ] in
/-- Nothing else is touched. -/
theorem ensureRemovedSorted_eq (s : InputBatch cfg ρ ε γ φ) :
    s.ensureRemovedSorted =
      { s with removed := s.ensureRemovedSorted.removed, isRemovedSorted := true } := by
  by_cases sorted : s.isRemovedSorted = true
  · cases s
    cases sorted
    rfl
  · rw [ensureRemovedSorted, if_neg sorted]

/-- The next request gets a row that has none, and the other empty rows stay registered. -/
structure Registered (s : InputBatch cfg ρ ε γ φ) (removed : List Nat) (sorted : Bool) : Prop where
  pop : s.popRemoved.2 = { s with removed := removed, isRemovedSorted := sorted }
  le : s.nextIndex ≤ s.reqIds.length
  empty : activeAt s.reqIds s.nextIndex = none
  mem : ∀ {i}, i ∈ removed ↔ (i < s.reqIds.length ∧ activeAt s.reqIds i = none) ∧ i ≠ s.nextIndex
  nodup : removed.Nodup
  sorted : sorted = true → removed.Pairwise (· ≤ ·)

omit [DecidableEq ρ] [Zero φ] in
theorem popRemoved_cons {rest : List Nat} (some : s.removed ≠ [])
    (sorted : s.ensureRemovedSorted.removed = e :: rest) :
    s.popRemoved = (Option.some e, { s with removed := rest, isRemovedSorted := true }) := by
  cases removed : s.removed with
  | nil => exact absurd removed some
  | cons hole more =>
    have eq := s.ensureRemovedSorted_eq
    rw [sorted] at eq
    simp only [popRemoved]
    rw [eq]
    rfl

theorem Open.registered (opened : s.Open m) : ∃ removed sorted, s.Registered removed sorted := by
  by_cases none : s.removed = []
  · have pop : s.popRemoved = (Option.none, s) := by simp [popRemoved, none]
    have index : s.nextIndex = s.reqIds.length := by
      have := opened.numReqs_add
      rw [none] at this
      rw [nextIndex, pop]
      exact this
    refine ⟨s.removed, s.isRemovedSorted, ?_⟩
    constructor
    case pop => rw [pop]
    case le => exact index.le
    case empty =>
      rw [index]
      simp [activeAt]
    case mem =>
      intro i
      rw [opened.removed, index]
      constructor
      · intro empty
        exact ⟨empty, empty.1.ne⟩
      · exact fun empty => empty.1
    case nodup => exact opened.nodup
    case sorted => exact opened.sorted
  · have sorted := opened.ensureRemovedSorted
    have reqIds : s.ensureRemovedSorted.reqIds = s.reqIds := by rw [s.ensureRemovedSorted_eq]
    have flag : s.ensureRemovedSorted.isRemovedSorted = true := by rw [s.ensureRemovedSorted_eq]
    cases removed : s.ensureRemovedSorted.removed with
    | nil =>
      obtain ⟨hole, mem⟩ := exists_mem_of_ne_nil _ none
      have := sorted.removed.mpr (reqIds ▸ opened.removed.mp mem)
      rw [removed] at this
      cases this
    | cons e rest =>
      have pop := popRemoved_cons none removed
      have index : s.nextIndex = e := by rw [nextIndex, pop]; rfl
      have mem := @sorted.removed
      have nodup := sorted.nodup
      have ordered := sorted.sorted flag
      rw [removed] at nodup ordered
      simp only [removed, reqIds, mem_cons] at mem
      have first := mem.mp (.inl rfl)
      refine ⟨rest, true, ?_⟩
      constructor
      case pop => rw [pop]
      case le => exact index ▸ first.1.le
      case empty => exact index ▸ first.2
      case mem =>
        intro i
        rw [index, ← mem]
        constructor
        · intro memRest
          refine ⟨.inr memRest, ?_⟩
          rintro rfl
          exact (nodup_cons.mp nodup).1 memRest
        · rintro ⟨rfl | memRest, ne⟩
          · exact absurd rfl ne
          · exact memRest
      case nodup => exact (nodup_cons.mp nodup).2
      case sorted => exact fun _ => (pairwise_cons.mp ordered).2

theorem addRequest_eq {removed : List Nat} {sorted : Bool}
    (registered : s.Registered removed sorted) (run : s.addRequest r = .ok s') :
    s'.reqIdToIndex = s.reqIdToIndex.set r.reqId s.nextIndex ∧
      activeAt s'.reqIds = update (activeAt s.reqIds) s.nextIndex (some r.reqId) ∧
      s'.reqIds.length = max s.reqIds.length (s.nextIndex + 1) ∧
      s'.rows = update s.rows s.nextIndex ((s.rows s.nextIndex).addRequest r) ∧
      s'.removed = removed ∧ s'.isRemovedSorted = sorted := by
  have le := registered.le
  have index : s.popRemoved.1.getD
      (numReqs { s with removed := removed, isRemovedSorted := sorted }) = s.nextIndex := by
    rw [nextIndex, registered.pop]
  unfold addRequest at run
  dsimp only at run
  rw [registered.pop, index] at run
  split at run
  · cases run
  split at run
  · cases run
  cases run
  refine ⟨rfl, ?_, ?_, rfl, rfl, rfl⟩
  · split
    · rename_i atEnd
      rw [activeAt_append, atEnd]
    · exact activeAt_set (by omega) _
  · dsimp only
    split
    · rw [length_append, length_singleton]
      omega
    · rw [length_set]
      omega

theorem Open.addRequest (opened : s.Open m) (fresh : s.reqIdToIndex.get? r.reqId = none)
    (pooling : cfg.isPoolingModel = true → r.params = .pooling)
    (embeds : r.promptEmbeds = none → (s.rows s.nextIndex).promptEmbeds = none)
    (mask : r.allowedTokenIds = [] → Unmasked (s.rows s.nextIndex))
    (run : s.addRequest r = .ok s') : s'.Open (update m r.reqId (some r)) := by
  obtain ⟨removed, sorted, registered⟩ := opened.registered
  obtain ⟨index, active, length, rows, removedEq, sortedEq⟩ := addRequest_eq registered run
  have holds := holds_addRequest (opened.core.idle registered.empty) embeds mask
  have core := Worker.Core.add opened.core registered.empty fresh holds pooling
  constructor
  case core =>
    unfold Core
    rw [active, index, rows]
    exact core
  case removed =>
    intro i
    have le := registered.le
    rw [removedEq, registered.mem, active]
    rcases eq_or_ne i s.nextIndex with rfl | here
    · simp
    · rw [update_of_ne here]
      constructor
      · rintro ⟨⟨lt, empty⟩, -⟩
        exact ⟨by omega, empty⟩
      · rintro ⟨lt, empty⟩
        exact ⟨⟨by omega, empty⟩, here⟩
  case nodup => exact removedEq ▸ registered.nodup
  case sorted =>
    rw [removedEq, sortedEq]
    exact registered.sorted

theorem Open.removeRequest (opened : s.Open m) (run : s.removeRequest reqId = .ok s') :
    s'.Open (update m reqId none) := by
  unfold InputBatch.removeRequest at run
  cases found : s.reqIdToIndex.get? reqId with
  | none =>
    rw [found] at run
    cases run
    have absent : m reqId = none := by
      cases mapped : m reqId with
      | none => rfl
      | some r =>
        obtain ⟨i, at_⟩ := opened.core.domain mapped
        rw [opened.core.inverse.mpr at_] at found
        cases found
    rw [← absent, update_eq_self]
    exact opened
  | some index =>
    rw [found] at run
    obtain ⟨notSorted, run⟩ := guard_eq_ok.mp run
    cases run
    have at_ := opened.core.inverse.mp found
    have lt := lt_of_activeAt at_
    have active := activeAt_set lt (none : Option ρ)
    have pooling := opened.core.pooling
    have bare : Bare (s.rows index).removeRequest := by
      unfold Row.removeRequest
      split
      · rename_i isPooling
        have := ((pooling isPooling).1 index).1
        exact { this with }
      · exact ⟨rfl, rfl⟩
    have unmasked : cfg.isPoolingModel = true → Unmasked (s.rows index).removeRequest := by
      intro isPooling
      unfold Row.removeRequest
      rw [if_pos isPooling]
      exact ((pooling isPooling).1 index).2
    have core := Worker.Core.remove opened.core at_ bare unmasked
    have notMem : index ∉ s.removed := by
      intro mem
      rw [(opened.removed.mp mem).2] at at_
      cases at_
    constructor
    case core =>
      unfold Core
      rw [active]
      exact core
    case removed =>
      intro i
      rw [mem_append, opened.removed, active]
      rcases eq_or_ne i index with rfl | here
      · simp [lt]
      · simp [here]
    case nodup =>
      rw [← concat_eq_append]
      exact opened.nodup.concat notMem
    case sorted => exact fun flag => absurd flag notSorted

theorem Open.updateReqSpecTokenIds (opened : s.Open m) {specTokenIds : List Nat}
    (run : s.updateReqSpecTokenIds reqId specTokenIds = .ok s') :
    s'.Open m := by
  unfold InputBatch.updateReqSpecTokenIds at run
  cases found : s.reqIdToIndex.get? reqId with
  | none =>
    rw [found] at run
    cases run
  | some index =>
    rw [found] at run
    cases run
    have at_ := opened.core.inverse.mp found
    refine ⟨Worker.Core.setRow opened.core at_ ?_, opened.removed, opened.nodup, opened.sorted⟩
    intro r _ holds
    exact { holds with
      tokenIds := by
        intro j token known
        have lt := tokenAt_lt known
        rw [← holds.numTokensNoSpec] at lt
        exact (writeSlice_of_lt _ lt).trans (holds.tokenIds j token known)
      isTokenIds := by
        intro j lt
        have inside := lt
        rw [← holds.numTokensNoSpec] at inside
        exact (writeSlice_of_lt _ inside).trans (holds.isTokenIds j lt) }

/-! #### `condense` -/

/-- Where the search for the last request stops. -/
theorem skipEmpty_spec (holes : List Nat) (last : Nat) :
    skipEmpty holes last ≤ last ∧
      (∀ i, skipEmpty holes last < i → i ≤ last → i ∈ holes) ∧
      (skipEmpty holes last = 0 ∨ skipEmpty holes last ∉ holes) := by
  induction last with
  | zero => exact ⟨le_rfl, fun i lt le => absurd lt (by simp; omega), .inl rfl⟩
  | succ last ih =>
    unfold skipEmpty
    split
    · rename_i mem
      obtain ⟨le, skipped, stop⟩ := ih
      refine ⟨by omega, ?_, stop⟩
      intro i lt le'
      rcases Nat.lt_or_eq_of_le le' with lt' | rfl
      · exact skipped i lt (by omega)
      · exact mem
    · rename_i notMem
      exact ⟨le_rfl, fun i lt le => absurd lt (by omega), .inr notMem⟩

/-- In the loop of `condense`: no request is behind `last`, and the empty rows up to it are
those in the list, with no embeddings left over. -/
structure Condensing (holes : List Nat) (last : Nat) (s : InputBatch cfg ρ ε γ φ)
    (m : RequestMap cfg ρ ε γ φ) : Prop where
  core : s.Core m
  increasing : holes.Pairwise (· < ·)
  behind : ∀ {i}, activeAt s.reqIds i ≠ none → i ≤ last
  listed : ∀ {i}, i ≤ last → activeAt s.reqIds i = none → i ∈ holes
  empty : ∀ {i}, i ∈ holes → activeAt s.reqIds i = none
  inside : ∀ {i}, i ∈ holes → i < s.reqIds.length
  embeds : ∀ {i}, i ∈ holes → (s.rows i).promptEmbeds = none

theorem Condensing.moveDown {more : List Nat} {id : ρ} (loop : Condensing (e :: more) last s m)
    (before : e < skipEmpty (e :: more) last)
    (at_ : activeAt s.reqIds (skipEmpty (e :: more) last) = some id) :
    Condensing more (skipEmpty (e :: more) last - 1)
      (s.moveDown e (skipEmpty (e :: more) last) id) m := by
  obtain ⟨le, skipped, stop⟩ := skipEmpty_spec (e :: more) last
  set l := skipEmpty (e :: more) last
  obtain ⟨r, mapped, -, holds⟩ := loop.core.held at_
  have freeE := loop.empty mem_cons_self
  have lt := lt_of_activeAt at_
  have insideE : e < s.reqIds.length := by omega
  have ne : e ≠ l := by omega
  have active : activeAt (s.moveDown e l id).reqIds =
      update (update (activeAt s.reqIds) l none) e (some id) := by
    unfold InputBatch.moveDown
    rw [activeAt_set (by simpa using lt), activeAt_set insideE, update_comm ne]
  have pooling := fun isPooling => loop.core.poolingOnly mapped e isPooling
  have moved := holds.moveTo holds.numTokens_le (loop.core.idle freeE) (loop.embeds mem_cons_self)
    pooling
  have bare : Bare (s.rows l).moveAway := by
    unfold Row.moveAway
    split
    · rename_i isPooling
      have := ((loop.core.pooling isPooling).1 l).1
      exact { this with }
    · exact ⟨rfl, rfl⟩
  have unmasked : cfg.isPoolingModel = true → Unmasked (s.rows l).moveAway := by
    intro isPooling
    unfold Row.moveAway
    rw [if_pos isPooling]
    exact ((loop.core.pooling isPooling).1 l).2
  have core := Worker.Core.move loop.core at_ freeE mapped bare unmasked moved
  have after : ∀ {i}, i ∈ more → i ≠ e ∧ i ≠ l := by
    intro i mem
    refine ⟨((pairwise_cons.mp loop.increasing).1 i mem).ne', ?_⟩
    rintro rfl
    rcases stop with zero | notMem
    · omega
    · exact notMem (mem_cons_of_mem _ mem)
  constructor
  case core =>
    unfold Core
    rw [active]
    have rows : (s.moveDown e l id).rows = update (update s.rows l
        (s.rows l).moveAway) e ((s.rows l).moveTo (s.getActiveTokenCount l) (s.rows e)) :=
      update_comm ne _ _ _
    rw [rows]
    exact core
  case increasing => exact (pairwise_cons.mp loop.increasing).2
  case behind =>
    intro i some
    rw [active] at some
    by_cases here : i = e
    · omega
    rw [update_of_ne here] at some
    by_cases old : i = l
    · rw [old, update_self] at some
      exact absurd rfl some
    rw [update_of_ne old] at some
    by_contra gt
    exact some (loop.empty (skipped i (by omega) (loop.behind some)))
  case listed =>
    intro i le' none
    rw [active] at none
    by_cases here : i = e
    · rw [here, update_self] at none
      cases none
    rw [update_of_ne here, update_of_ne (by omega)] at none
    exact (mem_cons.mp (loop.listed (by omega) none)).resolve_left here
  case empty =>
    intro i mem
    obtain ⟨neE, neL⟩ := after mem
    rw [active, update_of_ne neE, update_of_ne neL]
    exact loop.empty (mem_cons_of_mem _ mem)
  case inside =>
    intro i mem
    unfold InputBatch.moveDown
    rw [length_set, length_set]
    exact loop.inside (mem_cons_of_mem _ mem)
  case embeds =>
    intro i mem
    obtain ⟨neE, neL⟩ := after mem
    unfold InputBatch.moveDown
    dsimp only
    rw [update_of_ne neL, update_of_ne neE]
    exact loop.embeds (mem_cons_of_mem _ mem)

/-- The rows up to some index are those that have a request. -/
def Packed (s : InputBatch cfg ρ ε γ φ) : Prop :=
  ∃ k, ∀ i, activeAt s.reqIds i ≠ none ↔ i < k

/-- The loop does not fail, and leaves no empty row below a request. -/
theorem Condensing.condenseLoop (loop : Condensing holes last s m) :
    ∃ s', condenseLoop holes last s = .ok s' ∧ s'.Core m ∧ s'.numReqs = s.numReqs ∧
      s'.Packed := by
  induction holes generalizing last s with
  | nil =>
    refine ⟨_, rfl, loop.core, rfl, last + 1, fun i => ?_⟩
    constructor
    · exact fun some => Nat.lt_succ_of_le (loop.behind some)
    · intro lt none
      exact not_mem_nil (loop.listed (Nat.le_of_lt_succ lt) none)
  | cons e more ih =>
    obtain ⟨le, skipped, stop⟩ := skipEmpty_spec (e :: more) last
    have lowest : ∀ i ∈ e :: more, e ≤ i := by
      intro i mem
      rcases mem_cons.mp mem with rfl | later
      · exact le_rfl
      · exact ((pairwise_cons.mp loop.increasing).1 i later).le
    have notBehind : ∀ {i}, activeAt s.reqIds i ≠ none → i ≤ skipEmpty (e :: more) last := by
      intro i some
      by_contra gt
      exact some (loop.empty (skipped i (by omega) (loop.behind some)))
    by_cases done : skipEmpty (e :: more) last ≤ e
    · refine ⟨_, if_pos done, loop.core, rfl, ?_⟩
      by_cases hole : skipEmpty (e :: more) last ∈ e :: more
      · -- there is no request at all
        have zero := stop.resolve_right (not_not.mpr hole)
        refine ⟨0, fun i => ⟨fun some => ?_, fun lt => absurd lt (Nat.not_lt_zero i)⟩⟩
        have first : i = skipEmpty (e :: more) last := by
          have := notBehind some
          omega
        exact absurd (loop.empty (first ▸ hole)) some
      · -- the empty rows are all behind the last request
        refine ⟨skipEmpty (e :: more) last + 1, fun i => ?_⟩
        constructor
        · exact fun some => Nat.lt_succ_of_le (notBehind some)
        · intro lt none
          have mem := loop.listed (by omega) none
          have := lowest i mem
          have same : i = skipEmpty (e :: more) last := by omega
          exact hole (same ▸ mem)
    · have notHole := stop.resolve_left (by omega)
      cases at_ : activeAt s.reqIds (skipEmpty (e :: more) last) with
      | none => exact absurd (loop.listed le at_) notHole
      | some id =>
        obtain ⟨s', run, core, numReqs, packed⟩ := ih (loop.moveDown (by omega) at_)
        refine ⟨s', ?_, core, numReqs.trans ?_, packed⟩
        · unfold condenseLoop
          rw [if_neg done, activeAt_eq_some.mp at_]
          exact run
        · exact length_set (loop.core.inverse.mpr at_) e

theorem Open.condensing (opened : s.Open m) (sorted : s.isRemovedSorted = true)
    (some : s.removed ≠ []) (embeds : ∀ i ∈ s.removed, (s.rows i).promptEmbeds = none) :
    Condensing s.removed (s.numReqs + s.removed.length - 1) s m := by
  have length := opened.numReqs_add
  have pos := length_pos_iff.mpr some
  constructor
  case core => exact opened.core
  case increasing =>
    exact ((opened.sorted sorted).and opened.nodup).imp fun both => lt_of_le_of_ne both.1 both.2
  case behind =>
    intro i some
    obtain ⟨id, at_⟩ := Option.ne_none_iff_exists'.mp some
    have := lt_of_activeAt at_
    omega
  case listed =>
    intro i le none
    exact opened.removed.mpr ⟨by omega, none⟩
  case empty => exact fun mem => (opened.removed.mp mem).2
  case inside => exact fun mem => (opened.removed.mp mem).1
  case embeds => exact fun mem => embeds _ mem

/-- `condense` does not fail, and leaves no empty row. -/
theorem Open.condense (opened : s.Open m)
    (embeds : ∀ i ∈ s.removed, (s.rows i).promptEmbeds = none) :
    ∃ s', s.condense = .ok s' ∧ s'.Full m := by
  have sorted := opened.ensureRemovedSorted
  have eq := s.ensureRemovedSorted_eq
  have numReqs : s.ensureRemovedSorted.numReqs = s.numReqs := by rw [eq]; rfl
  have reqIds : s.ensureRemovedSorted.reqIds = s.reqIds := by rw [eq]
  unfold InputBatch.condense
  by_cases none : s.ensureRemovedSorted.removed = []
  · refine ⟨_, if_pos none, sorted.core, fun {i} lt empty => ?_⟩
    have := sorted.removed.mpr ⟨lt, empty⟩
    rw [none] at this
    cases this
  rw [if_neg none]
  by_cases noReqs : s.numReqs = 0
  · refine ⟨_, if_pos noReqs, ?_, fun {i} lt => absurd lt (Nat.not_lt_zero i)⟩
    have inactive : activeAt s.ensureRemovedSorted.reqIds = activeAt [] := by
      funext i
      cases at_ : activeAt s.ensureRemovedSorted.reqIds i with
      | none => rfl
      | some id =>
        have found := mem_entries_of_get? (sorted.core.inverse.mpr at_)
        have := length_pos_of_mem found
        exact absurd (numReqs.trans noReqs) this.ne'
    unfold Core
    rw [← inactive]
    exact sorted.core
  rw [if_neg noReqs, ← numReqs]
  have noEmbeds : ∀ i ∈ s.ensureRemovedSorted.removed,
      (s.ensureRemovedSorted.rows i).promptEmbeds = Option.none := by
    intro i mem
    have rows : s.ensureRemovedSorted.rows = s.rows := by rw [eq]
    rw [rows]
    exact embeds i (opened.removed.mpr (reqIds ▸ sorted.removed.mp mem))
  have loop := sorted.condensing (by rw [eq]) none noEmbeds
  obtain ⟨s', run, core, count, k, packed⟩ := loop.condenseLoop
  have all : s'.numReqs = k := by
    have := core.numReqs_add nodup_nil nofun (n := k)
      fun i => by simp [packed i]
    simpa using this
  have trimmed : activeAt (s'.reqIds.take k) = activeAt s'.reqIds := by
    funext i
    by_cases lt : i < k
    · simp [activeAt, getElem?_take_of_lt lt]
    · have := not_not.mp (mt (packed i).mp lt)
      rw [this]
      simp [activeAt, lt]
  rw [run, ← count, all]
  refine ⟨_, rfl, ?_, ?_⟩
  · unfold Core
    rw [trimmed]
    exact core
  · intro i lt
    rw [trimmed]
    rw [length_take] at lt
    exact (packed i).mpr (by omega)

/-! #### Swaps, and the end of a step -/

/-- Two requests change their rows, if their masks are the same. -/
theorem Full.swapStates (full : s.Full m) {i1 i2 : Nat}
    (mask : cfg.isPoolingModel = false →
      (s.rows i1).allowedTokenIdsMask = (s.rows i2).allowedTokenIdsMask)
    (run : s.swapStates i1 i2 = .ok s') : s'.Full m := by
  unfold InputBatch.swapStates at run
  split at run
  · rename_i id1 id2 get1 get2
    cases run
    have at1 := activeAt_eq_some.mpr get1
    have at2 := activeAt_eq_some.mpr get2
    have lt1 := lt_of_activeAt at1
    have lt2 := lt_of_activeAt at2
    have index1 := full.core.inverse.mpr at1
    have index2 := full.core.inverse.mpr at2
    obtain ⟨r1, mapped1, -, holds1⟩ := full.core.held at1
    obtain ⟨r2, mapped2, -, holds2⟩ := full.core.held at2
    set numTokens := max (s.getActiveTokenCount i1) (s.getActiveTokenCount i2)
    set new1 := (s.rows i1).swapWith (s.rows i2) numTokens (s.rows i2).allowedTokenIdsMask
    have new1Mask : cfg.isPoolingModel = false →
        new1.allowedTokenIdsMask = (s.rows i1).allowedTokenIdsMask := by
      intro notPooling
      rw [mask notPooling]
      simp [new1, Row.swapWith, notPooling]
    have held1 : Holds r2 new1 :=
      holds2.swapWith (holds2.numTokens_le.trans (le_max_right _ _)) (fun _ => rfl)
        fun isPooling => full.core.poolingOnly mapped2 i1 isPooling
    have held2 : Holds r1 ((s.rows i2).swapWith (s.rows i1) numTokens new1.allowedTokenIdsMask) :=
      holds1.swapWith (holds1.numTokens_le.trans (le_max_left _ _)) new1Mask
        fun isPooling => full.core.poolingOnly mapped1 i2 isPooling
    have active : activeAt ((s.reqIds.set i1 (some id2)).set i2 (some id1)) =
        update (update (activeAt s.reqIds) i1 (some id2)) i2 (some id1) := by
      rw [activeAt_set (by simpa using lt2), activeAt_set lt1]
    constructor
    · unfold Core
      simp only [active, index1, index2, Option.getD_some]
      rcases eq_or_ne i1 i2 with rfl | ne
      · cases at1.symm.trans at2
        cases mapped1.symm.trans mapped2
        rw [update_idem, update_idem, ← at1, update_eq_self]
        refine (Worker.Core.setRow full.core at1 ?_).congr fun id => ?_
        · intro r mapped _
          cases mapped.symm.trans mapped1
          exact held2
        · by_cases same : id = id1
          · rw [same, get?_set_self, index1]
          · rw [get?_set_of_ne _ same, get?_set_of_ne _ same]
      · exact Worker.Core.swap full.core ne at1 at2 mapped1 mapped2 held1 held2
    · intro i lt
      rw [length_set, length_set] at lt
      rw [active]
      by_cases here2 : i = i2
      · simp [here2]
      · by_cases here1 : i = i1
        · simp [here1, here1 ▸ here2]
        · rw [update_of_ne here2, update_of_ne here1]
          exact full.active lt
  · cases run

theorem Full.refreshMetadata (full : s.Full m) : s.refreshMetadata.Open m where
  core := full.core
  removed := by
    intro i
    constructor
    · exact nofun
    · exact fun empty => absurd empty.2 (full.active empty.1)
  nodup := nodup_nil
  sorted := nofun

theorem open_new (row : Row cfg ε γ φ) :
    (new cfg row : InputBatch cfg ρ ε γ φ).Open fun _ => none where
  core := {
    inverse := by simp [new, activeAt]
    held := by simp [new, activeAt]
    domain := by simp
    idle := fun _ => ⟨rfl, rfl⟩
    pooling := fun _ => ⟨fun _ => ⟨⟨rfl, rfl⟩, fun _ => rfl⟩, by simp⟩ }
  removed := by simp [new]
  nodup := nodup_nil
  sorted := nofun

/-- The batch refines the map: the first `num_reqs` rows are those of the requests of the map,
and the dictionary is the inverse of `req_ids`. -/
structure Refines (s : InputBatch cfg ρ ε γ φ) (m : RequestMap cfg ρ ε γ φ) : Prop where
  length : s.reqIds.length = s.numReqs
  rows : ∀ i, i < s.numReqs → ∃ r, s.reqIds[i]? = some (some r.reqId) ∧ m r.reqId = some r ∧
    Holds r (s.rows i)
  inverse : ∀ id i, s.reqIdToIndex.get? id = some i ↔ s.reqIds[i]? = some (some id)
  domain : ∀ id r, m id = some r → ∃ i : Nat, s.reqIds[i]? = some (some id)

theorem Full.refines (full : s.Full m) : s.Refines m := by
  have length : s.numReqs = s.reqIds.length := by
    refine full.core.numReqs_add nodup_nil nofun
      fun i => ?_
    constructor
    · exact fun lt => .inl (full.active lt)
    · rintro (some | none)
      · obtain ⟨id, at_⟩ := Option.ne_none_iff_exists'.mp some
        exact lt_of_activeAt at_
      · cases none
  constructor
  case length => exact length.symm
  case rows =>
    intro i lt
    obtain ⟨id, at_⟩ := Option.ne_none_iff_exists'.mp (full.active (length ▸ lt))
    obtain ⟨r, mapped, rfl, holds⟩ := full.core.held at_
    exact ⟨r, activeAt_eq_some.mp at_, mapped, holds⟩
  case inverse =>
    intro id i
    rw [full.core.inverse]
    exact activeAt_eq_some
  case domain =>
    intro id r mapped
    obtain ⟨i, at_⟩ := full.core.domain mapped
    exact ⟨i, activeAt_eq_some.mp at_⟩

end InputBatch

/-! ### Steps and runs -/

/-- What a change means for the map. -/
def RequestMap.change (m : RequestMap cfg ρ ε γ φ) : Change cfg ρ ε γ φ → RequestMap cfg ρ ε γ φ
  | .remove reqId => update m reqId none
  | .add r => update m r.reqId (some r)
  | .updateSpec _ _ => m

/-- What a step means for the map: the order of the rows does not matter. -/
def RequestMap.step (m : RequestMap cfg ρ ε γ φ) (step : Step cfg ρ ε γ φ) :
    RequestMap cfg ρ ε γ φ :=
  step.changes.foldl RequestMap.change m

/-- A request that is added is new and of the kind of the model, and its row holds no prompt
embeddings or mask of another request, unless it brings its own. -/
def ChangeAllowed (s : InputBatch cfg ρ ε γ φ) : Change cfg ρ ε γ φ → Prop
  | .add r => s.reqIdToIndex.get? r.reqId = none ∧
      (cfg.isPoolingModel = true → r.params = .pooling) ∧
      (r.promptEmbeds = none → (s.rows s.nextIndex).promptEmbeds = none) ∧
      (r.allowedTokenIds = [] → Unmasked (s.rows s.nextIndex))
  | _ => True

/-- Rows that are swapped have the same mask. -/
def SwapAllowed (s : InputBatch cfg ρ ε γ φ) (swap : Nat × Nat) : Prop :=
  cfg.isPoolingModel = false →
    (s.rows swap.1).allowedTokenIdsMask = (s.rows swap.2).allowedTokenIdsMask

/-- All changes and swaps are allowed when they are made, and when the batch is condensed, no
empty row holds prompt embeddings. -/
def Allowed (s : InputBatch cfg ρ ε γ φ) (step : Step cfg ρ ε γ φ) : Prop :=
  AlongOk ChangeAllowed execChange s step.changes ∧
    ∀ t, step.changes.foldlM execChange s = .ok t →
      (∀ i ∈ t.removed, (t.rows i).promptEmbeds = none) ∧
        ∀ u, t.condense = .ok u → AlongOk SwapAllowed execSwap u step.swaps

namespace InputBatch

variable {s s' t : InputBatch cfg ρ ε γ φ} {m : RequestMap cfg ρ ε γ φ}

theorem Open.change (opened : s.Open m) {change : Change cfg ρ ε γ φ}
    (allowed : ChangeAllowed s change) (run : execChange s change = .ok s') :
    s'.Open (m.change change) := by
  cases change with
  | remove reqId => exact opened.removeRequest run
  | add r =>
    obtain ⟨fresh, pooling, embeds, mask⟩ := allowed
    exact opened.addRequest fresh pooling embeds mask run
  | updateSpec reqId specTokenIds => exact opened.updateReqSpecTokenIds run

theorem Open.changes {changes : List (Change cfg ρ ε γ φ)} (opened : s.Open m)
    (along : AlongOk ChangeAllowed execChange s changes)
    (run : changes.foldlM execChange s = .ok t) : t.Open (changes.foldl RequestMap.change m) := by
  refine (Run.of_alongOk along run).invariant_calls
    (fun done u => u.Open (done.foldl RequestMap.change m)) (fun before step => ?_) opened
  rw [foldl_append]
  exact before.change step.1 step.2

theorem Full.swaps {swaps : List (Nat × Nat)} (full : s.Full m)
    (along : AlongOk SwapAllowed execSwap s swaps)
    (run : swaps.foldlM execSwap s = .ok t) : t.Full m :=
  (Run.of_alongOk along run).invariant (fun u => u.Full m)
    (fun before step => before.swapStates step.1 step.2) full

theorem Open.step (opened : s.Open m) {step : Step cfg ρ ε γ φ} (allowed : Allowed s step)
    (run : exec s step = .ok s') : s'.Open (m.step step) ∧ s'.Refines (m.step step) := by
  obtain ⟨changed, changes, run⟩ := bind_eq_ok.mp run
  obtain ⟨condensed, condense, run⟩ := bind_eq_ok.mp run
  obtain ⟨swapped, swaps, run⟩ := bind_eq_ok.mp run
  cases run
  obtain ⟨changesAllowed, rest⟩ := allowed
  obtain ⟨embeds, swapsAllowed⟩ := rest changed changes
  have opened := opened.changes changesAllowed changes
  obtain ⟨_, eq, full⟩ := opened.condense embeds
  cases eq.symm.trans condense
  have full := full.swaps (swapsAllowed _ condense) swaps
  have refines := full.refines
  exact ⟨full.refreshMetadata, refines.length, refines.rows, refines.inverse, refines.domain⟩

end InputBatch

/-- After every step of a run in which all steps are allowed, the batch refines the map that the
additions and removals make. -/
theorem refines_of_run {row : Row cfg ε γ φ} {steps : List (Step cfg ρ ε γ φ)}
    {s : InputBatch cfg ρ ε γ φ}
    (run : Run (guarded Allowed (succeeds exec)) (.new cfg row) steps s) :
    s.Refines (steps.foldl RequestMap.step fun _ => none) := by
  refine (run.invariant_calls (fun steps s =>
    s.Open (steps.foldl RequestMap.step fun _ => none) ∧
      s.Refines (steps.foldl RequestMap.step fun _ => none)) ?_ ⟨open_new row, ?_⟩).2
  · rintro steps s step s' ⟨opened, -⟩ ⟨allowed, run⟩
    rw [foldl_append]
    exact opened.step allowed run
  · exact InputBatch.Full.refines ⟨(open_new row).core, by simp [new]⟩

end Batch

/-! ### Small batches -/

def smallConfig : Config := ⟨4, 4, false, 1, fun _ => 1⟩

abbrev SmallRequest : Type := CachedRequestState smallConfig Nat Unit Unit Nat

abbrev SmallStep : Type := Step smallConfig Nat Unit Unit Nat

def request (reqId : Nat) (embeds : Option (List Unit)) (single : ∀ e ∈ embeds, e.length = 1)
    (allowedTokenIds : List Nat) : SmallRequest where
  reqId := reqId
  promptTokenIds := some [7]
  promptIsTokenIds := none
  promptEmbeds := embeds
  outputTokenIds := []
  numComputedTokens := 0
  blockIds := fun _ => [reqId]
  params := .sampling ⟨.random, 1, 1, 0, 0, 0, 1, allowedTokenIds, []⟩
  generator := none
  loraRequest := none
  prompt_given := .inl rfl
  prompt_length := by
    rintro ids isPrompt e given
    cases isPrompt
    exact single e given

def plain (reqId : Nat) : SmallRequest := request reqId none (by simp) []

def masked (reqId : Nat) : SmallRequest := request reqId none (by simp) [1]

def embedded (reqId : Nat) : SmallRequest := request reqId (some [()]) (by simp) []

def zeroRow : Row smallConfig Unit Unit Nat where
  tokenIds := fun _ => 0
  isTokenIds := fun _ => false
  promptEmbeds := none
  numTokensNoSpec := 0
  numPromptTokens := 0
  numComputedTokens := 0
  blocks := fun _ => ⟨0, fun _ => 0⟩
  sampling := ⟨0, 0, 0, 0, 0, 0⟩
  numAcceptedTokens := 1
  loraMapping := 0
  generator := none
  badWordsTokenIds := none
  allowedTokenIdsMask := fun _ => false

abbrev smallBatch : InputBatch smallConfig Nat Unit Unit Nat := .new smallConfig zeroRow

/-- Two requests come, and the first one goes. -/
def twoCome : SmallStep := ⟨[.add (masked 0), .add (plain 1)], []⟩

def oneGoes : SmallStep := ⟨[.remove 0], []⟩

theorem comeAndGo_refines :
    ∃ s, Run (guarded Allowed (succeeds exec)) smallBatch [twoCome, oneGoes] s ∧
      s.reqIds = [some 1] ∧ s.Refines ([twoCome, oneGoes].foldl RequestMap.step fun _ => none) := by
  have first : Allowed smallBatch twoCome := by
    refine ⟨⟨⟨rfl, ?_, fun _ => rfl, ?_⟩, ⟨rfl, ?_, fun _ => rfl, ?_⟩, trivial⟩, ?_⟩
    · exact nofun
    · exact nofun
    · exact nofun
    · exact fun _ _ => rfl
    · intro t eq
      cases eq
      exact ⟨nofun, fun u _ => trivial⟩
  have second : ∀ s, exec smallBatch twoCome = .ok s → Allowed s oneGoes := by
    intro s eq
    cases eq
    refine ⟨⟨trivial, trivial⟩, fun t eq => ?_⟩
    cases eq
    refine ⟨fun i mem => ?_, fun u _ => trivial⟩
    cases mem_singleton.mp mem
    rfl
  have run : Run (guarded Allowed (succeeds exec)) smallBatch [twoCome, oneGoes] _ :=
    .head ⟨first, rfl⟩ <| .head ⟨second _ rfl, rfl⟩ <| .refl _
  exact ⟨_, run, rfl, refines_of_run run⟩

/-- A row that masks other tokens than its request, or holds other embeddings, is not its row. -/
theorem not_refines_of_row {s : InputBatch smallConfig Nat Unit Unit Nat}
    {m : RequestMap smallConfig Nat Unit Unit Nat} {i : Nat} (r : SmallRequest)
    (lt : i < s.numReqs) (at_ : s.reqIds[i]? = some (some r.reqId)) (mapped : m r.reqId = some r)
    (differs : (∃ token, (s.rows i).allowedTokenIdsMask token ≠ r.isMasked token) ∨
      (s.rows i).promptEmbeds ≠ r.promptEmbeds) : ¬ s.Refines m := by
  intro refines
  obtain ⟨other, atOther, mappedOther, holds⟩ := refines.rows i lt
  have same : r.reqId = other.reqId := by simpa using at_.symm.trans atOther
  rw [← same, mapped] at mappedOther
  cases mappedOther
  rcases differs with ⟨token, mask⟩ | embeds
  · exact mask (holds.allowedTokenIdsMask token)
  · exact embeds holds.promptEmbeds

/-- Two requests come, and change their rows. -/
def comeAndSwap : List SmallStep := [⟨[.add (masked 0), .add (plain 1)], [(1, 0)]⟩]

/-- The mask's row is a view: after the swap both rows have the mask of the first request, and
the second one, which may sample every token, is masked. -/
theorem swapped_not_refines :
    ∃ s, Run (succeeds exec) smallBatch comeAndSwap s ∧ s.reqIds = [some 1, some 0] ∧
      (plain 1).allowedTokenIds = [] ∧ (s.rows 0).allowedTokenIdsMask 0 = true ∧
      ¬ s.Refines (comeAndSwap.foldl RequestMap.step fun _ => none) := by
  have run : Run (succeeds exec) smallBatch comeAndSwap _ := .head rfl <| .refl _
  refine ⟨_, run, rfl, rfl, rfl, ?_⟩
  refine not_refines_of_row (i := 0) (plain 1) (by decide) rfl rfl (.inl ⟨0, ?_⟩)
  decide

/-- A request is moved down by `condense`, and another one comes to its row. -/
def comeMoveCome : List SmallStep :=
  [⟨[.add (plain 0), .add (masked 1)], []⟩, ⟨[.remove 0], []⟩, ⟨[.add (plain 2)], []⟩]

/-- The mask of the request that was moved is still in the row it was moved from. -/
theorem moved_not_refines :
    ∃ s, Run (succeeds exec) smallBatch comeMoveCome s ∧ s.reqIds = [some 1, some 2] ∧
      (s.rows 1).allowedTokenIdsMask 0 = true ∧
      ¬ s.Refines (comeMoveCome.foldl RequestMap.step fun _ => none) := by
  have run : Run (succeeds exec) smallBatch comeMoveCome _ :=
    .head rfl <| .head rfl <| .head rfl <| .refl _
  refine ⟨_, run, rfl, rfl, ?_⟩
  refine not_refines_of_row (i := 1) (plain 2) (by decide) rfl rfl (.inl ⟨0, ?_⟩)
  decide

/-- A request with prompt embeddings goes, and one without them comes to its row. -/
def replaced : List SmallStep := [⟨[.add (embedded 0)], []⟩, ⟨[.remove 0, .add (plain 1)], []⟩]

/-- The prompt embeddings of the request that was removed are those of the new one. -/
theorem replaced_not_refines :
    ∃ s, Run (succeeds exec) smallBatch replaced s ∧ s.reqIds = [some 1] ∧
      (s.rows 0).promptEmbeds = some [()] ∧
      ¬ s.Refines (replaced.foldl RequestMap.step fun _ => none) := by
  have run : Run (succeeds exec) smallBatch replaced _ := .head rfl <| .head rfl <| .refl _
  refine ⟨_, run, rfl, rfl, ?_⟩
  refine not_refines_of_row (i := 0) (plain 1) (by decide) rfl rfl (.inr ?_)
  decide

end Vllm.Worker
