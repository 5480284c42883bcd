import Vllm.Lib.Fallible
import Vllm.Utils.LRUCache

/-!
The multimodal caches of the front end and of the engine
(`vllm/multimodal/cache.py`, `_merge_mm_kwargs` in `vllm/multimodal/processing/processor.py`).

The front end sends the data of an item only if its own cache, which holds sizes
instead of data, does not have the item. Both are LRU caches of one capacity. The front
end goes through the items of a request by modality, the engine by position in the prompt.

* The recency orders differ after a request whose items come in another order by
  position than by modality, and a later eviction removes different items
  (`audioFirst_not_mirrored`).
* As long as the two orders agree in every request, the caches do the same and the
  engine has every item that it gets no data for (`mirrored_of_run`).
-/

namespace Vllm.Multimodal

open Vllm.Lib Vllm.Lib.Fallible Vllm.Lib.Loops Vllm.Lib.Steps Vllm.Utils LRUCache

/-- An item of a request. Its data may be left out by a client that knows the hash. -/
structure MMItem (K V : Type) where
  mmHash : K
  /-- Where its placeholder is in the prompt. -/
  offset : Nat
  data : Option V

/-- The items of a request by modality, in the order of the mapping. -/
abbrev MMRequest (K V : Type) := List (String × List (MMItem K V))

/-- A feature as it is sent to the engine: `data` is missing for an item that the
front end takes to be cached. -/
structure Feature (K V : Type) where
  mmHash : K
  offset : Nat
  data : Option V

/-- `MultiModalProcessorCacheItemMetadata`: the size of the item; its prompt updates
stay in the front end and are left out. -/
structure Metadata (N : Type) where
  itemSize : N

inductive MirrorError where
  /-- `Cache miss for ... but data is not provided.` -/
  | cacheMiss
  /-- `Expected a cached item for mm_hash=...` -/
  | expectedCached
  | cache (error : CacheError)
  | outOfFuel
  deriving DecidableEq, Repr

variable {K V N : Type} [DecidableEq K] [AddCommGroup N] [LinearOrder N]

section Cache

variable {W : Type} (capacity : N) (getsizeof : W → N)

/-- `self._cache[mm_hash] = value`. -/
def insertItem (fuel : Nat) (cache : LRUCache K W N) (mmHash : K) (value : W) :
    Except MirrorError (LRUCache K W N) :=
  match cache.setitem capacity getsizeof fuel mmHash value with
  | none => .error .outOfFuel
  | some ⟨cache, none⟩ => .ok cache
  | some ⟨_, some error⟩ => .error (.cache error)

/-- All hashes are touched before any of them is updated. -/
def touchAll (cache : LRUCache K W N) (hashes : List K) : LRUCache K W N :=
  hashes.foldl touch cache

end Cache

variable (capacity : N) (getsizeof : V → N)

/-! ### Front end -/

/-- The cache of the front end. -/
abbrev SenderCache (K N : Type) := LRUCache K (Metadata N) N

/-- The items of a request in the order of `mm_hashes`. -/
def MMRequest.items (request : MMRequest K V) : List (MMItem K V) := request.flatMap Prod.snd

/-- `MultiModalProcessorSenderCache.get_and_update_item`, for an item that was cached
or not when the request arrived. -/
def senderGetAndUpdateItem (fuel : Nat) (cache : SenderCache K N) (wasCached : Bool)
    (item : MMItem K V) : Except MirrorError (SenderCache K N × Feature K V) :=
  let feature (data : Option V) : Feature K V := ⟨item.mmHash, item.offset, data⟩
  if cache.contains item.mmHash then .ok (cache.touch item.mmHash, feature none)
  else if wasCached then .error .expectedCached
  else
    match item.data with
    | none => .error .cacheMiss
    | some value => do
      let cache ← insertItem capacity Metadata.itemSize fuel cache item.mmHash ⟨getsizeof value⟩
      return (cache, feature (some value))

/-- The second loop of `_merge_mm_kwargs`. -/
def mergeItems (fuel : Nat) (wasCached : K → Bool) (cache : SenderCache K N)
    (items : List (MMItem K V)) : Except MirrorError (SenderCache K N × List (Feature K V)) :=
  items.foldlM
    (fun acc item => do
      let (cache, feature) ← senderGetAndUpdateItem capacity getsizeof fuel acc.1
        (wasCached item.mmHash) item
      return (cache, acc.2 ++ [feature]))
    (cache, [])

/-- `_get_cache_missing_items` and `_merge_mm_kwargs`: the features in the order of
`mm_hashes`. -/
def mergeMmKwargs (fuel : Nat) (cache : SenderCache K N) (request : MMRequest K V) :
    Except MirrorError (SenderCache K N × List (Feature K V)) :=
  let items := request.items
  if items.any fun item => !cache.contains item.mmHash && item.data.isNone then .error .cacheMiss
  else mergeItems capacity getsizeof fuel cache.contains
    (touchAll cache (items.map (·.mmHash))) items

/-- `argsort_mm_positions`: the features by position, as `process_inputs` sends them. -/
def sortByPosition (features : List (Feature K V)) : List (Feature K V) :=
  features.insertionSort fun a b => a.offset ≤ b.offset

/-! ### Engine -/

/-- `MultiModalReceiverCache.get_and_update_item`. -/
def receiverGetAndUpdateItem (fuel : Nat) (cache : LRUCache K V N) (feature : Feature K V) :
    Except MirrorError (LRUCache K V N) :=
  if cache.contains feature.mmHash then .ok (cache.touch feature.mmHash)
  else
    match feature.data with
    | none => .error .expectedCached
    | some value => insertItem capacity getsizeof fuel cache feature.mmHash value

/-- The second loop of `get_and_update_features`. -/
def updateFeatures (fuel : Nat) (cache : LRUCache K V N) (features : List (Feature K V)) :
    Except MirrorError (LRUCache K V N) :=
  features.foldlM (receiverGetAndUpdateItem capacity getsizeof fuel) cache

def getAndUpdateFeatures (fuel : Nat) (cache : LRUCache K V N) (features : List (Feature K V)) :
    Except MirrorError (LRUCache K V N) :=
  updateFeatures capacity getsizeof fuel (touchAll cache (features.map (·.mmHash))) features

/-! ### Both -/

structure Caches (K V N : Type) where
  sender : SenderCache K N
  receiver : LRUCache K V N

/-- No request yet. -/
def Caches.new : Caches K V N := ⟨.new, .new⟩

/-- A request goes through both caches. -/
def Processes (c : Caches K V N) (request : MMRequest K V) (c' : Caches K V N) : Prop :=
  ∃ fuel features,
    mergeMmKwargs capacity getsizeof fuel c.sender request = .ok (c'.sender, features) ∧
    getAndUpdateFeatures capacity getsizeof fuel c.receiver (sortByPosition features) =
      .ok c'.receiver

/-- Each item without data is in the engine's cache when its turn comes. -/
def AllPresent (fuel : Nat) (cache : LRUCache K V N) (features : List (Feature K V)) : Prop :=
  ∀ before feature after, features = before ++ feature :: after → feature.data = none →
    ∀ cache', updateFeatures capacity getsizeof fuel
      (touchAll cache (features.map (·.mmHash))) before = .ok cache' →
    cache'.contains feature.mmHash = true

/-- Whatever request comes next, the engine has the items that it gets no data for. -/
def Mirrored (c : Caches K V N) (request : MMRequest K V) : Prop :=
  ∀ fuel sender features,
    mergeMmKwargs capacity getsizeof fuel c.sender request = .ok (sender, features) →
    AllPresent capacity getsizeof fuel c.receiver (sortByPosition features)

/-- By position the items come in the same order as by modality. -/
def InOrder (request : MMRequest K V) : Prop := request.items.Pairwise fun a b => a.offset ≤ b.offset

instance (request : MMRequest K V) : Decidable (InOrder request) :=
  inferInstanceAs (Decidable (request.items.Pairwise fun a b => a.offset ≤ b.offset))

/-! ### Caches that do the same -/

/-- Two caches with the same keys, sizes and orders, whatever their values. -/
structure Alike {W : Type} (s : LRUCache K W N) (r : LRUCache K V N) : Prop where
  order : s.order = r.order
  currsize : s.currsize = r.currsize
  pinned : s.pinnedItems = r.pinnedItems
  sizes : ∀ key, (s.data.get? key).map Prod.snd = (r.data.get? key).map Prod.snd

namespace Alike

variable {W : Type} {s : LRUCache K W N} {r : LRUCache K V N}

omit [LinearOrder N] in
theorem new : Alike (.new : LRUCache K W N) (.new : LRUCache K V N) := ⟨rfl, rfl, rfl, fun _ => rfl⟩

variable {fuel : Nat} {sizeS : W → N} {sizeR : V → N} {w : W} {v : V}

section

variable (alike : Alike s r)
include alike

omit [AddCommGroup N] [LinearOrder N] in
theorem lookup (key : K) :
    (s.data.get? key = none ∧ r.data.get? key = none) ∨
      ∃ w v size, s.data.get? key = some (w, size) ∧ r.data.get? key = some (v, size) := by
  have sizes := alike.sizes key
  cases atS : s.data.get? key with
  | none =>
    rw [atS, Option.map_none, eq_comm, Option.map_eq_none_iff] at sizes
    exact .inl ⟨rfl, sizes⟩
  | some entry =>
    rw [atS, Option.map_some, eq_comm, Option.map_eq_some_iff] at sizes
    obtain ⟨⟨v, size⟩, atR, rfl⟩ := sizes
    exact .inr ⟨entry.1, v, entry.2, rfl, atR⟩

omit [AddCommGroup N] [LinearOrder N] in
theorem contains (key : K) : s.contains key = r.contains key := by
  rw [LRUCache.contains, LRUCache.contains]
  rcases alike.lookup key with ⟨atS, atR⟩ | ⟨w, v, size, atS, atR⟩
  · rw [atS, atR]
    rfl
  · rw [atS, atR]
    rfl

omit [AddCommGroup N] [LinearOrder N] in
theorem touch (key : K) : Alike (s.touch key) (r.touch key) :=
  ⟨by rw [LRUCache.touch, LRUCache.touch, alike.order], alike.currsize, alike.pinned, alike.sizes⟩

omit [AddCommGroup N] [LinearOrder N] in
theorem touchAll (hashes : List K) : Alike (touchAll s hashes) (touchAll r hashes) := by
  induction hashes generalizing s r with
  | nil => exact alike
  | cons key rest ih => exact ih (alike.touch key)

omit [LinearOrder N] in
theorem delitem (key : K) : Alike (s.delitem key).state (r.delitem key).state := by
  rw [LRUCache.delitem, LRUCache.delitem]
  rcases alike.lookup key with ⟨atS, atR⟩ | ⟨w, v, size, atS, atR⟩
  · rw [atS, atR]
    exact alike
  · rw [atS, atR]
    refine ⟨?_, ?_, ?_, fun other => ?_⟩
    · simp only [(alike.touch key).order]
    · simp only [alike.currsize]
    · simp only [alike.pinned]
    · rcases eq_or_ne other key with rfl | isKey
      · simp
      · simp only [Dict.get?_erase_of_ne _ isKey]
        exact alike.sizes other

omit [LinearOrder N] in
theorem pop (key : K) : Alike (s.pop key) (r.pop key) := by
  rw [LRUCache.pop, LRUCache.pop, alike.contains key]
  split
  · exact (alike.touch key).delitem key
  · exact alike

omit [LinearOrder N] in
theorem popitem :
    Alike (s.popitem false).state (r.popitem false).state ∧
      (s.popitem false).raised = (r.popitem false).raised := by
  have chosen : s.lruKey false = r.lruKey false := by
    simp only [lruKey, alike.order, alike.pinned]
  rw [LRUCache.popitem, LRUCache.popitem, chosen]
  cases r.lruKey false with
  | none => exact ⟨alike, rfl⟩
  | some key => exact ⟨alike.pop key, rfl⟩

/-- The eviction loops go together. -/
theorem makeRoom {capacity size : N} {o : Outcome (LRUCache K W N) CacheError}
    (run : s.makeRoom capacity size fuel = some o) :
    ∃ o', r.makeRoom capacity size fuel = some o' ∧ Alike o.state o'.state ∧
      o.raised = o'.raised := by
  induction fuel generalizing s r with
  | zero =>
    rw [makeRoom, loop] at run ⊢
    rw [← alike.currsize]
    split at run
    · cases run
    case isFalse done =>
      cases run
      rw [if_neg done]
      exact ⟨_, rfl, alike, rfl⟩
  | succ fuel ih =>
    rw [makeRoom, loop] at run ⊢
    rw [← alike.currsize]
    split at run
    case isFalse done =>
      cases run
      rw [if_neg done]
      exact ⟨_, rfl, alike, rfl⟩
    case isTrue goes =>
      obtain ⟨states, raised⟩ := alike.popitem
      rw [if_pos goes]
      cases atS : s.popitem false with
      | mk s' error =>
      cases atR : r.popitem false with
      | mk r' error' =>
      rw [atS, atR] at states raised
      rw [atS] at run
      obtain rfl : error = error' := raised
      cases error with
      | none => exact ih states run
      | some error =>
        cases run
        exact ⟨_, rfl, states, rfl⟩

omit [LinearOrder N] in
theorem store (size : sizeS w = sizeR v) (key : K) :
    Alike (s.store sizeS key w) (r.store sizeR key v) := by
  refine ⟨?_, ?_, alike.pinned, fun other => ?_⟩
  · simp only [LRUCache.store, LRUCache.touch, alike.order]
  · simp only [LRUCache.store, LRUCache.touch, alike.currsize, size]
    rcases alike.lookup key with ⟨atS, atR⟩ | ⟨w, v, size, atS, atR⟩
    · rw [atS, atR]
    · rw [atS, atR]
  · rcases eq_or_ne other key with rfl | isKey
    · simp only [LRUCache.store, LRUCache.touch, Dict.get?_put_self, Option.map_some, size]
    · simp only [LRUCache.store, LRUCache.touch, Dict.get?_put_of_ne _ isKey]
      exact alike.sizes other

omit [AddCommGroup N] in
theorem needsRoom (key : K) (size : N) : s.needsRoom key size = r.needsRoom key size := by
  rw [LRUCache.needsRoom, LRUCache.needsRoom]
  rcases alike.lookup key with ⟨atS, atR⟩ | ⟨w, v, size, atS, atR⟩
  · rw [atS, atR]
  · rw [atS, atR]

/-- An item that one cache stores is stored by the other. -/
theorem insertItem {capacity : N} (size : sizeS w = sizeR v) {key : K} {s' : LRUCache K W N}
    (run : insertItem capacity sizeS fuel s key w = .ok s') :
    ∃ r', insertItem capacity sizeR fuel r key v = .ok r' ∧ Alike s' r' := by
  rw [Multimodal.insertItem, setitem, size] at run
  rw [Multimodal.insertItem, setitem, ← alike.needsRoom]
  split at run
  case h_1 => cases run
  case h_3 => cases run
  case h_2 stored =>
    cases run
    split at stored
    · cases stored
    case isFalse fits =>
      rw [if_neg fits]
      split at stored
      case isFalse room =>
        cases stored
        rw [if_neg room]
        exact ⟨_, rfl, alike.store size key⟩
      case isTrue needs =>
        obtain ⟨o, ends, result⟩ := Option.map_eq_some_iff.mp stored
        obtain ⟨o', ends', alike', raised⟩ := alike.makeRoom ends
        rw [if_pos needs, ends']
        obtain ⟨c, error⟩ := o
        obtain ⟨c', error'⟩ := o'
        obtain rfl : error = error' := raised
        cases error with
        | some error => cases result
        | none =>
          cases result
          exact ⟨_, rfl, Alike.store alike' size key⟩

end

end Alike

/-! ### The engine follows the front end -/

section Follow

variable {capacity : N} {getsizeof : V → N} {fuel : Nat}

variable {s s' : SenderCache K N} {r : LRUCache K V N} {item : MMItem K V} {feature : Feature K V}
  {features : List (Feature K V)}

/-- What the engine does with the feature of an item that the front end has just
processed: if there are no data it has the item, and it goes on alike. -/
theorem receiver_follows (alike : Alike s r) {wasCached : Bool}
    (run : senderGetAndUpdateItem capacity getsizeof fuel s wasCached item = .ok (s', feature)) :
    (feature.mmHash = item.mmHash ∧ feature.offset = item.offset) ∧
      (feature.data = none → r.contains feature.mmHash = true) ∧
      ∃ r', receiverGetAndUpdateItem capacity getsizeof fuel r feature = .ok r' ∧ Alike s' r' := by
  rw [senderGetAndUpdateItem] at run
  split at run
  case isTrue stored =>
    cases run
    have has : r.contains item.mmHash = true := alike.contains item.mmHash ▸ stored
    refine ⟨⟨rfl, rfl⟩, fun _ => has, r.touch item.mmHash, ?_, alike.touch item.mmHash⟩
    rw [receiverGetAndUpdateItem, if_pos has]
  case isFalse absent =>
    obtain ⟨-, run⟩ := guard_eq_ok.mp run
    split at run
    · cases run
    case h_2 value _ =>
      obtain ⟨s'', insert, run⟩ := bind_eq_ok.mp run
      obtain ⟨r', insert', alike'⟩ : ∃ r', insertItem capacity getsizeof fuel r item.mmHash value =
          .ok r' ∧ Alike s'' r' := alike.insertItem rfl insert
      cases run
      refine ⟨⟨rfl, rfl⟩, (by cases ·), r', ?_, alike'⟩
      rw [receiverGetAndUpdateItem, if_neg (alike.contains item.mmHash ▸ absent)]
      exact insert'

/-- The loop of the front end, and that of the engine over its features in the same
order. -/
structure Follows (capacity : N) (getsizeof : V → N) (fuel : Nat) (items : List (MMItem K V)) (s : SenderCache K N)
    (r : LRUCache K V N) (features : List (Feature K V)) (s' : SenderCache K N) : Prop where
  hashes : features.map (·.mmHash) = items.map (·.mmHash)
  offsets : features.map (·.offset) = items.map (·.offset)
  present : ∀ before feature after, features = before ++ feature :: after → feature.data = none →
    ∀ r', updateFeatures capacity getsizeof fuel r before = .ok r' →
    r'.contains feature.mmHash = true
  ends : ∃ r', updateFeatures capacity getsizeof fuel r features = .ok r' ∧ Alike s' r'

/-- The item that the front end processed first, and the rest. -/
theorem Follows.cons {s₁ : SenderCache K N} {r₁ : LRUCache K V N} {items : List (MMItem K V)}
    (same : feature.mmHash = item.mmHash ∧ feature.offset = item.offset)
    (present : feature.data = none → r.contains feature.mmHash = true)
    (first : receiverGetAndUpdateItem capacity getsizeof fuel r feature = .ok r₁)
    (rest : Follows capacity getsizeof fuel items s₁ r₁ features s') :
    Follows capacity getsizeof fuel (item :: items) s r (feature :: features) s' where
  hashes := by rw [List.map_cons, List.map_cons, same.1, rest.hashes]
  offsets := by rw [List.map_cons, List.map_cons, same.2, rest.offsets]
  present := by
    intro before other after split missing r' run
    rcases List.cons_eq_append_iff.mp split with ⟨rfl, same⟩ | ⟨before', rfl, same⟩
    · cases same
      cases run
      exact present missing
    · rw [updateFeatures, List.foldlM_cons, first] at run
      exact rest.present before' other after same missing r' run
  ends := by
    obtain ⟨r', run, alike⟩ := rest.ends
    refine ⟨r', ?_, alike⟩
    rw [updateFeatures, List.foldlM_cons, first]
    exact run

/-- The engine follows the second loop of `_merge_mm_kwargs`, feature by feature. -/
theorem mergeItems_follows {wasCached : K → Bool} {items : List (MMItem K V)} (alike : Alike s r)
    {done : List (Feature K V)}
    (run : items.foldlM
      (fun acc item => do
        let (cache, feature) ← senderGetAndUpdateItem capacity getsizeof fuel acc.1
          (wasCached item.mmHash) item
        return (cache, acc.2 ++ [feature])) (s, done) = .ok (s', features)) :
    ∃ new, features = done ++ new ∧ Follows capacity getsizeof fuel items s r new s' := by
  induction items generalizing s r done with
  | nil =>
    cases run
    refine ⟨[], by simp, rfl, rfl, ?_, r, rfl, alike⟩
    intro before feature after split
    exact absurd split (by simp)
  | cons item rest ih =>
    obtain ⟨⟨s₁, done₁⟩, step, run⟩ := bind_eq_ok.mp run
    obtain ⟨⟨s₂, feature⟩, first, step⟩ := bind_eq_ok.mp step
    cases step
    obtain ⟨same, present, r₁, received, alike₁⟩ := receiver_follows alike first
    obtain ⟨new, rfl, follows⟩ := ih alike₁ run
    exact ⟨feature :: new, by simp, follows.cons same present received⟩

omit [DecidableEq K] in
theorem sortByPosition_eq {items : List (MMItem K V)}
    (ordered : items.Pairwise fun a b => a.offset ≤ b.offset)
    (offsets : features.map (·.offset) = items.map (·.offset)) :
    sortByPosition features = features := by
  have sorted : (features.map (·.offset)).Pairwise (· ≤ ·) := offsets ▸ List.pairwise_map.mpr ordered
  exact List.Pairwise.insertionSort_eq (List.pairwise_map.mp sorted)

/-- A request whose items come in order leaves the caches alike. -/
theorem mergeMmKwargs_follows (alike : Alike s r) {request : MMRequest K V}
    (inOrder : InOrder request)
    (run : mergeMmKwargs capacity getsizeof fuel s request = .ok (s', features)) :
    Follows capacity getsizeof fuel request.items (touchAll s (request.items.map (·.mmHash)))
        (touchAll r (features.map (·.mmHash))) features s' ∧
      sortByPosition features = features := by
  rw [mergeMmKwargs] at run
  split at run
  · cases run
  · obtain ⟨new, rfl, follows⟩ := mergeItems_follows (alike.touchAll _) run
    have sorted := sortByPosition_eq inOrder follows.offsets
    exact ⟨follows.hashes ▸ follows, sorted⟩

end Follow

/-- In every run whose requests have their items in order, the engine has each item
that it gets no data for. -/
theorem mirrored_of_run {requests : List (MMRequest K V)} {c : Caches K V N}
    (run : Run (guarded (fun _ => InOrder) (Processes capacity getsizeof)) .new requests c)
    (request : MMRequest K V) (inOrder : InOrder request) :
    Mirrored capacity getsizeof c request := by
  have alike : Alike c.sender c.receiver := by
    refine run.invariant (fun c => Alike c.sender c.receiver) ?_ Alike.new
    rintro c request c' alike ⟨inOrder, fuel, features, sent, received⟩
    obtain ⟨follows, sorted⟩ := mergeMmKwargs_follows alike inOrder sent
    obtain ⟨r', ends, alike'⟩ := follows.ends
    rw [sorted, getAndUpdateFeatures, ends] at received
    cases received
    exact alike'
  intro fuel sender features sent
  obtain ⟨follows, sorted⟩ := mergeMmKwargs_follows alike inOrder sent
  rw [sorted]
  exact follows.present

/-- Two items that come in order, each of size 1. -/
def audioThenImage : MMRequest Nat Unit :=
  [("audio", [⟨2, 0, some ()⟩]), ("image", [⟨1, 1, some ()⟩])]

/-- A request with image 3, for which one of two items has to go. -/
def anotherImage : MMRequest Nat Unit := [("image", [⟨3, 0, some ()⟩])]

def imageAgain : MMRequest Nat Unit := [("image", [⟨1, 0, some ()⟩])]

/-- The front end does not send image 1 again, and the engine has it. -/
theorem audioThenImage_mirrored :
    ∃ c, Run (guarded (fun _ => InOrder) (Processes (2 : Int) fun _ => 1)) .new
        [audioThenImage, anotherImage] c ∧ InOrder imageAgain ∧
      Mirrored (2 : Int) (fun _ => 1) c imageAgain ∧
      ∃ sender, mergeMmKwargs (2 : Int) (fun _ => 1) 3 c.sender imageAgain =
        .ok (sender, [⟨1, 0, none⟩]) := by
  have ordered : InOrder audioThenImage ∧ InOrder anotherImage ∧ InOrder imageAgain := by
    decide
  have run : Run (guarded (fun _ => InOrder) (Processes (2 : Int) fun _ => 1)) .new
      [audioThenImage, anotherImage] ⟨_, _⟩ :=
    .head (t := ⟨_, _⟩) ⟨ordered.1, 3, _, rfl, rfl⟩ (.head ⟨ordered.2.1, 3, _, rfl, rfl⟩ (.refl _))
  exact ⟨_, run, ordered.2.2, mirrored_of_run _ _ run imageAgain ordered.2.2, _, rfl⟩

/-- The prompt has the audio first, the mapping of the items the image. -/
def imageAndAudio : MMRequest Nat Unit :=
  [("image", [⟨1, 1, some ()⟩]), ("audio", [⟨2, 0, some ()⟩])]

def audioAgain : MMRequest Nat Unit := [("audio", [⟨2, 0, some ()⟩])]

/-- The front end has evicted the image and the engine the audio, which the front end
then takes to be cached there. -/
theorem audioFirst_not_mirrored :
    ∃ c, Run (Processes (2 : Int) fun _ => 1) .new [imageAndAudio, anotherImage] c ∧
      ¬ Mirrored (2 : Int) (fun _ => 1) c audioAgain := by
  have run : Run (Processes (2 : Int) fun _ => 1) .new [imageAndAudio, anotherImage] ⟨_, _⟩ :=
    .head (t := ⟨_, _⟩) ⟨3, _, rfl, rfl⟩ (.head ⟨3, _, rfl, rfl⟩ (.refl _))
  refine ⟨_, run, fun mirrored => ?_⟩
  have present := mirrored 3 _ _ rfl [] _ [] rfl rfl _ rfl
  exact absurd present (by decide)

end Vllm.Multimodal
