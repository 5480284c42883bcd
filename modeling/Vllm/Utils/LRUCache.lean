import Vllm.Lib.Loops
import Vllm.Lib.OrderedDict
import Vllm.Lib.Steps

/-!
`LRUCache` (`vllm/utils/cache.py`), a subclass of `cachetools.LRUCache`.

The library class keeps the values and their sizes in two dictionaries that are
always changed together, here one; the recency order is a third structure, from which
the eviction loops take their key, and the subclass adds the pinned keys.

* An exception does not undo what the call did before it, and the cache is used
  afterwards: a call has an `Outcome`.
* `touch` of a key that is not stored puts the key into the recency order only
  (`touchAbsent_not_progresses`). As long as no call does so, the order and the data
  agree and every loop ends (`progresses_iff`).

Hits are counted by the source too; the counters are left out. Sizes are exact numbers
here (an ordered group); the source types them `float`, where adding and subtracting them
rounds. `currsize` is kept by the library class.
-/

namespace Vllm.Utils

open Vllm.Lib Vllm.Lib.Loops Vllm.Lib.Steps Dict List

inductive CacheError where
  /-- A key that is not there. -/
  | keyError
  /-- `value too large`. -/
  | valueTooLarge
  /-- `Cannot pin key: ... not in cache.` -/
  | cannotPin
  /-- `All items are pinned, cannot remove oldest from the cache.` -/
  | allPinned
  /-- `next` of an empty iterator. -/
  | stopIteration
  deriving DecidableEq, Repr

/-- The state of an `LRUCache`: values with their sizes, the sum of the sizes, the
keys from the least to the most recently used one, and the pinned keys. -/
structure LRUCache (K V N : Type) where
  data : Dict K (V × N)
  currsize : N
  order : List K
  pinnedItems : List K

open LRUCache

namespace LRUCache

variable {K V N : Type} [DecidableEq K]

def new [Zero N] : LRUCache K V N := ⟨.empty, 0, [], []⟩

/-- `key in self`. -/
def contains (c : LRUCache K V N) (key : K) : Bool := (c.data.get? key).isSome

/-- `touch`: the key moves to the end of the order, or gets there. -/
def touch (c : LRUCache K V N) (key : K) : LRUCache K V N :=
  { c with order := c.order.erase key ++ [key] }

def getitem (c : LRUCache K V N) (key : K) : Outcome (LRUCache K V N) CacheError :=
  if c.contains key then ⟨c.touch key, none⟩ else ⟨c, some .keyError⟩

/-- `get` does not raise. -/
def get (c : LRUCache K V N) (key : K) : LRUCache K V N :=
  if c.contains key then c.touch key else c

def pin (c : LRUCache K V N) (key : K) : Outcome (LRUCache K V N) CacheError :=
  if c.contains key then
    ⟨{ c with pinnedItems := if key ∈ c.pinnedItems then c.pinnedItems else key :: c.pinnedItems },
      none⟩
  else ⟨c, some .cannotPin⟩

section Remove

variable [Sub N]

/-- `__delitem__`, which reads the value first. -/
def delitem (c : LRUCache K V N) (key : K) : Outcome (LRUCache K V N) CacheError :=
  match c.data.get? key with
  | none => ⟨c, some .keyError⟩
  | some (_, size) =>
    ⟨{ data := c.data.erase key
       currsize := c.currsize - size
       order := (c.touch key).order.erase key
       pinnedItems := c.pinnedItems.filter (· ≠ key) }, none⟩

/-- `pop`: a key that is not stored gives the default. -/
def pop (c : LRUCache K V N) (key : K) : LRUCache K V N :=
  if c.contains key then ((c.touch key).delitem key).state else c

/-- The key that `popitem` removes. -/
def lruKey (c : LRUCache K V N) (removePinned : Bool) : Option K :=
  if removePinned then c.order.head? else c.order.find? (· ∉ c.pinnedItems)

def popitem (c : LRUCache K V N) (removePinned : Bool) : Outcome (LRUCache K V N) CacheError :=
  match c.lruKey removePinned with
  | none => ⟨c, some (if removePinned then .stopIteration else .allPinned)⟩
  | some key => ⟨c.pop key, none⟩

def removeOldest (c : LRUCache K V N) (removePinned : Bool) : Outcome (LRUCache K V N) CacheError :=
  if c.data.entries.isEmpty then ⟨c, none⟩ else c.popitem removePinned

/-- `clear`, for at most `fuel` rounds of its loop. -/
def clear (fuel : Nat) (c : LRUCache K V N) : Option (Outcome (LRUCache K V N) CacheError) :=
  loop (fun c => !c.data.entries.isEmpty) (fun c => c.removeOldest true) fuel c

end Remove

section Insert

variable [AddCommGroup N] [LinearOrder N] (capacity : N) (getsizeof : V → N)

def removeOldIfNeeded (fuel : Nat) (c : LRUCache K V N) :
    Option (Outcome (LRUCache K V N) CacheError) :=
  loop (fun c => decide (capacity < c.currsize)) (fun c => c.removeOldest false) fuel c

/-- The eviction loop of `__setitem__`: the new size must fit. -/
def makeRoom (size : N) (fuel : Nat) (c : LRUCache K V N) :
    Option (Outcome (LRUCache K V N) CacheError) :=
  loop (fun c => decide (capacity < c.currsize + size)) (fun c => c.popitem false) fuel c

/-- The loop is entered for a new key and for a value that grows. -/
def needsRoom (c : LRUCache K V N) (key : K) (size : N) : Bool :=
  match c.data.get? key with
  | none => true
  | some (_, old) => decide (old < size)

/-- The end of `__setitem__`, when there is room. -/
def store (c : LRUCache K V N) (key : K) (value : V) : LRUCache K V N :=
  let size := getsizeof value
  let diffsize :=
    match c.data.get? key with
    | none => size
    | some (_, old) => size - old
  { c with
    data := c.data.put key (value, size)
    currsize := c.currsize + diffsize }.touch key

/-- `__setitem__`, and `put`. -/
def setitem (fuel : Nat) (c : LRUCache K V N) (key : K) (value : V) :
    Option (Outcome (LRUCache K V N) CacheError) :=
  if capacity < getsizeof value then some ⟨c, some .valueTooLarge⟩
  else if c.needsRoom key (getsizeof value) then
    (c.makeRoom capacity (getsizeof value) fuel).map fun room =>
      match room with
      | ⟨c, none⟩ => ⟨c.store getsizeof key value, none⟩
      | ⟨c, some error⟩ => ⟨c, some error⟩
  else some ⟨c.store getsizeof key value, none⟩

inductive Call (K V : Type) where
  | touch (key : K)
  | getitem (key : K)
  | get (key : K)
  /-- `__setitem__` and `put`. -/
  | setitem (key : K) (value : V)
  | pin (key : K)
  | delitem (key : K)
  | pop (key : K)
  | popitem (removePinned : Bool)
  | removeOldest (removePinned : Bool)
  | removeOldIfNeeded
  | clear

def exec (fuel : Nat) (c : LRUCache K V N) : Call K V → Option (Outcome (LRUCache K V N) CacheError)
  | .touch key => some ⟨c.touch key, none⟩
  | .getitem key => some (c.getitem key)
  | .get key => some ⟨c.get key, none⟩
  | .setitem key value => c.setitem capacity getsizeof fuel key value
  | .pin key => some (c.pin key)
  | .delitem key => some (c.delitem key)
  | .pop key => some ⟨c.pop key, none⟩
  | .popitem removePinned => some (c.popitem removePinned)
  | .removeOldest removePinned => some (c.removeOldest removePinned)
  | .removeOldIfNeeded => c.removeOldIfNeeded capacity fuel
  | .clear => c.clear fuel

/-- The call ends, with or without an exception, and leaves `c'`. -/
def Ends (c : LRUCache K V N) (call : Call K V) (c' : LRUCache K V N) : Prop :=
  ∃ fuel r, c.exec capacity getsizeof fuel call = some r ∧ r.state = c'

/-- One stored item is removed, and nothing is raised. -/
def RemovesOne (c : LRUCache K V N) (r : Outcome (LRUCache K V N) CacheError) : Prop :=
  r.raised = none ∧ ∃ key entry, c.data.get? key = some entry ∧ r.state.data = c.data.erase key

/-- What the eviction loops rely on, and that they end: the recency order has the
stored keys, `popitem` removes a stored item, and `__setitem__`,
`_remove_old_if_needed` and `clear` return or raise. -/
structure Progresses (c : LRUCache K V N) : Prop where
  order : ∀ key, key ∈ c.order ↔ key ∈ c.data.keys
  nodup : c.order.Nodup
  popitem : (∃ key ∈ c.data.keys, key ∉ c.pinnedItems) → c.RemovesOne (c.popitem false)
  popitemPinned : c.data.keys ≠ [] → c.RemovesOne (c.popitem true)
  setitem : ∀ key value, ∃ c', c.Ends capacity getsizeof (.setitem key value) c'
  removeOldIfNeeded : ∃ c', c.Ends capacity getsizeof .removeOldIfNeeded c'
  clear : ∃ c', c.Ends capacity getsizeof .clear c'

end Insert

/-! ### The structures agree -/

variable {c : LRUCache K V N} {key : K}

theorem contains_iff : c.contains key = true ↔ key ∈ c.data.keys := by
  rw [contains, Option.isSome_iff_exists, Dict.mem_keys]

theorem mem_touch_order {other : K} :
    other ∈ (c.touch key).order ↔ other = key ∨ other ∈ c.order := by
  simp only [touch]
  by_cases same : other = key
  · simp [same]
  · simp [same]

theorem nodup_touch_order (nodup : c.order.Nodup) (key : K) : (c.touch key).order.Nodup := by
  refine nodup_append.mpr ⟨nodup.erase key, nodup_singleton _, ?_⟩
  rintro a mem b isKey rfl
  rw [mem_singleton.mp isKey] at mem
  exact nodup.not_mem_erase mem

section Sync

variable [AddCommGroup N]

/-- The order and the data have the same keys, the pinned keys are among them, and
the size is the sum of the sizes. -/
structure Synced (c : LRUCache K V N) : Prop where
  order : ∀ key, key ∈ c.order ↔ key ∈ c.data.keys
  nodup : c.order.Nodup
  pinned : ∀ key ∈ c.pinnedItems, key ∈ c.data.keys
  currsize : c.currsize = (c.data.contents.map fun entry => entry.2.2).sum

/-! ### Calls keep it -/

omit [DecidableEq K] in
theorem new_synced : Synced (new : LRUCache K V N) where
  order _ := by simp [new, Dict.keys, empty]
  nodup := nodup_nil
  pinned _ mem := absurd mem not_mem_nil
  currsize := rfl

namespace Synced

variable {c : LRUCache K V N}

section

variable (synced : c.Synced)
include synced

theorem touch {key : K} (stored : key ∈ c.data.keys) : (c.touch key).Synced where
  order other := by
    rw [mem_touch_order, synced.order other]
    constructor
    · rintro (rfl | mem)
      · exact stored
      · exact mem
    · exact .inr
  nodup := nodup_touch_order synced.nodup key
  pinned := synced.pinned
  currsize := synced.currsize

theorem pin (key : K) : (c.pin key).state.Synced := by
  rw [LRUCache.pin]
  split
  case isFalse => exact synced
  case isTrue stored =>
    refine ⟨synced.order, synced.nodup, fun other mem => ?_, synced.currsize⟩
    split at mem
    · exact synced.pinned other mem
    · rcases mem_cons.mp mem with rfl | mem
      · exact contains_iff.mp stored
      · exact synced.pinned other mem

theorem delitem (key : K) : (c.delitem key).state.Synced := by
  cases found : c.data.get? key with
  | none =>
    rw [LRUCache.delitem, found]
    exact synced
  | some entry =>
    have stored : key ∈ c.data.keys := Dict.mem_keys.mpr ⟨entry, found⟩
    rw [LRUCache.delitem, found]
    constructor
    · intro other
      rw [(nodup_touch_order synced.nodup key).mem_erase_iff, mem_keys_erase,
        (synced.touch stored).order]
      rfl
    · exact (nodup_touch_order synced.nodup key).erase key
    · intro other mem
      obtain ⟨pinned, ne⟩ := mem_filter.mp mem
      exact mem_keys_erase.mpr ⟨by simpa using ne, synced.pinned other pinned⟩
    · have total := sum_contents_erase (fun entry : K × V × N => entry.2.2) found
      rw [← synced.currsize] at total
      exact sub_eq_of_eq_add' total

theorem pop (key : K) : (c.pop key).Synced := by
  rw [LRUCache.pop]
  split
  case isTrue stored => exact (synced.touch (contains_iff.mp stored)).delitem key
  case isFalse => exact synced

theorem lruKey_mem {pinned : Bool} {key : K} (chosen : c.lruKey pinned = some key) :
    key ∈ c.data.keys := by
  rw [← synced.order]
  rw [lruKey] at chosen
  split at chosen
  · exact mem_of_head? chosen
  · exact mem_of_find?_eq_some chosen

theorem popitem (pinned : Bool) : (c.popitem pinned).state.Synced := by
  rw [LRUCache.popitem]
  split
  · exact synced
  · exact synced.pop _

theorem removeOldest (pinned : Bool) : (c.removeOldest pinned).state.Synced := by
  rw [LRUCache.removeOldest]
  split
  · exact synced
  · exact synced.popitem pinned

theorem store (getsizeof : V → N) (key : K) (value : V) : (c.store getsizeof key value).Synced := by
  constructor
  · intro other
    rw [LRUCache.store, mem_touch_order, synced.order other]
    exact mem_keys_put.symm
  · exact nodup_touch_order synced.nodup key
  · intro other mem
    exact mem_keys_put.mpr (.inr (synced.pinned other mem))
  · have total : ((c.data.put key (value, getsizeof value)).contents.map fun entry => entry.2.2).sum =
        getsizeof value + ((c.data.erase key).contents.map fun entry => entry.2.2).sum := by
      rw [contents_put, Multiset.map_cons, Multiset.sum_cons]
    have before := synced.currsize
    simp only [LRUCache.store, LRUCache.touch]
    rw [total]
    cases found : c.data.get? key with
    | none =>
      rw [← erase_of_absent found] at before
      rw [before, add_comm]
    | some old =>
      obtain ⟨_, oldSize⟩ := old
      have before : c.currsize =
          oldSize + ((c.data.erase key).contents.map fun entry => entry.2.2).sum := by
        rw [before, sum_contents_erase _ found]
      simp only [before]
      abel

end

end Synced

end Sync

/-! ### Loops end -/

section Progress

theorem RemovesOne.length_lt {c : LRUCache K V N} {r : Outcome (LRUCache K V N) CacheError}
    (removes : c.RemovesOne r) : r.state.data.contents.card < c.data.contents.card := by
  obtain ⟨-, key, entry, found, data⟩ := removes
  rw [data, contents_eq_cons found]
  exact Nat.lt_succ_self _

variable [AddCommGroup N]

variable {c : LRUCache K V N} {key : K} {pinned : Bool}

theorem pop_data (stored : key ∈ c.data.keys) : (c.pop key).data = c.data.erase key := by
  obtain ⟨entry, found⟩ := Dict.mem_keys.mp stored
  rw [pop, if_pos (contains_iff.mpr stored), delitem]
  have same : (c.touch key).data.get? key = some entry := found
  rw [same]
  rfl

theorem Synced.removesOne (synced : c.Synced) (chosen : c.lruKey pinned = some key) :
    c.RemovesOne (c.popitem pinned) := by
  have stored := synced.lruKey_mem chosen
  obtain ⟨entry, found⟩ := Dict.mem_keys.mp stored
  rw [LRUCache.popitem, chosen]
  exact ⟨rfl, key, entry, found, pop_data stored⟩

theorem Synced.popitem_progress (synced : c.Synced) (ok : (c.popitem pinned).raised = none) :
    c.RemovesOne (c.popitem pinned) := by
  cases chosen : c.lruKey pinned with
  | none =>
    rw [LRUCache.popitem, chosen] at ok
    cases ok
  | some key => exact synced.removesOne chosen

theorem Synced.removeOldest_progress (synced : c.Synced) (items : c.data.entries ≠ [])
    (ok : (c.removeOldest pinned).raised = none) :
    c.RemovesOne (c.removeOldest pinned) := by
  rw [LRUCache.removeOldest, if_neg (by simpa using items)] at ok ⊢
  exact synced.popitem_progress ok

namespace Synced

variable {c : LRUCache K V N}

theorem clear_ends (synced : c.Synced) : ∃ fuel r, c.clear fuel = some r := by
  refine loop_terminates Synced (fun c => c.data.contents.card) ?_ synced
  intro c synced goes ok
  have items : c.data.entries ≠ [] := by simpa using goes
  exact ⟨synced.removeOldest true, (synced.removeOldest_progress items ok).length_lt⟩

variable [LinearOrder N] {capacity : N} {getsizeof : V → N}

theorem makeRoom_ends (synced : c.Synced) (capacity size : N) :
    ∃ fuel r, c.makeRoom capacity size fuel = some r := by
  refine loop_terminates Synced (fun c => c.data.contents.card) ?_ synced
  intro c synced _ ok
  exact ⟨synced.popitem false, (synced.popitem_progress ok).length_lt⟩

/-- Without items the size is zero, which exceeds no capacity. -/
theorem removeOldIfNeeded_ends (nonneg : 0 ≤ capacity) (synced : c.Synced) :
    ∃ fuel r, c.removeOldIfNeeded capacity fuel = some r := by
  refine loop_terminates Synced (fun c => c.data.contents.card) ?_ synced
  intro c synced goes ok
  have items : c.data.entries ≠ [] := by
    intro none
    have zero : c.currsize = 0 := by
      rw [synced.currsize, contents, none]
      rfl
    exact absurd (of_decide_eq_true goes) (zero ▸ not_lt.mpr nonneg)
  exact ⟨synced.removeOldest false, (synced.removeOldest_progress items ok).length_lt⟩

theorem setitem_ends (synced : c.Synced) (capacity : N) (getsizeof : V → N) (key : K) (value : V) :
    ∃ fuel r, c.setitem capacity getsizeof fuel key value = some r := by
  obtain ⟨fuel, room, ends⟩ := synced.makeRoom_ends capacity (getsizeof value)
  refine ⟨fuel, ?_⟩
  rw [setitem, ends]
  split
  · exact ⟨_, rfl⟩
  · split
    · exact ⟨_, rfl⟩
    · exact ⟨_, rfl⟩

variable {fuel : Nat} {r : Outcome (LRUCache K V N) CacheError}

theorem setitem (synced : c.Synced) {key : K} {value : V}
    (run : c.setitem capacity getsizeof fuel key value = some r) : r.state.Synced := by
  rw [LRUCache.setitem] at run
  split at run
  · cases run
    exact synced
  · split at run
    · obtain ⟨room, ends, rfl⟩ := Option.map_eq_some_iff.mp run
      have kept := loop_keeps Synced (fun c synced _ => synced.popitem false) synced ends
      split
      · exact kept.store getsizeof key value
      · exact kept
    · cases run
      exact synced.store getsizeof key value

/-- Every call keeps the structures together, except `touch` of a key that is not
stored. -/
theorem exec (synced : c.Synced) {call : Call K V}
    (stored : ∀ key, call = .touch key → key ∈ c.data.keys)
    (run : c.exec capacity getsizeof fuel call = some r) :
    r.state.Synced := by
  cases call with
  | touch key =>
    cases run
    exact synced.touch (stored key rfl)
  | getitem key | get key =>
    cases run
    simp only [getitem, get]
    split
    case isTrue stored => exact synced.touch (contains_iff.mp stored)
    case isFalse => exact synced
  | setitem key value => exact synced.setitem run
  | pin key =>
    cases run
    exact synced.pin key
  | delitem key =>
    cases run
    exact synced.delitem key
  | pop key =>
    cases run
    exact synced.pop key
  | popitem pinned =>
    cases run
    exact synced.popitem pinned
  | removeOldest pinned =>
    cases run
    exact synced.removeOldest pinned
  | removeOldIfNeeded =>
    exact loop_keeps Synced (fun c synced _ => synced.removeOldest false) synced run
  | clear => exact loop_keeps Synced (fun c synced _ => synced.removeOldest true) synced run

theorem progresses (nonneg : 0 ≤ capacity) (synced : c.Synced) :
    c.Progresses capacity getsizeof where
  order := synced.order
  nodup := synced.nodup
  popitem := by
    rintro ⟨key, stored, unpinned⟩
    cases chosen : c.lruKey false with
    | some oldest => exact synced.removesOne chosen
    | none =>
      have all := find?_eq_none.mp chosen key ((synced.order key).mpr stored)
      exact absurd unpinned (by simpa using all)
  popitemPinned := by
    intro items
    obtain ⟨key, stored⟩ := exists_mem_of_ne_nil _ items
    cases chosen : c.lruKey true with
    | some oldest => exact synced.removesOne chosen
    | none =>
      have empty : c.order = [] := head?_eq_none_iff.mp chosen
      exact absurd ((synced.order key).mpr stored) (by simp [empty])
  setitem key value := by
    obtain ⟨fuel, r, run⟩ := synced.setitem_ends capacity getsizeof key value
    exact ⟨r.state, fuel, r, run, rfl⟩
  removeOldIfNeeded := by
    obtain ⟨fuel, r, run⟩ := synced.removeOldIfNeeded_ends nonneg
    exact ⟨r.state, fuel, r, run, rfl⟩
  clear := by
    obtain ⟨fuel, r, run⟩ := synced.clear_ends
    exact ⟨r.state, fuel, r, run, rfl⟩

end Synced

end Progress

/-! ### Runs -/

section Runs

variable [AddCommGroup N] [LinearOrder N]

/-- The call does not touch a key that is not stored. -/
def TouchesStored (c : LRUCache K V N) (call : Call K V) : Prop :=
  ∀ key, call = .touch key → key ∈ c.data.keys

/-- On an empty cache `_remove_old_if_needed` ends only if the capacity is not
negative. -/
theorem nonneg_of_removeOldIfNeeded {capacity : N} {getsizeof : V → N}
    (ends : ∃ c', (new : LRUCache K V N).Ends capacity getsizeof .removeOldIfNeeded c') :
    0 ≤ capacity := by
  by_contra negative
  obtain ⟨_, fuel, r, run, -⟩ := ends
  have stuck : (new : LRUCache K V N).removeOldIfNeeded capacity fuel = none := by
    refine loop_eq_none (· = new) ?_ rfl fuel
    rintro c rfl
    exact ⟨decide_eq_true (not_le.mp negative), new, rfl, rfl⟩
  rw [exec, stuck] at run
  cases run

/-- The cache makes progress in every state of a run exactly if the capacity is not
negative and no call of the run touches a key that is not stored. -/
theorem progresses_iff (capacity : N) (getsizeof : V → N) (calls : List (Call K V)) :
    (∀ before c, before <+: calls → Run (Ends capacity getsizeof) new before c →
        c.Progresses capacity getsizeof) ↔
      0 ≤ capacity ∧ ∀ before call c, before ++ [call] <+: calls →
        Run (Ends capacity getsizeof) new before c → c.TouchesStored call := by
  constructor
  · intro progresses
    constructor
    · exact nonneg_of_removeOldIfNeeded
        (progresses [] new nil_prefix (.refl new)).removeOldIfNeeded
    · rintro before call c isPrefix run key rfl
      have touched : Ends capacity getsizeof c (.touch key) (c.touch key) := ⟨0, _, rfl, rfl⟩
      exact ((progresses _ _ isPrefix (.tail run touched)).order key).mp
        (mem_touch_order.mpr (.inl rfl))
  · rintro ⟨nonneg, stored⟩ before c isPrefix run
    -- The structures agree after each call of the run.
    have synced : c.Synced := by
      induction run with
      | refl => exact new_synced
      | tail run last ih =>
        obtain ⟨fuel, r, exec, rfl⟩ := last
        have before := (prefix_append _ _).trans isPrefix
        exact (ih before).exec (stored _ _ _ isPrefix run) exec
    exact synced.progresses nonneg

/-- With integer sizes, in every run that touches stored keys only, `currsize` is the sum of the
sizes, and the pinned keys are stored. -/
theorem currsize_of_run {capacity : Int} {getsizeof : V → Int} {calls : List (Call K V)}
    {c : LRUCache K V Int} (run : Run (guarded TouchesStored (Ends capacity getsizeof)) new calls c) :
    c.currsize = (c.data.contents.map fun entry => entry.2.2).sum ∧
      ∀ key ∈ c.pinnedItems, key ∈ c.data.keys := by
  have synced : c.Synced := by
    refine run.invariant Synced ?_ new_synced
    rintro c call _ synced ⟨stored, fuel, r, exec, rfl⟩
    exact synced.exec stored exec
  exact ⟨synced.currsize, synced.pinned⟩

/-- Item 2 is pinned, so item 1 is evicted for item 3; item 3 is taken out again. -/
theorem pinnedStays_currsize : ∃ c : LRUCache Nat Int Int,
    Run (guarded TouchesStored (Ends 3 id)) new
      [.setitem 1 2, .setitem 2 1, .pin 2, .setitem 3 2, .pop 3, .setitem 4 1] c ∧
      c.data.keys = [2, 4] ∧ c.pinnedItems = [2] ∧ c.currsize = 2 ∧
      c.currsize = (c.data.contents.map fun entry => entry.2.2).sum ∧
      ∀ key ∈ c.pinnedItems, key ∈ c.data.keys := by
  have run : Run (guarded TouchesStored (Ends (3 : Int) id)) (new : LRUCache Nat Int Int)
      [.setitem 1 2, .setitem 2 1, .pin 2, .setitem 3 2, .pop 3, .setitem 4 1] _ :=
    .head ⟨nofun, 0, _, rfl, rfl⟩ <| .head ⟨nofun, 0, _, rfl, rfl⟩ <|
      .head ⟨nofun, 0, _, rfl, rfl⟩ <| .head ⟨nofun, 1, _, rfl, rfl⟩ <|
      .head ⟨nofun, 0, _, rfl, rfl⟩ <| .head ⟨nofun, 0, _, rfl, rfl⟩ (.refl _)
  exact ⟨_, run, rfl, rfl, rfl, currsize_of_run run⟩

/-- The calls for a request with two new items of size 1, which a cache of capacity 1
cannot hold together. -/
def twoNewItems : List (Call Nat Unit) := [.touch 1, .touch 2, .setitem 1 ()]

/-- The cache after them: item 2 is in the order but not stored, and is the oldest. -/
def afterTwoNewItems : LRUCache Nat Unit Int := ⟨.put .empty 1 ((), 1), 1, [2, 1], []⟩

/-- Storing the second item then evicts forever: `popitem` chooses the key that is
not stored, and removes nothing. -/
theorem touchAbsent_not_progresses :
    Run (Ends 1 fun _ => 1) new twoNewItems afterTwoNewItems ∧
      ¬ afterTwoNewItems.Progresses 1 (fun _ => 1) ∧
      (afterTwoNewItems.popitem false).state = afterTwoNewItems ∧
      ¬ ∃ c', afterTwoNewItems.Ends 1 (fun _ => 1) (.setitem 2 ()) c' := by
  have start : Run (Ends (1 : Int) fun _ : Unit => 1) new twoNewItems afterTwoNewItems :=
    .head ⟨0, _, rfl, rfl⟩ (.head ⟨0, _, rfl, rfl⟩ (.head ⟨0, _, rfl, rfl⟩ (.refl _)))
  have noEnd : ¬ ∃ c', afterTwoNewItems.Ends 1 (fun _ => 1) (.setitem 2 ()) c' := by
    rintro ⟨_, fuel, r, run, -⟩
    have stuck : afterTwoNewItems.makeRoom 1 1 fuel = none := by
      refine loop_eq_none (· = afterTwoNewItems) ?_ rfl fuel
      rintro c rfl
      exact ⟨rfl, afterTwoNewItems, rfl, rfl⟩
    rw [exec, setitem, stuck] at run
    cases run
  exact ⟨start, fun progresses => noEnd (progresses.setitem 2 ()), rfl, noEnd⟩

end Runs

end LRUCache

end Vllm.Utils
