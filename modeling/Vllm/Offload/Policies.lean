import Vllm.Lib.OrderedDict

/-!
Cache policies of the CPU offloading tier (`vllm/v1/kv_offload/cpu/policies`).

A policy keeps the blocks of the tier by key and picks those to evict. `contents` is what
a policy holds, whatever the order and the lists it keeps them in; the rest of the
development uses only what each operation does to the contents.
-/

namespace Vllm.Offload

open Vllm.Lib Dict List

/-- `BlockStatus`. `ref_cnt` is a 32-bit field; the manager wraps what it writes there.
`block_id` is a 64-bit field, and ids are rows of a mapped region, so they fit. -/
structure BlockStatus where
  refCnt : Int
  blockId : Nat
  deriving DecidableEq, Repr

def BlockStatus.IsReady (block : BlockStatus) : Prop := 0 ≤ block.refCnt

instance (block : BlockStatus) : Decidable block.IsReady := inferInstanceAs (Decidable (0 ≤ _))

/-- The arithmetic of Python's floats, as far as ARC uses it. Nothing is assumed of it. -/
class PyFloat (F : Type) where
  ofNat : Nat → F
  /-- `m / n`. -/
  trueDiv : Nat → Nat → F
  add : F → F → F
  sub : F → F → F
  max : F → F → F
  min : F → F → F
  /-- `int(x)`. -/
  toInt : F → Int

variable {K F : Type} [DecidableEq K]

/-! ### LRU -/

structure LRUCachePolicy (K : Type) where
  blocks : Dict K BlockStatus := .empty

namespace LRUCachePolicy

def get (p : LRUCachePolicy K) (key : K) : Option BlockStatus := p.blocks.get? key

def insert (p : LRUCachePolicy K) (key : K) (block : BlockStatus) : LRUCachePolicy K :=
  ⟨p.blocks.put key block⟩

def remove (p : LRUCachePolicy K) (key : K) : LRUCachePolicy K := ⟨p.blocks.erase key⟩

/-- The block that `get` finds is an object, and is changed in place. -/
def update (p : LRUCachePolicy K) (key : K) (f : BlockStatus → BlockStatus) : LRUCachePolicy K :=
  ⟨p.blocks.modify key f⟩

def touch (p : LRUCachePolicy K) (keys : List K) : LRUCachePolicy K :=
  keys.reverse.foldl (fun p key => ⟨p.blocks.moveToEnd key⟩) p

def evict (p : LRUCachePolicy K) (n : Nat) (protectedKeys : List K) :
    Option (List (K × BlockStatus) × LRUCachePolicy K) :=
  let candidates := (p.blocks.entries.filter fun entry =>
    entry.2.refCnt = 0 ∧ entry.1 ∉ protectedKeys).take n
  if candidates.length < n then none
  else some (candidates, ⟨candidates.foldl (fun blocks entry => blocks.erase entry.1) p.blocks⟩)

end LRUCachePolicy

/-! ### ARC -/

structure ARCCachePolicy (K F : Type) where
  cacheCapacity : Nat
  targetT1Size : F
  t1 : Dict K BlockStatus := .empty
  t2 : Dict K BlockStatus := .empty
  b1 : Dict K Unit := .empty
  b2 : Dict K Unit := .empty

namespace ARCCachePolicy

variable [PyFloat F]

def get (p : ARCCachePolicy K F) (key : K) : Option BlockStatus :=
  (p.t1.get? key).or (p.t2.get? key)

def insert (p : ARCCachePolicy K F) (key : K) (block : BlockStatus) : ARCCachePolicy K F :=
  { p with t1 := p.t1.put key block, b1 := p.b1.erase key, b2 := p.b2.erase key }

def remove (p : ARCCachePolicy K F) (key : K) : ARCCachePolicy K F :=
  if (p.t1.get? key).isSome then { p with t1 := p.t1.erase key }
  else { p with t2 := p.t2.erase key }

/-- The block that `get` finds is an object, and is changed in place. -/
def update (p : ARCCachePolicy K F) (key : K) (f : BlockStatus → BlockStatus) :
    ARCCachePolicy K F :=
  if (p.t1.get? key).isSome then { p with t1 := p.t1.modify key f }
  else { p with t2 := p.t2.modify key f }

/-- `touch` for one key. A block that is still being stored stays in T1. -/
def touchKey (p : ARCCachePolicy K F) (key : K) : ARCCachePolicy K F :=
  match p.t1.get? key with
  | some block =>
    if block.IsReady then { p with t1 := p.t1.erase key, t2 := p.t2.put key block }
    else { p with t1 := (p.t1.erase key).put key block }
  | none =>
    if (p.t2.get? key).isSome then { p with t2 := p.t2.moveToEnd key }
    else if (p.b1.get? key).isSome then
      let delta := PyFloat.max (PyFloat.ofNat 1)
        (PyFloat.trueDiv p.b2.entries.length p.b1.entries.length)
      { p with
        targetT1Size := PyFloat.min (PyFloat.add p.targetT1Size delta)
          (PyFloat.ofNat p.cacheCapacity)
        b1 := p.b1.moveToEnd key }
    else if (p.b2.get? key).isSome then
      let delta := PyFloat.max (PyFloat.ofNat 1)
        (PyFloat.trueDiv p.b1.entries.length p.b2.entries.length)
      { p with
        targetT1Size := PyFloat.max (PyFloat.sub p.targetT1Size delta) (PyFloat.ofNat 0)
        b2 := p.b2.moveToEnd key }
    else p

def touch (p : ARCCachePolicy K F) (keys : List K) : ARCCachePolicy K F :=
  keys.reverse.foldl touchKey p

/-- A block that `evict` selected. -/
structure Candidate (K : Type) where
  key : K
  block : BlockStatus
  fromT1 : Bool

/-- A block that may be evicted. -/
def Idle (protectedKeys : List K) (entry : K × BlockStatus) : Prop :=
  entry.2.refCnt = 0 ∧ entry.1 ∉ protectedKeys

instance (protectedKeys : List K) : DecidablePred (Idle protectedKeys) :=
  fun _ => inferInstanceAs (Decidable (_ ∧ _))

/-- The next block that `evict` selects: from T1 while that is at least as large as its
target, from T2 otherwise. -/
def candidate (p : ARCCachePolicy K F) (protectedKeys : List K) (virtualT1Size : Int) :
    Option (Candidate K) :=
  let fromT1 := if PyFloat.toInt p.targetT1Size ≤ virtualT1Size then
      p.t1.entries.find? (Idle protectedKeys)
    else none
  match fromT1 with
  | some entry => some ⟨entry.1, entry.2, true⟩
  | none => (p.t2.entries.find? (Idle protectedKeys)).map fun entry => ⟨entry.1, entry.2, false⟩

/-- The first loop of `evict`: blocks are selected, and nothing is changed yet. -/
def candidates (p : ARCCachePolicy K F) (protectedKeys : List K) :
    Nat → List (Candidate K) → Int → Option (List (Candidate K))
  | 0, selected, _ => some selected
  | n + 1, selected, virtualT1Size =>
    match p.candidate (protectedKeys ++ selected.map (·.key)) virtualT1Size with
    | none => none
    | some c => candidates p protectedKeys n (selected ++ [c])
        (if c.fromT1 then virtualT1Size - 1 else virtualT1Size)

/-- The second loop of `evict` for one block, which becomes a ghost. -/
def evictCandidate (p : ARCCachePolicy K F) (c : Candidate K) : ARCCachePolicy K F :=
  if c.fromT1 then { p with t1 := p.t1.erase c.key, b1 := p.b1.put c.key () }
  else { p with t2 := p.t2.erase c.key, b2 := p.b2.put c.key () }

/-- The ghost lists are bounded by the capacity. -/
def trimGhosts (p : ARCCachePolicy K F) : ARCCachePolicy K F :=
  { p with
    b1 := p.b1.dropOldest (p.b1.entries.length - p.cacheCapacity)
    b2 := p.b2.dropOldest (p.b2.entries.length - p.cacheCapacity) }

def evict (p : ARCCachePolicy K F) (n : Nat) (protectedKeys : List K) :
    Option (List (K × BlockStatus) × ARCCachePolicy K F) :=
  if n = 0 then some ([], p)
  else (p.candidates protectedKeys n [] p.t1.entries.length).map fun selected =>
    (selected.map fun c => (c.key, c.block), (selected.foldl evictCandidate p).trimGhosts)

end ARCCachePolicy

/-! ### What the policies keep -/

theorem LRUCachePolicy.contents_touch (p : LRUCachePolicy K) (keys : List K) :
    (p.touch keys).blocks.contents = p.blocks.contents := by
  unfold touch
  induction keys.reverse generalizing p with
  | nil => rfl
  | cons key rest ih =>
    rw [foldl_cons, ih]
    exact contents_moveToEnd _ _

variable {evicted : List (K × BlockStatus)}

theorem LRUCachePolicy.contents_evict {p p' : LRUCachePolicy K} {n : Nat} {keys : List K}
    (run : p.evict n keys = some (evicted, p')) :
    p.blocks.contents = evicted + p'.blocks.contents ∧ evicted.length = n ∧
      (∀ entry ∈ evicted, entry.2.refCnt = 0 ∧ entry.1 ∉ keys) ∧
      (evicted.map Prod.fst).Nodup := by
  obtain ⟨enough, run⟩ := Option.ite_none_left_eq_some.mp run
  cases run
  have part := (take_sublist n _).trans (filter_sublist
    (p := fun entry : K × BlockStatus => decide (entry.2.refCnt = 0 ∧ entry.1 ∉ keys))
    (l := p.blocks.entries))
  have distinct := p.blocks.nodup.sublist (part.map Prod.fst)
  refine ⟨contents_foldl_erase distinct ?_, ?_, ?_, distinct⟩
  · intro entry mem
    exact mem_contents.mp (part.subset mem)
  · exact le_antisymm (length_take_le _ _) (not_lt.mp enough)
  · intro entry mem
    simpa using (mem_filter.mp (mem_of_mem_take mem)).2

namespace ARCCachePolicy

variable {p p' : ARCCachePolicy K F}

/-- The keys and blocks of T1 and T2. -/
def contents (p : ARCCachePolicy K F) : Multiset (K × BlockStatus) := p.t1.contents + p.t2.contents

theorem not_both {key : K} {block : BlockStatus} (distinct : (p.contents.map Prod.fst).Nodup)
    (inT1 : p.t1.get? key = some block) : p.t2.get? key = none := by
  cases inT2 : p.t2.get? key with
  | none => rfl
  | some other =>
    rw [contents, Multiset.map_add] at distinct
    have disjoint := Multiset.disjoint_of_nodup_add distinct
    have memT1 : key ∈ p.t1.contents.map Prod.fst :=
      Multiset.mem_map.mpr ⟨(key, block), mem_contents.mpr inT1, rfl⟩
    have memT2 : key ∈ p.t2.contents.map Prod.fst :=
      Multiset.mem_map.mpr ⟨(key, other), mem_contents.mpr inT2, rfl⟩
    exact absurd memT2 (Multiset.disjoint_left.mp disjoint memT1)

variable [PyFloat F]

theorem contents_touchKey (distinct : (p.contents.map Prod.fst).Nodup) (key : K) :
    (p.touchKey key).contents = p.contents := by
  unfold touchKey
  split
  · rename_i block inT1
    split
    · -- From T1 to T2.
      rw [contents, contents_put_of_new (not_both distinct inT1), Multiset.add_cons,
        ← Multiset.cons_add, ← contents_eq_cons inT1]
      rfl
    · rw [contents, contents_put_of_new (get?_erase_self _ _),
        ← contents_eq_cons inT1]
      rfl
  · split
    · rw [contents, contents_moveToEnd]
      rfl
    · split
      · rfl
      · split <;> rfl

theorem contents_touch (distinct : (p.contents.map Prod.fst).Nodup) (keys : List K) :
    (p.touch keys).contents = p.contents := by
  unfold touch
  induction keys.reverse generalizing p with
  | nil => rfl
  | cons key rest ih =>
    have first := contents_touchKey distinct key
    rw [foldl_cons, ih (by rw [first]; exact distinct), first]

/-- The block is in the list that it was selected from. -/
def InList (p : ARCCachePolicy K F) (c : Candidate K) : Prop :=
  if c.fromT1 then p.t1.get? c.key = some c.block else p.t2.get? c.key = some c.block

variable {keys : List K} {virtualT1Size : Int} {c : Candidate K} {n : Nat}
  {selected : List (Candidate K)}

theorem candidate_spec (run : p.candidate keys virtualT1Size = some c) :
    p.InList c ∧ c.block.refCnt = 0 ∧ c.key ∉ keys := by
  have idle : ∀ {d : Dict K BlockStatus} {entry}, d.entries.find? (Idle keys) = some entry →
      d.get? entry.1 = some entry.2 ∧ entry.2.refCnt = 0 ∧ entry.1 ∉ keys := by
    intro d entry found
    have isIdle : Idle keys entry := by simpa using find?_some found
    exact ⟨mem_contents.mp (mem_of_find?_eq_some found), isIdle⟩
  unfold candidate at run
  simp only at run
  split at run
  · rename_i entry found
    cases run
    split at found
    · exact idle found
    · cases found
  · obtain ⟨entry, found, rfl⟩ := Option.map_eq_some_iff.mp run
    exact idle found

/-- All selected blocks are idle, and no two have the same key. -/
structure Selected (p : ARCCachePolicy K F) (protectedKeys : List K)
    (selected : List (Candidate K)) : Prop where
  inList : ∀ c ∈ selected, p.InList c
  idle : ∀ c ∈ selected, c.block.refCnt = 0 ∧ c.key ∉ protectedKeys
  distinct : (selected.map (·.key)).Nodup

theorem candidates_spec {all : List (Candidate K)} (start : p.Selected keys selected)
    (run : p.candidates keys n selected virtualT1Size = some all) :
    p.Selected keys all ∧ all.length = selected.length + n := by
  induction n generalizing selected virtualT1Size with
  | zero =>
    cases run
    exact ⟨start, rfl⟩
  | succ n ih =>
    unfold candidates at run
    split at run
    · cases run
    · rename_i c found
      obtain ⟨inList, isIdle, notMem⟩ := candidate_spec found
      rw [mem_append, not_or] at notMem
      have next : p.Selected keys (selected ++ [c]) := by
        constructor
        · exact forall_mem_append.mpr ⟨start.inList, forall_mem_singleton.mpr inList⟩
        · exact forall_mem_append.mpr ⟨start.idle, forall_mem_singleton.mpr ⟨isIdle, notMem.1⟩⟩
        · rw [map_append]
          exact start.distinct.append (nodup_singleton _) (disjoint_singleton.mpr notMem.2)
      obtain ⟨done, length⟩ := ih next run
      refine ⟨done, ?_⟩
      rw [length, length_append, length_singleton]
      omega

omit [PyFloat F] in
theorem contents_evictCandidate (inList : p.InList c) :
    p.contents = (c.key, c.block) ::ₘ (p.evictCandidate c).contents ∧
      ∀ other, other.key ≠ c.key → p.InList other → (p.evictCandidate c).InList other := by
  unfold InList at inList
  unfold evictCandidate
  split at inList
  · rename_i fromT1
    rw [if_pos fromT1]
    refine ⟨?_, fun other ne isOther => ?_⟩
    · rw [contents, contents_eq_cons inList]
      rfl
    · unfold InList at isOther ⊢
      split
      · rw [get?_erase_of_ne _ ne]
        rwa [if_pos ‹_›] at isOther
      · rwa [if_neg ‹_›] at isOther
  · rename_i fromT2
    rw [if_neg fromT2]
    refine ⟨?_, fun other ne isOther => ?_⟩
    · rw [contents, contents_eq_cons inList, Multiset.add_cons]
      rfl
    · unfold InList at isOther ⊢
      split
      · rwa [if_pos ‹_›] at isOther
      · rw [get?_erase_of_ne _ ne]
        rwa [if_neg ‹_›] at isOther

omit [PyFloat F] in
theorem contents_foldl_evictCandidate (inList : ∀ c ∈ selected, p.InList c)
    (distinct : (selected.map (·.key)).Nodup) :
    p.contents = (selected.map fun c => (c.key, c.block) : List (K × BlockStatus)) +
      (selected.foldl evictCandidate p).contents := by
  induction selected generalizing p with
  | nil => exact (Multiset.zero_add _).symm
  | cons c rest ih =>
    obtain ⟨notMem, distinct⟩ := nodup_cons.mp distinct
    obtain ⟨first, keeps⟩ := contents_evictCandidate (inList c (by simp))
    have step := ih (fun other mem => by
      have ne : other.key ≠ c.key := fun same => notMem (mem_map.mpr ⟨other, mem, same⟩)
      exact keeps other ne (inList other (by simp [mem]))) distinct
    rw [first, step]
    rfl

theorem contents_evict (run : p.evict n keys = some (evicted, p')) :
    p.contents = evicted + p'.contents ∧ evicted.length = n ∧
      (∀ entry ∈ evicted, entry.2.refCnt = 0 ∧ entry.1 ∉ keys) ∧
      (evicted.map Prod.fst).Nodup := by
  unfold evict at run
  split at run
  · rename_i zero
    cases run
    exact ⟨(Multiset.zero_add _).symm, zero.symm, nofun, nodup_nil⟩
  · obtain ⟨selected, found, same⟩ := Option.map_eq_some_iff.mp run
    cases same
    obtain ⟨done, length⟩ := candidates_spec
      ⟨forall_mem_nil _, forall_mem_nil _, nodup_nil⟩ found
    refine ⟨contents_foldl_evictCandidate done.inList done.distinct, ?_, ?_, ?_⟩
    · rw [length_map, length, length_nil, Nat.zero_add]
    · intro entry mem
      obtain ⟨c, memC, rfl⟩ := mem_map.mp mem
      exact done.idle c memC
    · rw [map_map]
      exact done.distinct

end ARCCachePolicy

/-! ### Either policy -/

/-- `_CACHE_POLICIES`. -/
inductive PolicyKind where
  | lru
  | arc
  deriving DecidableEq, Repr

/-- `CachePolicy` with its two implementations. -/
inductive CachePolicy (K F : Type) where
  | lru (policy : LRUCachePolicy K)
  | arc (policy : ARCCachePolicy K F)

namespace CachePolicy

variable [PyFloat F]

def new (K F : Type) [PyFloat F] (cacheCapacity : Nat) : PolicyKind → CachePolicy K F
  | .lru => .lru {}
  | .arc => .arc { cacheCapacity, targetT1Size := PyFloat.ofNat 0 }

def get : CachePolicy K F → K → Option BlockStatus
  | .lru p => p.get
  | .arc p => p.get

def insert (key : K) (block : BlockStatus) : CachePolicy K F → CachePolicy K F
  | .lru p => .lru (p.insert key block)
  | .arc p => .arc (p.insert key block)

def remove (key : K) : CachePolicy K F → CachePolicy K F
  | .lru p => .lru (p.remove key)
  | .arc p => .arc (p.remove key)

def update (key : K) (f : BlockStatus → BlockStatus) : CachePolicy K F → CachePolicy K F
  | .lru p => .lru (p.update key f)
  | .arc p => .arc (p.update key f)

def touch (keys : List K) : CachePolicy K F → CachePolicy K F
  | .lru p => .lru (p.touch keys)
  | .arc p => .arc (p.touch keys)

def evict (n : Nat) (protectedKeys : List K) :
    CachePolicy K F → Option (List (K × BlockStatus) × CachePolicy K F)
  | .lru p => (p.evict n protectedKeys).map fun (evicted, p) => (evicted, .lru p)
  | .arc p => (p.evict n protectedKeys).map fun (evicted, p) => (evicted, .arc p)

/-- The keys and blocks that a policy holds. -/
def contents : CachePolicy K F → Multiset (K × BlockStatus)
  | .lru p => p.blocks.contents
  | .arc p => p.contents

def Distinct (p : CachePolicy K F) : Prop := (p.contents.map Prod.fst).Nodup

variable {p p' : CachePolicy K F} {key : K} {block : BlockStatus}

omit [PyFloat F] in
theorem mem_contents_of_get (found : p.get key = some block) : (key, block) ∈ p.contents := by
  cases p with
  | lru p => exact mem_contents.mpr found
  | arc p =>
    rcases Option.or_eq_some_iff.mp found with inT1 | ⟨-, inT2⟩
    · exact Multiset.mem_add.mpr (.inl (mem_contents.mpr inT1))
    · exact Multiset.mem_add.mpr (.inr (mem_contents.mpr inT2))

omit [PyFloat F] in
theorem get_eq_none (absent : p.get key = none) : (key, block) ∉ p.contents := by
  intro mem
  cases p with
  | lru p =>
    rw [get, LRUCachePolicy.get, mem_contents.mp mem] at absent
    cases absent
  | arc p =>
    obtain ⟨notT1, notT2⟩ := Option.or_eq_none_iff.mp absent
    rcases Multiset.mem_add.mp mem with inT1 | inT2
    · rw [mem_contents.mp inT1] at notT1
      cases notT1
    · rw [mem_contents.mp inT2] at notT2
      cases notT2

omit [PyFloat F] in
theorem get_eq_some_iff (distinct : p.Distinct) :
    p.get key = some block ↔ (key, block) ∈ p.contents := by
  constructor
  · exact mem_contents_of_get
  · intro mem
    cases found : p.get key with
    | none => exact absurd mem (get_eq_none found)
    | some other =>
      have same := Multiset.inj_on_of_nodup_map distinct _ (mem_contents_of_get found) _ mem rfl
      rw [(Prod.mk.inj same).2]

omit [PyFloat F] in
theorem contents_insert (new : p.get key = none) :
    (p.insert key block).contents = (key, block) ::ₘ p.contents := by
  cases p with
  | lru p => exact contents_put_of_new new block
  | arc p =>
    obtain ⟨notT1, -⟩ := Option.or_eq_none_iff.mp new
    calc (p.t1.put key block).contents + p.t2.contents
        = (key, block) ::ₘ p.t1.contents + p.t2.contents := by
          rw [contents_put_of_new notT1]
      _ = (key, block) ::ₘ (p.t1.contents + p.t2.contents) := Multiset.cons_add _ _ _

omit [PyFloat F] in
/-- The block of a key and the others: a change in place and a removal leave the others. -/
theorem contents_of_get (found : p.get key = some block) : ∃ rest,
    p.contents = (key, block) ::ₘ rest ∧ (p.remove key).contents = rest ∧
      ∀ f, (p.update key f).contents = (key, f block) ::ₘ rest := by
  cases p with
  | lru p => exact ⟨_, contents_eq_cons found, rfl, contents_modify found⟩
  | arc p =>
    rcases Option.or_eq_some_iff.mp found with inT1 | ⟨notT1, inT2⟩
    · refine ⟨(p.t1.erase key).contents + p.t2.contents, ?_, ?_, fun f => ?_⟩
      · rw [contents, ARCCachePolicy.contents, contents_eq_cons inT1, Multiset.cons_add]
      · simp [remove, ARCCachePolicy.remove, inT1, contents, ARCCachePolicy.contents]
      · simp [update, ARCCachePolicy.update, inT1, contents, ARCCachePolicy.contents,
          contents_modify inT1]
    · refine ⟨p.t1.contents + (p.t2.erase key).contents, ?_, ?_, fun f => ?_⟩
      · rw [contents, ARCCachePolicy.contents, contents_eq_cons inT2, Multiset.add_cons]
      · simp [remove, ARCCachePolicy.remove, notT1, contents, ARCCachePolicy.contents]
      · simp [update, ARCCachePolicy.update, notT1, contents, ARCCachePolicy.contents,
          contents_modify inT2]

theorem contents_touch (distinct : p.Distinct) (keys : List K) :
    (p.touch keys).contents = p.contents := by
  cases p with
  | lru p => exact p.contents_touch keys
  | arc p => exact p.contents_touch distinct keys

/-- Eviction takes as many blocks as asked for, all of them idle and none protected. -/
theorem contents_evict {n : Nat} {keys : List K}
    (run : p.evict n keys = some (evicted, p')) :
    p.contents = evicted + p'.contents ∧ evicted.length = n ∧
      (∀ entry ∈ evicted, entry.2.refCnt = 0 ∧ entry.1 ∉ keys) ∧
      (evicted.map Prod.fst).Nodup := by
  cases p with
  | lru p =>
    obtain ⟨⟨evicted', p₁⟩, found, same⟩ := Option.map_eq_some_iff.mp run
    cases same
    exact LRUCachePolicy.contents_evict found
  | arc p =>
    obtain ⟨⟨evicted', p₁⟩, found, same⟩ := Option.map_eq_some_iff.mp run
    cases same
    exact ARCCachePolicy.contents_evict found

end CachePolicy

end Vllm.Offload
