import Vllm.Lib.Dict

/-!
Insertion-ordered dictionaries.

The entries of a `Dict` are read here from the oldest to the newest, as Python's
`OrderedDict` keeps them. What an operation does to the entries is said twice: the
definitions keep the order, and the lemmas forget it (`contents`), so that proofs which
do not depend on the order reason about multisets.
-/

namespace Vllm.Lib.Dict

open Multiset

variable {κ β : Type}

/-- The entries, whatever their order. -/
def contents (d : Dict κ β) : Multiset (κ × β) := d.entries

/-- The dictionary without its `n` oldest entries. -/
def dropOldest (d : Dict κ β) (n : Nat) : Dict κ β :=
  ⟨d.entries.drop n, d.nodup.sublist ((List.drop_sublist n _).map _)⟩

variable [DecidableEq κ]

variable {d : Dict κ β} {key other : κ} {value : β}

theorem mem_contents : (key, value) ∈ d.contents ↔ d.get? key = some value := by
  constructor
  · intro mem
    obtain ⟨other, found⟩ := mem_keys.mp (List.mem_map_of_mem (f := Prod.fst) mem)
    have same := List.inj_on_of_nodup_map d.nodup mem (mem_entries_of_get? found) rfl
    rw [found, (Prod.mk.inj same).2]
  · exact mem_entries_of_get?

/-- `d[key] = value`: an old key keeps its place, a new one is the newest. -/
def put (d : Dict κ β) (key : κ) (value : β) : Dict κ β :=
  if new : key ∈ d.keys then d.mapValues fun other old => if other = key then value else old
  else ⟨d.entries ++ [(key, value)], by
    rw [List.map_append]
    refine List.nodup_append.mpr ⟨d.nodup, List.nodup_singleton _, ?_⟩
    intro other mem newKey memKey same
    rw [same, List.mem_singleton.mp memKey] at mem
    exact new mem⟩

/-- The entry of the key becomes the newest. -/
def moveToEnd (d : Dict κ β) (key : κ) : Dict κ β :=
  ⟨d.entries.filter (·.1 ≠ key) ++ d.entries.filter (·.1 = key), by
    have perm := (List.filter_append_perm (fun entry : κ × β => decide (entry.1 = key))
      d.entries).symm.trans List.perm_append_comm
    have same : (d.entries.filter fun entry => !decide (entry.1 = key)) =
        d.entries.filter (·.1 ≠ key) := by simp
    rw [same] at perm
    exact (perm.map _).nodup_iff.mp d.nodup⟩

def modify (d : Dict κ β) (key : κ) (f : β → β) : Dict κ β :=
  d.mapValues fun other value => if other = key then f value else value

theorem contents_put_of_new (new : d.get? key = none) (value : β) :
    (d.put key value).contents = (key, value) ::ₘ d.contents := by
  have absent : key ∉ d.keys := by
    intro mem
    obtain ⟨old, found⟩ := mem_keys.mp mem
    rw [new] at found
    cases found
  rw [put, dif_neg absent, contents, ← coe_add, add_comm]
  rfl

@[simp] theorem contents_moveToEnd (d : Dict κ β) (key : κ) :
    (d.moveToEnd key).contents = d.contents := by
  refine coe_eq_coe.mpr (List.perm_append_comm.trans ?_)
  have perm := List.filter_append_perm (fun entry : κ × β => decide (entry.1 = key)) d.entries
  simpa using perm

theorem get?_modify (d : Dict κ β) (key other : κ) (f : β → β) :
    (d.modify key f).get? other =
      (d.get? other).map fun value => if other = key then f value else value :=
  get?_mapValues d _ other

section

variable (found : d.get? key = some value)
include found

/-- A dictionary is an entry and a dictionary without its key. -/
theorem contents_eq_cons_of {rest : Dict κ β} (absent : rest.get? key = none)
    (others : ∀ other, other ≠ key → d.get? other = rest.get? other) :
    d.contents = (key, value) ::ₘ rest.contents := by
  have nodup : ∀ d : Dict κ β, d.contents.Nodup := fun d => d.nodup.of_map
  have notMem : (key, value) ∉ rest.contents := by
    rw [mem_contents, absent]
    simp
  refine (Multiset.Nodup.ext (nodup d) (nodup_cons.mpr ⟨notMem, nodup rest⟩)).mpr ?_
  rintro ⟨other, value'⟩
  rw [mem_cons, mem_contents, mem_contents]
  by_cases same : other = key
  · subst same
    simp [found, absent, eq_comm]
  · rw [others other same]
    simp [same]

/-- The entry of a key, and the others. -/
theorem contents_eq_cons : d.contents = (key, value) ::ₘ (d.erase key).contents :=
  contents_eq_cons_of found (get?_erase_self d key) fun _ ne => (get?_erase_of_ne d ne).symm

theorem contents_modify (f : β → β) :
    (d.modify key f).contents = (key, f value) ::ₘ (d.erase key).contents := by
  refine contents_eq_cons_of ?_ (get?_erase_self d key) fun other ne => ?_
  · rw [get?_modify, found, Option.map_some, if_pos rfl]
  · rw [get?_modify, get?_erase_of_ne d ne]
    simp [ne]

end

theorem erase_of_absent (absent : d.get? key = none) : (d.erase key).contents = d.contents := by
  refine coe_eq_coe.mpr (.of_eq (List.filter_eq_self.mpr fun entry mem => ?_))
  have ne : entry.1 ≠ key := by
    rintro rfl
    rw [mem_contents.mp mem] at absent
    cases absent
  simpa using ne

/-- Erasing some of the entries one by one. -/
theorem contents_foldl_erase {entries : List (κ × β)} (distinct : (entries.map Prod.fst).Nodup)
    (found : ∀ entry ∈ entries, d.get? entry.1 = some entry.2) :
    d.contents = entries + (entries.foldl (fun d entry => d.erase entry.1) d).contents := by
  induction entries generalizing d with
  | nil => exact (zero_add _).symm
  | cons entry rest ih =>
    obtain ⟨notMem, distinct⟩ := List.nodup_cons.mp distinct
    have step := ih (d := d.erase entry.1) distinct fun other mem => by
      have ne : other.1 ≠ entry.1 := fun same => notMem (same ▸ List.mem_map_of_mem mem)
      rw [get?_erase_of_ne d ne]
      exact found other (by simp [mem])
    rw [contents_eq_cons (found entry (by simp)), step]
    rfl

theorem contents_set (d : Dict κ β) (key : κ) (value : β) :
    (d.set key value).contents = (key, value) ::ₘ (d.erase key).contents := rfl

theorem length_set {old : β} (found : d.get? key = some old) (value : β) :
    (d.set key value).entries.length = d.entries.length := by
  have same : d.contents.card = ((key, old) ::ₘ (d.erase key).contents).card := by
    rw [← contents_eq_cons found]
  exact same.symm

theorem contents_put (d : Dict κ β) (key : κ) (value : β) :
    (d.put key value).contents = (key, value) ::ₘ (d.erase key).contents := by
  cases found : d.get? key with
  | none => rw [contents_put_of_new found, erase_of_absent found]
  | some old =>
    have isKey : key ∈ d.keys := mem_keys.mpr ⟨old, found⟩
    rw [put, dif_pos isKey]
    exact contents_modify found fun _ => value

theorem get?_put_self (d : Dict κ β) (key : κ) (value : β) :
    (d.put key value).get? key = some value := by
  rw [← mem_contents, contents_put]
  exact mem_cons_self _ _

theorem get?_put_of_ne (d : Dict κ β) (ne : other ≠ key) (value : β) :
    (d.put key value).get? other = d.get? other := by
  refine Option.ext fun value' => ?_
  rw [← mem_contents, contents_put, mem_cons, mem_contents, get?_erase_of_ne d ne]
  simp [ne]

theorem mem_keys_erase : other ∈ (d.erase key).keys ↔ other ≠ key ∧ other ∈ d.keys := by
  rw [mem_keys, mem_keys]
  by_cases same : other = key
  · subst same
    simp
  · rw [get?_erase_of_ne d same]
    simp [same]

theorem mem_keys_put : other ∈ (d.put key value).keys ↔ other = key ∨ other ∈ d.keys := by
  rw [mem_keys, mem_keys]
  by_cases same : other = key
  · subst same
    simp [get?_put_self]
  · rw [get?_put_of_ne d same]
    simp [same]

/-- A sum over the entries, split at a key. -/
theorem sum_contents_erase {M : Type} [AddCommMonoid M] (f : κ × β → M)
    (found : d.get? key = some value) :
    (d.contents.map f).sum = f (key, value) + ((d.erase key).contents.map f).sum := by
  rw [contents_eq_cons found, map_cons, sum_cons]

section Bind

variable {γ : Type} (g : β → Multiset γ)

/-- What all values contribute together. -/
def collect (d : Dict κ β) : Multiset γ := d.contents.bind fun entry => g entry.2

omit [DecidableEq κ] in
@[simp] theorem collect_empty : (empty : Dict κ β).collect g = 0 := rfl

/-- The contribution of a key, and that of the others. -/
theorem collect_eq_add (d : Dict κ β) (key : κ) :
    d.collect g = (d.get? key).elim 0 g + (d.erase key).collect g := by
  cases found : d.get? key with
  | none => rw [collect, collect, erase_of_absent found, Option.elim_none, zero_add]
  | some value => rw [collect, contents_eq_cons found, cons_bind, Option.elim_some, collect]

/-- The same with a value that contributes nothing for a key that is not there. -/
theorem collect_eq_getD_add (d : Dict κ β) (key : κ) {value : β} (nothing : g value = 0) :
    d.collect g = g ((d.get? key).getD value) + (d.erase key).collect g := by
  rw [collect_eq_add g d key]
  cases d.get? key with
  | none => rw [Option.getD_none, nothing, Option.elim_none]
  | some _ => rfl

theorem collect_set (d : Dict κ β) (key : κ) (value : β) :
    (d.set key value).collect g = g value + (d.erase key).collect g := by
  rw [collect, contents_set, cons_bind, collect]

theorem collect_put (d : Dict κ β) (key : κ) (value : β) :
    (d.put key value).collect g = g value + (d.erase key).collect g := by
  rw [collect, contents_put, cons_bind, collect]

end Bind

end Vllm.Lib.Dict
