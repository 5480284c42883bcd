import Mathlib

/-!
Finite dictionaries, read with a default value or with an optional one, and sums over
their values.

A `Dict` is an association list with distinct keys. `total` adds up a weight of
the values; the lemmas say how reading, setting and erasing one entry move it,
so that a count over all entries follows from the entry that changed.
-/

namespace Vllm.Lib

open List

variable {κ β : Type}

/-- An association list with distinct keys. -/
structure Dict (κ β : Type) where
  entries : List (κ × β)
  nodup : (entries.map Prod.fst).Nodup

namespace Dict

def empty : Dict κ β := ⟨[], nodup_nil⟩

variable [DecidableEq κ] [Inhabited β]

def find (key : κ) : List (κ × β) → β
  | [] => default
  | entry :: rest => if entry.1 = key then entry.2 else find key rest

def get (d : Dict κ β) (key : κ) : β := find key d.entries

variable {entries : List (κ × β)} {key key' : κ}

omit [DecidableEq κ] [Inhabited β] in
theorem map_fst_filter_nodup (nodup : (entries.map Prod.fst).Nodup) (p : κ × β → Bool) :
    ((entries.filter p).map Prod.fst).Nodup :=
  nodup.sublist (filter_sublist.map _)

omit [Inhabited β] in
def erase (d : Dict κ β) (key : κ) : Dict κ β :=
  ⟨d.entries.filter fun entry => decide (entry.1 ≠ key), map_fst_filter_nodup d.nodup _⟩

omit [Inhabited β] in
def set (d : Dict κ β) (key : κ) (value : β) : Dict κ β :=
  ⟨(key, value) :: (d.erase key).entries, by
    refine nodup_cons.mpr ⟨fun mem => ?_, (d.erase key).nodup⟩
    obtain ⟨entry, mem, rfl⟩ := mem_map.mp mem
    simpa using (mem_filter.mp mem).2⟩

theorem find_filter_ne (ne : key' ≠ key) (entries : List (κ × β)) :
    find key' (entries.filter fun entry => decide (entry.1 ≠ key)) = find key' entries := by
  induction entries with
  | nil => rfl
  | cons entry rest ih =>
    by_cases same : entry.1 = key
    · have : ¬ entry.1 = key' := fun h => ne (h.symm.trans same)
      rw [filter_cons_of_neg (by simpa using same), ih, find, if_neg this]
    · rw [filter_cons_of_pos (by simpa using same), find, find, ih]

theorem find_eq_default (absent : key ∉ entries.map Prod.fst) : find key entries = default := by
  induction entries with
  | nil => rfl
  | cons entry rest ih =>
    simp only [map_cons, mem_cons, not_or] at absent
    rw [find, if_neg (Ne.symm absent.1), ih absent.2]

section

variable (d : Dict κ β)
include d

@[simp] theorem get_set_self (key : κ) (value : β) : (d.set key value).get key = value := by
  simp [get, set, find]

theorem get_set_of_ne (ne : key' ≠ key) (value : β) : (d.set key value).get key' = d.get key' := by
  rw [get, set, find, if_neg (Ne.symm ne)]
  exact find_filter_ne ne d.entries

theorem get_erase_of_ne (ne : key' ≠ key) : (d.erase key).get key' = d.get key' :=
  find_filter_ne ne d.entries

@[simp] theorem get_erase_self (key : κ) : (d.erase key).get key = default := by
  refine find_eq_default fun mem => ?_
  obtain ⟨entry, mem, same⟩ := mem_map.mp mem
  have := (mem_filter.mp mem).2
  simp [same] at this

end

/-! ### Entries that may be missing -/

section Lookup

omit [Inhabited β]

def get? (d : Dict κ β) (key : κ) : Option β :=
  (d.entries.find? fun entry => decide (entry.1 = key)).map Prod.snd

omit [DecidableEq κ] in
def keys (d : Dict κ β) : List κ := d.entries.map Prod.fst

omit [DecidableEq κ] in
/-- The dictionary with `f` applied to all values. -/
def mapValues (d : Dict κ β) (f : κ → β → β) : Dict κ β :=
  ⟨d.entries.map fun entry => (entry.1, f entry.1 entry.2), by
    rw [map_map]
    exact d.nodup⟩

@[simp] theorem get?_empty (key : κ) : (empty : Dict κ β).get? key = none := rfl

@[simp] theorem get?_set_self (d : Dict κ β) (key : κ) (value : β) :
    (d.set key value).get? key = some value := by
  simp [get?, set]

variable {key key' : κ} {d : Dict κ β}

theorem find?_filter_ne (ne : key' ≠ key) (entries : List (κ × β)) :
    (entries.filter fun entry => decide (entry.1 ≠ key)).find? (fun entry => decide (entry.1 = key')) =
      entries.find? fun entry => decide (entry.1 = key') := by
  rw [find?_filter]
  congr 1
  funext entry
  by_cases same : entry.1 = key'
  · simp [same, ne]
  · simp [same]

theorem get?_set_of_ne (d : Dict κ β) (ne : key' ≠ key) (value : β) :
    (d.set key value).get? key' = d.get? key' := by
  rw [get?, set, find?_cons_of_neg (by simpa using Ne.symm ne)]
  exact congrArg _ (find?_filter_ne ne d.entries)

theorem get?_erase_of_ne (d : Dict κ β) (ne : key' ≠ key) : (d.erase key).get? key' = d.get? key' :=
  congrArg _ (find?_filter_ne ne d.entries)

@[simp] theorem get?_erase_self (d : Dict κ β) (key : κ) : (d.erase key).get? key = none := by
  rw [get?, Option.map_eq_none_iff, find?_eq_none]
  intro entry mem
  simpa using (mem_filter.mp mem).2

theorem get?_set (d : Dict κ β) (key' key : κ) (value : β) :
    (d.set key value).get? key' = if key' = key then some value else d.get? key' := by
  split
  · rename_i same
    rw [same, get?_set_self]
  · exact get?_set_of_ne d ‹_› value

theorem get?_erase (d : Dict κ β) (key' key : κ) :
    (d.erase key).get? key' = if key' = key then none else d.get? key' := by
  split
  · rename_i same
    rw [same, get?_erase_self]
  · exact get?_erase_of_ne d ‹_›

/-- What is in the dictionary after a value was set, or a key erased. -/
theorem get?_set_eq_some {value found : β} (eq : (d.set key value).get? key' = some found) :
    key' = key ∧ value = found ∨ key' ≠ key ∧ d.get? key' = some found := by
  by_cases same : key' = key
  · subst same
    rw [get?_set_self, Option.some.injEq] at eq
    exact .inl ⟨rfl, eq⟩
  · rw [get?_set_of_ne d same] at eq
    exact .inr ⟨same, eq⟩

theorem get?_erase_eq_some {found : β} (eq : (d.erase key).get? key' = some found) :
    key' ≠ key ∧ d.get? key' = some found := by
  have ne : key' ≠ key := by
    rintro rfl
    simp at eq
  rw [get?_erase_of_ne d ne] at eq
  exact ⟨ne, eq⟩

theorem get?_mapValues (d : Dict κ β) (f : κ → β → β) (key : κ) :
    (d.mapValues f).get? key = (d.get? key).map (f key) := by
  rw [get?, mapValues, get?, find?_map]
  have same : (fun entry => decide (entry.1 = key)) ∘
      (fun entry : κ × β => (entry.1, f entry.1 entry.2)) = fun entry => decide (entry.1 = key) := rfl
  rw [same]
  cases found : d.entries.find? fun entry => decide (entry.1 = key) with
  | none => rfl
  | some entry =>
    have isKey : entry.1 = key := by simpa using find?_some found
    simp [isKey]

theorem mem_keys : key ∈ d.keys ↔ ∃ value, d.get? key = some value := by
  constructor
  · intro mem
    obtain ⟨entry, memEntry, rfl⟩ := mem_map.mp mem
    cases found : d.entries.find? fun other => decide (other.1 = entry.1) with
    | none => simpa using find?_eq_none.mp found entry memEntry
    | some other => exact ⟨other.2, by rw [get?, found]; rfl⟩
  · rintro ⟨value, found⟩
    obtain ⟨entry, isFound, -⟩ := Option.map_eq_some_iff.mp found
    have isKey : entry.1 = key := by simpa using find?_some isFound
    exact mem_map.mpr ⟨entry, mem_of_find?_eq_some isFound, isKey⟩

theorem mem_entries_of_get? {value : β} (found : d.get? key = some value) :
    (key, value) ∈ d.entries := by
  obtain ⟨entry, isFound, rfl⟩ := Option.map_eq_some_iff.mp found
  have isKey : entry.1 = key := by simpa using find?_some isFound
  exact isKey ▸ mem_of_find?_eq_some isFound

end Lookup

/-! ### Totals -/

omit [DecidableEq κ] [Inhabited β] in
/-- Sum of a weight over the values. -/
def total (d : Dict κ β) (weight : β → Nat) : Nat := (d.entries.map fun entry => weight entry.2).sum

section Total

variable {weight : β → Nat} (zero : weight default = 0)

include zero

section

variable (d : Dict κ β)
include d

theorem total_erase (key : κ) :
    (d.erase key).total weight + weight (d.get key) = d.total weight := by
  obtain ⟨entries, nodup⟩ := d
  induction entries with
  | nil => simp [erase, get, find, zero]
  | cons entry rest ih =>
    obtain ⟨absent, restNodup⟩ := nodup_cons.mp nodup
    have ih := ih restNodup
    simp only [total, erase, get] at ih ⊢
    by_cases same : entry.1 = key
    · have kept : rest.filter (fun entry => decide (entry.1 ≠ key)) = rest := by
        refine filter_eq_self.mpr fun other mem => ?_
        have : other.1 ≠ key := fun h => absent (mem_map.mpr ⟨other, mem, h.trans same.symm⟩)
        simpa using this
      rw [filter_cons_of_neg (by simpa using same), kept, find, if_pos same]
      simp only [map_cons, sum_cons]
      omega
    · rw [filter_cons_of_pos (by simpa using same), find, if_neg same]
      simp only [map_cons, sum_cons]
      omega

theorem total_set (key : κ) (value : β) :
    (d.set key value).total weight + weight (d.get key) = d.total weight + weight value := by
  have := d.total_erase zero key
  simp only [total, set, map_cons, sum_cons] at this ⊢
  omega

theorem weight_get_le (key : κ) : weight (d.get key) ≤ d.total weight := by
  have := d.total_erase zero key
  omega

/-- Neither do two different entries together. -/
theorem weight_get_add_le {key key' : κ} (ne : key' ≠ key) :
    weight (d.get key) + weight (d.get key') ≤ d.total weight := by
  have erased := d.total_erase zero key
  have other := (d.erase key).weight_get_le zero key'
  rw [d.get_erase_of_ne ne] at other
  omega

end

end Total

/-- `d'` is `d` with another value at `key`. -/
structure Updated (d : Dict κ β) (key : κ) (d' : Dict κ β) : Prop where
  get_of_ne : ∀ {key'}, key' ≠ key → d'.get key' = d.get key'
  total : ∀ weight : β → Nat, weight default = 0 →
    d'.total weight + weight (d.get key) = d.total weight + weight (d'.get key)

theorem updated_set (d : Dict κ β) (key : κ) (value : β) : Updated d key (d.set key value) where
  get_of_ne ne := d.get_set_of_ne ne value
  total weight zero := by
    rw [get_set_self]
    exact d.total_set zero key value

theorem updated_erase (d : Dict κ β) (key : κ) : Updated d key (d.erase key) where
  get_of_ne ne := d.get_erase_of_ne ne
  total weight zero := by
    rw [get_erase_self, zero]
    exact d.total_erase zero key

theorem Updated.refl (d : Dict κ β) (key : κ) : Updated d key d := ⟨fun _ => rfl, fun _ _ => rfl⟩

theorem Updated.symm {d d' : Dict κ β} {key : κ} (updated : Updated d key d') : Updated d' key d where
  get_of_ne ne := (updated.get_of_ne ne).symm
  total weight zero := (updated.total weight zero).symm

theorem Updated.trans {d d₁ d₂ : Dict κ β} {key : κ} (first : Updated d key d₁)
    (second : Updated d₁ key d₂) : Updated d key d₂ where
  get_of_ne ne := (second.get_of_ne ne).trans (first.get_of_ne ne)
  total weight zero := by
    have := first.total weight zero
    have := second.total weight zero
    omega

end Dict

end Vllm.Lib
