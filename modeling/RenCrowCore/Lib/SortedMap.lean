import Mathlib.Data.String.Basic

/-!
# Maps ordered by a string key

A map as the list of its bindings in key order, the form in which a B-tree map
is walked and printed.

* `get_insert_self`, `get_insert_of_ne`, `get_remove_self` and `get_remove_of_ne`
  say that insertion and removal touch one key and no other;
* `get_ofEntries` reads a binding back from a map that was built entry by entry;
* `Sorted` is the order of the keys, which insertion keeps (`Sorted.insert`), and
  which makes a binding the one its key has (`Sorted.get_of_mem`);
* `get_of_forall₂` follows a lookup through a map that was rebuilt entry by entry.
-/

/-- The bindings of a map, in key order. -/
abbrev SortedMap (α : Type) := List (String × α)

namespace SortedMap

open List

variable {α : Type} {entries : SortedMap α} {key : String} {value : α}

/-- The value stored under a key. -/
def get (key : String) : SortedMap α → Option α
  | [] => none
  | (k, v) :: rest => if k = key then some v else get key rest

/-- Insertion into a map ordered by key; an existing binding is replaced. -/
def insert (key : String) (value : α) : SortedMap α → SortedMap α
  | [] => [(key, value)]
  | (k, v) :: rest =>
    if k = key then (key, value) :: rest
    else if key < k then (key, value) :: (k, v) :: rest
    else (k, v) :: insert key value rest

/-- Removal of a key. -/
def remove (key : String) (entries : SortedMap α) : SortedMap α :=
  entries.filter fun entry => entry.1 ≠ key

theorem mem_of_get_eq_some (h : get key entries = some value) : (key, value) ∈ entries := by
  induction entries with
  | nil => cases h
  | cons entry rest ih =>
    rw [get] at h
    split at h
    · rename_i hkey
      cases h
      exact hkey ▸ mem_cons_self
    · exact mem_cons_of_mem _ (ih h)

theorem get_map {β : Type} (f : α → β) (entries : SortedMap α) (key : String) :
    get key (entries.map fun entry => (entry.1, f entry.2)) = (get key entries).map f := by
  induction entries with
  | nil => rfl
  | cons entry rest ih =>
    rw [map_cons, get, get, ih]
    split <;> rfl

@[simp] theorem get_insert_self (key : String) (value : α) (entries : SortedMap α) :
    get key (insert key value entries) = some value := by
  fun_induction insert key value entries with
  | case1 | case2 | case3 => simp [get]
  | case4 k v rest hk _ ih => rw [get, if_neg hk, ih]

theorem get_insert_of_ne {other : String} (hne : other ≠ key) (value : α) (entries : SortedMap α) :
    get other (insert key value entries) = get other entries := by
  fun_induction insert key value entries with
  | case1 | case2 | case3 => simp [get, hne.symm]
  | case4 k v rest _ _ ih => rw [get, get, ih]

@[simp] theorem get_remove_self (key : String) (entries : SortedMap α) :
    get key (remove key entries) = none := by
  induction entries with
  | nil => rfl
  | cons entry rest ih =>
    by_cases hk : entry.1 = key
    · simpa [remove, hk] using ih
    · simpa [remove, hk, get] using ih

theorem get_remove_of_ne {other : String} (hne : other ≠ key) (entries : SortedMap α) :
    get other (remove key entries) = get other entries := by
  induction entries with
  | nil => rfl
  | cons entry rest ih =>
    by_cases hk : entry.1 = key
    · simpa [remove, get, hk, hne.symm] using ih
    · have hkeep : remove key (entry :: rest) = entry :: remove key rest := by simp [remove, hk]
      rw [hkeep, get, get, ih]

/-- The object a struct serializes to: its present entries, inserted one after
the other.  An absent field is one its serializer skips. -/
def ofEntries : List (String × Option α) → SortedMap α
  | [] => []
  | (key, some value) :: rest => insert key value (ofEntries rest)
  | (_, none) :: rest => ofEntries rest

/-- Reading a field back from a freshly built object. -/
theorem get_ofEntries (key : String) (entries : List (String × Option α))
    (hnd : (entries.map Prod.fst).Nodup) :
    get key (ofEntries entries) = (entries.lookup key).join := by
  induction entries with
  | nil => rfl
  | cons entry rest ih =>
    obtain ⟨k, v⟩ := entry
    rw [map_cons, nodup_cons] at hnd
    have hrest := ih hnd.2
    by_cases hk : key = k
    · subst hk
      cases v with
      | some v => simp [ofEntries]
      | none =>
        have habsent : rest.lookup key = none := by
          refine lookup_eq_none_iff.mpr fun p hp => bne_iff_ne.mpr fun h => ?_
          exact hnd.1 (mem_map.mpr ⟨p, hp, h.symm⟩)
        simp [ofEntries, hrest, habsent]
    · have hbeq : (key == k) = false := by simpa using hk
      cases v with
      | some v => rw [ofEntries, get_insert_of_ne hk, hrest, lookup_cons, hbeq]
      | none => rw [ofEntries, hrest, lookup_cons, hbeq]

/-! ## Order -/

/-- The keys rise. -/
def Sorted (entries : SortedMap α) : Prop := entries.Pairwise fun a b => a.1 < b.1

theorem mem_of_mem_insert {entry : String × α} (h : entry ∈ insert key value entries) :
    entry = (key, value) ∨ entry ∈ entries := by
  induction entries with
  | nil => exact .inl (mem_singleton.mp h)
  | cons head rest ih =>
    rw [insert] at h
    split at h
    · exact (mem_cons.mp h).imp_right (mem_cons_of_mem _)
    · split at h
      · exact mem_cons.mp h
      · rcases mem_cons.mp h with rfl | h
        · exact .inr mem_cons_self
        · exact (ih h).imp_right (mem_cons_of_mem _)

theorem Sorted.insert (h : Sorted entries) (key : String) (value : α) :
    Sorted (insert key value entries) := by
  induction entries with
  | nil => exact pairwise_singleton _ _
  | cons head rest ih =>
    obtain ⟨hhead, htail⟩ := pairwise_cons.mp h
    rw [SortedMap.insert]
    split
    · rename_i hk
      exact pairwise_cons.mpr ⟨fun b hb => hk ▸ hhead b hb, htail⟩
    · rename_i hne
      split
      · rename_i hlt
        refine pairwise_cons.mpr ⟨?_, h⟩
        intro b hb
        rcases mem_cons.mp hb with rfl | hb
        · exact hlt
        · exact hlt.trans (hhead b hb)
      · rename_i hge
        refine pairwise_cons.mpr ⟨?_, ih htail⟩
        intro b hb
        rcases mem_of_mem_insert hb with rfl | hb
        · exact lt_of_le_of_ne (not_lt.mp hge) hne
        · exact hhead b hb

theorem Sorted.get_of_mem (h : Sorted entries) (hmem : (key, value) ∈ entries) :
    get key entries = some value := by
  induction entries with
  | nil => cases hmem
  | cons head rest ih =>
    obtain ⟨k, v⟩ := head
    obtain ⟨hhead, htail⟩ := pairwise_cons.mp h
    rcases mem_cons.mp hmem with heq | hrest
    · cases heq
      rw [get, if_pos rfl]
    · have hne : k ≠ key := (hhead _ hrest).ne
      rw [get, if_neg hne]
      exact ih htail hrest

/-- A lookup in a map whose values were rebuilt one by one. -/
theorem get_of_forall₂ {β : Type} {R : α → β → Prop} {entries' : SortedMap β}
    (h : List.Forall₂ (fun a b => b.1 = a.1 ∧ R a.2 b.2) entries entries') (key : String) :
    Option.Rel R (get key entries) (get key entries') := by
  induction h with
  | nil => exact .none
  | cons hhead _ ih =>
    obtain ⟨hkey, hvalue⟩ := hhead
    rw [get, get, hkey]
    split
    · exact .some hvalue
    · exact ih

end SortedMap
