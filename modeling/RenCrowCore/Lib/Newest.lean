import Mathlib.Data.List.Sort

/-!
# Keeping the newest records that fit

Records are sorted by a key, and the oldest are dropped until the rest fits.

* `sortByKey`: the stable sort, oldest first;
* `newest`: the longest end of a list that fits;
* `suffix_newest`: no longer end fits;
* `filter_sortByKey`: a part of the records is sorted as they are among all.
-/

namespace Newest

open List

variable {α κ : Type*}

/-- The longest end of a list that fits. -/
def newest (fits : List α → Bool) : List α → List α
  | [] => []
  | item :: items => if fits (item :: items) then item :: items else newest fits items

section Newest

variable {fits : List α → Bool} {items part : List α}

theorem newest_eq_self (h : fits items = true) : newest fits items = items := by
  cases items with
  | nil => rfl
  | cons item items => rw [newest, if_pos h]

theorem newest_cons_of_not {item : α} (h : fits (item :: items) = false) :
    newest fits (item :: items) = newest fits items := by
  rw [newest, if_neg (Bool.eq_false_iff.mp h)]

theorem newest_suffix (fits : List α → Bool) (items : List α) : newest fits items <:+ items := by
  induction items with
  | nil => exact suffix_refl _
  | cons item items ih =>
    rw [newest]
    split
    · exact suffix_refl _
    · exact ih.trans (suffix_cons _ _)

theorem newest_sublist (fits : List α → Bool) (items : List α) :
    (newest fits items).Sublist items :=
  (newest_suffix fits items).sublist

theorem fits_newest (hnil : fits [] = true) (items : List α) : fits (newest fits items) = true := by
  induction items with
  | nil => exact hnil
  | cons item items ih =>
    rw [newest]
    split
    · assumption
    · exact ih

/-- No longer end fits. -/
theorem suffix_newest (hpart : part <:+ items) (hfits : fits part = true) :
    part <:+ newest fits items := by
  induction items with
  | nil =>
    rw [suffix_nil.mp hpart]
    exact nil_suffix
  | cons item items ih =>
    rw [newest]
    split
    · exact hpart
    · rename_i hunfit
      rcases suffix_cons_iff.mp hpart with rfl | hpart
      · exact absurd hfits hunfit
      · exact ih hpart

end Newest

/-! ## Sorting by a key -/

section ByKey

variable [LinearOrder κ] (key : α → κ)

/-- The stable sort by a key, oldest first. -/
def sortByKey (items : List α) : List α := items.insertionSort fun a b => key a ≤ key b

variable {key} {items part : List α}

theorem perm_sortByKey (items : List α) : (sortByKey key items).Perm items :=
  perm_insertionSort _ items

@[simp] theorem mem_sortByKey {item : α} : item ∈ sortByKey key items ↔ item ∈ items :=
  (perm_sortByKey items).mem_iff

theorem pairwise_sortByKey (items : List α) :
    (sortByKey key items).Pairwise fun a b => key a ≤ key b := by
  exact pairwise_insertionSort _ items

theorem sortByKey_eq_self (h : items.Pairwise fun a b => key a ≤ key b) :
    sortByKey key items = items := h.insertionSort_eq

theorem filter_orderedInsert (p : α → Bool) (item : α)
    (h : items.Pairwise fun a b => key a ≤ key b) :
    (items.orderedInsert (fun a b => key a ≤ key b) item).filter p =
      if p item then (items.filter p).orderedInsert (fun a b => key a ≤ key b) item
      else items.filter p := by
  induction items with
  | nil =>
    cases hp : p item with
    | true => simp [hp]
    | false => simp [hp]
  | cons first rest ih =>
    obtain ⟨hfirst, hrest⟩ := pairwise_cons.mp h
    rw [orderedInsert_cons]
    split
    · rename_i hle
      -- all that follows is at least as new, so the item comes first among any part
      have hall : ∀ other ∈ (first :: rest).filter p, key item ≤ key other := by
        intro other hother
        rcases mem_cons.mp (mem_filter.mp hother).1 with rfl | hother
        · exact hle
        · exact hle.trans (hfirst other hother)
      cases hp : p item with
      | false => rw [filter_cons_of_neg (by simp [hp])]; rfl
      | true =>
        rw [filter_cons_of_pos hp, if_pos rfl]
        cases hpart : (first :: rest).filter p with
        | nil => rfl
        | cons other others =>
          rw [hpart] at hall
          rw [orderedInsert_cons, if_pos (hall other mem_cons_self)]
    · rename_i hlt
      rw [filter_cons, filter_cons, ih hrest]
      cases hp : p first with
      | false => simp
      | true =>
        cases p item with
        | false => simp
        | true => simp [orderedInsert_cons, hlt]

/-- **The sort is stable**: a part of the records is sorted as they are among all. -/
theorem filter_sortByKey (p : α → Bool) (items : List α) :
    (sortByKey key items).filter p = sortByKey key (items.filter p) := by
  induction items with
  | nil => rfl
  | cons item items ih =>
    have hcons : sortByKey key (item :: items) =
        (sortByKey key items).orderedInsert (fun a b => key a ≤ key b) item := rfl
    rw [hcons, filter_orderedInsert p item (pairwise_sortByKey items), ih, filter_cons]
    split <;> rfl

/-- Records with different keys are in strict order. -/
theorem pairwise_lt_sortByKey (h : (items.map key).Nodup) :
    (sortByKey key items).Pairwise fun a b => key a < key b := by
  have hkeys : ((sortByKey key items).map key).Nodup :=
    ((perm_sortByKey items).map key).nodup_iff.mpr h
  have hne : (sortByKey key items).Pairwise fun a b => key a ≠ key b := pairwise_map.mp hkeys
  exact ((pairwise_sortByKey items).and hne).imp fun hab => lt_of_le_of_ne hab.1 hab.2

theorem nodup_of_pairwise_lt (h : items.Pairwise fun a b => key a < key b) : items.Nodup :=
  h.imp fun hab => by
    rintro rfl
    exact absurd hab (lt_irrefl _)

/-- In strict order, a part is a sublist. -/
theorem sublist_of_pairwise_lt (hpart : part.Pairwise fun a b => key a < key b)
    (hitems : items.Pairwise fun a b => key a < key b) (hsub : part ⊆ items) :
    part.Sublist items := by
  exact sublist_of_subperm_of_pairwise
    (subperm_of_subset (nodup_of_pairwise_lt hpart) hsub) hpart hitems

end ByKey

end Newest
