import Mathlib.Data.List.Induction
import Mathlib.Data.List.Nodup
import Mathlib.Algebra.BigOperators.Group.List.Basic
import Mathlib.Algebra.GroupWithZero.Nat

/-!
# Numbered items that arrive in any order

Items carry numbers and arrive in any order, some of them more than once.  The first item with
a number counts.

* `firsts`: the arrivals without the repeated ones;
* `IsExpected`: the least number that has not arrived;
* `ahead`: the first arrivals from a number on, which wait for the numbers below it.
-/

namespace Arrivals

open List

variable {α : Type} {arrivals entries : List (Nat × α)} {number next : Nat} {item : α}

theorem lookup_cons_eq (entry : Nat × α) (entries : List (Nat × α)) (key : Nat) :
    (entry :: entries).lookup key = if key = entry.1 then some entry.2 else entries.lookup key := by
  by_cases hkey : key = entry.1
  · rw [lookup_cons, if_pos hkey, beq_iff_eq.mpr hkey]
  · rw [lookup_cons, if_neg hkey, beq_eq_false_iff_ne.mpr hkey]

/-- The first arrivals, in the order of their arrival. -/
def firsts (arrivals : List (Nat × α)) : List (Nat × α) :=
  arrivals.foldl (fun kept arrival =>
    if (kept.lookup arrival.1).isSome then kept else kept ++ [arrival]) []

theorem lookup_concat (arrivals : List (Nat × α)) (number : Nat) (item : α) (key : Nat) :
    (arrivals ++ [(number, item)]).lookup key =
      (arrivals.lookup key).or (if key = number then some item else none) := by
  rw [lookup_append, lookup_cons_eq, lookup_nil]

theorem firsts_concat (arrivals : List (Nat × α)) (arrival : Nat × α) :
    firsts (arrivals ++ [arrival]) =
      if ((firsts arrivals).lookup arrival.1).isSome then firsts arrivals
      else firsts arrivals ++ [arrival] := by
  rw [firsts, foldl_append]
  rfl

/-- The first arrival of each number is kept. -/
@[simp] theorem lookup_firsts (arrivals : List (Nat × α)) (key : Nat) :
    (firsts arrivals).lookup key = arrivals.lookup key := by
  induction arrivals using List.reverseRecOn with
  | nil => rfl
  | append_singleton arrivals arrival ih =>
    obtain ⟨number, item⟩ := arrival
    rw [firsts_concat]
    split
    · rename_i hsome
      rw [lookup_concat, ih]
      by_cases hkey : key = number
      · subst hkey
        obtain ⟨first, hfirst⟩ := Option.isSome_iff_exists.mp hsome
        rw [ih] at hfirst
        rw [hfirst, Option.some_or]
      · rw [if_neg hkey, Option.or_none]
    · rw [lookup_concat, lookup_concat, ih]

theorem firsts_sublist (arrivals : List (Nat × α)) : (firsts arrivals).Sublist arrivals := by
  induction arrivals using List.reverseRecOn with
  | nil => exact .slnil
  | append_singleton arrivals arrival ih =>
    rw [firsts_concat]
    split
    · exact ih.trans (sublist_append_left _ _)
    · exact ih.append (.refl _)

theorem lookup_eq_none_iff {key : Nat} :
    entries.lookup key = none ↔ key ∉ entries.map Prod.fst := by
  simp only [List.lookup_eq_none_iff, List.mem_map, not_exists, not_and, bne_iff_ne]
  exact forall₂_congr fun entry _ => ne_comm

/-! ## The number that is expected next -/

/-- All lower numbers have arrived, and this one has not. -/
def IsExpected (arrivals : List (Nat × α)) (next : Nat) : Prop :=
  (∀ number < next, (arrivals.lookup number).isSome = true) ∧ arrivals.lookup next = none

/-! ## Items that wait -/

/-- The first arrivals from a number on. -/
def ahead (arrivals : List (Nat × α)) (next : Nat) : List (Nat × α) :=
  (firsts arrivals).filter fun arrival => next ≤ arrival.1

theorem lookup_filter (keep : Nat → Bool) (entries : List (Nat × α)) (key : Nat) :
    (entries.filter fun entry => keep entry.1).lookup key =
      if keep key then entries.lookup key else none := by
  induction entries with
  | nil => simp
  | cons entry entries ih =>
    by_cases hkey : key = entry.1
    · subst hkey
      by_cases hkeep : keep entry.1 = true
      · simp [hkeep, lookup_cons_eq]
      · simp [hkeep, ih]
    · by_cases hkeep : keep entry.1 = true <;> simp [hkey, hkeep, ih, lookup_cons_eq]

theorem lookup_ahead (arrivals : List (Nat × α)) (next key : Nat) :
    (ahead arrivals next).lookup key = if next ≤ key then arrivals.lookup key else none := by
  unfold ahead
  rw [lookup_filter (fun number => decide (next ≤ number)), lookup_firsts]
  simp

/-- Without the item that is expected, the later ones wait. -/
theorem ahead_succ (arrivals : List (Nat × α)) (next : Nat) :
    (ahead arrivals next).filter (fun entry => entry.1 ≠ next) = ahead arrivals (next + 1) := by
  unfold ahead
  rw [filter_filter]
  refine filter_congr fun entry _ => ?_
  rw [Bool.eq_iff_iff]
  simp only [Bool.and_eq_true, decide_eq_true_eq]
  omega

/-- A repeated number changes nothing. -/
theorem ahead_concat_known (h : (arrivals.lookup number).isSome = true) :
    ahead (arrivals ++ [(number, item)]) next = ahead arrivals next := by
  unfold ahead
  rw [firsts_concat, lookup_firsts, if_pos h]

theorem ahead_concat_new (h : arrivals.lookup number = none) :
    ahead (arrivals ++ [(number, item)]) next =
      if next ≤ number then ahead arrivals next ++ [(number, item)] else ahead arrivals next := by
  unfold ahead
  rw [firsts_concat, lookup_firsts, h, if_neg (by simp), filter_append, filter_cons]
  by_cases hnext : next ≤ number <;> simp [hnext]

/-- The sizes of entries with distinct numbers, one of them apart. -/
theorem sum_lookup (size : α → Nat) (hnodup : (entries.map Prod.fst).Nodup)
    (h : entries.lookup number = some item) :
    (entries.map fun entry => size entry.2).sum =
      size item + ((entries.filter fun entry => entry.1 ≠ number).map fun entry =>
        size entry.2).sum := by
  obtain ⟨before, after, rfl, -⟩ := lookup_eq_some_iff.mp h
  rw [map_append, map_cons, nodup_middle, ← map_append, nodup_cons] at hnodup
  -- no other entry has the number
  have hothers : (before ++ after).filter (fun entry => entry.1 ≠ number) = before ++ after := by
    refine filter_eq_self.mpr fun other hother => decide_eq_true fun heq => ?_
    exact hnodup.1 (mem_map.mpr ⟨other, hother, heq⟩)
  have hfilter : (before ++ (number, item) :: after).filter (fun entry => entry.1 ≠ number) =
      before ++ after := by
    rw [filter_append, filter_cons_of_neg (by simp), ← filter_append, hothers]
  rw [hfilter]
  simp only [map_append, map_cons, sum_append, sum_cons]
  omega

end Arrivals
