import Mathlib.Data.List.Induction

/-!
# Processing a stream until it fails

A consumer takes the items of a list one after the other and stops at the first failure.  The
state at the failure is kept: what was done before it stays done.

* `consume_keeps`: if every item keeps an invariant, or fails with a postcondition, so does the
  whole list;
* `chunks`: a list cut into pieces of a fixed size.
-/

namespace Consumer

open List

variable {σ α ε : Type} {step : σ → α → σ × Option ε} {items piece : List α}
    {failure success : σ → Prop}
  {outcome : σ × Option ε} {state : σ} {size : Nat}

/-- The state after the items up to the first one that fails. -/
def consume (step : σ → α → σ × Option ε) : σ → List α → σ × Option ε
  | state, [] => (state, none)
  | state, item :: items =>
    match step state item with
    | (next, none) => consume step next items
    | (next, some error) => (next, some error)

/-- What holds of an outcome: one property if it succeeded, and one if it failed. -/
def Leaves (outcome : σ × Option ε) (success failure : σ → Prop) : Prop :=
  match outcome with
  | (state, none) => success state
  | (state, some _) => failure state

theorem Leaves.mono {success' failure' : σ → Prop} (h : Leaves outcome success failure)
    (hsuccess : ∀ state, success state → success' state)
    (hfailure : ∀ state, failure state → failure' state) : Leaves outcome success' failure' := by
  obtain ⟨state, _ | error⟩ := outcome
  · exact hsuccess state h
  · exact hfailure state h

theorem Leaves.of_success (h : Leaves outcome success failure) (hnone : outcome.2 = none) :
    success outcome.1 := by
  obtain ⟨state, _ | error⟩ := outcome
  · exact h
  · cases hnone

/-- Whatever the outcome is, one of the two properties holds. -/
theorem Leaves.either (h : Leaves outcome success failure)
    (hsuccess : ∀ state, success state → failure state) : failure outcome.1 := by
  obtain ⟨state, _ | error⟩ := outcome
  · exact hsuccess state h
  · exact h

theorem consume_cons {item : α} :
    consume step state (item :: items) =
      match step state item with
      | (next, none) => consume step next items
      | (next, some error) => (next, some error) := rfl

theorem consume_append {later : List α} :
    consume step state (items ++ later) =
      match consume step state items with
      | (next, none) => consume step next later
      | (next, some error) => (next, some error) := by
  induction items generalizing state with
  | nil => rfl
  | cons item items ih =>
    rw [cons_append, consume_cons, consume_cons]
    obtain ⟨next, _ | error⟩ := step state item
    · exact ih
    · rfl

/-- Lists of items one after the other. -/
theorem consume_flatMap {β : Type} {parts : β → List α} {wholes : List β} :
    consume (fun state whole => consume step state (parts whole)) state wholes =
      consume step state (wholes.flatMap parts) := by
  induction wholes generalizing state with
  | nil => rfl
  | cons whole wholes ih =>
    rw [flatMap_cons, consume_append, consume_cons]
    obtain ⟨next, _ | error⟩ := consume step state (parts whole)
    · exact ih
    · rfl

/-- **Invariant rule.**  The invariant speaks about the items that are done. -/
theorem consume_keeps (invariant : List α → σ → Prop) (hstate : invariant [] state)
    (hstep : ∀ done item state, done ++ [item] <+: items → invariant done state →
      Leaves (step state item) (invariant (done ++ [item])) failure) :
    Leaves (consume step state items) (invariant items) failure := by
  induction items using List.reverseRecOn with
  | nil => exact hstate
  | append_singleton items item ih =>
    have hbefore := ih fun done item' state hdone =>
      hstep done item' state (hdone.trans (prefix_append items [item]))
    rw [consume_append]
    rcases hconsume : consume step state items with ⟨next, _ | error⟩
    · rw [hconsume] at hbefore
      have hlast := hstep items item next (prefix_refl _) hbefore
      rcases hitem : step next item with ⟨last, _ | error⟩
      · rw [hitem] at hlast
        simpa only [consume, hitem] using hlast
      · rw [hitem] at hlast
        simpa only [consume, hitem] using hlast
    · rw [hconsume] at hbefore
      exact hbefore

/-! ## Pieces of a fixed size -/

/-- At most the given number of pieces. -/
def chunksWithin (size : Nat) : Nat → List α → List (List α)
  | 0, _ => []
  | _ + 1, [] => []
  | fuel + 1, items => items.take size :: chunksWithin size fuel (items.drop size)

/-- A list in pieces of one size; the last may be shorter. -/
def chunks (size : Nat) (items : List α) : List (List α) := chunksWithin size items.length items

theorem flatten_chunksWithin {fuel : Nat} (hsize : 0 < size) (hfuel : items.length ≤ fuel) :
    (chunksWithin size fuel items).flatten = items := by
  induction fuel generalizing items with
  | zero =>
    obtain rfl := eq_nil_of_length_eq_zero (Nat.le_zero.mp hfuel)
    rfl
  | succ fuel ih =>
    cases items with
    | nil => rfl
    | cons item items =>
      have hrest : ((item :: items).drop size).length ≤ fuel := by
        rw [length_drop]
        omega
      rw [chunksWithin, flatten_cons, ih hrest, take_append_drop]
      exact fun h => cons_ne_nil _ _ h

/-- The pieces make up the list. -/
theorem flatten_chunks (items : List α) (hsize : 0 < size) :
    (chunks size items).flatten = items := flatten_chunksWithin hsize (Nat.le_refl _)

theorem length_le_of_mem_chunksWithin {fuel : Nat} (h : piece ∈ chunksWithin size fuel items) :
    piece.length ≤ size := by
  induction fuel generalizing items with
  | zero => simp [chunksWithin] at h
  | succ fuel ih =>
    cases items with
    | nil => simp [chunksWithin] at h
    | cons item items =>
      rw [chunksWithin] at h
      · rcases mem_cons.mp h with rfl | h
        · exact length_take_le _ _
        · exact ih h
      · exact fun h => cons_ne_nil _ _ h

/-- No piece is longer than the size. -/
theorem length_le_of_mem_chunks (h : piece ∈ chunks size items) :
    piece.length ≤ size := length_le_of_mem_chunksWithin h

end Consumer
