
/-!
# Longest accepted prefixes

A deterministic recogniser reads a list from the left with a partial step
function and stops at the first element it refuses.  `acceptedPrefix` is what it
has read by then.

* `acceptedPrefix_prefix`, `acceptedPrefix_idem`: it is a prefix, and it is
  accepted whole;
* `Accepts.of_append`: acceptance is closed under prefixes;
* `acceptedPrefix_append_cons_of_not_accepts`: a refused element ends the
  prefix, whatever comes after it.
-/

namespace Scan

universe u v

variable {σ : Type u} {α : Type v} (step : σ → α → Option σ)

/-- The longest prefix the recogniser reads from a state. -/
def acceptedPrefix : σ → List α → List α
  | _, [] => []
  | s, x :: xs =>
    match step s x with
    | some s' => x :: acceptedPrefix s' xs
    | none => []

/-- The recogniser reads the whole list. -/
def Accepts (s : σ) (xs : List α) : Prop := acceptedPrefix step s xs = xs

instance [DecidableEq α] (s : σ) (xs : List α) : Decidable (Accepts step s xs) :=
  inferInstanceAs (Decidable (_ = _))

variable {step} {s : σ}

theorem acceptedPrefix_cons_some {s s' : σ} {x : α} (h : step s x = some s') (xs : List α) :
    acceptedPrefix step s (x :: xs) = x :: acceptedPrefix step s' xs := by
  rw [acceptedPrefix, h]

theorem acceptedPrefix_cons_none {x : α} (h : step s x = none) (xs : List α) :
    acceptedPrefix step s (x :: xs) = [] := by
  rw [acceptedPrefix, h]

theorem accepts_cons_iff {x : α} {xs : List α} :
    Accepts step s (x :: xs) ↔ ∃ s', step s x = some s' ∧ Accepts step s' xs := by
  cases h : step s x with
  | none =>
    rw [Accepts, acceptedPrefix_cons_none h]
    simp
  | some s' =>
    rw [Accepts, acceptedPrefix_cons_some h]
    simp [Accepts]

theorem acceptedPrefix_prefix (s : σ) (xs : List α) : acceptedPrefix step s xs <+: xs := by
  fun_induction acceptedPrefix step s xs with
  | case1 | case3 => exact List.nil_prefix
  | case2 s x xs s' h ih => exact (List.prefix_cons_inj x).mpr ih

/-- What the recogniser has read is accepted whole. -/
theorem acceptedPrefix_idem (s : σ) (xs : List α) : Accepts step s (acceptedPrefix step s xs) := by
  fun_induction acceptedPrefix step s xs with
  | case1 | case3 => rfl
  | case2 s x xs s' h ih => exact accepts_cons_iff.mpr ⟨s', h, ih⟩

/-- Acceptance is closed under prefixes. -/
theorem Accepts.of_append {xs ys : List α} (h : Accepts step s (xs ++ ys)) : Accepts step s xs := by
  induction xs generalizing s with
  | nil => rfl
  | cons x xs ih =>
    rw [List.cons_append, accepts_cons_iff] at h
    obtain ⟨s', hx, hxs⟩ := h
    exact accepts_cons_iff.mpr ⟨s', hx, ih hxs⟩

/-- An element the recogniser refuses ends the prefix. -/
theorem acceptedPrefix_append_cons_of_not_accepts {xs : List α} {y : α}
    (hxs : Accepts step s xs) (hy : ¬ Accepts step s (xs ++ [y])) (rest : List α) :
    acceptedPrefix step s (xs ++ y :: rest) = xs := by
  induction xs generalizing s with
  | nil =>
    cases h : step s y with
    | none => exact acceptedPrefix_cons_none h rest
    | some s' => exact (hy (accepts_cons_iff.mpr ⟨s', h, rfl⟩)).elim
  | cons x xs ih =>
    obtain ⟨s', hx, hxs'⟩ := accepts_cons_iff.mp hxs
    have hy' : ¬ Accepts step s' (xs ++ [y]) := fun h =>
      hy (accepts_cons_iff.mpr ⟨s', hx, h⟩)
    rw [List.cons_append, acceptedPrefix_cons_some hx, ih hxs' hy']

/-- The recogniser stops at the end of the list or at an element it refuses. -/
theorem acceptedPrefix_stop {xs rest : List α} {y : α}
    (h : xs = acceptedPrefix step s xs ++ y :: rest) :
    ¬ Accepts step s (acceptedPrefix step s xs ++ [y]) := by
  induction xs generalizing s with
  | nil => simp [acceptedPrefix] at h
  | cons x xs ih =>
    cases hx : step s x with
    | none =>
      rw [acceptedPrefix_cons_none hx, List.nil_append] at h ⊢
      obtain ⟨rfl, -⟩ := List.cons.inj h
      rw [accepts_cons_iff]
      rintro ⟨s', hs', -⟩
      rw [hx] at hs'
      cases hs'
    | some s' =>
      rw [acceptedPrefix_cons_some hx, List.cons_append] at h ⊢
      have htail := ih (List.cons.inj h).2
      intro hacc
      obtain ⟨s'', hs'', hrest⟩ := accepts_cons_iff.mp hacc
      rw [hx] at hs''
      cases hs''
      exact htail hrest

end Scan
