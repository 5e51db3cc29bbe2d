import Mathlib.Data.List.Forall2

/-!
# Computations that may fail

The laws by which a run of a fallible computation is taken apart.

* `bind_eq_ok` splits it at its first step, and `bind_eq_error` a failed one;
* `ensure` is a check that stops with an error, and `ensure_bind_eq_ok` says what
  is known once it has passed;
* `mapM_eq_ok`, `mapM_eq_error` and `mapM_of_forall` treat a list of computations.
-/

namespace Fallible

open List

universe u v

variable {ε : Type u} {error : ε} {condition : Bool}

section Bind

variable {α β : Type v} {x : Except ε α} {f : α → Except ε β} {b : β}

/-- A computation that succeeded: its first step did, and the rest did on its result. -/
theorem bind_eq_ok : (x >>= f) = .ok b ↔ ∃ a, x = .ok a ∧ f a = .ok b := by
  constructor
  · intro h
    cases x with
    | error e => exact absurd h (by simp [bind, Except.bind])
    | ok a => exact ⟨a, rfl, h⟩
  · rintro ⟨a, rfl, h⟩
    exact h

/-- A computation that failed: its first step did, or the rest did on its result. -/
theorem bind_eq_error {e : ε} :
    (x >>= f) = .error e ↔ x = .error e ∨ ∃ a, x = .ok a ∧ f a = .error e := by
  cases x with
  | error e' => simp [bind, Except.bind]
  | ok a => simp [bind, Except.bind]

/-- A condition under which the computation fails. -/
theorem ite_error_eq_ok {c : Prop} [Decidable c] {a : α} :
    (if c then .error error else x) = .ok a ↔ ¬ c ∧ x = .ok a := by
  by_cases hc : c <;> simp [hc]

end Bind

section Lists

variable {α : Type*} {β : Type v} {f : α → Except ε β} {xs : List α} {ys : List β}

/-- A list of computations that all succeeded. -/
theorem mapM_eq_ok : xs.mapM f = .ok ys ↔ List.Forall₂ (fun x y => f x = .ok y) xs ys := by
  induction xs generalizing ys with
  | nil =>
    rw [mapM_nil, forall₂_nil_left_iff]
    exact ⟨fun h => (Except.ok.inj h).symm, fun h => h ▸ rfl⟩
  | cons x xs ih =>
    rw [mapM_cons, bind_eq_ok]
    constructor
    · rintro ⟨y, hy, h⟩
      obtain ⟨rest, hrest, h⟩ := bind_eq_ok.mp h
      cases h
      exact .cons hy (ih.mp hrest)
    · intro h
      cases h with
      | cons hy hrest => exact ⟨_, hy, bind_eq_ok.mpr ⟨_, ih.mpr hrest, rfl⟩⟩

/-- A list of computations fails as one of them does. -/
theorem mapM_eq_error {e : ε} (h : xs.mapM f = .error e) : ∃ x ∈ xs, f x = .error e := by
  induction xs with
  | nil => cases h
  | cons x xs ih =>
    rw [mapM_cons] at h
    rcases bind_eq_error.mp h with hx | ⟨y, -, h⟩
    · exact ⟨x, mem_cons_self, hx⟩
    rcases bind_eq_error.mp h with hxs | ⟨ys, -, h⟩
    · obtain ⟨x', hmem, hx'⟩ := ih hxs
      exact ⟨x', mem_cons_of_mem _ hmem, hx'⟩
    · cases h

/-- Computations that succeed one by one succeed together. -/
theorem mapM_of_forall {P : α → β → Prop} (h : ∀ x ∈ xs, ∃ y, f x = .ok y ∧ P x y) :
    ∃ ys, xs.mapM f = .ok ys ∧ List.Forall₂ P xs ys := by
  induction xs with
  | nil => exact ⟨[], rfl, .nil⟩
  | cons x xs ih =>
    obtain ⟨y, hy, hP⟩ := h x mem_cons_self
    obtain ⟨ys, hys, hall⟩ := ih fun x hx => h x (mem_cons_of_mem _ hx)
    exact ⟨y :: ys, mapM_eq_ok.mpr (.cons hy (mapM_eq_ok.mp hys)), .cons hP hall⟩

theorem mapM_isOk (h : ∀ x ∈ xs, ∃ y, f x = .ok y) : ∃ ys, xs.mapM f = .ok ys := by
  obtain ⟨ys, hys, -⟩ := mapM_of_forall (P := fun _ _ => True) fun x hx =>
    (h x hx).imp fun _ hy => ⟨hy, trivial⟩
  exact ⟨ys, hys⟩

end Lists

/-- A run that starts from the image of a state, when each step commutes with the function. -/
theorem foldlM_map {σ : Type v} {α : Type*} {f : σ → α → Except ε σ} {g : σ → σ}
    (hstep : ∀ s a, f (g s) a = (f s a).map g) (s : σ) (xs : List α) :
    xs.foldlM f (g s) = (xs.foldlM f s).map g := by
  induction xs generalizing s with
  | nil => rfl
  | cons x xs ih =>
    rw [foldlM_cons, foldlM_cons, hstep]
    cases f s x with
    | error e => rfl
    | ok next => exact ih next

/-- A check: go on if the condition holds, stop with the error otherwise. -/
def ensure (condition : Bool) (error : ε) : Except ε PUnit :=
  if condition then .ok ⟨⟩ else .error error

theorem ensure_eq_ok {u : PUnit} : ensure condition error = .ok u ↔ condition = true := by
  cases condition <;> simp [ensure]

theorem ensure_bind_eq_ok {β : Type v} {f : PUnit → Except ε β} {b : β} :
    (ensure condition error >>= f) = .ok b ↔ condition = true ∧ f ⟨⟩ = .ok b := by
  rw [bind_eq_ok]
  constructor
  · rintro ⟨⟨⟩, hcheck, hrest⟩
    exact ⟨ensure_eq_ok.mp hcheck, hrest⟩
  · rintro ⟨hcheck, hrest⟩
    exact ⟨⟨⟩, ensure_eq_ok.mpr hcheck, hrest⟩

theorem ensure_bind_eq_error {β : Type v} {f : PUnit → Except ε β} {e : ε} :
    (ensure condition error >>= f) = .error e ↔
      condition = false ∧ error = e ∨ condition = true ∧ f ⟨⟩ = .error e := by
  cases condition <;> simp [ensure, bind, Except.bind]

section Results

variable {α β : Type v} {x : Except ε α} {a : α}

/-- An optional value that has to be there. -/
theorem elim_eq_ok {o : Option α} :
    o.elim (Except.error error) Except.ok = Except.ok a ↔ o = some a := by
  cases o with
  | none => simp
  | some b => simp

theorem map_eq_ok {g : α → β} {b : β} : x.map g = .ok b ↔ ∃ a, x = .ok a ∧ g a = b := by
  cases x <;> simp [Except.map]

/-- An error that is translated. -/
theorem mapError_eq_ok {ε' : Type*} {f : ε → ε'} : x.mapError f = .ok a ↔ x = .ok a := by
  cases x with
  | error e | ok b => simp [Except.mapError]

theorem toOption_eq_some : x.toOption = some a ↔ x = .ok a := by
  cases x <;> simp [Except.toOption]

/-- Computations with results that agree under a function go on alike. -/
theorem bind_congr_of_map_eq {α' γ : Type v} {x' : Except ε α'} {g : α → γ}
    {g' : α' → γ} {f : α → Except ε β} {f' : α' → Except ε β} (hmap : x.map g = x'.map g')
    (hrest : ∀ a a', g a = g' a' → f a = f' a') : x >>= f = x' >>= f' := by
  cases x with
  | error e =>
    cases x' with
    | error e' =>
      injection hmap with he
      rw [he]
      rfl
    | ok a' => cases hmap
  | ok a =>
    cases x' with
    | error e' => cases hmap
    | ok a' =>
      injection hmap with hg
      exact hrest a a' hg

end Results

/-- What succeeds once succeeds again, with results that belong together. -/
def Repeats {α β : Type*} (rel : α → β → Prop) (first : Except ε α) (second : Except ε β) : Prop :=
  ∀ a, first = .ok a → ∃ b, second = .ok b ∧ rel a b

section Repeats

variable {α β γ δ : Type v} {rel : α → β → Prop} {x x' : Except ε α} {y y' : Except ε β}

theorem Repeats.ok {a : α} {b : β} (h : rel a b) : Repeats rel (.ok a : Except ε α) (.ok b) := by
  rintro _ ⟨⟩
  exact ⟨b, rfl, h⟩

theorem Repeats.failed : Repeats rel (.error error) y := nofun

theorem Repeats.ite {c : Prop} [Decidable c] (hpos : c → Repeats rel x y)
    (hneg : ¬ c → Repeats rel x' y') : Repeats rel (if c then x else x') (if c then y else y') := by
  split
  · exact hpos ‹_›
  · exact hneg ‹_›

theorem Repeats.bind {rel' : γ → δ → Prop} {f : α → Except ε γ} {g : β → Except ε δ}
    (h : Repeats rel x y) (hrest : ∀ a b, rel a b → Repeats rel' (f a) (g b)) :
    Repeats rel' (x >>= f) (y >>= g) := by
  intro c hc
  obtain ⟨a, ha, hc⟩ := bind_eq_ok.mp hc
  obtain ⟨b, hb, hab⟩ := h a ha
  obtain ⟨d, hd, hcd⟩ := hrest a b hab c hc
  exact ⟨d, bind_eq_ok.mpr ⟨b, hb, hd⟩, hcd⟩

end Repeats

/-- The condition of a check that fails when `p` holds and `q` does not. -/
theorem not_and_not_eq_true {p q : Prop} [Decidable p] [Decidable q] :
    (!(decide p && decide (¬ q))) = true ↔ (p → q) := by
  by_cases hp : p <;> by_cases hq : q <;> simp [hp, hq]

end Fallible
