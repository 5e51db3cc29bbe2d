
/-!
# Journals

A journal lists the changes that were made to a state, in their order.  It is faithful if
going through it again leads from the old state to the new one, and going back through it
from the new state to the old one.
-/

namespace Journal

variable {γ σ : Type}

/-- Makes the changes again, first to last. -/
def replay (redo : σ → γ → σ) (state : σ) (changes : List γ) : σ := changes.foldl redo state

/-- The changes are taken back, the last one first. -/
def revert (undo : σ → γ → σ) (state : σ) (changes : List γ) : σ :=
  changes.foldr (fun change state => undo state change) state

/-- The changes lead from one state to the other and back. -/
structure Faithful (redo undo : σ → γ → σ) (old : σ) (changes : List γ) (new : σ) : Prop where
  replayed : replay redo old changes = new
  reverted : revert undo new changes = old

variable {redo undo : σ → γ → σ} {old new next : σ} {changes : List γ} {change : γ}

theorem Faithful.nil (state : σ) : Faithful redo undo state [] state := ⟨rfl, rfl⟩

/-- One more change. -/
theorem Faithful.concat (h : Faithful redo undo old changes new) (hredo : redo new change = next)
    (hundo : undo next change = new) : Faithful redo undo old (changes ++ [change]) next where
  replayed := by
    rw [replay, List.foldl_append]
    exact (congrArg (redo · change) h.replayed).trans hredo
  reverted := by
    rw [revert, List.foldr_append]
    exact (congrArg (revert undo · changes) hundo).trans h.reverted

end Journal
