import Mathlib.Data.List.Basic

/-!
# A block put into a list at its slot

A block is put into a list before the last element of a given kind, or at the
end if there is none.  The list can be read off the result, although the block
may occur in it many times over.

* `lastSlot_spec`: what the slot of a list is;
* `insertAt_lastSlot_injective`: the list is determined by the result.
-/

namespace Splice

open List

variable {α : Type*} {items block : List α} {index : Nat}

/-- A list with a block put in at a position. -/
def insertAt (index : Nat) (block items : List α) : List α :=
  items.take index ++ block ++ items.drop index

@[simp] theorem insertAt_nil (index : Nat) (items : List α) : insertAt index [] items = items := by
  simp [insertAt]

theorem length_insertAt (index : Nat) (block items : List α) :
    (insertAt index block items).length = block.length + items.length := by
  simp only [insertAt, length_append, length_take, length_drop]
  omega

/-- Taking the block out again. -/
theorem remove_insertAt (h : index ≤ items.length) (block : List α) :
    (insertAt index block items).take index ++
      (insertAt index block items).drop (index + block.length) = items := by
  have htake : (items.take index).length = index := by simp [h]
  have hblock : (items.take index ++ block).length = index + block.length := by simp [h]
  have hleft : (insertAt index block items).take index = items.take index := by
    rw [insertAt, append_assoc]
    exact take_left' htake
  have hright : (insertAt index block items).drop (index + block.length) = items.drop index :=
    drop_left' hblock
  rw [hleft, hright, take_append_drop]

/-- The block is found where it was put. -/
theorem block_insertAt (h : index ≤ items.length) (block : List α) :
    ((insertAt index block items).drop index).take block.length = block := by
  have htake : (items.take index).length = index := by simp [h]
  rw [insertAt, append_assoc, drop_left' htake]
  exact take_left' rfl

/-- A list in which the block stands at a position is one it was put into. -/
theorem insertAt_of_block (h : (items.drop index).take block.length = block)
    (hindex : index ≤ items.length) :
    insertAt index block (items.take index ++ items.drop (index + block.length)) = items := by
  have htake : (items.take index).length = index := by simp [hindex]
  have hrest : block ++ items.drop (index + block.length) = items.drop index := by
    have hsplit := take_append_drop block.length (items.drop index)
    rw [h, drop_drop] at hsplit
    exact hsplit
  rw [insertAt, take_left' htake, drop_left' htake, append_assoc, hrest, take_append_drop]

/-! ## The slot -/

variable (p : α → Bool)

/-- The position of the last element of the kind, or the end. -/
def lastSlot : List α → Nat
  | [] => 0
  | a :: rest => if rest.any p then lastSlot rest + 1 else if p a then 0 else rest.length + 1

theorem lastSlot_of_none (h : items.any p = false) : lastSlot p items = items.length := by
  cases items with
  | nil => rfl
  | cons a rest =>
    rw [any_cons, Bool.or_eq_false_iff] at h
    simp [lastSlot, h.1, h.2]

theorem lastSlot_append_cons (before : List α) {after : List α} {a : α} (ha : p a = true)
    (hafter : after.any p = false) : lastSlot p (before ++ a :: after) = before.length := by
  induction before with
  | nil => simp [lastSlot, ha, hafter]
  | cons b before ih => simp [lastSlot, ha, ih]

/-- **The slot**: the element there is of the kind and none after it is. -/
theorem lastSlot_spec (h : items.any p = true) :
    ∃ before a after, items = before ++ a :: after ∧ p a = true ∧ after.any p = false ∧
      lastSlot p items = before.length := by
  induction items with
  | nil => cases h
  | cons a rest ih =>
    cases hrest : rest.any p with
    | true =>
      obtain ⟨before, b, after, rfl, hb, hafter, -⟩ := ih hrest
      exact ⟨a :: before, b, after, rfl, hb, hafter, lastSlot_append_cons p (a :: before) hb hafter⟩
    | false =>
      have ha : p a = true := by simpa [hrest] using h
      exact ⟨[], a, rest, rfl, ha, hrest, lastSlot_append_cons p [] ha hrest⟩

theorem lastSlot_le (items : List α) : lastSlot p items ≤ items.length := by
  cases hany : items.any p with
  | true =>
    obtain ⟨before, a, after, rfl, -, -, hslot⟩ := lastSlot_spec p hany
    simp [hslot]
  | false => exact Nat.le_of_eq (lastSlot_of_none p hany)

/-- The slot after one more element at the end. -/
theorem lastSlot_concat (items : List α) (a : α) :
    lastSlot p (items ++ [a]) =
      if p a then items.length else if items.any p then lastSlot p items else items.length + 1 := by
  induction items with
  | nil => simp [lastSlot]
  | cons b rest ih =>
    rw [cons_append, lastSlot, ih]
    cases hkind : p a with
    | true => simp [hkind]
    | false =>
      cases hrest : rest.any p with
      | true => simp [lastSlot, hkind, hrest]
      | false =>
        cases hb : p b with
        | true => simp [lastSlot, hkind, hrest, hb]
        | false => simp [hkind, hrest, hb]

/-! ## Reading the list back -/

/-- The last element of the kind stands behind the block. -/
theorem lastSlot_insertAt (h : items.any p = true) (block : List α) :
    lastSlot p (insertAt (lastSlot p items) block items) = lastSlot p items + block.length := by
  obtain ⟨before, a, after, rfl, ha, hafter, hslot⟩ := lastSlot_spec p h
  rw [hslot, insertAt, take_left, drop_left, lastSlot_append_cons p _ ha hafter, length_append]

theorem countP_insertAt (index : Nat) (block items : List α) :
    (insertAt index block items).countP p = block.countP p + items.countP p := by
  have hitems := congrArg (List.countP p) (take_append_drop index items)
  simp only [insertAt, countP_append] at hitems ⊢
  omega

/-- Lists with one result have one slot: as many elements of each are of the kind, and the
last of them stands in the result behind the block. -/
theorem lastSlot_eq_of_insertAt_eq {items' : List α}
    (h : insertAt (lastSlot p items) block items = insertAt (lastSlot p items') block items') :
    lastSlot p items = lastSlot p items' := by
  have hlen := congrArg List.length h
  have hcount := congrArg (List.countP p) h
  rw [length_insertAt, length_insertAt] at hlen
  rw [countP_insertAt, countP_insertAt] at hcount
  have hsame : items.any p = items'.any p := by
    rw [Bool.eq_iff_iff, any_eq_true, any_eq_true, ← countP_pos_iff,
      ← countP_pos_iff, Nat.add_left_cancel hcount]
  cases hany : items.any p with
  | true =>
    have hslot := lastSlot_insertAt p hany block
    rw [h, lastSlot_insertAt p (hsame ▸ hany)] at hslot
    omega
  | false =>
    rw [lastSlot_of_none p hany, lastSlot_of_none p (hsame ▸ hany)]
    omega

/-- **The list is determined by the result** of putting the block in at its slot. -/
theorem insertAt_lastSlot_injective (block : List α) :
    Function.Injective fun items => insertAt (lastSlot p items) block items := by
  intro items items' h
  have heq : insertAt (lastSlot p items) block items =
      insertAt (lastSlot p items') block items' := h
  have hslot := lastSlot_eq_of_insertAt_eq p heq
  have hitems := remove_insertAt (lastSlot_le p items) block
  rw [heq, hslot, remove_insertAt (lastSlot_le p items') block] at hitems
  exact hitems.symm

end Splice
