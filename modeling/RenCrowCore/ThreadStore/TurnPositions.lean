import RenCrowCore.ThreadStore.Fork

/-!
# The positions of turns

The row of a turn says where its records start and end.  These places lie in the lines that
were projected, so a rollout can be cut there.

* `TurnRow.Placed`: the positions of a row lie in a file of some length;
* `Projected.placed`: so do those of all rows that come from the lines of a file;
* `Projected.checkpoint`: projected lines have ordinals below the next one.
-/

namespace RenCrow.ThreadStore

open Fallible

/-! ## Rows -/

/-- The positions of a row lie in the first bytes of a file. -/
structure TurnRow.Placed (length : Nat) (row : TurnRow) : Prop where
  ordinal_lt : row.rolloutOrdinal < i64Max
  offset_le : row.rolloutByteOffset ≤ length
  end_ordinal : ∀ ordinal ∈ row.rolloutEndOrdinal, row.rolloutOrdinal ≤ ordinal ∧ ordinal < i64Max
  end_offset : ∀ offset ∈ row.rolloutEndByteOffset, offset ≤ length

/-- The rows lie there and start no later than a line. -/
def TurnsPlaced (length ordinal : Nat) (turns : List TurnRow) : Prop :=
  ∀ row ∈ turns, row.Placed length ∧ row.rolloutOrdinal ≤ ordinal

variable {length nextOrd : Nat} {rows : RolloutRows} {threadId : String}
  {decode : List UInt8 → LineReading} {steps : List RolloutProjectionStep}
  {lines : List (List UInt8)}

section Rows

variable {position : LinePosition} {row : TurnRow} {next : RolloutRows}
  {fallback : Option Int} {turns : List TurnRow}

theorem TurnsPlaced.map {ord : Nat} {f : TurnRow → TurnRow} (h : TurnsPlaced length ord turns)
    (hkeeps : ∀ row, row.Placed length → row.rolloutOrdinal ≤ ord →
      (f row).Placed length ∧ (f row).rolloutOrdinal ≤ ord) :
    TurnsPlaced length ord (turns.map f) := by
  intro row hmem
  obtain ⟨old, hold, rfl⟩ := List.mem_map.mp hmem
  obtain ⟨hplaced, hle⟩ := h old hold
  exact hkeeps old hplaced hle

theorem newTurnRow_placed (hwithin : position.Within length) (hord : position.ordinal < i64Max)
    (turn : ThreadHistoryTurnMetadata) : (newTurnRow position turn).Placed length := by
  refine ⟨hord, hwithin.1, ?_, ?_⟩
  · intro ord hmem
    obtain ⟨-, ⟨⟩⟩ := Option.ite_none_right_eq_some.mp hmem
    exact ⟨le_rfl, hord⟩
  · intro offset hmem
    obtain ⟨-, ⟨⟩⟩ := Option.ite_none_right_eq_some.mp hmem
    exact hwithin.2

theorem TurnRow.Placed.updated (h : row.Placed length) (hle : row.rolloutOrdinal ≤ position.ordinal)
    (hwithin : position.Within length) (hord : position.ordinal < i64Max)
    (turn : ThreadHistoryTurnMetadata) : (row.updated position turn).Placed length := by
  refine ⟨h.ordinal_lt, h.offset_le, ?_, ?_⟩
  · intro ord hmem
    obtain ⟨-, ⟨⟩⟩ := Option.ite_none_right_eq_some.mp hmem
    exact ⟨hle, hord⟩
  · intro offset hmem
    obtain ⟨-, ⟨⟩⟩ := Option.ite_none_right_eq_some.mp hmem
    exact hwithin.2

theorem insertTurn_placed (h : TurnsPlaced length position.ordinal turns)
    (hwithin : position.Within length) (hord : position.ordinal < i64Max)
    (turn : ThreadHistoryTurnMetadata) :
    TurnsPlaced length position.ordinal (insertTurn position turn turns) := by
  unfold insertTurn
  split
  · refine h.map ?_
    intro row hplaced hle
    unfold TurnRow.continued
    split
    · exact ⟨hplaced.updated hle hwithin hord turn, hle⟩
    · exact ⟨hplaced, hle⟩
  · refine List.forall_mem_append.mpr ⟨h, List.forall_mem_singleton.mpr ⟨?_, le_rfl⟩⟩
    exact newTurnRow_placed hwithin hord turn

variable (h : TurnsPlaced length position.ordinal rows.turns) (hwithin : position.Within length)
  (hord : position.ordinal < i64Max)

include h hwithin hord in
theorem applyTurn_placed (turn : ThreadHistoryTurnMetadata) :
    TurnsPlaced length position.ordinal (applyTurn position rows turn).turns := by
  refine (insertTurn_placed h hwithin hord turn).map ?_
  intro row hplaced hle
  unfold TurnRow.summarized
  split
  · exact ⟨⟨hplaced.1, hplaced.2, hplaced.3, hplaced.4⟩, hle⟩
  · exact ⟨hplaced, hle⟩

include h hwithin hord in
theorem applyTurns_placed (turns : List ThreadHistoryTurnMetadata) :
    TurnsPlaced length position.ordinal (turns.foldl (applyTurn position) rows).turns := by
  induction turns generalizing rows with
  | nil => exact h
  | cons turn turns ih => exact ih (applyTurn_placed h hwithin hord turn)

theorem noted_placed (item : ThreadItem) (h : row.Placed length) :
    (row.noted item).Placed length ∧ (row.noted item).rolloutOrdinal = row.rolloutOrdinal := by
  unfold TurnRow.noted
  split <;> exact ⟨⟨h.1, h.2, h.3, h.4⟩, rfl⟩

theorem applyItem_placed {change : ThreadHistoryItemChange} {ord : Nat}
    (h : TurnsPlaced length ord rows.turns)
    (happly : applyItem threadId position fallback rows change = .ok next) :
    TurnsPlaced length ord next.turns := by
  unfold applyItem at happly
  split at happly
  · cases happly
  · cases happly
    refine h.map ?_
    intro row hplaced hle
    unfold TurnRow.withItem
    split
    · obtain ⟨hnoted, hsame⟩ := noted_placed change.item hplaced
      exact ⟨hnoted, hsame ▸ hle⟩
    · exact ⟨hplaced, hle⟩

include h hwithin hord in
theorem applyChangeSet_placed {changes : ThreadHistoryChangeSet}
    (happly : applyChangeSet threadId position fallback changes rows = .ok next) :
    TurnsPlaced length position.ordinal next.turns := by
  have hturns := applyTurns_placed h hwithin hord changes.changedTurns
  have hstep : ∀ (rows : RolloutRows) change next, TurnsPlaced length position.ordinal rows.turns →
      applyItem threadId position fallback rows change = .ok next →
        TurnsPlaced length position.ordinal next.turns :=
    fun _ _ _ hrows hnext => applyItem_placed hrows hnext
  exact (Run.foldlM_invariant hstep happly hturns :)

end Rows

/-! ## Steps -/

section Steps

variable {projection : ProjectedRolloutLine} {after : RolloutRows × Nat}

theorem applyRealtime_turns {next : RolloutRows} (h : applyRealtime projection rows = .ok next) :
    next.turns = rows.turns := by
  unfold applyRealtime at h
  split at h <;> cases h <;> rfl

theorem applyLine_placed (h : TurnsPlaced length nextOrd rows.turns)
    (hwithin : projection.position.Within length)
    (happly : applyLine threadId projection rows nextOrd = .ok after) :
    TurnsPlaced length after.2 after.1.turns := by
  obtain ⟨hnext, hlt, hafter, changed, hchanged, hfinal⟩ := applyLine_eq_ok happly
  rw [← hnext] at h hlt hafter
  have hplaced := applyChangeSet_placed h hwithin hlt hchanged
  rw [hafter, applyRealtime_turns hfinal]
  exact fun row hmem => ⟨(hplaced row hmem).1, (hplaced row hmem).2.trans (Nat.le_succ _)⟩

theorem applySteps_placed (hread : ReadFrom nextOrd steps)
    (hwithin : ∀ step ∈ steps, step.Within length) (h : TurnsPlaced length nextOrd rows.turns)
    (happly : steps.foldlM (applyStep threadId) (rows, nextOrd) = .ok after) :
    TurnsPlaced length after.2 after.1.turns := by
  induction steps generalizing rows nextOrd with
  | nil =>
    cases happly
    exact h
  | cons step steps ih =>
    obtain ⟨⟨next, ord⟩, hnext, happly⟩ := bind_eq_ok.mp happly
    obtain ⟨hfirst, hwithin⟩ := List.forall_mem_cons.mp hwithin
    obtain rfl : ord = stepEnd step :=
      (applyStep_inRange threadId hread.fit.1 (hread.timed step List.mem_cons_self)).of_ok hnext
    refine ih hread.tail hwithin ?_ happly
    cases step with
    | line projection => exact applyLine_placed h hfirst hnext
    | skippedOrdinalRange first stop =>
      obtain ⟨skipped, -, hnext⟩ := bind_eq_ok.mp hnext
      cases hnext
      exact fun row hmem =>
        ⟨(h row hmem).1, (h row hmem).2.trans (hread.fit.1.1 ▸ hread.fit.1.2.le)⟩

end Steps

/-! ## Projected lines -/

section Projecting

variable {header : SessionMeta}

/-- **Turns lie in the lines they come from.** -/
theorem Projected.placed (h : Projected decode threadId header lines rows) :
    ∀ row ∈ rows.turns, row.Placed lines.flatten.length := by
  obtain ⟨steps, projected, hread, happly, rfl, -⟩ := h
  obtain ⟨hfrom, -, hwithin, -⟩ := readLines_inRange.of_ok hread
  have hplaced := applySteps_placed hfrom hwithin (by simp [TurnsPlaced]) happly
  exact fun row hmem => (hplaced row hmem).1

end Projecting

/-! ## Ordinals -/

section Ordinals

theorem applyStep_le {state after : RolloutRows × Nat} {step : RolloutProjectionStep}
    (h : applyStep threadId state step = .ok after) : after.2 ≤ i64Max := by
  cases step with
  | line projection =>
    obtain ⟨-, hlt, hafter, -⟩ := applyLine_eq_ok h
    rw [hafter]
    exact hlt
  | skippedOrdinalRange first stop =>
    obtain ⟨skipped, hskipped, h⟩ := bind_eq_ok.mp h
    cases h
    obtain ⟨rfl, hle⟩ := applySkipped_eq_ok hskipped
    exact hle

/-- **The checkpoint lies after all lines that were projected.** -/
theorem Projected.checkpoint {header : SessionMeta} {rows : RolloutRows}
    (h : Projected decode threadId header lines rows) (hlines : lines ≠ []) :
    ∃ state, rows.projection = some state ∧ state.nextByteOffset = lines.flatten.length ∧
      state.nextOrdinal ≤ i64Max ∧
      ∀ line ∈ lines, ∀ ord, lineOrdinal decode line = some ord → ord < state.nextOrdinal := by
  obtain ⟨steps, projected, hread, happly, rfl, hrange⟩ := h
  obtain ⟨-, -, -, hafter⟩ := readLines_inRange.of_ok hread
  refine ⟨⟨lines.flatten.length, stepsEnd (initialOrdinal header) steps⟩, ?_, rfl, ?_, hafter⟩
  · unfold RolloutRows.withCheckpoint
    rw [if_neg hlines]
  · have hstep : ∀ (state : RolloutRows × Nat) step next, state.2 ≤ i64Max →
        applyStep threadId state step = .ok next → next.2 ≤ i64Max :=
      fun _ _ _ _ hnext => applyStep_le hnext
    exact (Run.foldlM_invariant hstep happly (hrange hlines).1 :)

end Ordinals

end RenCrow.ThreadStore
