import RenCrowCore.Lib.Run
import RenCrowCore.ThreadStore.ForkFrame

/-!
# Lines after the cut

A line of an ancestor after the cut of a fork changes nothing that the fork reads, unless it
updates a row from before the cut in one of the columns that are read.

* `KeepsTurn`, `KeepsItem`: the changes that leave those columns alone;
* `rowsKept_applyTurn`, `rowsKept_applyItem`, `rowsKept_applyRealtime`: such a change keeps what
  the fork reads.
-/

namespace RenCrow.ThreadStore

open TurnRow RolloutLineageSegment List

/-! ## Conditions -/

section Conditions

variable (db : HistoryDb) (lineage : RolloutLineage) (place : CutPlace)

/-- A line about a running turn that the fork reads: it may end the turn only if the fork has
a newer row for it, and it may settle no summary item from before the cut. -/
def KeepsRunning (turn : ThreadHistoryTurnMetadata) (row : TurnRow) : Prop :=
  turn.startedAt = row.startedAt ∧
    (hasTurn db place.newer row.turnId = true ∨
      turn.status = .inProgress ∧ turn.error = row.error ∧ turn.completedAt = row.completedAt ∧
        turn.durationMs = row.durationMs) ∧
    (place.readsSummary db lineage row.turnId = true →
      (row.firstUserItemId = none →
        place.seenItemId db row.turnId
          (firstUserItem (db place.cut.rolloutId).items row.turnId) = none) ∧
      (settledAnswer (db place.cut.rolloutId).items turn ≠ none →
        place.seenItemId db row.turnId (settledAnswer (db place.cut.rolloutId).items turn) =
          place.seenItemId db row.turnId row.finalAgentItemId))

instance (turn : ThreadHistoryTurnMetadata) (row : TurnRow) :
    Decidable (KeepsRunning db lineage place turn row) :=
  inferInstanceAs (Decidable (_ ∧ _))

/-- Of the rows of the turn from before the cut, each is over or is running and kept. -/
def KeepsTurn (position : LinePosition) (turn : ThreadHistoryTurnMetadata) : Prop :=
  ∀ row ∈ place.cut.turns db, row.turnId = turn.turnId →
    row.status ≠ .inProgress ∧ row.rolloutEndOrdinal ≠ some position.ordinal ∨
      row.isRunning = true ∧ KeepsRunning db lineage place turn row

instance (position : LinePosition) (turn : ThreadHistoryTurnMetadata) :
    Decidable (KeepsTurn db lineage place position turn) :=
  inferInstanceAs (Decidable (∀ row ∈ place.cut.turns db, _ → _))

/-- The item is new after the cut, and it is no answer in place of one from before the cut. -/
def KeepsItem (change : ThreadHistoryItemChange) : Prop :=
  (∀ row ∈ place.cut.items db, row.isFor change.turnId change.item.id = false) ∧
    (change.item.kind = .agentMessage (some .finalAnswer) →
      ∀ row ∈ place.cut.turns db, row.turnId = change.turnId → row.isRunning = true →
        place.readsSummary db lineage row.turnId = true →
          place.seenItemId db row.turnId row.finalAgentItemId = none)

instance (change : ThreadHistoryItemChange) : Decidable (KeepsItem db lineage place change) :=
  inferInstanceAs (Decidable (_ ∧ _))

end Conditions

/-- The line lies after the cut. -/
def CutPlace.IsBefore (place : CutPlace) (ordinal : Nat) : Prop :=
  place.cut.endOrdinal.any (· ≤ ordinal) = true

instance (place : CutPlace) (ordinal : Nat) : Decidable (place.IsBefore ordinal) :=
  inferInstanceAs (Decidable (_ = true))

theorem CutPlace.IsBefore.contains_eq_false {place : CutPlace} {ordinal : Nat}
    (h : place.IsBefore ordinal) : place.cut.contains ordinal = false := by
  unfold CutPlace.IsBefore at h
  unfold RolloutLineageSegment.contains
  cases hend : place.cut.endOrdinal with
  | none => rw [hend] at h; cases h
  | some stop =>
    rw [hend] at h
    have hle : stop ≤ ordinal := by simpa using h
    have hlt : ¬ ordinal < stop := Nat.not_lt.mpr hle
    simp [hlt]

/-! ## A turn -/

/-- What a line makes of a row of its turn. -/
def turnUpdate (position : LinePosition) (turn : ThreadHistoryTurnMetadata) (items : List ItemRow)
    (row : TurnRow) : TurnRow :=
  (row.continued position turn).summarized position.ordinal turn.turnId items

variable {position : LinePosition} {turn : ThreadHistoryTurnMetadata}

section TurnUpdate

variable {items : List ItemRow} {row : TurnRow}

theorem summarized_ordinal (ord : Nat) (turnId : String) :
    (row.summarized ord turnId items).rolloutOrdinal = row.rolloutOrdinal := by
  unfold summarized
  split <;> rfl

theorem summarized_end (ord : Nat) (turnId : String) :
    (row.summarized ord turnId items).rolloutEndOrdinal = row.rolloutEndOrdinal := by
  unfold summarized
  split <;> rfl

theorem turnUpdate_turnId : (turnUpdate position turn items row).turnId = row.turnId := by
  unfold turnUpdate summarized continued
  split <;> split <;> rfl

theorem turnUpdate_ordinal :
    (turnUpdate position turn items row).rolloutOrdinal = row.rolloutOrdinal := by
  rw [turnUpdate, summarized_ordinal, continued]
  split <;> rfl

theorem turnUpdate_over (hstat : row.status ≠ .inProgress)
    (hend : row.rolloutEndOrdinal ≠ some position.ordinal) :
    turnUpdate position turn items row = row := by
  have hrunning : row.isRunning = false := by simp [isRunning, hstat]
  have hcontinued : row.continued position turn = row := by simp [continued, hrunning]
  rw [turnUpdate, hcontinued, summarized, if_neg]
  rintro ⟨-, h | h⟩
  · exact hend h
  · exact hstat h

theorem turnUpdate_other (h : row.turnId ≠ turn.turnId) :
    turnUpdate position turn items row = row := by
  have hcontinued : row.continued position turn = row := by simp [continued, h]
  rw [turnUpdate, hcontinued, summarized, if_neg fun hrow => h hrow.1]

/-- A running row takes the state of the line and has its summary filled in. -/
theorem turnUpdate_running (hturn : row.turnId = turn.turnId) (hrunning : row.isRunning = true) :
    turnUpdate position turn items row = (row.updated position turn).filledSummary items := by
  have hcontinued : row.continued position turn = row.updated position turn :=
    if_pos ⟨hturn, hrunning⟩
  rw [turnUpdate, hcontinued, summarized, if_pos]
  refine ⟨hturn, ?_⟩
  cases hstat : turn.status with
  | inProgress => exact Or.inr hstat
  | completed | interrupted | failed =>
    refine Or.inl ?_
    simp [updated, hstat, TurnStatus.isTerminal]

/-- The rows of a turn are updated, or there is a first one. -/
theorem applyTurn_turns (position : LinePosition) (rows : RolloutRows)
    (turn : ThreadHistoryTurnMetadata) :
    ∃ added : List TurnRow, (applyTurn position rows turn).turns =
        rows.turns.map (turnUpdate position turn rows.items) ++ added ∧
      ∀ row ∈ added, row.rolloutOrdinal = position.ordinal ∧
        (row.rolloutEndOrdinal = none ∨ row.rolloutEndOrdinal = some position.ordinal) := by
  unfold applyTurn insertTurn
  dsimp only
  split
  · refine ⟨[], ?_, by simp⟩
    rw [map_map, append_nil]
    rfl
  · rename_i hnone
    refine ⟨[(newTurnRow position turn).summarized position.ordinal turn.turnId rows.items], ?_, ?_⟩
    · rw [map_append, map_singleton]
      congr 1
      refine map_congr_left fun row hrow => ?_
      have hturn : row.turnId ≠ turn.turnId := by
        intro hturn
        exact hnone (any_eq_true.mpr ⟨row, hrow, by simpa using hturn⟩)
      rw [turnUpdate_other hturn, summarized, if_neg fun h => hturn h.1]
    · intro row hrow
      rw [mem_singleton.mp hrow, summarized_ordinal, summarized_end]
      refine ⟨rfl, ?_⟩
      unfold newTurnRow
      split
      · exact Or.inr rfl
      · exact Or.inl rfl

end TurnUpdate

section Changes

variable {lineage : RolloutLineage} {db : HistoryDb} {place : CutPlace} {rows : RolloutRows}
  {change : ThreadHistoryItemChange}

/-- The rows of one rollout are replaced. -/
abbrev withRows (db : HistoryDb) (place : CutPlace) (rows : RolloutRows) : HistoryDb :=
  Function.update db place.cut.rolloutId rows

theorem withRows_cut : withRows db place rows place.cut.rolloutId = rows := Function.update_self ..

theorem withRows_other {id : String} (h : id ≠ place.cut.rolloutId) :
    withRows db place rows id = db id :=
  Function.update_of_ne h ..

theorem withRows_withRows {later : RolloutRows} :
    withRows (withRows db place rows) place later = withRows db place later :=
  Function.update_idem ..

variable (hbefore : place.IsBefore position.ordinal)

include hbefore in
theorem turns_applyTurn (turn : ThreadHistoryTurnMetadata) :
    place.cut.turns (withRows db place (applyTurn position (db place.cut.rolloutId) turn)) =
      (place.cut.turns db).map (turnUpdate position turn (db place.cut.rolloutId).items) := by
  obtain ⟨added, hturns, hadded⟩ := applyTurn_turns position (db place.cut.rolloutId) turn
  have hout : added.filter (fun row => place.cut.contains row.rolloutOrdinal) = [] := by
    rw [filter_eq_nil_iff]
    intro row hrow
    rw [(hadded row hrow).1, hbefore.contains_eq_false]
    exact Bool.false_ne_true
  unfold turns
  rw [withRows_cut, hturns, filter_append, hout, append_nil, filter_map]
  congr 1
  refine filter_congr fun row _ => ?_
  simp only [Function.comp, turnUpdate_ordinal]

include hbefore in
/-- A turn that the line ends has its end after the cut. -/
theorem endEntry_turnUpdate
    (turn : ThreadHistoryTurnMetadata) (items : List ItemRow) (row : TurnRow) :
    place.cut.endEntry (turnUpdate position turn items row) = place.cut.endEntry row := by
  have hout := hbefore.contains_eq_false
  by_cases hturn : row.turnId = turn.turnId
  · by_cases hrunning : row.isRunning = true
    · -- a running row has no end, and it gets none before the cut
      have hend : row.rolloutEndOrdinal = none := by
        simp only [isRunning, Bool.and_eq_true, Option.isNone_iff_eq_none] at hrunning
        exact hrunning.1
      rw [turnUpdate_running hturn hrunning]
      unfold endEntry
      rw [hend]
      cases hterm : turn.status.isTerminal with
      | false => simp [filledSummary, updated, hterm]
      | true => simp [filledSummary, updated, hterm, hout]
    · have hcontinued : row.continued position turn = row := if_neg fun h => hrunning h.2
      rw [turnUpdate, hcontinued]
      unfold summarized
      split <;> rfl
  · rw [turnUpdate_other hturn]

include hbefore in
theorem ends_applyTurn (turn : ThreadHistoryTurnMetadata) :
    place.cut.ends (withRows db place (applyTurn position (db place.cut.rolloutId) turn)) =
      place.cut.ends db := by
  obtain ⟨added, hturns, hadded⟩ := applyTurn_turns position (db place.cut.rolloutId) turn
  have hout : added.filterMap place.cut.endEntry = [] := by
    refine filterMap_eq_nil_iff.mpr fun row hrow => ?_
    unfold endEntry
    rcases (hadded row hrow).2 with hend | hend
    · rw [hend]
      rfl
    · simp [hend, hbefore.contains_eq_false]
  unfold ends
  rw [withRows_cut, hturns, filterMap_append, hout, append_nil, filterMap_map]
  exact filterMap_congr fun row _ => endEntry_turnUpdate hbefore turn _ row

/-- A line changes a row before the cut only if its turn is running, and then it keeps it. -/
theorem KeepsTurn.update_eq {row : TurnRow} (hkeeps : KeepsTurn db lineage place position turn)
    (hrow : row ∈ place.cut.turns db) (items : List ItemRow) :
    turnUpdate position turn items row = row ∨
      (turnUpdate position turn items row = (row.updated position turn).filledSummary items ∧
        row.turnId = turn.turnId ∧ row.status = .inProgress ∧
          KeepsRunning db lineage place turn row) := by
  by_cases hturn : row.turnId = turn.turnId
  · rcases hkeeps row hrow hturn with ⟨hstat, hend⟩ | ⟨hrunning, hkept⟩
    · exact .inl (turnUpdate_over hstat hend)
    · have hstat := hrunning
      simp only [isRunning, Bool.and_eq_true, decide_eq_true_eq] at hstat
      exact .inr ⟨turnUpdate_running hturn hrunning, hturn, hstat.2, hkept⟩
  · exact .inl (turnUpdate_other hturn)

include hbefore in
/-- A line about a turn that is kept leaves the rows that the fork reads. -/
theorem rowsKept_applyTurn (hkeeps : KeepsTurn db lineage place position turn) :
    RowsKept lineage db place (withRows db place (applyTurn position (db place.cut.rolloutId) turn))
      (turnUpdate position turn (db place.cut.rolloutId).items) where
  others id hid := withRows_other hid
  turns := turns_applyTurn hbefore turn
  items := by
    unfold items
    rw [withRows_cut]
    rfl
  realtime := by
    unfold realtime
    rw [withRows_cut]
    rfl
  ends := ends_applyTurn hbefore turn
  turnId _ _ := turnUpdate_turnId
  ordinal _ _ := turnUpdate_ordinal
  startedAt row hrow := by
    rcases hkeeps.update_eq hrow (db place.cut.rolloutId).items with hsame |
      ⟨hupd, -, -, hstarted, -⟩
    · rw [hsame]
    · rw [hupd]
      exact hstarted
  shown row hrow hshown := by
    rcases hkeeps.update_eq hrow (db place.cut.rolloutId).items with
      hsame | ⟨hupd, -, hstat, -, hhidden | hkept, -⟩
    · rw [hsame]
      exact ⟨rfl, rfl, rfl, rfl⟩
    · rw [hshown] at hhidden
      cases hhidden
    · rw [hupd]
      exact ⟨hkept.1.trans hstat.symm, hkept.2⟩
  interrupted row hrow hintr := by
    rcases hkeeps.update_eq hrow (db place.cut.rolloutId).items with hsame | ⟨-, -, hstat, -⟩
    · exact hsame
    · simp [hintr] at hstat
  summary row hrow hreads := by
    rcases hkeeps.update_eq hrow (db place.cut.rolloutId).items with
      hsame | ⟨hupd, hturn, -, -, -, hsum⟩
    · rw [hsame]
      exact ⟨rfl, rfl⟩
    · obtain ⟨hfirst, hfinal⟩ := hsum hreads
      rw [hupd]
      refine ⟨?_, ?_⟩
      · change place.seenItemId db row.turnId
          (row.firstUserItemId.or (firstUserItem _ row.turnId)) = _
        cases hid : row.firstUserItemId with
        | none => exact hfirst hid
        | some id => rfl
      · have hsettled : ((row.updated position turn).filledSummary
            (db place.cut.rolloutId).items).finalAgentItemId =
            (settledAnswer (db place.cut.rolloutId).items turn).or row.finalAgentItemId := by
          unfold settledAnswer
          rw [← hturn]
          rfl
        rw [hsettled]
        cases hanswer : settledAnswer (db place.cut.rolloutId).items turn with
        | none => rfl
        | some id =>
          rw [hanswer] at hfinal
          exact hfinal (by simp)

/-! ## An item -/

/-- Only the ids of the summary change. -/
theorem withItem_eq (turnId : String) (item : ThreadItem) (row : TurnRow) :
    ∃ first final, row.withItem turnId item =
      { row with firstUserItemId := first, finalAgentItemId := final } := by
  unfold withItem
  split
  · unfold noted
    split <;> exact ⟨_, _, rfl⟩
  · exact ⟨_, _, rfl⟩

include hbefore in
theorem items_insertItem
    (hnew : ∀ row ∈ place.cut.items db, row.isFor change.turnId change.item.id = false)
    (createdAtMs : Int) :
    (insertItem position.ordinal createdAtMs change (db place.cut.rolloutId).items).filter
        (fun row => place.cut.contains row.rolloutOrdinal) = place.cut.items db := by
  unfold insertItem
  split
  · rw [filter_map]
    have hsame : ((fun row : ItemRow => place.cut.contains row.rolloutOrdinal) ∘ fun row =>
        if row.isFor change.turnId change.item.id = true then row.updated position.ordinal change
        else row) = fun row => place.cut.contains row.rolloutOrdinal := by
      funext row
      dsimp only [Function.comp]
      split <;> rfl
    rw [hsame]
    refine (map_congr_left fun row hrow => ?_).trans (map_id _)
    rw [if_neg]
    · rfl
    · rw [hnew row hrow]
      exact Bool.false_ne_true
  · rw [filter_append]
    have hout : [newItemRow position.ordinal createdAtMs change].filter
        (fun row => place.cut.contains row.rolloutOrdinal) = [] := by
      simp [newItemRow, hbefore.contains_eq_false]
    rw [hout, append_nil]
    rfl

theorem seenItemId_new
    (hnew : ∀ row ∈ place.cut.items db, row.isFor change.turnId change.item.id = false) :
    place.seenItemId db change.turnId (some change.item.id) = none := by
  unfold CutPlace.seenItemId
  rw [Option.filter_some, if_neg]
  rw [any_eq_true]
  rintro ⟨row, hrow, hfor⟩
  rw [hnew row hrow] at hfor
  cases hfor

include hbefore in
/-- A line about an item that is kept leaves the rows that the fork reads. -/
theorem rowsKept_applyItem {fallback : Option Int} (hkeeps : KeepsItem db lineage place change)
    (happly : applyItem place.cut.rolloutId position fallback (db place.cut.rolloutId) change =
      .ok rows) :
    RowsKept lineage db place (withRows db place rows) (withItem change.turnId change.item) := by
  unfold applyItem at happly
  split at happly
  · cases happly
  cases happly
  choose first final hrow using withItem_eq change.turnId change.item
  refine
    { others := fun id hid => withRows_other hid
      turns := ?_
      items := ?_
      realtime := ?_
      ends := ?_
      turnId := fun row _ => by rw [hrow]
      ordinal := fun row _ => by rw [hrow]
      startedAt := fun row _ => by rw [hrow]
      shown := fun row _ _ => by simp [hrow]
      interrupted := ?_
      summary := ?_ }
  · unfold turns
    rw [withRows_cut, filter_map]
    congr 1
    refine filter_congr fun row _ => ?_
    simp only [Function.comp, hrow]
  · conv => lhs; unfold items
    rw [withRows_cut]
    exact items_insertItem hbefore hkeeps.1 _
  · unfold realtime
    rw [withRows_cut]
  · unfold ends
    rw [withRows_cut, filterMap_map]
    refine filterMap_congr fun row _ => ?_
    simp only [Function.comp, hrow]
    rfl
  · intro row _ hintr
    have hrunning : row.isRunning = false := by simp [isRunning, hintr]
    simp [withItem, hrunning]
  · intro row hmem hreads
    unfold withItem
    split
    · rename_i hnoted
      obtain ⟨hturn, hrunning⟩ := hnoted
      have hseen := seenItemId_new hkeeps.1
      rw [← hturn] at hseen
      unfold noted
      split
      · refine ⟨?_, rfl⟩
        cases row.firstUserItemId with
        | none => exact hseen
        | some id => rfl
      · rename_i hkind
        exact ⟨rfl, hseen.trans (hkeeps.2 hkind row hmem hturn hrunning hreads).symm⟩
      all_goals exact ⟨rfl, rfl⟩
    · exact ⟨rfl, rfl⟩

/-! ## A realtime item -/

/-- Rows in which only realtime items after the cut are new, or the checkpoint is. -/
theorem rowsKept_of_realtime (hturns : rows.turns = (db place.cut.rolloutId).turns)
    (hitems : rows.items = (db place.cut.rolloutId).items)
    (hrealtime : rows.realtime.filter (fun row => place.cut.contains row.rolloutOrdinal) =
      place.cut.realtime db) : RowsKept lineage db place (withRows db place rows) id where
  others id hid := withRows_other hid
  turns := by
    unfold turns
    rw [withRows_cut, hturns, map_id]
  items := by
    unfold items
    rw [withRows_cut, hitems]
  realtime := by
    conv => lhs; unfold realtime
    rw [withRows_cut]
    exact hrealtime
  ends := by
    unfold ends
    rw [withRows_cut, hturns]
  turnId _ _ := rfl
  ordinal _ _ := rfl
  startedAt _ _ := rfl
  shown _ _ _ := ⟨rfl, rfl, rfl, rfl⟩
  interrupted _ _ _ := rfl
  summary _ _ _ := ⟨rfl, rfl⟩

/-- A realtime item after the cut is not read. -/
theorem rowsKept_applyRealtime {proj : ProjectedRolloutLine}
    (hbefore : place.IsBefore proj.position.ordinal)
    (happly : applyRealtime proj (db place.cut.rolloutId) = .ok rows) :
    RowsKept lineage db place (withRows db place rows) id := by
  have hrows : rows.turns = (db place.cut.rolloutId).turns ∧
      rows.items = (db place.cut.rolloutId).items ∧
      rows.realtime.filter (fun row => place.cut.contains row.rolloutOrdinal) =
        place.cut.realtime db := by
    unfold applyRealtime at happly
    split at happly
    · cases happly
      exact ⟨rfl, rfl, rfl⟩
    · cases happly
    · cases happly
      refine ⟨rfl, rfl, ?_⟩
      unfold insertRealtime
      split
      · rfl
      · rw [filter_append]
        simp [hbefore.contains_eq_false, realtime]
  exact rowsKept_of_realtime hrows.1 hrows.2.1 hrows.2.2

end Changes

end RenCrow.ThreadStore
