import RenCrowCore.ThreadStore.TurnPositions

/-!
# The records of turns

A turn has a row once a record of the rollout starts or ends it.  The row keeps the ordinal of
the first such record, and that of the first one that ends the turn.

* `turnRecords`: the records of a rollout that start or end turns, as they are read;
* `Spans`: the rows of turns say where the records of each turn begin and end;
* `Projected.spans`: they do for the rows of every projected rollout.
-/

namespace RenCrow.ThreadStore

open Fallible List ByteLines

/-! ## Records that name a turn -/

/-- A record that starts or ends a turn. -/
structure TurnRecord where
  /-- The ordinal of the record. -/
  ordinal : Nat
  /-- The turn that it starts or ends. -/
  turnId : String
  /-- The turn ends with the record. -/
  ends : Bool
deriving DecidableEq, Repr

/-- The turn that an item starts or ends, and whether it ends it. -/
def RolloutItem.turn : RolloutItem → Option (String × Bool)
  | .turnStarted turnId _ => some (turnId, false)
  | .turnComplete turnId _ _ _ _ => some (turnId, true)
  | .turnAborted turnId _ _ _ => turnId.map (·, true)
  | .itemCompleted _ _ _ _ | .realtimeItem _ | .other => none

/-- The turn of an item at an ordinal; what a subagent inherited is not part of its history. -/
def itemTurn (start : Option Nat) (ordinal : Nat) (item : RolloutItem) : Option TurnRecord :=
  if start.any (ordinal < ·) then none else item.turn.map fun turn => ⟨ordinal, turn.1, turn.2⟩

section Records

variable (decode : List UInt8 → LineReading) (start : Option Nat)

/-- The item of a line with its ordinal, if it is read as a record. -/
def lineItem (bytes : List UInt8) : Option (Nat × RolloutItem) :=
  if bytes.all isAsciiWhitespace then none
  else
    match decode bytes with
    | .malformed | .unknown => none
    | .decoded line => line.ordinal.map (·, line.item)

/-- The records of lines that start or end turns; a line with an earlier ordinal than the ones
before it is passed over. -/
def turnRecords : Nat → List (List UInt8) → List TurnRecord
  | _, [] => []
  | nextOrdinal, line :: lines =>
    match lineItem decode line with
    | none => turnRecords nextOrdinal lines
    | some (ordinal, item) =>
      if ordinal < nextOrdinal then turnRecords nextOrdinal lines
      else (itemTurn start ordinal item).toList ++ turnRecords (ordinal + 1) lines

end Records

/-- The ordinal of the first record that names the turn. -/
def firstOrdinal (turnId : String) (records : List TurnRecord) : Option Nat :=
  (records.find? fun record => record.turnId = turnId).map TurnRecord.ordinal

/-- The ordinal of the first record that ends the turn. -/
def terminalOrdinal (turnId : String) (records : List TurnRecord) : Option Nat :=
  (records.find? fun record => record.turnId = turnId && record.ends).map TurnRecord.ordinal

/-! ## Reading -/

section Reading

variable {decode : List UInt8 → LineReading} {start : Option Nat} {offset lineEnd next stop : Nat}
  {line : RolloutLine} {bytes : List UInt8} {lines : List (List UInt8)}
  {steps : List RolloutProjectionStep}

/-- The record of a change of a turn. -/
def changeRecord (ordinal : Nat) (turn : ThreadHistoryTurnMetadata) : TurnRecord :=
  ⟨ordinal, turn.turnId, turn.status.isTerminal⟩

/-- The records of the turns that a step changes. -/
def stepTurns : RolloutProjectionStep → List TurnRecord
  | .line projection =>
    projection.changes.changedTurns.map (changeRecord projection.position.ordinal)
  | .skippedOrdinalRange _ _ => []

/-- The changes of a line are those of its item. -/
theorem lineChanges_turns (start : Option Nat) (ordinal : Nat) (line : RolloutLine) :
    (lineChanges start ordinal line).changedTurns.map (changeRecord ordinal) =
      (itemTurn start ordinal line.item).toList := by
  unfold lineChanges itemTurn
  split
  · rfl
  · unfold projectRolloutLine
    cases line.item with
    | turnStarted turnId startedAt => rfl
    | turnComplete turnId error startedAt completedAt durationMs => cases error <;> rfl
    | turnAborted turnId startedAt completedAt durationMs => cases turnId <;> rfl
    | itemCompleted | realtimeItem | other => rfl

/-- A line that needs its time starts and ends no turn. -/
theorem itemTurn_of_needsTimestamp {ordinal : Nat}
    (h : needsTimestamp (lineChanges start ordinal line) (lineRealtimeItem start ordinal line) =
      true) : itemTurn start ordinal line.item = none := by
  unfold itemTurn
  split
  · rfl
  · rename_i hown
    unfold lineChanges lineRealtimeItem projectRolloutLine at h
    rw [if_neg hown] at h
    cases hitem : line.item with
    | turnStarted | turnComplete => simp [hitem, needsTimestamp] at h
    | turnAborted turnId => cases turnId <;> simp [hitem, needsTimestamp] at h
    | itemCompleted | realtimeItem | other => rfl

theorem readDecodedLine_turns (hread : readDecodedLine start offset lineEnd next line =
      .ok (steps, stop)) (records : Nat → List TurnRecord) :
    steps.flatMap stepTurns ++ records stop =
      match line.ordinal with
      | none => records next
      | some ordinal =>
        if ordinal < next then records next
        else (itemTurn start ordinal line.item).toList ++ records (ordinal + 1) := by
  unfold readDecodedLine at hread
  cases hord : line.ordinal with
  | none =>
    rw [hord] at hread
    cases hread
    rfl
  | some ordinal =>
    rw [hord] at hread
    dsimp only at hread ⊢
    split at hread
    · rename_i hlt
      cases hread
      rw [if_pos hlt]
      rfl
    · rename_i hle
      rw [if_neg hle]
      obtain ⟨following, hfollowing, hread⟩ := bind_eq_ok.mp hread
      obtain rfl := (checkedAdd_inRange (by decide)).of_ok hfollowing
      split at hread
      · rename_i hneeds
        cases hread
        rw [itemTurn_of_needsTimestamp hneeds.1]
        rfl
      · cases hread
        rw [flatMap_append, flatMap_singleton]
        dsimp only [stepTurns]
        rw [lineChanges_turns]
        split <;> rfl

/-- A line that is read gives the steps of its turn. -/
theorem readLine_turns
    (hread : readLine decode start offset lineEnd next bytes = .ok (steps, stop))
    (lines : List (List UInt8)) :
    turnRecords decode start next (bytes :: lines) =
      steps.flatMap stepTurns ++ turnRecords decode start stop lines := by
  unfold readLine at hread
  rw [turnRecords, lineItem]
  split at hread
  · rename_i hblank
    cases hread
    rw [if_pos hblank]
    rfl
  · rename_i htext
    rw [if_neg htext]
    cases hdecode : decode bytes with
    | malformed | unknown =>
      rw [hdecode] at hread
      cases hread
      rfl
    | decoded line =>
      rw [hdecode] at hread
      rw [readDecodedLine_turns hread fun next => turnRecords decode start next lines]
      dsimp only
      cases line.ordinal <;> rfl

/-- **The steps of lines change the turns that their records name.** -/
theorem readLines_turns (hread : readLines decode start offset next lines = .ok (steps, stop)) :
    steps.flatMap stepTurns = turnRecords decode start next lines := by
  induction lines generalizing offset next steps with
  | nil =>
    cases hread
    rfl
  | cons bytes lines ih =>
    rw [readLines_cons] at hread
    obtain ⟨lineEnd, -, hread⟩ := bind_eq_ok.mp hread
    obtain ⟨⟨first, after⟩, hfirst, hread⟩ := bind_eq_ok.mp hread
    obtain ⟨⟨rest, restStop⟩, hrest, hread⟩ := bind_eq_ok.mp hread
    cases hread
    rw [readLine_turns hfirst, flatMap_append, ih hrest]

end Reading

/-! ## Rows -/

/-- A row says where the records of its turn begin and end. -/
structure TurnRow.Spans (records : List TurnRecord) (row : TurnRow) : Prop where
  /-- The row stands under the first record of its turn. -/
  first : firstOrdinal row.turnId records = some row.rolloutOrdinal
  /-- The turn ends with the first record that ends it. -/
  terminal : row.rolloutEndOrdinal = terminalOrdinal row.turnId records
  /-- A turn without an end is running. -/
  running : row.status = .inProgress ↔ row.rolloutEndOrdinal = none

/-- The rows are those of the turns that records name. -/
structure Spans (records : List TurnRecord) (turns : List TurnRow) : Prop where
  /-- Each row spans the records of its turn. -/
  rows : ∀ row ∈ turns, row.Spans records
  /-- Each record has the row of its turn. -/
  complete : ∀ record ∈ records, ∃ row ∈ turns, row.turnId = record.turnId

section Rows

variable {records : List TurnRecord} {record : TurnRecord} {turnId : String} {row : TurnRow}
  {turns : List TurnRow} {rows next : RolloutRows} {position : LinePosition} {threadId : String}

theorem firstOrdinal_concat : firstOrdinal turnId (records ++ [record]) =
    (firstOrdinal turnId records).or
      (if record.turnId = turnId then some record.ordinal else none) := by
  unfold firstOrdinal
  rw [find?_append]
  cases records.find? fun record => record.turnId = turnId with
  | some found => rfl
  | none => by_cases hid : record.turnId = turnId <;> simp [hid]

theorem terminalOrdinal_concat : terminalOrdinal turnId (records ++ [record]) =
    (terminalOrdinal turnId records).or
      (if record.turnId = turnId ∧ record.ends = true then some record.ordinal else none) := by
  unfold terminalOrdinal
  rw [find?_append]
  cases records.find? fun record => record.turnId = turnId && record.ends with
  | some found => rfl
  | none =>
    by_cases hid : record.turnId = turnId
    · cases hends : record.ends <;> simp [hid, hends]
    · simp [hid]

/-- Records of other turns leave a row as it is. -/
theorem TurnRow.Spans.other (h : row.Spans records) (hid : record.turnId ≠ row.turnId) :
    row.Spans (records ++ [record]) := by
  refine ⟨?_, ?_, h.running⟩
  · rw [firstOrdinal_concat, h.first]
    rfl
  · rw [terminalOrdinal_concat, ← h.terminal, if_neg fun hboth => hid hboth.1, Option.or_none]

/-- A later record of a turn that has ended leaves its row as it is. -/
theorem TurnRow.Spans.ended (h : row.Spans records) (hended : row.isRunning = false) :
    row.Spans (records ++ [record]) := by
  have hstop : row.rolloutEndOrdinal ≠ none := by
    intro hnone
    have hstatus := h.running.mpr hnone
    simp [isRunning, hnone, hstatus] at hended
  obtain ⟨stop, hstop⟩ := Option.ne_none_iff_exists'.mp hstop
  refine ⟨?_, ?_, h.running⟩
  · rw [firstOrdinal_concat, h.first]
    rfl
  · rw [terminalOrdinal_concat, ← h.terminal, hstop]
    rfl

/-- A record of a running turn is the end of it, or leaves it running. -/
theorem TurnRow.Spans.updated (h : row.Spans records) (hrunning : row.isRunning = true)
    {turn : ThreadHistoryTurnMetadata} (hid : row.turnId = turn.turnId) :
    (row.updated position turn).Spans (records ++ [changeRecord position.ordinal turn]) := by
  have hnone : terminalOrdinal row.turnId records = none := by
    rw [← h.terminal]
    simp only [isRunning, Bool.and_eq_true, Option.isNone_iff_eq_none] at hrunning
    exact hrunning.1
  refine ⟨?_, ?_, ?_⟩
  · dsimp only [TurnRow.updated]
    rw [firstOrdinal_concat, h.first]
    rfl
  · dsimp only [TurnRow.updated, changeRecord]
    rw [terminalOrdinal_concat, hnone, Option.none_or]
    simp [hid]
  · dsimp only [TurnRow.updated]
    cases turn.status <;> simp [TurnStatus.isTerminal]

/-- The row of a turn that no record named before. -/
theorem newTurnRow_spans {turn : ThreadHistoryTurnMetadata}
    (hnew : ∀ record ∈ records, record.turnId ≠ turn.turnId) :
    (newTurnRow position turn).Spans (records ++ [changeRecord position.ordinal turn]) := by
  have hfirst : firstOrdinal turn.turnId records = none := by
    simpa [firstOrdinal] using hnew
  have hterminal : terminalOrdinal turn.turnId records = none := by
    simp only [terminalOrdinal, Option.map_eq_none_iff, find?_eq_none, Bool.and_eq_true,
      decide_eq_true_eq, not_and]
    exact fun record hmem hid => absurd hid (hnew record hmem)
  refine ⟨?_, ?_, ?_⟩
  · dsimp only [newTurnRow, changeRecord]
    rw [firstOrdinal_concat, hfirst, Option.none_or, if_pos rfl]
  · dsimp only [newTurnRow, changeRecord]
    rw [terminalOrdinal_concat, hterminal, Option.none_or]
    simp
  · dsimp only [newTurnRow]
    cases turn.status <;> simp [TurnStatus.isTerminal]

/-- Changes that leave the turn, its ordinals and its status. -/
theorem Spans.map {f : TurnRow → TurnRow} (h : Spans records turns)
    (hkeeps : ∀ row, (f row).turnId = row.turnId ∧ (f row).rolloutOrdinal = row.rolloutOrdinal ∧
      (f row).rolloutEndOrdinal = row.rolloutEndOrdinal ∧ (f row).status = row.status) :
    Spans records (turns.map f) := by
  constructor
  · intro row hmem
    obtain ⟨old, hold, rfl⟩ := mem_map.mp hmem
    obtain ⟨hid, hord, hend, hstatus⟩ := hkeeps old
    obtain ⟨hfirst, hterminal, hrunning⟩ := h.rows old hold
    exact ⟨by rw [hid, hord, hfirst], by rw [hid, hend, hterminal], by rw [hstatus, hend, hrunning]⟩
  · intro record hmem
    obtain ⟨row, hrow, hid⟩ := h.complete record hmem
    exact ⟨f row, mem_map_of_mem hrow, (hkeeps row).1.trans hid⟩

/-- **One change of a turn** adds its record to what the rows span. -/
theorem insertTurn_spans (h : Spans records turns) (turn : ThreadHistoryTurnMetadata) :
    Spans (records ++ [changeRecord position.ordinal turn]) (insertTurn position turn turns) := by
  unfold insertTurn
  split
  · rename_i hknown
    have hkeeps : ∀ row : TurnRow, (row.continued position turn).turnId = row.turnId := by
      intro row
      unfold TurnRow.continued
      split <;> rfl
    constructor
    · intro row hmem
      obtain ⟨old, hold, rfl⟩ := mem_map.mp hmem
      have hspans := h.rows old hold
      unfold TurnRow.continued
      split
      · rename_i hsame
        exact hspans.updated hsame.2 hsame.1
      · rename_i hother
        by_cases hid : old.turnId = turn.turnId
        · exact hspans.ended (Bool.not_eq_true _ ▸ fun hrunning => hother ⟨hid, hrunning⟩)
        · exact hspans.other (Ne.symm hid)
    · have hrow : ∀ turnId, (∃ row ∈ turns, row.turnId = turnId) →
          ∃ row ∈ turns.map (TurnRow.continued position turn), row.turnId = turnId := by
        rintro turnId ⟨row, hmem, hid⟩
        exact ⟨_, mem_map_of_mem hmem, (hkeeps row).trans hid⟩
      refine forall_mem_append.mpr ⟨fun record hmem => hrow _ (h.complete record hmem), ?_⟩
      refine forall_mem_singleton.mpr (hrow _ ?_)
      obtain ⟨row, hmem, hid⟩ := any_eq_true.mp hknown
      exact ⟨row, hmem, of_decide_eq_true hid⟩
  · rename_i hunknown
    have hnew : ∀ row ∈ turns, row.turnId ≠ turn.turnId := by
      intro row hmem hid
      exact hunknown (any_eq_true.mpr ⟨row, hmem, decide_eq_true hid⟩)
    constructor
    · refine forall_mem_append.mpr ⟨fun row hmem => ?_, forall_mem_singleton.mpr ?_⟩
      · exact (h.rows row hmem).other (Ne.symm (hnew row hmem))
      · refine newTurnRow_spans fun record hmem hid => ?_
        obtain ⟨row, hrow, hturn⟩ := h.complete record hmem
        exact hnew row hrow (hturn.trans hid)
    · refine forall_mem_append.mpr ⟨fun record hmem => ?_, forall_mem_singleton.mpr ?_⟩
      · obtain ⟨row, hrow, hid⟩ := h.complete record hmem
        exact ⟨row, mem_append_left _ hrow, hid⟩
      · exact ⟨_, mem_append_right _ mem_cons_self, rfl⟩

theorem applyTurn_spans (h : Spans records rows.turns) (turn : ThreadHistoryTurnMetadata) :
    Spans (records ++ [changeRecord position.ordinal turn])
      (applyTurn position rows turn).turns := by
  refine (insertTurn_spans h turn).map fun row => ?_
  unfold TurnRow.summarized
  split <;> exact ⟨rfl, rfl, rfl, rfl⟩

theorem applyTurns_spans (position : LinePosition) (h : Spans records rows.turns)
    (turns : List ThreadHistoryTurnMetadata) :
    Spans (records ++ turns.map (changeRecord position.ordinal))
      (turns.foldl (applyTurn position) rows).turns := by
  induction turns generalizing rows records with
  | nil => simpa using h
  | cons turn turns ih => simpa using ih (applyTurn_spans h turn)

theorem applyItem_spans {fallback : Option Int} {change : ThreadHistoryItemChange}
    (h : Spans records rows.turns)
    (happly : applyItem threadId position fallback rows change = .ok next) :
    Spans records next.turns := by
  unfold applyItem at happly
  split at happly
  · cases happly
  · cases happly
    refine h.map fun row => ?_
    unfold TurnRow.withItem TurnRow.noted
    split
    · split <;> exact ⟨rfl, rfl, rfl, rfl⟩
    · exact ⟨rfl, rfl, rfl, rfl⟩

/-- **One step** adds its records. -/
theorem applyStep_spans {step : RolloutProjectionStep} {state after : RolloutRows × Nat}
    (h : Spans records state.1.turns) (happly : applyStep threadId state step = .ok after) :
    Spans (records ++ stepTurns step) after.1.turns := by
  cases step with
  | line projection =>
    obtain ⟨-, -, -, changed, hchanged, hfinal⟩ := applyLine_eq_ok happly
    have hturns := applyTurns_spans projection.position h projection.changes.changedTurns
    have hstep : ∀ (rows : RolloutRows) change next,
        Spans (records ++ stepTurns (.line projection)) rows.turns →
          applyItem threadId projection.position projection.fallbackCreatedAtMs rows change =
            .ok next → Spans (records ++ stepTurns (.line projection)) next.turns :=
      fun _ _ _ hrows hnext => applyItem_spans hrows hnext
    rw [applyRealtime_turns hfinal]
    exact (Run.foldlM_invariant hstep hchanged hturns :)
  | skippedOrdinalRange first stop =>
    obtain ⟨skipped, -, happly⟩ := bind_eq_ok.mp happly
    cases happly
    simpa [stepTurns] using h

theorem applySteps_spans {steps : List RolloutProjectionStep} {state after : RolloutRows × Nat}
    (h : Spans records state.1.turns)
    (happly : steps.foldlM (applyStep threadId) state = .ok after) :
    Spans (records ++ steps.flatMap stepTurns) after.1.turns := by
  induction steps generalizing state records with
  | nil =>
    cases happly
    simpa using h
  | cons step steps ih =>
    obtain ⟨between, hfirst, happly⟩ := bind_eq_ok.mp happly
    rw [flatMap_cons, ← append_assoc]
    exact ih (applyStep_spans h hfirst) happly

/-- **The rows of a projected rollout** span the records of its turns. -/
theorem Projected.spans {decode : List UInt8 → LineReading} {header : SessionMeta}
    {lines : List (List UInt8)} (h : Projected decode threadId header lines rows) :
    Spans (turnRecords decode header.subagentHistoryStartOrdinal (initialOrdinal header) lines)
      rows.turns := by
  obtain ⟨steps, projected, hread, happly, rfl, -⟩ := h
  have hstart : Spans [] ({} : RolloutRows).turns := ⟨by simp, by simp⟩
  have hspans := applySteps_spans hstart happly
  rw [readLines_turns hread] at hspans
  exact hspans

end Rows

end RenCrow.ThreadStore
