import Mathlib.Data.List.Sort
import Mathlib.Algebra.Group.Nat.Defs
import RenCrowCore.Lib.Except

/-!
# Rows of a thread history

The SQLite rows that a paginated rollout is projected to (`thread_history.rs`), one table
each for turns, items and realtime items.  A row keeps the ordinal of the line that created
it, and later lines update it in place.

* `RolloutRows`: the rows of one rollout and how far it is projected;
* `applyChangeSet`: the rows after the changes of one line;
* `applyProjection`: the rows after a batch of lines, or none if a line does not fit.
-/

namespace RenCrow.ThreadStore

/-- The errors of a thread store. -/
inductive ThreadStoreError where
  | internal (message : String)
  | invalidRequest (message : String)
  | unsupported (operation : String)
  | conflict (message : String)
deriving DecidableEq, Repr

/-- The outcome of a call of a thread store. -/
abbrev ThreadStoreResult := Except ThreadStoreError

/-! ## Values -/

/-- How far a turn has come. -/
inductive TurnStatus where
  | completed
  | interrupted
  | failed
  | inProgress
deriving DecidableEq, Repr

/-- Whether an agent message is said on the way or ends the turn. -/
inductive MessagePhase where
  | commentary
  | finalAnswer
deriving DecidableEq, Repr

/-- What the rows tell apart of a thread item. -/
inductive ThreadItemKind where
  | userMessage
  | agentMessage (phase : Option MessagePhase)
  | other
deriving DecidableEq, Repr

/-- An item of a turn. -/
structure ThreadItem where
  id : String
  kind : ThreadItemKind
  /-- The rest of the item. -/
  content : String
deriving DecidableEq, Repr

/-- The realtime items that the store tells apart. -/
inductive RealtimeItemKind where
  | sessionStarted
  | sessionClosed
  | other
deriving DecidableEq, Repr

/-- An item of a realtime session. -/
structure RealtimeItem where
  id : String
  kind : RealtimeItemKind
  realtimeSessionId : String
  content : String
deriving DecidableEq, Repr

/-- What a line says about its turn. -/
structure ThreadHistoryTurnMetadata where
  turnId : String
  status : TurnStatus
  error : Option String
  startedAt : Option Int
  completedAt : Option Int
  durationMs : Option Int
deriving DecidableEq, Repr

/-- An item that a line adds or changes. -/
structure ThreadHistoryItemChange where
  turnId : String
  item : ThreadItem
  startedAtMs : Option Int
  completedAtMs : Option Int
deriving DecidableEq, Repr

/-- What a line changes. -/
structure ThreadHistoryChangeSet where
  changedItems : List ThreadHistoryItemChange := []
  changedTurns : List ThreadHistoryTurnMetadata := []
deriving DecidableEq, Repr

/-! ## Rows -/

/-- A row of the table `thread_turns`. -/
structure TurnRow where
  turnId : String
  rolloutOrdinal : Nat
  rolloutByteOffset : Nat
  rolloutEndOrdinal : Option Nat
  rolloutEndByteOffset : Option Nat
  status : TurnStatus
  error : Option String
  startedAt : Option Int
  completedAt : Option Int
  durationMs : Option Int
  firstUserItemId : Option String
  finalAgentItemId : Option String
deriving DecidableEq, Repr

/-- A row of the table `thread_items`. -/
structure ItemRow where
  turnId : String
  itemId : String
  rolloutOrdinal : Nat
  updatedAtOrdinal : Nat
  createdAtMs : Int
  startedAtMs : Option Int
  completedAtMs : Option Int
  item : ThreadItem
deriving DecidableEq, Repr

/-- A row of the table `thread_realtime_items`. -/
structure RealtimeRow where
  itemId : String
  rolloutOrdinal : Nat
  createdAtMs : Int
  item : RealtimeItem
deriving DecidableEq, Repr

/-- How far a rollout has been projected. -/
structure ProjectionState where
  nextByteOffset : Nat
  nextOrdinal : Nat
deriving DecidableEq, Repr

/-- The rows of one rollout. -/
structure RolloutRows where
  turns : List TurnRow := []
  items : List ItemRow := []
  realtime : List RealtimeRow := []
  projection : Option ProjectionState := none
deriving DecidableEq, Repr

/-- Oldest first or newest first. -/
inductive SortDirection where
  | asc
  | desc
deriving DecidableEq, Repr

/-- The order that a direction lists ordinals in. -/
def SortDirection.le : SortDirection → Nat → Nat → Bool
  | asc, a, b => decide (a ≤ b)
  | desc, a, b => decide (b ≤ a)

/-- `ORDER BY`: rows with the same key keep their order. -/
def sortRows {α : Type} (direction : SortDirection) (key : α → Nat) (rows : List α) : List α :=
  rows.insertionSort fun a b => direction.le (key a) (key b) = true

/-! ## Turns -/

/-- The statement updates only turns that are still running. -/
def TurnRow.isRunning (row : TurnRow) : Bool :=
  row.rolloutEndOrdinal.isNone && decide (row.status = .inProgress)

/-- The turn has ended. -/
def TurnStatus.isTerminal : TurnStatus → Bool
  | completed | interrupted | failed => true
  | inProgress => false

/-- Where a line stands in its rollout. -/
structure LinePosition where
  ordinal : Nat
  startByteOffset : Nat
  endByteOffset : Nat
deriving DecidableEq, Repr

/-- The row of a turn that a line creates. -/
def newTurnRow (position : LinePosition) (turn : ThreadHistoryTurnMetadata) : TurnRow where
  turnId := turn.turnId
  rolloutOrdinal := position.ordinal
  rolloutByteOffset := position.startByteOffset
  rolloutEndOrdinal := if turn.status.isTerminal then some position.ordinal else none
  rolloutEndByteOffset := if turn.status.isTerminal then some position.endByteOffset else none
  status := turn.status
  error := turn.error
  startedAt := turn.startedAt
  completedAt := turn.completedAt
  durationMs := turn.durationMs
  firstUserItemId := none
  finalAgentItemId := none

/-- `ON CONFLICT DO UPDATE`: the latest state, under the ordinal of the first line. -/
def TurnRow.updated (position : LinePosition) (turn : ThreadHistoryTurnMetadata) (row : TurnRow) :
    TurnRow :=
  { row with
    rolloutEndOrdinal := if turn.status.isTerminal then some position.ordinal else none
    rolloutEndByteOffset := if turn.status.isTerminal then some position.endByteOffset else none
    status := turn.status
    error := turn.error
    startedAt := turn.startedAt
    completedAt := turn.completedAt
    durationMs := turn.durationMs }

/-- A row that a later line of its turn updates; a turn that has ended stays as it is. -/
def TurnRow.continued (position : LinePosition) (turn : ThreadHistoryTurnMetadata) (row : TurnRow) :
    TurnRow :=
  if row.turnId = turn.turnId ∧ row.isRunning = true then row.updated position turn else row

/-- `INSERT … ON CONFLICT DO UPDATE` for a turn. -/
def insertTurn (position : LinePosition) (turn : ThreadHistoryTurnMetadata) (turns : List TurnRow) :
    List TurnRow :=
  if turns.any fun row => row.turnId = turn.turnId then turns.map (TurnRow.continued position turn)
  else turns ++ [newTurnRow position turn]

/-- The first user message among the items of a turn. -/
def firstUserItem (items : List ItemRow) (turnId : String) : Option String :=
  ((sortRows .asc ItemRow.rolloutOrdinal (items.filter fun row =>
    decide (row.turnId = turnId) && decide (row.item.kind = .userMessage))).head?).map
      ItemRow.itemId

/-- The last agent message of a phase among the items of a turn. -/
def lastAgentItem (items : List ItemRow) (turnId : String) (phase : Option MessagePhase) :
    Option String :=
  ((sortRows .desc ItemRow.rolloutOrdinal (items.filter fun row =>
    decide (row.turnId = turnId) && decide (row.item.kind = .agentMessage phase))).head?).map
      ItemRow.itemId

/-- The summary of a turn, from the items that are there. -/
def TurnRow.filledSummary (items : List ItemRow) (row : TurnRow) : TurnRow :=
  { row with
    firstUserItemId := row.firstUserItemId.or (firstUserItem items row.turnId)
    finalAgentItemId := ((lastAgentItem items row.turnId (some .finalAnswer)).or
      (if row.status.isTerminal then lastAgentItem items row.turnId none else none)).or
        row.finalAgentItemId }

/-- The summary is filled in for turns that are running or end with this line. -/
def TurnRow.summarized (ordinal : Nat) (turnId : String) (items : List ItemRow) (row : TurnRow) :
    TurnRow :=
  if row.turnId = turnId ∧ (row.rolloutEndOrdinal = some ordinal ∨ row.status = .inProgress) then
    row.filledSummary items
  else row

/-- Writes a turn and the summary columns of its row. -/
def applyTurn (position : LinePosition) (rows : RolloutRows) (turn : ThreadHistoryTurnMetadata) :
    RolloutRows :=
  { rows with
    turns := (insertTurn position turn rows.turns).map
      (TurnRow.summarized position.ordinal turn.turnId rows.items) }

/-! ## Items -/

/-- The row of an item of a turn. -/
def ItemRow.isFor (row : ItemRow) (turnId itemId : String) : Bool :=
  decide (row.turnId = turnId) && decide (row.itemId = itemId)

/-- The row of an item that is new. -/
def newItemRow (ordinal : Nat) (createdAtMs : Int) (change : ThreadHistoryItemChange) :
    ItemRow where
  turnId := change.turnId
  itemId := change.item.id
  rolloutOrdinal := ordinal
  updatedAtOrdinal := ordinal
  createdAtMs := createdAtMs
  startedAtMs := change.startedAtMs
  completedAtMs := change.completedAtMs
  item := change.item

/-- A later snapshot of the item, under the ordinal and the time of the first one. -/
def ItemRow.updated (ordinal : Nat) (change : ThreadHistoryItemChange) (row : ItemRow) : ItemRow :=
  { row with
    updatedAtOrdinal := ordinal
    startedAtMs := row.startedAtMs.or change.startedAtMs
    completedAtMs := row.completedAtMs.or change.completedAtMs
    item := change.item }

/-- `INSERT … ON CONFLICT DO UPDATE` for an item. -/
def insertItem (ordinal : Nat) (createdAtMs : Int) (change : ThreadHistoryItemChange)
    (items : List ItemRow) : List ItemRow :=
  if items.any fun row => row.isFor change.turnId change.item.id then
    items.map fun row =>
      if row.isFor change.turnId change.item.id then row.updated ordinal change else row
  else items ++ [newItemRow ordinal createdAtMs change]

/-- The ids that an item adds to the summary of its running turn. -/
def TurnRow.noted (item : ThreadItem) (row : TurnRow) : TurnRow :=
  match item.kind with
  | .userMessage => { row with firstUserItemId := row.firstUserItemId.or (some item.id) }
  | .agentMessage (some .finalAnswer) => { row with finalAgentItemId := some item.id }
  | .agentMessage (some .commentary) | .agentMessage none | .other => row

/-- The summary columns of a running turn after one of its items. -/
def TurnRow.withItem (turnId : String) (item : ThreadItem) (row : TurnRow) : TurnRow :=
  if row.turnId = turnId ∧ row.isRunning = true then row.noted item else row

/-- Writes an item; its first line has to say when it was created. -/
def applyItem (threadId : String) (position : LinePosition) (fallbackCreatedAtMs : Option Int)
    (rows : RolloutRows) (change : ThreadHistoryItemChange) : ThreadStoreResult RolloutRows :=
  match change.startedAtMs.or fallbackCreatedAtMs with
  | none => .error (.internal ("thread history projection for " ++ threadId ++
      " is missing an item creation timestamp"))
  | some createdAtMs => .ok
      { rows with
        items := insertItem position.ordinal createdAtMs change rows.items
        turns := rows.turns.map (TurnRow.withItem change.turnId change.item) }

/-! ## Lines -/

/-- `apply_change_set`. -/
def applyChangeSet (threadId : String) (position : LinePosition) (fallbackCreatedAtMs : Option Int)
    (changes : ThreadHistoryChangeSet) (rows : RolloutRows) : ThreadStoreResult RolloutRows :=
  changes.changedItems.foldlM (applyItem threadId position fallbackCreatedAtMs)
    (changes.changedTurns.foldl (applyTurn position) rows)

/-- A realtime item is kept as it first comes. -/
def insertRealtime (ordinal : Nat) (createdAtMs : Int) (item : RealtimeItem)
    (realtime : List RealtimeRow) : List RealtimeRow :=
  if realtime.any fun row => row.itemId = item.id then realtime
  else realtime ++ [⟨item.id, ordinal, createdAtMs, item⟩]

/-- A line of a rollout and what it changes. -/
structure ProjectedRolloutLine where
  position : LinePosition
  fallbackCreatedAtMs : Option Int
  changes : ThreadHistoryChangeSet
  realtimeItem : Option RealtimeItem
deriving DecidableEq, Repr

/-- A line, or a range of ordinals that is skipped. -/
inductive RolloutProjectionStep where
  | line (projection : ProjectedRolloutLine)
  | skippedOrdinalRange (startOrdinal endOrdinalExclusive : Nat)
deriving DecidableEq, Repr

/-- The integers of SQLite. -/
def i64Max : Nat := 2 ^ 63 - 1

/-- A number as SQLite can store it. -/
def sqliteInteger (value : Nat) (field : String) : ThreadStoreResult Nat :=
  if value ≤ i64Max then .ok value
  else .error (.internal (field ++ " exceeds SQLite integer range"))

/-- The realtime item of a line, which needs the time of the line. -/
def applyRealtime (projection : ProjectedRolloutLine) (rows : RolloutRows) :
    ThreadStoreResult RolloutRows :=
  match projection.realtimeItem, projection.fallbackCreatedAtMs with
  | none, _ => .ok rows
  | some _, none => .error (.internal "realtime rollout item is missing its timestamp")
  | some item, some createdAtMs => .ok
      { rows with
        realtime := insertRealtime projection.position.ordinal createdAtMs item rows.realtime }

/-- The error for a step that is not the next one. -/
def unexpectedOrdinal (threadId : String) (expected found : Nat) : ThreadStoreError :=
  .internal ("thread history projection for " ++ threadId ++ " expected ordinal " ++
    toString expected ++ ", got " ++ toString found)

/-- The line of a step, whose ordinal has to be the next one. -/
def applyLine (threadId : String) (projection : ProjectedRolloutLine) (rows : RolloutRows)
    (nextOrdinal : Nat) : ThreadStoreResult (RolloutRows × Nat) := do
  let ordinal ← sqliteInteger projection.position.ordinal "rollout ordinal"
  if ordinal ≠ nextOrdinal then .error (unexpectedOrdinal threadId nextOrdinal ordinal)
  else
    let _ ← sqliteInteger projection.position.startByteOffset "rollout byte offset"
    let _ ← sqliteInteger projection.position.endByteOffset "rollout byte offset"
    let rows ← applyChangeSet threadId projection.position projection.fallbackCreatedAtMs
      projection.changes rows
    let rows ← applyRealtime projection rows
    if ordinal < i64Max then .ok (rows, ordinal + 1)
    else .error (.internal "rollout ordinal exceeds SQLite integer range")

/-- The ordinal after a skipped range, which changes no rows. -/
def applySkipped (threadId : String) (startOrdinal endOrdinalExclusive nextOrdinal : Nat) :
    ThreadStoreResult Nat := do
  let start ← sqliteInteger startOrdinal "rollout ordinal"
  if start ≠ nextOrdinal then .error (unexpectedOrdinal threadId nextOrdinal start)
  else
    let stop ← sqliteInteger endOrdinalExclusive "rollout ordinal"
    if stop ≤ start then
      .error (.internal ("thread history projection for " ++ threadId ++
        " has an empty skipped ordinal range"))
    else .ok stop

/-- One step of a batch, with the ordinal that it has to start at. -/
def applyStep (threadId : String) (state : RolloutRows × Nat) :
    RolloutProjectionStep → ThreadStoreResult (RolloutRows × Nat)
  | .line projection => applyLine threadId projection state.1 state.2
  | .skippedOrdinalRange startOrdinal endOrdinalExclusive => do
    let nextOrdinal ← applySkipped threadId startOrdinal endOrdinalExclusive state.2
    return (state.1, nextOrdinal)

/-- `apply_projection`: the rows and the checkpoint change in one transaction. -/
def applyProjection (threadId : String) (rows : RolloutRows)
    (startOffset nextOffset initialOrdinal : Nat) (projections : List RolloutProjectionStep) :
    ThreadStoreResult RolloutRows := do
  let initialOrdinal ← sqliteInteger initialOrdinal "rollout ordinal"
  let checkpoint := rows.projection.getD ⟨0, initialOrdinal⟩
  let start ← sqliteInteger startOffset "rollout byte offset"
  if checkpoint.nextByteOffset ≠ start then
    .error (.internal ("thread history projection for " ++ threadId ++
      " is behind durable rollout"))
  else
    let (rows, nextOrdinal) ← projections.foldlM (applyStep threadId) (rows, checkpoint.nextOrdinal)
    let nextOffset ← sqliteInteger nextOffset "rollout byte offset"
    return { rows with projection := some ⟨nextOffset, nextOrdinal⟩ }

/-! ## Steps that succeed -/

section Successes

open Fallible

theorem sqliteInteger_eq_ok_iff {value integer : Nat} {field : String} :
    sqliteInteger value field = .ok integer ↔ integer = value ∧ value ≤ i64Max := by
  by_cases hle : value ≤ i64Max <;> simp [sqliteInteger, hle, eq_comm]

variable {threadId : String} {nextOrdinal : Nat}

/-- What is known of a line that was written. -/
theorem applyLine_eq_ok {proj : ProjectedRolloutLine} {rows : RolloutRows}
    {after : RolloutRows × Nat} (h : applyLine threadId proj rows nextOrdinal = .ok after) :
    proj.position.ordinal = nextOrdinal ∧ nextOrdinal < i64Max ∧ after.2 = nextOrdinal + 1 ∧
      ∃ changed, applyChangeSet threadId proj.position proj.fallbackCreatedAtMs
          proj.changes rows = .ok changed ∧ applyRealtime proj changed = .ok after.1 := by
  obtain ⟨ord, hord, h⟩ := bind_eq_ok.mp h
  obtain ⟨rfl, -⟩ := sqliteInteger_eq_ok_iff.mp hord
  by_cases hnext : proj.position.ordinal = nextOrdinal
  swap
  · rw [if_pos hnext] at h
    cases h
  subst hnext
  rw [if_neg (not_not_intro rfl)] at h
  obtain ⟨_, -, h⟩ := bind_eq_ok.mp h
  obtain ⟨_, -, h⟩ := bind_eq_ok.mp h
  obtain ⟨changed, hchanged, h⟩ := bind_eq_ok.mp h
  obtain ⟨final, hfinal, h⟩ := bind_eq_ok.mp h
  split at h
  · rename_i hlt
    cases h
    exact ⟨rfl, hlt, rfl, changed, hchanged, hfinal⟩
  · cases h

theorem applySkipped_eq_ok {start stop after : Nat}
    (h : applySkipped threadId start stop nextOrdinal = .ok after) :
    after = stop ∧ stop ≤ i64Max := by
  obtain ⟨first, -, h⟩ := bind_eq_ok.mp h
  split at h
  · cases h
  obtain ⟨last, hlast, h⟩ := bind_eq_ok.mp h
  split at h
  · cases h
  · cases h
    exact sqliteInteger_eq_ok_iff.mp hlast

end Successes

end RenCrow.ThreadStore
