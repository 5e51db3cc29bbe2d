import RenCrowCore.Lib.ByteLines
import RenCrowCore.ThreadStore.HistoryRows

/-!
# Materialisation of a rollout

A paginated rollout is a file of lines, each with an ordinal.  What was appended since the
last time is read from the checkpoint on, each line is projected on its own
(`thread_history_projection.rs`), and the changes go to the rows in one transaction
(`thread_history_materialization.rs`).

* `projectRolloutLine`: the changes of one line;
* `readProjectionSteps`: the steps for the complete lines of a file from an offset on;
* `materializeToSqlite`: the rows once a file is caught up with.
-/

namespace RenCrow.ThreadStore

open ByteLines

/-! ## Lines -/

/-- What the projection tells apart of a rollout item. -/
inductive RolloutItem where
  | turnStarted (turnId : String) (startedAt : Option Int)
  | turnComplete (turnId : String) (error : Option String)
      (startedAt completedAt durationMs : Option Int)
  | turnAborted (turnId : Option String) (startedAt completedAt durationMs : Option Int)
  | itemCompleted (turnId : String) (item : ThreadItem) (startedAtMs : Option Int)
      (completedAtMs : Int)
  | realtimeItem (item : RealtimeItem)
  | other
deriving DecidableEq, Repr

/-- A line of a rollout. -/
structure RolloutLine where
  ordinal : Option Nat
  /-- The timestamp in milliseconds, if it is a time. -/
  timestampMs : Option Int
  item : RolloutItem
deriving DecidableEq, Repr

/-- What the bytes of a line are read as. -/
inductive LineReading where
  | malformed
  | unknown
  | decoded (line : RolloutLine)
deriving DecidableEq, Repr

/-- `project_rollout_line`. -/
def projectRolloutLine (line : RolloutLine) : ThreadHistoryChangeSet :=
  match line.item with
  | .turnStarted turnId startedAt =>
    { changedTurns := [⟨turnId, .inProgress, none, startedAt, none, none⟩] }
  | .turnComplete turnId error startedAt completedAt durationMs =>
    { changedTurns := [⟨turnId, if error.isSome then .failed else .completed, error, startedAt,
        completedAt, durationMs⟩] }
  | .turnAborted none _ _ _ => {}
  | .turnAborted (some turnId) startedAt completedAt durationMs =>
    { changedTurns := [⟨turnId, .interrupted, none, startedAt, completedAt, durationMs⟩] }
  | .itemCompleted turnId item startedAtMs completedAtMs =>
    { changedItems := [⟨turnId, item, startedAtMs,
        if completedAtMs ≠ 0 then some completedAtMs else none⟩] }
  | .realtimeItem _ | .other => {}

/-! ## Files -/

/-- How the history of a thread is stored. -/
inductive ThreadHistoryMode where
  | legacy
  | paginated
deriving DecidableEq, Repr

/-- The place in a rollout up to which another one inherits from it. -/
structure HistoryPosition where
  threadId : String
  endOrdinalExclusive : Nat
  endByteOffset : Nat
deriving DecidableEq, Repr

/-- The first line of a rollout. -/
structure SessionMeta where
  id : String
  historyMode : ThreadHistoryMode
  historyBase : Option HistoryPosition
  subagentHistoryStartOrdinal : Option Nat
deriving DecidableEq, Repr

/-- A rollout file with the metadata of its first line. -/
structure RolloutFile where
  header : SessionMeta
  bytes : List UInt8
deriving DecidableEq, Repr

/-- `u64::MAX`. -/
def u64Max : Nat := 2 ^ 64 - 1

/-- An addition that fails where `u64` overflows. -/
def checkedAdd (a b : Nat) (message : String) : ThreadStoreResult Nat :=
  if a + b ≤ u64Max then .ok (a + b) else .error (.internal message)

/-- A line's changes; what a subagent inherited is not part of its own history. -/
def lineChanges (subagentHistoryStartOrdinal : Option Nat) (ordinal : Nat) (line : RolloutLine) :
    ThreadHistoryChangeSet :=
  if subagentHistoryStartOrdinal.any (ordinal < ·) then {} else projectRolloutLine line

/-- The realtime item of a line, unless it lies before the history of a subagent. -/
def lineRealtimeItem (subagentHistoryStartOrdinal : Option Nat) (ordinal : Nat)
    (line : RolloutLine) :
    Option RealtimeItem :=
  match line.item with
  | .realtimeItem item => if subagentHistoryStartOrdinal.any (ordinal < ·) then none else some item
  | _ => none

/-- A line needs its timestamp for realtime items and for items without a start. -/
def needsTimestamp (changes : ThreadHistoryChangeSet) (realtimeItem : Option RealtimeItem) : Bool :=
  changes.changedItems.any (·.startedAtMs.isNone) || realtimeItem.isSome

/-- The steps of a decoded line and the ordinal after it; lines without an ordinal and with an
earlier one than expected are skipped. -/
def readDecodedLine (subagentHistoryStartOrdinal : Option Nat) (startByteOffset endByteOffset : Nat)
    (nextOrdinal : Nat) (line : RolloutLine) :
    ThreadStoreResult (List RolloutProjectionStep × Nat) :=
  match line.ordinal with
  | none => .ok ([], nextOrdinal)
  | some ordinal =>
    if ordinal < nextOrdinal then .ok ([], nextOrdinal)
    else do
      let changes := lineChanges subagentHistoryStartOrdinal ordinal line
      let realtimeItem := lineRealtimeItem subagentHistoryStartOrdinal ordinal line
      let following ← checkedAdd ordinal 1 "rollout ordinal exceeds SQLite integer range"
      if needsTimestamp changes realtimeItem = true ∧ line.timestampMs = none then
        return ([.skippedOrdinalRange nextOrdinal following], following)
      else
        let gap := if nextOrdinal < ordinal then [.skippedOrdinalRange nextOrdinal ordinal] else []
        return (gap ++ [.line
          { position := ⟨ordinal, startByteOffset, endByteOffset⟩
            fallbackCreatedAtMs :=
              if needsTimestamp changes realtimeItem = true then line.timestampMs else none
            changes
            realtimeItem }], following)

/-! ## Reading

The JSON and rollout decoders are a parameter. -/

section Reading

variable (decode : List UInt8 → LineReading)

/-- The steps of one line; blank lines and those that cannot be read have none. -/
def readLine (subagentHistoryStartOrdinal : Option Nat)
    (startByteOffset endByteOffset nextOrdinal : Nat)
    (bytes : List UInt8) : ThreadStoreResult (List RolloutProjectionStep × Nat) :=
  if bytes.all isAsciiWhitespace then .ok ([], nextOrdinal)
  else
    match decode bytes with
    | .malformed | .unknown => .ok ([], nextOrdinal)
    | .decoded line => readDecodedLine subagentHistoryStartOrdinal startByteOffset endByteOffset
        nextOrdinal line

/-- The steps of lines from an offset on, and the offset after them. -/
def readLines (subagentHistoryStartOrdinal : Option Nat) :
    Nat → Nat → List (List UInt8) → ThreadStoreResult (List RolloutProjectionStep × Nat)
  | offset, _, [] => .ok ([], offset)
  | offset, nextOrdinal, bytes :: lines => do
    let lineEnd ← checkedAdd offset bytes.length "durable rollout byte offset overflow"
    let (steps, nextOrdinal) ← readLine decode subagentHistoryStartOrdinal offset lineEnd
      nextOrdinal bytes
    let (rest, nextOffset) ← readLines subagentHistoryStartOrdinal lineEnd nextOrdinal lines
    return (steps ++ rest, nextOffset)

/-- `read_projection_steps`. -/
def readProjectionSteps (file : RolloutFile) (startOffset expectedOrdinal : Nat) :
    ThreadStoreResult (List RolloutProjectionStep × Nat) :=
  if file.bytes.length < startOffset then .error
    (.internal "durable rollout shrank before projection")
  else
    readLines decode file.header.subagentHistoryStartOrdinal startOffset expectedOrdinal
      (completeLines [] (file.bytes.drop startOffset))

/-- The first ordinal of a rollout. -/
def initialOrdinal (header : SessionMeta) : Nat :=
  (header.historyBase.map HistoryPosition.endOrdinalExclusive).getD 0

/-- `materialize_to_sqlite`. -/
def materializeToSqlite (threadId : String) (file : RolloutFile) (rows : RolloutRows) :
    ThreadStoreResult RolloutRows := do
  let checkpoint := rows.projection.getD ⟨0, initialOrdinal file.header⟩
  let (projections, nextOffset) ←
    readProjectionSteps decode file checkpoint.nextByteOffset checkpoint.nextOrdinal
  if projections = [] ∧ checkpoint.nextByteOffset = nextOffset then return rows
  else
    applyProjection threadId rows checkpoint.nextByteOffset nextOffset (initialOrdinal file.header)
      projections

end Reading

end RenCrow.ThreadStore
