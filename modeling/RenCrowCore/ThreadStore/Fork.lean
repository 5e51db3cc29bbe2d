import RenCrowCore.Lib.Run
import RenCrowCore.ThreadStore.ForkFrame
import RenCrowCore.ThreadStore.Incremental

/-!
# Forking and reverting

A fork starts a new thread at some place of an existing one, and a revert gives a thread a
new rollout that starts before one of its turns (`paginated_fork.rs`, `revert_thread.rs`).
Neither copies records: the new rollout names the place up to which it inherits.

* `historyBaseAtBoundary`: that place, from the rows of the source;
* `storeStep`: threads are created, written, materialised, forked and reverted;
* `visibleRecords`: the records that a thread has through its lineage.
-/

namespace RenCrow.ThreadStore

open ByteLines

/-! ## Boundaries -/

/-- Where a fork leaves its source. -/
inductive ForkBoundary where
  | latest
  | throughTurn (turnId : String)
  | beforeTurn (turnId : String)
deriving DecidableEq, Repr

/-- A turn whose record has no position. -/
def missingTurnPosition (turnId : String) : ThreadStoreError :=
  .invalidRequest ("turn " ++ turnId ++ " does not have persisted rollout positions")

/-- `find_visible_turn`: the newest segment comes first. -/
def findVisibleTurn (db : HistoryDb) (lineage : RolloutLineage) (turnId : String) :
    ThreadStoreResult (String × TurnRow) := findTurn db turnId lineage.reverse

/-- The place after the last record of a turn. -/
def turnEndPosition (turnId rolloutId : String) (row : TurnRow) :
    ThreadStoreResult HistoryPosition :=
  if row.status = .inProgress then
    .error (.invalidRequest ("lastTurnId '" ++ turnId ++ "' identifies an in-progress turn"))
  else
    match row.rolloutEndOrdinal, row.rolloutEndByteOffset with
    | some ordinal, some byteOffset => .ok ⟨rolloutId, ordinal + 1, byteOffset⟩
    | _, _ => .error (missingTurnPosition turnId)

/-- The place before the first record of a turn. -/
def turnStartPosition (turnId rolloutId : String) (row : TurnRow) :
    ThreadStoreResult HistoryPosition :=
  if row.rolloutEndOrdinal = some row.rolloutOrdinal then
    .error (.invalidRequest ("turn " ++ turnId ++ " does not have a persisted start boundary"))
  else .ok ⟨rolloutId, row.rolloutOrdinal, row.rolloutByteOffset⟩

/-- The position that a boundary stands for. -/
def boundaryPosition (db : HistoryDb) (lineage : RolloutLineage) (latest : HistoryPosition) :
    ForkBoundary → ThreadStoreResult HistoryPosition
  | .latest => .ok latest
  | .throughTurn turnId => do
    let (rolloutId, row) ← findVisibleTurn db lineage turnId
    turnEndPosition turnId rolloutId row
  | .beforeTurn turnId => do
    let (rolloutId, row) ← findSourceTurn db lineage turnId
    turnStartPosition turnId rolloutId row

/-- The position exceeds what the lineage has of the rollout. -/
def exceedsSegment (position : HistoryPosition) (segment : RolloutLineageSegment) : Bool :=
  segment.stop.any fun stop =>
    stop.endOrdinalExclusive < position.endOrdinalExclusive || stop.endByteOffset <
      position.endByteOffset

/-- The base of a position: a segment that would be empty gives way to the one before it. -/
def historyBaseAt (lineage : RolloutLineage) (position : HistoryPosition) :
    ThreadStoreResult (Option HistoryPosition) :=
  match cutPlace position.threadId lineage with
  | none => .error (.internal "fork position is outside the source lineage")
  | some place =>
    if exceedsSegment position place.cut then
      .error (.invalidRequest "fork boundary exceeds inherited source history")
    else if position.endOrdinalExclusive = place.cut.startOrdinal then
      .ok (place.older.getLast?.bind RolloutLineageSegment.stop)
    else .ok (some position)

/-- `projection_state` of the last segment, as a position. -/
def latestPosition (db : HistoryDb) (threadId : String) (lineage : RolloutLineage) :
    ThreadStoreResult HistoryPosition :=
  match lineage.getLast? with
  | none => .error (.internal "fork lineage has no source segment")
  | some source =>
    match (db source.rolloutId).projection with
    | none => .error (.internal ("missing projection state for paginated thread " ++ threadId))
    | some state => .ok ⟨source.rolloutId, state.nextOrdinal, state.nextByteOffset⟩

/-- `history_base_at_boundary`. -/
def historyBaseAtBoundary (db : HistoryDb) (threadId : String) (boundary : ForkBoundary)
    (lineage : RolloutLineage) : ThreadStoreResult (Option HistoryPosition) := do
  let latest ← latestPosition db threadId lineage
  let position ← boundaryPosition db lineage latest boundary
  historyBaseAt lineage position

/-! ## The steps of a store -/

section Steps

variable (decode : List UInt8 → LineReading)

/-- `materialize_to_sqlite` on the store. -/
def materializeRollout (store : LocalThreadStore) (rolloutId : String) :
    ThreadStoreResult LocalThreadStore :=
  match store.file? rolloutId with
  | none => .ok store
  | some file => do
    let rows ← materializeToSqlite decode rolloutId file (store.history rolloutId)
    return { store with history := Function.update store.history rolloutId rows }

/-- The segments that are brought to SQLite before the boundary is looked up: for the latest
place the rows of the source are enough. -/
def segmentsToMaterialize (boundary : ForkBoundary) (lineage : RolloutLineage) : RolloutLineage :=
  match boundary with
  | .latest => lineage.drop (lineage.length - 1)
  | .throughTurn _ | .beforeTurn _ => lineage

/-- The common part of `prepare` and `revert`: the rows are brought up to date, and the base
is looked up in them. -/
def prepareBase (operation : String) (store : LocalThreadStore) (threadId : String)
    (boundary : ForkBoundary) : ThreadStoreResult (LocalThreadStore × Option HistoryPosition) := do
  let lineage ← resolveRolloutLineage store threadId
  if store.stateDb.isNone then .error (.unsupported operation)
  else
    let store ← (segmentsToMaterialize boundary lineage).foldlM
      (fun store segment => materializeRollout decode store segment.rolloutId) store
    let base ← historyBaseAtBoundary store.history threadId boundary lineage
    return (store, base)

/-- A new rollout starts with one line for its metadata, under the ordinal at which its base
ends. -/
def addRollout (store : LocalThreadStore) (rolloutId : String) (header : SessionMeta)
    (line : List UInt8) : Option LocalThreadStore :=
  if store.file? rolloutId = none ∧ completeLines [] line = [line] ∧
      lineOrdinal decode line = some (initialOrdinal header) then
    some { store with
      files := store.files ++ [(rolloutId, ⟨header, line⟩)]
      currentRollout := Function.update store.currentRollout header.id (some rolloutId) }
  else none

/-- What happens to a store. -/
inductive StoreEvent where
  | create (threadId rolloutId : String) (subagentHistoryStartOrdinal : Option Nat)
      (line : List UInt8)
  | append (rolloutId : String) (bytes : List UInt8)
  | materialize (rolloutId : String)
  | fork (sourceId threadId rolloutId : String) (boundary : ForkBoundary)
      (subagentHistoryStartOrdinal : Option Nat) (line : List UInt8)
  | revert (threadId turnId rolloutId : String) (subagentHistoryStartOrdinal : Option Nat)
      (line : List UInt8)

/-- `prepare` and the first line of the new thread. -/
def forkThread (store : LocalThreadStore) (sourceId threadId rolloutId : String)
    (boundary : ForkBoundary) (subagentHistoryStartOrdinal : Option Nat) (line : List UInt8) :
    Option LocalThreadStore := do
  let (prepared, base) ← (prepareBase decode "prepare_fork" store sourceId boundary).toOption
  addRollout decode prepared rolloutId ⟨threadId, .paginated, base, subagentHistoryStartOrdinal⟩
    line

/-- `revert`: a new rollout for the same thread. -/
def revertThread (store : LocalThreadStore) (threadId turnId rolloutId : String)
    (subagentHistoryStartOrdinal : Option Nat) (line : List UInt8) : Option LocalThreadStore := do
  let (prepared, base) ←
    (prepareBase decode "revert_thread" store threadId (.beforeTurn turnId)).toOption
  addRollout decode prepared rolloutId ⟨threadId, .paginated, base, subagentHistoryStartOrdinal⟩
    line

/-- One step, if it succeeds.  Bytes of any kind may be written to a rollout. -/
def storeStep (store : LocalThreadStore) : StoreEvent → Option LocalThreadStore
  | .create threadId rolloutId start line =>
    if store.currentRollout threadId = none then
      addRollout decode store rolloutId ⟨threadId, .paginated, none, start⟩ line
    else none
  | .append rolloutId bytes => some (store.append rolloutId bytes)
  | .materialize rolloutId => (materializeRollout decode store rolloutId).toOption
  | .fork sourceId threadId rolloutId boundary start line =>
    if store.currentRollout threadId = none then
      forkThread decode store sourceId threadId rolloutId boundary start line
    else none
  | .revert threadId turnId rolloutId start line =>
    revertThread decode store threadId turnId rolloutId start line

/-- A store without threads. -/
def emptyStore (stateDb : Option (String → Option ThreadMetadata)) : LocalThreadStore where
  stateDb := stateDb
  currentRollout := fun _ => none
  files := []
  history := fun _ => {}

/-! ## Records -/

/-- A record with its ordinal. -/
abbrev Record := Nat × List UInt8

/-- The records of a file, each with its ordinal. -/
def fileRecords (file : RolloutFile) : List Record :=
  (completeLines [] file.bytes).filterMap fun line => (lineOrdinal decode line).map (·, line)

/-- The records of a rollout. -/
def rolloutRecords (store : LocalThreadStore) (rolloutId : String) : List Record :=
  ((store.file? rolloutId).map (fileRecords decode)).getD []

/-- The records of a segment. -/
def segmentRecords (store : LocalThreadStore) (segment : RolloutLineageSegment) : List Record :=
  (rolloutRecords decode store segment.rolloutId).filter fun record => segment.contains record.1

/-- The records of a lineage, oldest segment first. -/
def lineageRecords (store : LocalThreadStore) (lineage : RolloutLineage) : List Record :=
  lineage.flatMap (segmentRecords decode store)

/-- The records that a thread shows. -/
def visibleRecords (store : LocalThreadStore) (threadId : String) :
    ThreadStoreResult (List Record) := do
  let lineage ← resolveRolloutLineage store threadId
  return lineageRecords decode store lineage

end Steps

end RenCrow.ThreadStore
