import RenCrowCore.ThreadStore.HistoryRead

/-!
# The timeline of a thread

Starts and ends of turns, items and realtime items in one order (`thread_history/realtime.rs`),
read from the newest segment of the lineage to the oldest.

* `listTimeline`: a page of entries and the realtime session that is open where it starts.
-/

namespace RenCrow.ThreadStore

/-- An entry of a timeline. -/
inductive ThreadTimelineEntry where
  | turnStarted (position : Nat) (turnId : String) (startedAt : Option Int)
  | item (position : Nat) (turnId : String) (item : ThreadItem)
  | realtime (position : Nat) (item : RealtimeItem)
  | turnCompleted (position : Nat) (turnId : String) (status : TurnStatus) (error : Option String)
      (startedAt completedAt durationMs : Option Int)
deriving DecidableEq, Repr

/-- Where an entry stands; boundaries of turns go around the items of the same line. -/
structure EntryKey where
  position : Nat
  kind : Nat
  id : String
deriving DecidableEq, Repr

/-- The comparison of row values. -/
def EntryKey.lt (a b : EntryKey) : Bool :=
  decide (a.position < b.position) || decide (a.position = b.position) &&
    (decide (a.kind < b.kind) || decide (a.kind = b.kind) && decide (a.id.toList < b.id.toList))

/-- The place of an entry. -/
def entryKey : ThreadTimelineEntry → EntryKey
  | .turnStarted position turnId _ => ⟨position, 0, turnId⟩
  | .item position _ item => ⟨position, 1, item.id⟩
  | .realtime position item => ⟨position, 2, item.id⟩
  | .turnCompleted position turnId .. => ⟨position, 3, turnId⟩

/-- The position that a cursor text stands for. -/
structure TimelineCursor where
  threadId : String
  key : EntryKey
deriving DecidableEq, Repr

/-- A row of the query with the columns it is ordered by. -/
structure TimelineRow where
  key : EntryKey
  entry : ThreadTimelineEntry
deriving DecidableEq, Repr

/-! ## Rows of a segment -/

namespace RolloutLineageSegment

variable (db : HistoryDb) (segment : RolloutLineageSegment)

/-- The starts of the turns of a segment. -/
def starts : List TimelineRow :=
  (segment.turns db).map fun row =>
    ⟨⟨row.rolloutOrdinal, 0, row.turnId⟩, .turnStarted row.rolloutOrdinal row.turnId row.startedAt⟩

/-- The items of a segment. -/
def itemEntries : List TimelineRow :=
  (segment.items db).map fun row =>
    ⟨⟨row.rolloutOrdinal, 1, row.itemId⟩, .item row.rolloutOrdinal row.turnId row.item⟩

/-- The realtime items of a segment. -/
def realtimeEntries : List TimelineRow :=
  (segment.realtime db).map fun row =>
    ⟨⟨row.rolloutOrdinal, 2, row.itemId⟩, .realtime row.rolloutOrdinal row.item⟩

/-- The end of a turn, if it lies in the segment. -/
def endEntry (row : TurnRow) : Option TimelineRow :=
  (row.rolloutEndOrdinal.filter segment.contains).map fun ordinal =>
    ⟨⟨ordinal, 3, row.turnId⟩, .turnCompleted ordinal row.turnId row.status row.error row.startedAt
      row.completedAt row.durationMs⟩

/-- Turns that end in the segment, wherever they started. -/
def ends : List TimelineRow := (db segment.rolloutId).turns.filterMap segment.endEntry

end RolloutLineageSegment

/-- Newest first, at most so many. -/
def newestRows (limit : Nat) (rows : List TimelineRow) : List TimelineRow :=
  (rows.insertionSort fun a b => (!EntryKey.lt a.key b.key) = true).take limit

/-- An entry before a cursor. -/
def beforeCursor (upper : Nat) (cursor : EntryKey) (row : TimelineRow) : Bool :=
  decide (row.key.position < upper) && decide (row.key.position ≤ cursor.position) &&
    row.key.lt cursor

/-- The four parts of the query, each limited, and their union. -/
def timelineRows (db : HistoryDb) (segment : RolloutLineageSegment) (upper : Nat)
    (cursor : EntryKey)
    (limit : Nat) : List TimelineRow :=
  newestRows limit ([segment.starts db, segment.itemEntries db, segment.realtimeEntries db,
    segment.ends db].flatMap fun rows => newestRows limit (rows.filter (beforeCursor upper cursor)))

/-! ## Pages -/

/-- The upper bound of a segment as an integer of SQLite. -/
def upperBound (segment : RolloutLineageSegment) : ThreadStoreResult Nat :=
  match segment.endOrdinal with
  | none => .ok i64Max
  | some value => sqliteInteger value "rollout ordinal"

/-- The loop over the segments, newest first. -/
def collectTimeline (db : HistoryDb) (cursorPosition : Option Nat) (cursor : EntryKey)
    (maxRows : Nat) :
    List TimelineRow → List RolloutLineageSegment → ThreadStoreResult (List TimelineRow)
  | rows, [] => .ok rows
  | rows, segment :: rest =>
    let remaining := maxRows - rows.length
    if remaining = 0 then .ok rows
    else if cursorPosition.any (· < segment.startOrdinal) then
      collectTimeline db cursorPosition cursor maxRows rows rest
    else do
      let upper ← upperBound segment
      let _ ← sqliteInteger segment.startOrdinal "rollout ordinal"
      collectTimeline db cursorPosition cursor maxRows
        (rows ++ timelineRows db segment upper cursor remaining) rest

/-- The item starts or ends a realtime session. -/
def RealtimeItemKind.isBoundary : RealtimeItemKind → Bool
  | sessionStarted | sessionClosed => true
  | other => false

/-- The last start or end of a realtime session before the page. -/
def sessionBoundary (db : HistoryDb) (segment : RolloutLineageSegment) (upper : Nat)
    (pageStart : EntryKey) :
    Option RealtimeRow :=
  (sortRows .desc RealtimeRow.rolloutOrdinal ((db segment.rolloutId).realtime.filter fun row =>
    decide (segment.startOrdinal ≤ row.rolloutOrdinal) && decide (row.rolloutOrdinal ≤ upper) &&
      EntryKey.lt ⟨row.rolloutOrdinal, 2, row.itemId⟩ pageStart && row.item.kind.isBoundary)).head?

/-- The realtime session that is open where the page starts. -/
def activeRealtimeSession (db : HistoryDb) (pageStart : EntryKey) :
    List RolloutLineageSegment → ThreadStoreResult (Option String)
  | [] => .ok none
  | segment :: rest =>
    let upper := min pageStart.position ((segment.endOrdinal.map (· - 1)).getD u64Max)
    if upper < segment.startOrdinal then activeRealtimeSession db pageStart rest
    else do
      let _ ← sqliteInteger segment.startOrdinal "rollout ordinal"
      let _ ← sqliteInteger upper "rollout ordinal"
      let _ ← sqliteInteger pageStart.position "rollout ordinal"
      match sessionBoundary db segment upper pageStart with
      | none => activeRealtimeSession db pageStart rest
      | some row =>
        if row.item.kind = .sessionStarted then return some row.item.realtimeSessionId
        else return none

/-- The arguments of `list_timeline`. -/
structure ListTimelineParams where
  threadId : String
  cursor : Option String
  pageSize : Nat
deriving DecidableEq, Repr

/-- A page of a timeline. -/
structure TimelinePage where
  items : List ThreadTimelineEntry
  nextCursor : Option String
  activeRealtimeSessionAtPageStart : Option String
deriving DecidableEq, Repr

/-- Decodes a cursor, and checks that it is of this thread. -/
def parseTimelineCursor (codec : CursorCodec TimelineCursor) (params : ListTimelineParams) :
    ThreadStoreResult (Option EntryKey) :=
  match params.cursor with
  | none => .ok none
  | some text =>
    match codec.decode text with
    | none => .error (.invalidRequest "invalid thread timeline cursor")
    | some cursor =>
      if cursor.threadId ≠ params.threadId then
        .error (.invalidRequest "thread timeline cursor belongs to another thread")
      else .ok (some cursor.key)

/-- A page without a cursor starts after all rows. -/
def cursorKey : Option EntryKey → ThreadStoreResult EntryKey
  | none => .ok ⟨i64Max, 4, ""⟩
  | some key => do
    let _ ← sqliteInteger key.position "rollout ordinal"
    return key

/-- The page of the rows of a lineage. -/
def timelinePage (codec : CursorCodec TimelineCursor) (db : HistoryDb) (lineage : RolloutLineage)
    (params : ListTimelineParams) : ThreadStoreResult TimelinePage := do
  let cursor ← parseTimelineCursor codec params
  let key ← cursorKey cursor
  let rows ← collectTimeline db (cursor.map EntryKey.position) key
    (params.pageSize + 1) [] lineage.reverse
  let page := (rows.take params.pageSize).map TimelineRow.entry
  let nextCursor := if params.pageSize < rows.length then
      page.getLast?.map fun entry => codec.encode ⟨params.threadId, entryKey entry⟩
    else none
  let pageStart := (page.getLast?.map entryKey).getD ⟨0, 0, ""⟩
  let session ← activeRealtimeSession db pageStart lineage.reverse
  return ⟨page.reverse, nextCursor, session⟩

/-- `list_timeline`. -/
def listTimeline (codec : CursorCodec TimelineCursor) (store : LocalThreadStore)
    (params : ListTimelineParams) : ThreadStoreResult TimelinePage := do
  validateThreadForPaginatedReads store params.threadId false "thread/timeline/list"
  validatePageSize params.pageSize
  let lineage ← resolveRolloutLineage store params.threadId
  timelinePage codec store.history lineage params

end RenCrow.ThreadStore
