import RenCrowCore.ThreadStore.Lineage

/-!
# Reading a thread history

The list calls of a paginated thread (`segment_paging.rs`, `read.rs`, `turn_lookup.rs`).  The
segments of the lineage are read one after the other, each from the rows of its rollout whose
first ordinal is in the segment, until the page is full.

* `listTurns`: a page of turns with the items of their summaries;
* `listItems`: a page of items.
-/

namespace RenCrow.ThreadStore

/-! ## Rows of a segment -/

namespace RolloutLineageSegment

variable (db : HistoryDb) (segment : RolloutLineageSegment)

/-- The turn rows of a segment. -/
def turns : List TurnRow :=
  (db segment.rolloutId).turns.filter fun row => segment.contains row.rolloutOrdinal

/-- The item rows of a segment. -/
def items : List ItemRow :=
  (db segment.rolloutId).items.filter fun row => segment.contains row.rolloutOrdinal

/-- The realtime rows of a segment. -/
def realtime : List RealtimeRow :=
  (db segment.rolloutId).realtime.filter fun row => segment.contains row.rolloutOrdinal

end RolloutLineageSegment

/-! ## Cursors -/

/-- What a cursor is a position in. -/
inductive CursorScope where
  | turns
  | itemsByCreatedAtOrdinal
  | itemsByUpdatedAtOrdinal
deriving DecidableEq, Repr

/-- The position that a cursor text stands for. -/
structure HistoryCursor where
  requestedThreadId : String
  rolloutOrdinal : Nat
  includeAnchor : Bool
  scope : CursorScope
deriving DecidableEq, Repr

/-- The text of cursors. -/
structure CursorCodec (Cursor : Type) where
  encode : Cursor → String
  decode : String → Option Cursor

/-- A cursor that cannot be used. -/
def invalidCursor (cursor : String) : ThreadStoreError :=
  .invalidRequest ("invalid cursor: " ++ cursor)

/-- Decodes a cursor, and checks that it is of this thread and this listing. -/
def parseCursor (codec : CursorCodec HistoryCursor) (cursor : Option String)
    (requestedThreadId : String)
    (scope : CursorScope) : ThreadStoreResult (Option HistoryCursor) :=
  match cursor with
  | none => .ok none
  | some text =>
    match codec.decode text with
    | none => .error (invalidCursor text)
    | some value =>
      if value.requestedThreadId ≠ requestedThreadId ∨ value.scope ≠ scope then
        .error (invalidCursor text)
      else .ok (some value)

/-- The comparison of a page with the cursor it starts at. -/
def afterCursor (direction : SortDirection) (cursor : Option HistoryCursor) (ordinal : Nat) :
    Bool :=
  match cursor with
  | none => true
  | some cursor =>
    match direction, cursor.includeAnchor with
    | .asc, true => decide (cursor.rolloutOrdinal ≤ ordinal)
    | .asc, false => decide (cursor.rolloutOrdinal < ordinal)
    | .desc, true => decide (ordinal ≤ cursor.rolloutOrdinal)
    | .desc, false => decide (ordinal < cursor.rolloutOrdinal)

/-! ## Pages -/

/-- A page that SQLite cannot count. -/
def pageSizeTooLarge : ThreadStoreError := .invalidRequest "page size is too large"

/-- A page has at least one row, and one more row can be asked for. -/
def validatePageSize (pageSize : Nat) : ThreadStoreResult Unit :=
  if pageSize = 0 then .error (.invalidRequest "page size must be positive")
  else if i64Max < pageSize + 1 then .error pageSizeTooLarge
  else .ok ()

/-- How many rows are still to be read: one more than the page has. -/
def remainingLimit (pageSize rowCount : Nat) : ThreadStoreResult Nat :=
  if pageSize + 1 < rowCount then .error pageSizeTooLarge
  else if i64Max < pageSize + 1 - rowCount then .error pageSizeTooLarge
  else .ok (pageSize + 1 - rowCount)

/-- An ordinal as SQLite can store it. -/
def pagingInteger (value : Nat) : ThreadStoreResult Nat :=
  if value ≤ i64Max then .ok value
  else .error (.invalidRequest "rollout ordinal exceeds SQLite integer range")

/-- The bounds of segments as integers of SQLite. -/
def pagingBounds : List RolloutLineageSegment → ThreadStoreResult Unit
  | [] => .ok ()
  | segment :: rest => do
    let _ ← pagingInteger segment.startOrdinal
    let _ ← pagingInteger (segment.endOrdinal.getD 0)
    pagingBounds rest

/-- The position of a cursor fits in SQLite. -/
def pagingCursor : Option HistoryCursor → ThreadStoreResult Unit
  | none => .ok ()
  | some cursor => do
    let _ ← pagingInteger cursor.rolloutOrdinal
    return ()

/-- `push_cursor_clause` and `push_order_and_limit`. -/
def pageRows {α : Type} (key : α → Nat) (direction : SortDirection) (cursor : Option HistoryCursor)
    (limit : Nat) (rows : List α) : List α :=
  (sortRows direction key (rows.filter fun row => afterCursor direction cursor (key row))).take
    limit

/-- The segments that a page is read from, with the newer ones of each. -/
structure SegmentVisit where
  segment : RolloutLineageSegment
  newer : List RolloutLineageSegment
  cursor : Option HistoryCursor

/-- A segment with those after it, and the cursor if it lies in it. -/
def segmentVisit (lineage : RolloutLineage) (cursorIndex : Option Nat)
    (cursor : Option HistoryCursor)
    (index : Nat) : Option SegmentVisit :=
  lineage[index]?.map fun segment =>
    ⟨segment, lineage.drop (index + 1), if some index = cursorIndex then cursor else none⟩

/-- The segment that a cursor lies in. -/
def cursorSegmentIndex (lineage : RolloutLineage) :
    Option HistoryCursor → ThreadStoreResult (Option Nat)
  | none => .ok none
  | some cursor =>
    match segmentIndexForOrdinal lineage cursor.rolloutOrdinal with
    | none => .error (invalidCursor "position outside thread lineage")
    | some index => .ok (some index)

/-- The segments from that of the cursor on, in the direction of the listing. -/
def segmentsFromCursor (lineage : RolloutLineage) (direction : SortDirection)
    (cursor : Option HistoryCursor) : ThreadStoreResult (List SegmentVisit) := do
  let cursorIndex ← cursorSegmentIndex lineage cursor
  let indexes := match direction with
    | .asc => (List.range lineage.length).drop (cursorIndex.getD 0)
    | .desc => (List.range (cursorIndex.getD (lineage.length - 1) + 1)).reverse
  return indexes.filterMap (segmentVisit lineage cursorIndex cursor)

/-- The loop over the segments of a page. -/
def collectRows {β : Type} (pageSize : Nat)
    (query : SegmentVisit → Nat → ThreadStoreResult (List β)) :
    List β → List SegmentVisit → ThreadStoreResult (List β)
  | rows, [] => .ok rows
  | rows, visit :: visits => do
    let remaining ← remainingLimit pageSize rows.length
    if remaining = 0 then return rows
    else
      let more ← query visit remaining
      collectRows pageSize query (rows ++ more) visits

/-- The rows of a page and the cursors beside them. -/
structure SegmentPage (β : Type) where
  rows : List β
  nextCursor : Option String
  backwardsCursor : Option String
deriving DecidableEq, Repr

/-- Cuts the rows to the page; a row too many says that there is a next page. -/
def finishPage {β : Type} (codec : CursorCodec HistoryCursor) (requestedThreadId : String)
    (scope : CursorScope) (position : β → Nat) (rows : List β) (pageSize : Nat) : SegmentPage β :=
  let page := rows.take pageSize
  { rows := page
    nextCursor :=
      if pageSize < rows.length then
        page.getLast?.map fun row => codec.encode ⟨requestedThreadId, position row, false, scope⟩
      else none
    backwardsCursor :=
      page.head?.map fun row => codec.encode ⟨requestedThreadId, position row, true, scope⟩ }

/-! ## Turns -/

/-- An item as it is listed. -/
structure StoredThreadItem where
  turnId : String
  itemId : String
  updatedAtOrdinal : Nat
  createdAtMs : Int
  startedAtMs : Option Int
  completedAtMs : Option Int
  item : ThreadItem
deriving DecidableEq, Repr

/-- The item of a row. -/
def storedThreadItem (row : ItemRow) : StoredThreadItem :=
  ⟨row.turnId, row.itemId, row.updatedAtOrdinal, row.createdAtMs, row.startedAtMs,
    row.completedAtMs,
    row.item⟩

/-- Which items of its turns a listing loads. -/
inductive StoredTurnItemsView where
  | notLoaded
  | summary
deriving DecidableEq, Repr

/-- A turn as it is read from its rows. -/
structure StoredTurnRow where
  position : Nat
  turnId : String
  status : TurnStatus
  error : Option String
  startedAt : Option Int
  completedAt : Option Int
  durationMs : Option Int
  firstUserItemId : Option String
  finalAgentItemId : Option String
  summaryItems : List StoredThreadItem
deriving DecidableEq, Repr

/-- One of the segments has a row for the turn. -/
def hasTurn (db : HistoryDb) (segments : List RolloutLineageSegment) (turnId : String) : Bool :=
  segments.any fun segment => (segment.turns db).any fun row => row.turnId = turnId

/-- `push_summary_item_join`. -/
def summaryItem (db : HistoryDb) (segment : RolloutLineageSegment) (turnId : String)
    (itemId : Option String) : Option ItemRow :=
  (segment.items db).find? fun row => decide (row.turnId = turnId) &&
    decide (some row.itemId = itemId)

/-- The two joined items of a summary in the order of their rows. -/
def summaryItems (db : HistoryDb) (segment : RolloutLineageSegment) (row : TurnRow) :
    List StoredThreadItem :=
  (sortRows .asc ItemRow.rolloutOrdinal
    ((summaryItem db segment row.turnId row.firstUserItemId).toList ++
      (summaryItem db segment row.turnId row.finalAgentItemId).toList)).map storedThreadItem

/-- The turn of a row, with its summary where that is asked for. -/
def storedTurnRow (db : HistoryDb) (itemsView : StoredTurnItemsView)
    (segment : RolloutLineageSegment)
    (row : TurnRow) : StoredTurnRow where
  position := row.rolloutOrdinal
  turnId := row.turnId
  status := row.status
  error := row.error
  startedAt := row.startedAt
  completedAt := row.completedAt
  durationMs := row.durationMs
  firstUserItemId := row.firstUserItemId
  finalAgentItemId := row.finalAgentItemId
  summaryItems := match itemsView with
    | .notLoaded => []
    | .summary => summaryItems db segment row

/-- The turns of a segment that no newer segment has a row for. -/
def shownTurns (db : HistoryDb) (segment : RolloutLineageSegment)
    (newer : List RolloutLineageSegment) :
    List TurnRow :=
  (segment.turns db).filter fun row => !hasTurn db newer row.turnId

/-- The shown turns of one segment, up to a limit. -/
def queryTurns (db : HistoryDb) (direction : SortDirection) (itemsView : StoredTurnItemsView)
    (visit : SegmentVisit) (limit : Nat) : ThreadStoreResult (List StoredTurnRow) := do
  pagingBounds (visit.segment :: visit.newer)
  pagingCursor visit.cursor
  return (pageRows TurnRow.rolloutOrdinal direction visit.cursor limit
    (shownTurns db visit.segment visit.newer)).map (storedTurnRow db itemsView visit.segment)

/-- `find_turn`: the first of the segments with a row for the turn. -/
def findTurn (db : HistoryDb) (turnId : String) :
    List RolloutLineageSegment → ThreadStoreResult (String × TurnRow)
  | [] => .error (.invalidRequest ("turn not found: " ++ turnId))
  | segment :: rest => do
    let _ ← sqliteInteger (segment.endOrdinal.getD 0) "rollout ordinal"
    let _ ← sqliteInteger segment.startOrdinal "rollout ordinal"
    match (segment.turns db).find? fun row => row.turnId = turnId with
    | some row => return (segment.rolloutId, row)
    | none => findTurn db turnId rest

/-- `find_source_turn`: the oldest segment comes first. -/
def findSourceTurn (db : HistoryDb) (lineage : RolloutLineage) (turnId : String) :
    ThreadStoreResult (String × TurnRow) := findTurn db turnId lineage

/-- `load_inherited_summary_items`. -/
def loadInheritedSummaryItems (db : HistoryDb) (lineage : RolloutLineage) (turnId : String) :
    ThreadStoreResult (List StoredThreadItem) := do
  let (rolloutId, source) ← findSourceTurn db lineage turnId
  match lineage.find? fun segment => segment.rolloutId = rolloutId with
  | none => return []
  | some segment =>
    return (sortRows .asc ItemRow.rolloutOrdinal ((segment.items db).filter fun row =>
      decide (row.turnId = turnId) && (decide (some row.itemId = source.firstUserItemId) ||
        decide (some row.itemId = source.finalAgentItemId)))).map storedThreadItem

/-- A turn as it is listed. -/
structure StoredTurn where
  turnId : String
  items : List StoredThreadItem
  itemsView : StoredTurnItemsView
  status : TurnStatus
  error : Option String
  startedAt : Option Int
  completedAt : Option Int
  durationMs : Option Int
deriving DecidableEq, Repr

/-- Rows at the boundary of a fork are interrupted and have no summary of their own. -/
def StoredTurnRow.isSynthetic (row : StoredTurnRow) : Bool :=
  decide (row.status = .interrupted) && row.firstUserItemId.isNone && row.finalAgentItemId.isNone

/-- The items that the view of a turn asks for. -/
def storedTurnItems (db : HistoryDb) (lineage : RolloutLineage) (row : StoredTurnRow) :
    StoredTurnItemsView → ThreadStoreResult (List StoredThreadItem)
  | .notLoaded => .ok []
  | .summary =>
    if row.isSynthetic then loadInheritedSummaryItems db lineage row.turnId
    else .ok row.summaryItems

/-- The listed turn of a row. -/
def storedTurn (db : HistoryDb) (lineage : RolloutLineage) (itemsView : StoredTurnItemsView)
    (row : StoredTurnRow) : ThreadStoreResult StoredTurn := do
  let items ← storedTurnItems db lineage row itemsView
  return ⟨row.turnId, items, itemsView, row.status, row.error, row.startedAt, row.completedAt,
    row.durationMs⟩

/-- The arguments of `list_turns`. -/
structure ListTurnsParams where
  threadId : String
  includeArchived : Bool
  cursor : Option String
  pageSize : Nat
  sortDirection : SortDirection
  itemsView : StoredTurnItemsView
deriving DecidableEq, Repr

/-- A page of turns. -/
structure TurnPage where
  turns : List StoredTurn
  nextCursor : Option String
  backwardsCursor : Option String
deriving DecidableEq, Repr

/-- `validate_thread_for_paginated_reads`. -/
def validateThreadForPaginatedReads (store : LocalThreadStore) (threadId : String)
    (includeArchived : Bool) (operation : String) : ThreadStoreResult Unit :=
  match store.stateDb with
  | none => .error (.unsupported operation)
  | some threads =>
    match threads threadId with
    | none => .error (.unsupported operation)
    | some metadata =>
      if metadata.archived = true ∧ includeArchived = false then
        .error (.invalidRequest ("thread " ++ threadId ++ " is archived"))
      else
        match metadata.historyMode with
        | .legacy => .error (.unsupported operation)
        | .paginated => .ok ()

/-- `page_turn_rows`. -/
def pageTurnRows (codec : CursorCodec HistoryCursor) (db : HistoryDb) (lineage : RolloutLineage)
    (params : ListTurnsParams) : ThreadStoreResult (SegmentPage StoredTurnRow) := do
  let cursor ← parseCursor codec params.cursor params.threadId .turns
  let visits ← segmentsFromCursor lineage params.sortDirection cursor
  let rows ← collectRows params.pageSize (queryTurns db params.sortDirection params.itemsView) []
    visits
  return finishPage codec params.threadId .turns StoredTurnRow.position rows params.pageSize

/-- The page of the rows of a lineage. -/
def turnPage (codec : CursorCodec HistoryCursor) (db : HistoryDb) (lineage : RolloutLineage)
    (params : ListTurnsParams) : ThreadStoreResult TurnPage := do
  let page ← pageTurnRows codec db lineage params
  let turns ← page.rows.mapM (storedTurn db lineage params.itemsView)
  return ⟨turns, page.nextCursor, page.backwardsCursor⟩

/-- `list_turns`. -/
def listTurns (codec : CursorCodec HistoryCursor) (store : LocalThreadStore)
    (params : ListTurnsParams) :
    ThreadStoreResult TurnPage := do
  validateThreadForPaginatedReads store params.threadId params.includeArchived "list_turns"
  validatePageSize params.pageSize
  let lineage ← resolveRolloutLineage store params.threadId
  turnPage codec store.history lineage params

/-! ## Items -/

/-- The ordinal that items are sorted by. -/
inductive ItemSortKey where
  | createdAtOrdinal
  | updatedAtOrdinal
deriving DecidableEq, Repr

/-- The arguments of `list_items`. -/
structure ListItemsParams where
  threadId : String
  turnId : Option String
  includeArchived : Bool
  cursor : Option String
  pageSize : Nat
  sortDirection : SortDirection
  sortKey : ItemSortKey
  afterUpdatedAtOrdinal : Option Nat
deriving DecidableEq, Repr

/-- A page of items. -/
structure ItemPage where
  items : List StoredThreadItem
  nextCursor : Option String
  backwardsCursor : Option String
deriving DecidableEq, Repr

/-- The watermark of a listing fits in SQLite. -/
def pagingWatermark : Option Nat → ThreadStoreResult Unit
  | none => .ok ()
  | some ordinal => do
    let _ ← pagingInteger ordinal
    return ()

/-- The filters of a call on the items of a thread. -/
def ListItemsParams.selects (params : ListItemsParams) (row : ItemRow) : Bool :=
  params.afterUpdatedAtOrdinal.all (· < row.updatedAtOrdinal) && params.turnId.all (row.turnId = ·)

/-- The selected items of one segment, up to a limit. -/
def queryItems (db : HistoryDb) (params : ListItemsParams) (visit : SegmentVisit) (limit : Nat) :
    ThreadStoreResult (List ItemRow) := do
  pagingBounds [visit.segment]
  pagingWatermark params.afterUpdatedAtOrdinal
  pagingCursor visit.cursor
  return pageRows ItemRow.rolloutOrdinal params.sortDirection visit.cursor limit
    ((visit.segment.items db).filter params.selects)

/-- `page_updated_item_rows`: all rows of the rollout, by their last update. -/
def pageUpdatedItemRows (codec : CursorCodec HistoryCursor) (items : List ItemRow)
    (params : ListItemsParams) : ThreadStoreResult (SegmentPage ItemRow) := do
  let cursor ← parseCursor codec params.cursor params.threadId .itemsByUpdatedAtOrdinal
  pagingWatermark params.afterUpdatedAtOrdinal
  pagingCursor cursor
  let limit ← remainingLimit params.pageSize 0
  return finishPage codec params.threadId .itemsByUpdatedAtOrdinal ItemRow.updatedAtOrdinal
    (pageRows ItemRow.updatedAtOrdinal params.sortDirection cursor limit
      (items.filter params.selects))
    params.pageSize

/-- `page_item_rows`. -/
def pageItemRows (codec : CursorCodec HistoryCursor) (db : HistoryDb) (lineage : RolloutLineage)
    (params : ListItemsParams) : ThreadStoreResult (SegmentPage ItemRow) :=
  if params.afterUpdatedAtOrdinal.isSome = true ∧ 1 < lineage.length then
    .error (.invalidRequest "incremental item replay is not supported for forked threads")
  else
    match params.sortKey with
    | .updatedAtOrdinal =>
      if params.afterUpdatedAtOrdinal.isNone then
        .error (.invalidRequest "update-ordinal item sorting requires an update watermark")
      else
        match lineage with
        | [segment] => pageUpdatedItemRows codec (db segment.rolloutId).items params
        | _ => .error (.internal "update-ordinal item paging requires one rollout segment")
    | .createdAtOrdinal => do
      let cursor ← parseCursor codec params.cursor params.threadId .itemsByCreatedAtOrdinal
      let visits ← segmentsFromCursor lineage params.sortDirection cursor
      let rows ← collectRows params.pageSize (queryItems db params) [] visits
      return finishPage codec params.threadId .itemsByCreatedAtOrdinal ItemRow.rolloutOrdinal rows
        params.pageSize

/-- `list_items`. -/
def listItems (codec : CursorCodec HistoryCursor) (store : LocalThreadStore)
    (params : ListItemsParams) :
    ThreadStoreResult ItemPage := do
  validateThreadForPaginatedReads store params.threadId params.includeArchived "list_items"
  validatePageSize params.pageSize
  let lineage ← resolveRolloutLineage store params.threadId
  let page ← pageItemRows codec store.history lineage params
  return ⟨page.rows.map storedThreadItem, page.nextCursor, page.backwardsCursor⟩

end RenCrow.ThreadStore
