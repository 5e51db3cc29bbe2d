import RenCrowCore.ThreadStore.Timeline

/-!
# What a thread sees of the rows

The list calls of a thread read only part of the rows: for each segment the items, realtime
items, starts and ends in its range, and of the turns that are shown the columns of the
result.

* `SameView`: two databases agree on what a lineage reads;
* `turnPage_congr`, `pageItemRows_congr`, `timelinePage_congr`: such databases give the same
  pages.
-/

namespace RenCrow.ThreadStore

open Fallible List

/-! ## Views -/

/-- A turn as a page returns it, with its place. -/
def seenTurn (db : HistoryDb) (lineage : RolloutLineage) (itemsView : StoredTurnItemsView)
    (segment : RolloutLineageSegment) (row : TurnRow) : Nat × ThreadStoreResult StoredTurn :=
  (row.rolloutOrdinal, storedTurn db lineage itemsView (storedTurnRow db itemsView segment row))

/-- Two databases agree on what a lineage reads. -/
structure SameView (lineage : RolloutLineage) (db db' : HistoryDb) : Prop where
  turns : ∀ older segment newer, lineage = older ++ segment :: newer → ∀ itemsView,
    (shownTurns db segment newer).map (seenTurn db lineage itemsView segment) =
      (shownTurns db' segment newer).map (seenTurn db' lineage itemsView segment)
  items : ∀ segment ∈ lineage, segment.items db = segment.items db'
  realtime : ∀ segment ∈ lineage, segment.realtime db = segment.realtime db'
  starts : ∀ segment ∈ lineage, segment.starts db = segment.starts db'
  ends : ∀ segment ∈ lineage, segment.ends db = segment.ends db'
  unforked : ∀ segment, lineage = [segment] →
    (db segment.rolloutId).items = (db' segment.rolloutId).items

theorem SameView.refl (lineage : RolloutLineage) (db : HistoryDb) : SameView lineage db db :=
  ⟨fun _ _ _ _ _ => rfl, fun _ _ => rfl, fun _ _ => rfl, fun _ _ => rfl, fun _ _ => rfl,
    fun _ _ => rfl⟩

theorem SameView.trans {lineage : RolloutLineage} {db db' db'' : HistoryDb}
    (h : SameView lineage db db') (h' : SameView lineage db' db'') : SameView lineage db db'' where
  turns older segment newer hsplit view :=
    (h.turns older segment newer hsplit view).trans (h'.turns older segment newer hsplit view)
  items segment hmem := (h.items segment hmem).trans (h'.items segment hmem)
  realtime segment hmem := (h.realtime segment hmem).trans (h'.realtime segment hmem)
  starts segment hmem := (h.starts segment hmem).trans (h'.starts segment hmem)
  ends segment hmem := (h.ends segment hmem).trans (h'.ends segment hmem)
  unforked segment hone := (h.unforked segment hone).trans (h'.unforked segment hone)

/-! ## Pages of turns -/

section Pages

variable {α β γ : Type} {key' : β → Nat} {key : α → Nat} {rows' : List β} {rows : List α}

theorem map_sortRows (direction : SortDirection) (f : α → β) (hkey : ∀ a, key' (f a) = key a)
    (rows : List α) :
    (sortRows direction key rows).map f = sortRows direction key' (rows.map f) := by
  refine map_insertionSort _ _ f rows ?_
  intro a _ b _
  rw [hkey, hkey]

theorem map_pageRows (f : α → β) (hkey : ∀ a, key' (f a) = key a) (direction : SortDirection)
    (cursor : Option HistoryCursor) (limit : Nat) (rows : List α) :
    (pageRows key direction cursor limit rows).map f =
      pageRows key' direction cursor limit (rows.map f) := by
  rw [pageRows, pageRows, map_take, map_sortRows direction f hkey, filter_map]
  congr 3
  refine filter_congr fun a _ => ?_
  exact congrArg (afterCursor direction cursor) (hkey a).symm

/-- The loop keeps what a function makes of the rows. -/
theorem collectRows_congr {g : α → γ} {g' : β → γ} (pageSize : Nat)
    {query : SegmentVisit → Nat → ThreadStoreResult (List α)}
    {query' : SegmentVisit → Nat → ThreadStoreResult (List β)} {visits : List SegmentVisit}
    (hquery : ∀ visit ∈ visits, ∀ limit,
      (query visit limit).map (List.map g) = (query' visit limit).map (List.map g'))
    (hrows : rows.map g = rows'.map g') :
    (collectRows pageSize query rows visits).map (List.map g) =
      (collectRows pageSize query' rows' visits).map (List.map g') := by
  induction visits generalizing rows rows' with
  | nil => exact congrArg Except.ok hrows
  | cons visit visits ih =>
    have hlen : rows.length = rows'.length := by
      simpa using congrArg List.length hrows
    unfold collectRows
    rw [hlen]
    cases remainingLimit pageSize rows'.length with
    | error e => rfl
    | ok remaining =>
      change (if remaining = 0 then _ else _ : ThreadStoreResult (List α)).map _ =
        (if remaining = 0 then _ else _ : ThreadStoreResult (List β)).map _
      split
      · exact congrArg Except.ok hrows
      · change List.map g <$> (query visit remaining >>= _) =
          List.map g' <$> (query' visit remaining >>= _)
        rw [map_bind, map_bind]
        refine bind_congr_of_map_eq (hquery visit mem_cons_self remaining) ?_
        intro more more' hmore
        refine ih (fun later hlater => hquery later (mem_cons_of_mem _ hlater)) ?_
        rw [map_append, map_append, hrows, hmore]

/-- The cursors and the turns of a page depend on the places and results of its rows. -/
theorem finishPage_congr (codec : CursorCodec HistoryCursor) (threadId : String)
    (scope : CursorScope)
    (pageSize : Nat) {pos : α → Nat} {position' : β → Nat} {f : α → ThreadStoreResult γ}
    {f' : β → ThreadStoreResult γ} (hrows : rows.map (fun row => (pos row, f row)) =
      rows'.map fun row => (position' row, f' row)) :
    let page := finishPage codec threadId scope pos rows pageSize
    let page' := finishPage codec threadId scope position' rows' pageSize
    page.nextCursor = page'.nextCursor ∧ page.backwardsCursor = page'.backwardsCursor ∧
      page.rows.mapM f = page'.rows.mapM f' := by
  have hlen : rows.length = rows'.length := by
    simpa using congrArg List.length hrows
  have hpage : (rows.take pageSize).map (fun row => (pos row, f row)) =
      (rows'.take pageSize).map fun row => (position' row, f' row) := by
    rw [map_take, map_take, hrows]
  have hpos := congrArg (List.map Prod.fst) hpage
  have hresults := congrArg (fun pairs => (pairs.map Prod.snd).mapM id) hpage
  simp only [map_map, mapM_map, Function.comp_def] at hpos hresults
  dsimp only [finishPage]
  refine ⟨?_, ?_, hresults⟩
  · have hlast := congrArg (fun ords => ords.getLast?.map fun ord =>
      codec.encode ⟨threadId, ord, false, scope⟩) hpos
    simp only [getLast?_map, Option.map_map, Function.comp_def] at hlast
    rw [hlen, hlast]
  · have hfirst := congrArg (fun ords => ords.head?.map fun ord =>
      codec.encode ⟨threadId, ord, true, scope⟩) hpos
    simp only [head?_map, Option.map_map, Function.comp_def] at hfirst
    exact hfirst

end Pages

variable {lineage : RolloutLineage} {db db' : HistoryDb} (hview : SameView lineage db db')
  {visits : List SegmentVisit}

section Turns

variable {visit : SegmentVisit} {cursor : Option HistoryCursor}

/-- A visited segment is one of the lineage, with the segments after it. -/
theorem segmentVisit_eq_some {cursorIndex : Option Nat} {index : Nat}
    (h : segmentVisit lineage cursorIndex cursor index = some visit) :
    ∃ older, lineage = older ++ visit.segment :: visit.newer := by
  obtain ⟨segment, hseg, rfl⟩ := Option.map_eq_some_iff.mp h
  obtain ⟨hindex, rfl⟩ := List.getElem?_eq_some_iff.mp hseg
  refine ⟨lineage.take index, ?_⟩
  rw [← List.drop_eq_getElem_cons hindex, List.take_append_drop]

theorem split_of_mem_visits {direction : SortDirection}
    (h : segmentsFromCursor lineage direction cursor = .ok visits) (hmem : visit ∈ visits) :
    ∃ older, lineage = older ++ visit.segment :: visit.newer := by
  obtain ⟨cursorIndex, -, h⟩ := bind_eq_ok.mp h
  cases h
  obtain ⟨index, -, hvisit⟩ := mem_filterMap.mp hmem
  exact segmentVisit_eq_some hvisit

include hview in
theorem queryTurns_congr {older : List RolloutLineageSegment}
    (hsplit : lineage = older ++ visit.segment :: visit.newer) (direction : SortDirection)
    (itemsView : StoredTurnItemsView) (limit : Nat) :
    (queryTurns db direction itemsView visit limit).map
        (List.map fun row => (row.position, storedTurn db lineage itemsView row)) =
      (queryTurns db' direction itemsView visit limit).map
        (List.map fun row => (row.position, storedTurn db' lineage itemsView row)) := by
  have hseen : ∀ db : HistoryDb, ((pageRows TurnRow.rolloutOrdinal direction visit.cursor limit
      (shownTurns db visit.segment visit.newer)).map (storedTurnRow db itemsView visit.segment)).map
        (fun row => (row.position, storedTurn db lineage itemsView row)) =
      pageRows Prod.fst direction visit.cursor limit
        ((shownTurns db visit.segment visit.newer).map
          (seenTurn db lineage itemsView visit.segment)) := by
    intro db
    rw [map_map, ← map_pageRows (seenTurn db lineage itemsView visit.segment) fun _ => rfl]
    rfl
  unfold queryTurns
  cases pagingBounds (visit.segment :: visit.newer) with
  | error e => rfl
  | ok _ =>
    cases pagingCursor visit.cursor with
    | error e => rfl
    | ok _ =>
      refine congrArg Except.ok ?_
      rw [hseen db, hseen db', hview.turns older visit.segment visit.newer hsplit itemsView]

/-- The end of a page of turns. -/
def finishTurns (codec : CursorCodec HistoryCursor) (db : HistoryDb) (lineage : RolloutLineage)
    (params : ListTurnsParams) (rows : List StoredTurnRow) : ThreadStoreResult TurnPage := do
  let page := finishPage codec params.threadId .turns StoredTurnRow.position rows params.pageSize
  let turns ← page.rows.mapM (storedTurn db lineage params.itemsView)
  return ⟨turns, page.nextCursor, page.backwardsCursor⟩

theorem turnPage_eq (codec : CursorCodec HistoryCursor) (db : HistoryDb) (lineage : RolloutLineage)
    (params : ListTurnsParams) : turnPage codec db lineage params = (do
      let cursor ← parseCursor codec params.cursor params.threadId .turns
      let visits ← segmentsFromCursor lineage params.sortDirection cursor
      let rows ← collectRows params.pageSize (queryTurns db params.sortDirection params.itemsView)
        []
        visits
      finishTurns codec db lineage params rows) := by
  simp only [turnPage, pageTurnRows, finishTurns, bind_assoc, pure_bind]

theorem finishTurns_congr (codec : CursorCodec HistoryCursor) (params : ListTurnsParams)
    {rows rows' : List StoredTurnRow}
    (hrows : rows.map (fun row => (row.position, storedTurn db lineage params.itemsView row)) =
      rows'.map fun row => (row.position, storedTurn db' lineage params.itemsView row)) :
    finishTurns codec db lineage params rows = finishTurns codec db' lineage params rows' := by
  obtain ⟨hnext, hback, hturns⟩ :=
    finishPage_congr codec params.threadId .turns params.pageSize hrows
  dsimp only [finishTurns]
  rw [hnext, hback, hturns]

include hview

/-- Databases with the same view give the same pages of turns. -/
theorem turnPage_congr (codec : CursorCodec HistoryCursor) (params : ListTurnsParams) :
    turnPage codec db lineage params = turnPage codec db' lineage params := by
  rw [turnPage_eq, turnPage_eq]
  refine bind_congr fun cursor => ?_
  cases hvisits : segmentsFromCursor lineage params.sortDirection cursor with
  | error e => rfl
  | ok visits =>
    have hquery : ∀ visit ∈ visits, ∀ limit, _ := fun visit hmem limit =>
      (split_of_mem_visits hvisits hmem).elim fun _ hsplit =>
        queryTurns_congr hview hsplit params.sortDirection params.itemsView limit
    change (collectRows params.pageSize _ [] visits >>= finishTurns codec db lineage params) =
      (collectRows params.pageSize _ [] visits >>= finishTurns codec db' lineage params)
    exact bind_congr_of_map_eq (collectRows_congr params.pageSize hquery rfl)
      fun _ _ => finishTurns_congr codec params

end Turns

/-! ## Pages of items -/

section Items

include hview

theorem collectItems_congr (params : ListItemsParams)
    (hmem : ∀ visit ∈ visits, visit.segment ∈ lineage) :
    collectRows params.pageSize (queryItems db params) [] visits =
      collectRows params.pageSize (queryItems db' params) [] visits := by
  have hid : ∀ rows : ThreadStoreResult (List ItemRow), rows.map (List.map id) = rows := by
    intro rows
    cases rows with
    | error e => rfl
    | ok rows => exact congrArg Except.ok (map_id rows)
  rw [← hid (collectRows _ (queryItems db params) _ _),
    ← hid (collectRows _ (queryItems db' params) _ _)]
  refine collectRows_congr params.pageSize (fun visit hvisit limit => ?_) rfl
  rw [queryItems, queryItems, hview.items visit.segment (hmem visit hvisit)]

/-- Databases with the same view give the same pages of items. -/
theorem pageItemRows_congr (codec : CursorCodec HistoryCursor) (params : ListItemsParams) :
    pageItemRows codec db lineage params = pageItemRows codec db' lineage params := by
  unfold pageItemRows
  split
  · rfl
  · split
    · split
      · rfl
      · split
        · rw [hview.unforked _ rfl]
        · rfl
    · refine bind_congr fun cursor => ?_
      cases hvisits : segmentsFromCursor lineage params.sortDirection cursor with
      | error e => rfl
      | ok visits =>
        change (collectRows params.pageSize (queryItems db params) [] visits >>= _) =
          (collectRows params.pageSize (queryItems db' params) [] visits >>= _)
        rw [collectItems_congr hview params]
        intro visit hvisit
        obtain ⟨older, hsplit⟩ := split_of_mem_visits hvisits hvisit
        rw [hsplit]
        exact mem_append_right older mem_cons_self

end Items

/-! ## Pages of the timeline -/

section Timeline

variable {segs : List RolloutLineageSegment} {segment : RolloutLineageSegment}

include hview

theorem timelineRows_congr (hmem : segment ∈ lineage) (upper : Nat) (cursor : EntryKey)
    (limit : Nat) :
    timelineRows db segment upper cursor limit = timelineRows db' segment upper cursor limit := by
  unfold timelineRows RolloutLineageSegment.itemEntries RolloutLineageSegment.realtimeEntries
  rw [hview.starts segment hmem, hview.items segment hmem, hview.realtime segment hmem,
    hview.ends segment hmem]

theorem collectTimeline_congr (cursorPosition : Option Nat) (cursor : EntryKey) (maxRows : Nat)
    (hmem : ∀ segment ∈ segs, segment ∈ lineage)
    (rows : List TimelineRow) :
    collectTimeline db cursorPosition cursor maxRows rows segs =
      collectTimeline db' cursorPosition cursor maxRows rows segs := by
  induction segs generalizing rows with
  | nil => rfl
  | cons segment segs ih =>
    have hrest := ih fun later hlater => hmem later (mem_cons_of_mem _ hlater)
    unfold collectTimeline
    dsimp only
    split
    · rfl
    split
    · exact hrest rows
    · refine bind_congr fun upper => bind_congr fun _ => ?_
      rw [timelineRows_congr hview (hmem segment mem_cons_self)]
      exact hrest _

omit hview in
/-- The last boundary of a session lies in the segment. -/
theorem sessionBoundary_eq (db : HistoryDb) {upper : Nat}
    (hupper : ∀ ord, ord ≤ upper → segment.endOrdinal.all (ord < ·) = true)
    (pageStart : EntryKey) :
    sessionBoundary db segment upper pageStart =
      (sortRows .desc RealtimeRow.rolloutOrdinal ((segment.realtime db).filter fun row =>
        decide (row.rolloutOrdinal ≤ upper) &&
          EntryKey.lt ⟨row.rolloutOrdinal, 2, row.itemId⟩ pageStart &&
            row.item.kind.isBoundary)).head? := by
  unfold sessionBoundary RolloutLineageSegment.realtime
  rw [filter_filter]
  congr 2
  refine filter_congr fun row _ => ?_
  by_cases hle : row.rolloutOrdinal ≤ upper
  · simp only [RolloutLineageSegment.contains, hupper _ hle, hle, decide_true, Bool.and_true,
      Bool.true_and]
    ac_rfl
  · simp [hle]

theorem activeRealtimeSession_congr (pageStart : EntryKey)
    (hmem : ∀ segment ∈ segs, segment ∈ lineage ∧ 1 ≤ segment.startOrdinal) :
    activeRealtimeSession db pageStart segs = activeRealtimeSession db' pageStart segs := by
  induction segs with
  | nil => rfl
  | cons segment segs ih =>
    have hrest := ih fun later hlater => hmem later (mem_cons_of_mem _ hlater)
    obtain ⟨hseg, hstart⟩ := hmem segment mem_cons_self
    unfold activeRealtimeSession
    dsimp only
    split
    · exact hrest
    · rename_i hupper
      have hin : ∀ ord,
          ord ≤ min pageStart.position ((segment.endOrdinal.map (· - 1)).getD u64Max) →
            segment.endOrdinal.all (ord < ·) = true := by
        intro ord hle
        cases hend : segment.endOrdinal with
        | none => rfl
        | some stop =>
          rw [hend] at hle hupper
          simp only [Option.map_some, Option.getD_some] at hle hupper
          simp only [Option.all_some, decide_eq_true_eq]
          omega
      refine bind_congr fun _ => bind_congr fun _ => bind_congr fun _ => ?_
      rw [sessionBoundary_eq db hin, sessionBoundary_eq db' hin, hview.realtime segment hseg, hrest]

/-- Databases with the same view give the same pages of the timeline. -/
theorem timelinePage_congr (hlin : IsLineage lineage) (codec : CursorCodec TimelineCursor)
    (params : ListTimelineParams) :
    timelinePage codec db lineage params = timelinePage codec db' lineage params := by
  refine bind_congr fun cursor => bind_congr fun key => ?_
  rw [collectTimeline_congr hview _ key _ fun segment hmem => mem_reverse.mp hmem]
  refine bind_congr fun rows => ?_
  dsimp only
  rw [activeRealtimeSession_congr hview]
  intro segment hmem
  have hseg := mem_reverse.mp hmem
  exact ⟨hseg, hlin.start_pos segment hseg⟩

end Timeline

end RenCrow.ThreadStore
