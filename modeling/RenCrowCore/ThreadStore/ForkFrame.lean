import Mathlib.Data.List.Find
import RenCrowCore.ThreadStore.ForkView

/-!
# A fork while its ancestors grow

Later lines of an ancestor add rows after the cut, which a fork does not read, but they also
update rows from before the cut in place.

* `CutPlace`: an ancestor in a lineage, with the older and newer segments;
* `RowsKept`: the rows of an ancestor changed, but for what the fork reads of them;
* `RowsKept.sameView`: after such a change the fork sees the same.
-/

namespace RenCrow.ThreadStore

open RolloutLineageSegment List

/-! ## The place of an ancestor -/

/-- A segment that is cut, between those before and after it. -/
structure CutPlace where
  older : List RolloutLineageSegment
  cut : RolloutLineageSegment
  newer : List RolloutLineageSegment

/-- The segment of a rollout in a lineage. -/
def cutPlace (rolloutId : String) : RolloutLineage → Option CutPlace
  | [] => none
  | segment :: rest =>
    if segment.rolloutId = rolloutId then some ⟨[], segment, rest⟩
    else (cutPlace rolloutId rest).map fun place => { place with older := segment :: place.older }

theorem cutPlace_eq_some {rolloutId : String} {lineage : RolloutLineage} {place : CutPlace}
    (h : cutPlace rolloutId lineage = some place) :
    lineage = place.older ++ place.cut :: place.newer ∧ place.cut.rolloutId = rolloutId := by
  induction lineage generalizing place with
  | nil => cases h
  | cons segment rest ih =>
    unfold cutPlace at h
    split at h
    · rename_i hid
      cases h
      exact ⟨rfl, hid⟩
    · obtain ⟨inner, hinner, rfl⟩ := Option.map_eq_some_iff.mp h
      obtain ⟨hsplit, hid⟩ := ih hinner
      exact ⟨congrArg (segment :: ·) hsplit, hid⟩

variable {segment : RolloutLineageSegment}

/-- A rollout has one place in a lineage. -/
theorem split_unique {lineage older newer older' newer' : List RolloutLineageSegment}
    {seg' : RolloutLineageSegment} (hdist : (lineage.map rolloutId).Nodup)
    (h : lineage = older ++ segment :: newer) (h' : lineage = older' ++ seg' :: newer')
    (hid : segment.rolloutId = seg'.rolloutId) :
    older = older' ∧ segment = seg' ∧ newer = newer' := by
  induction older generalizing lineage older' with
  | nil =>
    subst h
    cases older' with
    | nil =>
      injection h' with hseg hnewer
      exact ⟨rfl, hseg, hnewer⟩
    | cons first older' =>
      injection h' with hfirst hnewer
      have hmem : seg'.rolloutId ∈ newer.map rolloutId := by
        rw [hnewer]
        simp
      exact absurd (hid ▸ hmem) (nodup_cons.mp hdist).1
  | cons first older ih =>
    subst h
    cases older' with
    | nil =>
      injection h' with hfirst hnewer
      have hmem : segment.rolloutId ∈ (older ++ segment :: newer).map rolloutId := by simp
      rw [hid, ← hfirst] at hmem
      exact absurd hmem (nodup_cons.mp hdist).1
    | cons first' older' =>
      injection h' with hfirst hrest
      obtain ⟨holder, hseg, hnewer⟩ := ih (nodup_cons.mp hdist).2 rfl hrest
      exact ⟨by rw [hfirst, holder], hseg, hnewer⟩

/-! ## What a fork reads of a turn -/

/-- A row at the boundary of a fork, whose summary is read from an older segment. -/
def TurnRow.isSynthetic (row : TurnRow) : Bool :=
  decide (row.status = .interrupted) && row.firstUserItemId.isNone && row.finalAgentItemId.isNone

/-- The lineage shows the turn by a row without a summary of its own. -/
def showsSynthetic (db : HistoryDb) (turnId : String) : RolloutLineage → Bool
  | [] => false
  | segment :: newer =>
    ((shownTurns db segment newer).any fun row => decide (row.turnId = turnId) &&
      row.isSynthetic) ||
      showsSynthetic db turnId newer

namespace CutPlace

variable (db : HistoryDb) (lineage : RolloutLineage) (place : CutPlace)

/-- The summary of a turn is read from the rows of this segment. -/
def readsSummary (turnId : String) : Bool :=
  !hasTurn db place.newer turnId ||
    showsSynthetic db turnId lineage && !hasTurn db place.older turnId

/-- The item of a summary, if it lies in the segment. -/
def seenItemId (turnId : String) (itemId : Option String) : Option String :=
  itemId.filter fun id => (place.cut.items db).any fun row => row.isFor turnId id

end CutPlace

/-- The answer that a turn is given when its summary is filled in. -/
def settledAnswer (items : List ItemRow) (turn : ThreadHistoryTurnMetadata) : Option String :=
  (lastAgentItem items turn.turnId (some .finalAnswer)).or
    (if turn.status.isTerminal then lastAgentItem items turn.turnId none else none)

/-! ## Rows that keep what is read -/

/-- New rows of an ancestor show the fork what the old ones did; `upd` is what became of the
turns. -/
structure RowsKept (lineage : RolloutLineage) (db : HistoryDb) (place : CutPlace) (db' : HistoryDb)
    (upd : TurnRow → TurnRow) : Prop where
  others : ∀ id, id ≠ place.cut.rolloutId → db' id = db id
  turns : place.cut.turns db' = (place.cut.turns db).map upd
  items : place.cut.items db' = place.cut.items db
  realtime : place.cut.realtime db' = place.cut.realtime db
  ends : place.cut.ends db' = place.cut.ends db
  turnId : ∀ row ∈ place.cut.turns db, (upd row).turnId = row.turnId
  ordinal : ∀ row ∈ place.cut.turns db, (upd row).rolloutOrdinal = row.rolloutOrdinal
  startedAt : ∀ row ∈ place.cut.turns db, (upd row).startedAt = row.startedAt
  shown : ∀ row ∈ place.cut.turns db, hasTurn db place.newer row.turnId = false →
    (upd row).status = row.status ∧ (upd row).error = row.error ∧
      (upd row).completedAt = row.completedAt ∧ (upd row).durationMs = row.durationMs
  interrupted : ∀ row ∈ place.cut.turns db, row.status = .interrupted → upd row = row
  summary : ∀ row ∈ place.cut.turns db, place.readsSummary db lineage row.turnId = true →
    place.seenItemId db row.turnId (upd row).firstUserItemId =
        place.seenItemId db row.turnId row.firstUserItemId ∧
      place.seenItemId db row.turnId (upd row).finalAgentItemId =
        place.seenItemId db row.turnId row.finalAgentItemId

open CutPlace

/-- The items of a summary are those that lie in the segment. -/
theorem summaryItem_eq (db : HistoryDb) (place : CutPlace) (turnId : String)
    (itemId : Option String) :
    summaryItem db place.cut turnId itemId =
      summaryItem db place.cut turnId (place.seenItemId db turnId itemId) := by
  cases itemId with
  | none => rfl
  | some id =>
    unfold seenItemId
    rw [Option.filter_some]
    split
    · rfl
    · rename_i hunseen
      unfold summaryItem
      rw [find?_eq_none.mpr, find?_eq_none.mpr]
      · simp
      · intro row hmem hrow
        refine hunseen (any_eq_true.mpr ⟨row, hmem, ?_⟩)
        simpa [ItemRow.isFor] using hrow

theorem isSummaryItem_eq (db : HistoryDb) (place : CutPlace) {row : ItemRow}
    (hmem : row ∈ place.cut.items db) (itemId : Option String) :
    decide (some row.itemId = itemId) =
      decide (some row.itemId = place.seenItemId db row.turnId itemId) := by
  cases itemId with
  | none => rfl
  | some id =>
    unfold seenItemId
    rw [Option.filter_some]
    split
    · rfl
    · rename_i hunseen
      rw [decide_eq_decide]
      refine ⟨?_, fun h => nomatch h⟩
      intro h
      cases h
      refine absurd (any_eq_true.mpr ⟨row, hmem, ?_⟩) hunseen
      simp [ItemRow.isFor]

variable {lineage : RolloutLineage} {db db' : HistoryDb} {place : CutPlace}
  {upd : TurnRow → TurnRow} {older newer : List RolloutLineageSegment}

section Kept

variable {segs : List RolloutLineageSegment}

/-- What became of the turns of any segment. -/
def CutPlace.updated (place : CutPlace) (upd : TurnRow → TurnRow)
    (segment : RolloutLineageSegment) :
    TurnRow → TurnRow :=
  if segment.rolloutId = place.cut.rolloutId then upd else id

theorem RowsKept.rows_eq (h : RowsKept lineage db place db' upd)
    (hid : segment.rolloutId ≠ place.cut.rolloutId) :
    db' segment.rolloutId = db segment.rolloutId :=
  h.others segment.rolloutId hid

/-- Only the segment itself has the rollout of the cut. -/
theorem eq_cut (hlin : IsLineage lineage)
    (hplace : lineage = place.older ++ place.cut :: place.newer)
    (hmem : segment ∈ lineage) (hid : segment.rolloutId = place.cut.rolloutId) :
    segment = place.cut := by
  obtain ⟨older, newer, hsplit⟩ := append_of_mem hmem
  exact (split_unique hlin.distinct hsplit hplace hid).2.1

variable (hlin : IsLineage lineage) (hplace : lineage = place.older ++ place.cut :: place.newer)

include hlin hplace

variable (h : RowsKept lineage db place db' upd)
include h

theorem RowsKept.turns_eq (hmem : segment ∈ lineage) :
    segment.turns db' = (segment.turns db).map (place.updated upd segment) := by
  unfold updated
  by_cases hid : segment.rolloutId = place.cut.rolloutId
  · rw [if_pos hid, eq_cut hlin hplace hmem hid]
    exact h.turns
  · rw [if_neg hid, map_id, RolloutLineageSegment.turns, h.rows_eq hid]
    rfl

theorem RowsKept.updated_turnId (hmem : segment ∈ lineage) {row : TurnRow}
    (hrow : row ∈ segment.turns db) : (place.updated upd segment row).turnId = row.turnId := by
  unfold updated
  by_cases hid : segment.rolloutId = place.cut.rolloutId
  · rw [if_pos hid]
    rw [eq_cut hlin hplace hmem hid] at hrow
    exact h.turnId row hrow
  · rw [if_neg hid]
    rfl

theorem RowsKept.items_eq (hmem : segment ∈ lineage) : segment.items db' = segment.items db := by
  by_cases hid : segment.rolloutId = place.cut.rolloutId
  · rw [eq_cut hlin hplace hmem hid]
    exact h.items
  · rw [RolloutLineageSegment.items, h.rows_eq hid]
    rfl

theorem RowsKept.any_turn (hmem : segment ∈ lineage) (turnId : String) :
    ((segment.turns db').any fun row => row.turnId = turnId) =
      (segment.turns db).any fun row => row.turnId = turnId := by
  rw [h.turns_eq hlin hplace hmem, any_map]
  rw [Bool.eq_iff_iff, any_eq_true, any_eq_true]
  refine exists_congr fun row => and_congr_right fun hrow => ?_
  simp only [Function.comp, h.updated_turnId hlin hplace hmem hrow]

theorem RowsKept.hasTurn_eq (hsub : ∀ segment ∈ segs, segment ∈ lineage) (turnId : String) :
    hasTurn db' segs turnId = hasTurn db segs turnId := by
  induction segs with
  | nil => rfl
  | cons segment rest ih =>
    have hrest := ih fun later hlater => hsub later (mem_cons_of_mem _ hlater)
    unfold hasTurn at hrest ⊢
    rw [any_cons, any_cons, hrest, h.any_turn hlin hplace (hsub segment mem_cons_self)]

theorem RowsKept.shownTurns_eq (hsplit : lineage = older ++ segment :: newer) :
    shownTurns db' segment newer =
      (shownTurns db segment newer).map (place.updated upd segment) := by
  have hmem : segment ∈ lineage := by simp [hsplit]
  have hsub : ∀ later ∈ newer, later ∈ lineage := by
    intro later hlater
    simp [hsplit, hlater]
  unfold shownTurns
  rw [h.turns_eq hlin hplace hmem, filter_map]
  congr 1
  refine filter_congr fun row hrow => ?_
  simp only [Function.comp, h.updated_turnId hlin hplace hmem hrow, h.hasTurn_eq hlin hplace hsub]

/-- The source of a turn is the same row as before, as it has become. -/
theorem RowsKept.findTurn_eq (turnId : String) (hsub : ∀ segment ∈ segs, segment ∈ lineage) :
    findTurn db' turnId segs = (findTurn db turnId segs).map fun source =>
      (source.1, if source.1 = place.cut.rolloutId then upd source.2 else source.2) := by
  induction segs with
  | nil => rfl
  | cons segment rest ih =>
    have hmem := hsub segment mem_cons_self
    have hrest := ih fun later hlater => hsub later (mem_cons_of_mem _ hlater)
    have hfind : ((segment.turns db').find? fun row => row.turnId = turnId) =
        ((segment.turns db).find? fun row => row.turnId = turnId).map
          (place.updated upd segment) := by
      rw [h.turns_eq hlin hplace hmem, find?_map]
      congr 1
      refine find?_congr fun row hrow => ?_
      simp only [Function.comp, h.updated_turnId hlin hplace hmem hrow]
    unfold findTurn
    rw [hfind]
    cases sqliteInteger (segment.endOrdinal.getD 0) "rollout ordinal" with
    | error e => rfl
    | ok _ =>
      cases sqliteInteger segment.startOrdinal "rollout ordinal" with
      | error e => rfl
      | ok _ =>
        cases (segment.turns db).find? fun row => row.turnId = turnId with
        | none => exact hrest
        | some row =>
          refine congrArg (fun row => Except.ok (segment.rolloutId, row)) ?_
          unfold updated
          split <;> rfl

end Kept

theorem findTurn_eq_ok {db : HistoryDb} {turnId : String} {segs : List RolloutLineageSegment}
    {source : String × TurnRow} (h : findTurn db turnId segs = .ok source) :
    ∃ older segment newer, segs = older ++ segment :: newer ∧ segment.rolloutId = source.1 ∧
      source.2 ∈ segment.turns db ∧ source.2.turnId = turnId ∧ hasTurn db older turnId = false := by
  induction segs with
  | nil => cases h
  | cons segment rest ih =>
    obtain ⟨_, -, h⟩ := Fallible.bind_eq_ok.mp h
    obtain ⟨_, -, h⟩ := Fallible.bind_eq_ok.mp h
    cases hfind : (segment.turns db).find? fun row => row.turnId = turnId with
    | some row =>
      rw [hfind] at h
      cases h
      exact ⟨[], segment, rest, rfl, rfl, mem_of_find?_eq_some hfind,
        by simpa using find?_some hfind, rfl⟩
    | none =>
      rw [hfind] at h
      obtain ⟨older, found, newer, hsplit, hid, hmem, hturn, hfirst⟩ := ih h
      refine ⟨segment :: older, found, newer, by rw [hsplit]; rfl, hid, hmem, hturn, ?_⟩
      unfold hasTurn at hfirst ⊢
      rw [any_cons, hfirst, Bool.or_false, any_eq_false]
      exact find?_eq_none.mp hfind

theorem showsSynthetic_of_mem {db : HistoryDb} {lineage older newer : List RolloutLineageSegment}
    {row : TurnRow} (hsplit : lineage = older ++ segment :: newer)
    (hmem : row ∈ shownTurns db segment newer) (hsyn : row.isSynthetic = true) :
    showsSynthetic db row.turnId lineage = true := by
  induction older generalizing lineage with
  | nil =>
    subst hsplit
    refine Bool.or_eq_true_iff.mpr (Or.inl (any_eq_true.mpr ⟨row, hmem, ?_⟩))
    simp [hsyn]
  | cons first older ih =>
    subst hsplit
    exact Bool.or_eq_true_iff.mpr (Or.inr (ih rfl))

section Kept

variable (hlin : IsLineage lineage) (hplace : lineage = place.older ++ place.cut :: place.newer)
  {row row' : TurnRow}

include hlin hplace

/-- The summary that a row at the boundary inherits is the same. -/
theorem RowsKept.loadInherited_eq (h : RowsKept lineage db place db' upd) {turnId : String}
    (hsyn : showsSynthetic db turnId lineage = true) :
    loadInheritedSummaryItems db' lineage turnId = loadInheritedSummaryItems db lineage turnId := by
  unfold loadInheritedSummaryItems findSourceTurn
  rw [h.findTurn_eq hlin hplace turnId fun _ hmem => hmem]
  cases hsrc : findTurn db turnId lineage with
  | error e => rfl
  | ok source =>
    dsimp only [bind, Except.bind, Except.map]
    cases hfound : lineage.find? fun segment => segment.rolloutId = source.1 with
    | none => rfl
    | some found =>
      dsimp only
      have hmem := mem_of_find?_eq_some hfound
      have hid : found.rolloutId = source.1 := by simpa using find?_some hfound
      rw [h.items_eq hlin hplace hmem]
      by_cases hcut : source.1 = place.cut.rolloutId
      · rw [if_pos hcut]
        obtain ⟨older, segment, newer, hsplit, hseg, hrow, hturn, hfirst⟩ := findTurn_eq_ok hsrc
        obtain ⟨rfl, rfl, rfl⟩ := split_unique hlin.distinct hsplit hplace (hseg.trans hcut)
        obtain rfl := eq_cut hlin hplace hmem (hid.trans hcut)
        have hreads : place.readsSummary db lineage source.2.turnId = true := by
          unfold readsSummary
          rw [hturn, hsyn, hfirst]
          simp
        obtain ⟨hfirstId, hfinalId⟩ := h.summary source.2 hrow hreads
        rw [hturn] at hfirstId hfinalId
        congr 3
        refine filter_congr fun row hitem => ?_
        by_cases hrowTurn : row.turnId = turnId
        · rw [isSummaryItem_eq db place hitem (upd source.2).firstUserItemId,
            isSummaryItem_eq db place hitem (upd source.2).finalAgentItemId,
            isSummaryItem_eq db place hitem source.2.firstUserItemId,
            isSummaryItem_eq db place hitem source.2.finalAgentItemId, hrowTurn, hfirstId, hfinalId]
        · simp [hrowTurn]
      · rw [if_neg hcut]

omit hlin hplace in
theorem summaryItems_congr (hitems : segment.items db' = segment.items db)
    (hturn : row'.turnId = row.turnId)
    (hfirst : summaryItem db segment row.turnId row'.firstUserItemId =
      summaryItem db segment row.turnId row.firstUserItemId)
    (hfinal : summaryItem db segment row.turnId row'.finalAgentItemId =
      summaryItem db segment row.turnId row.finalAgentItemId) :
    summaryItems db' segment row' = summaryItems db segment row := by
  have hsame : ∀ itemId, summaryItem db' segment row.turnId itemId =
      summaryItem db segment row.turnId itemId := by
    intro itemId
    rw [summaryItem, hitems]
    rfl
  unfold summaryItems
  rw [hturn, hsame, hsame, hfirst, hfinal]

omit hlin hplace in
/-- The result for a row depends on its columns and on what it may inherit. -/
theorem storedTurn_congr (hturn : row'.turnId = row.turnId) (hstat : row'.status = row.status)
    (herror : row'.error = row.error) (hstarted : row'.startedAt = row.startedAt)
    (hcomp : row'.completedAt = row.completedAt) (hdur : row'.durationMs = row.durationMs)
    (hsum : summaryItems db' segment row' = summaryItems db segment row)
    (hsyn : row'.isSynthetic = row.isSynthetic)
    (hinh : row.isSynthetic = true → loadInheritedSummaryItems db' lineage row.turnId =
      loadInheritedSummaryItems db lineage row.turnId) (itemsView : StoredTurnItemsView) :
    storedTurn db' lineage itemsView (storedTurnRow db' itemsView segment row') =
      storedTurn db lineage itemsView (storedTurnRow db itemsView segment row) := by
  have hitems : storedTurnItems db' lineage (storedTurnRow db' itemsView segment row') itemsView =
      storedTurnItems db lineage (storedTurnRow db itemsView segment row) itemsView := by
    cases itemsView with
    | notLoaded => rfl
    | summary =>
      change (if row'.isSynthetic = true then loadInheritedSummaryItems db' lineage row'.turnId
        else .ok (summaryItems db' segment row')) =
        (if row.isSynthetic = true then loadInheritedSummaryItems db lineage row.turnId
        else .ok (summaryItems db segment row))
      rw [hsyn, hturn, hsum]
      split
      · rename_i hrow
        exact hinh hrow
      · rfl
  unfold storedTurn
  rw [hitems]
  dsimp only [storedTurnRow]
  rw [hturn, hstat, herror, hstarted, hcomp, hdur]

variable (h : RowsKept lineage db place db' upd)
include h

/-- A turn that the fork shows is shown as before. -/
theorem RowsKept.seenTurn_eq
    (hsplit : lineage = older ++ segment :: newer) (hrow : row ∈ shownTurns db segment newer)
    (itemsView : StoredTurnItemsView) :
    seenTurn db' lineage itemsView segment (place.updated upd segment row) =
      seenTurn db lineage itemsView segment row := by
  have hmem : segment ∈ lineage := by simp [hsplit]
  have hitems := h.items_eq hlin hplace hmem
  have hinh : row.isSynthetic = true →
      loadInheritedSummaryItems db' lineage row.turnId =
        loadInheritedSummaryItems db lineage row.turnId :=
    fun hsyn => h.loadInherited_eq hlin hplace (showsSynthetic_of_mem hsplit hrow hsyn)
  obtain ⟨hturns, hshown⟩ := mem_filter.mp hrow
  unfold updated
  by_cases hid : segment.rolloutId = place.cut.rolloutId
  · obtain ⟨rfl, rfl, rfl⟩ := split_unique hlin.distinct hsplit hplace hid
    rw [if_pos rfl]
    have hnewer : hasTurn db place.newer row.turnId = false := by simpa using hshown
    have hreads : place.readsSummary db lineage row.turnId = true := by
      unfold readsSummary
      rw [hnewer]
      rfl
    obtain ⟨hstat, herror, hcomp, hdur⟩ := h.shown row hturns hnewer
    obtain ⟨hfirst, hfinal⟩ := h.summary row hturns hreads
    refine Prod.ext (h.ordinal row hturns) (storedTurn_congr (h.turnId row hturns) hstat herror
      (h.startedAt row hturns) hcomp hdur ?_ ?_ hinh itemsView)
    · refine summaryItems_congr hitems (h.turnId row hturns) ?_ ?_
      · rw [summaryItem_eq db place row.turnId (upd row).firstUserItemId, hfirst, ← summaryItem_eq]
      · rw [summaryItem_eq db place row.turnId (upd row).finalAgentItemId, hfinal, ← summaryItem_eq]
    · by_cases hintr : row.status = .interrupted
      · rw [h.interrupted row hturns hintr]
      · simp [TurnRow.isSynthetic, hstat, hintr]
  · rw [if_neg hid]
    exact Prod.ext rfl
      (storedTurn_congr rfl rfl rfl rfl rfl rfl (summaryItems_congr hitems rfl rfl rfl) rfl
      hinh itemsView)

/-- The starts of turns are the same. -/
theorem RowsKept.starts_eq (hmem : segment ∈ lineage) : segment.starts db' = segment.starts db := by
  by_cases hid : segment.rolloutId = place.cut.rolloutId
  · obtain rfl := eq_cut hlin hplace hmem hid
    unfold starts
    rw [h.turns, map_map]
    refine map_congr_left fun row hrow => ?_
    dsimp only [Function.comp]
    rw [h.turnId row hrow, h.ordinal row hrow, h.startedAt row hrow]
  · unfold RolloutLineageSegment.starts RolloutLineageSegment.turns
    rw [h.rows_eq hid]

theorem RowsKept.realtime_eq (hmem : segment ∈ lineage) :
    segment.realtime db' = segment.realtime db := by
  by_cases hid : segment.rolloutId = place.cut.rolloutId
  · rw [eq_cut hlin hplace hmem hid]
    exact h.realtime
  · unfold RolloutLineageSegment.realtime
    rw [h.rows_eq hid]

theorem RowsKept.ends_eq (hmem : segment ∈ lineage) : segment.ends db' = segment.ends db := by
  by_cases hid : segment.rolloutId = place.cut.rolloutId
  · rw [eq_cut hlin hplace hmem hid]
    exact h.ends
  · unfold RolloutLineageSegment.ends
    rw [h.rows_eq hid]

/-- **Rows that keep what is read keep the view.** -/
theorem RowsKept.sameView (hnewer : place.newer ≠ []) : SameView lineage db db' where
  turns older segment newer hsplit itemsView := by
    rw [h.shownTurns_eq hlin hplace hsplit, map_map]
    exact map_congr_left fun row hrow =>
      (h.seenTurn_eq hlin hplace hsplit hrow itemsView).symm
  items segment hmem := (h.items_eq hlin hplace hmem).symm
  realtime segment hmem := (h.realtime_eq hlin hplace hmem).symm
  starts segment hmem := (h.starts_eq hlin hplace hmem).symm
  ends segment hmem := (h.ends_eq hlin hplace hmem).symm
  unforked segment hone := by
    -- a lineage of one segment has no ancestor that could grow
    rw [hone] at hplace
    have hlen := congrArg List.length hplace
    have : 0 < place.newer.length := length_pos_iff.mpr hnewer
    simp only [length_append, length_cons, length_nil] at hlen
    omega

end Kept

end RenCrow.ThreadStore
