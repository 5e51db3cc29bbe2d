import RenCrowCore.ThreadStore.ForkGrowth

/-!
# The history of a fork

Ancestors of a thread grow and are materialised.  What the thread lists stays the same as
long as no line updates what it reads of a row from before the cut.

* `grow`: a file grows, or its lines go to SQLite;
* `Undisturbed`: the lines of a materialisation keep what the thread reads;
* `listCalls_grow`: every list call returns the same before and after;
* `listTurns_grow_completed`: a turn that ends after the cut does change the summary.
-/

namespace RenCrow.ThreadStore

open Fallible SameView

/-! ## Changes of a line -/

/-- A change to the row of a turn or of an item. -/
inductive RowChange where
  | turn (turn : ThreadHistoryTurnMetadata)
  | item (change : ThreadHistoryItemChange)

/-- The changes of a line, in the order they are written. -/
def ThreadHistoryChangeSet.rowChanges (changes : ThreadHistoryChangeSet) : List RowChange :=
  changes.changedTurns.map .turn ++ changes.changedItems.map .item

/-- Writes one change. -/
def applyChange (threadId : String) (position : LinePosition) (fallbackCreatedAtMs : Option Int)
    (rows : RolloutRows) : RowChange → ThreadStoreResult RolloutRows
  | .turn turn => .ok (applyTurn position rows turn)
  | .item change => applyItem threadId position fallbackCreatedAtMs rows change

theorem foldlM_turns (threadId : String) (pos : LinePosition) (fallback : Option Int)
    (turns : List ThreadHistoryTurnMetadata) (rows : RolloutRows) :
    (turns.map RowChange.turn).foldlM (applyChange threadId pos fallback) rows =
      .ok (turns.foldl (applyTurn pos) rows) := by
  induction turns generalizing rows with
  | nil => rfl
  | cons turn turns ih => exact ih (applyTurn pos rows turn)

/-- A change set is its changes one by one. -/
theorem applyChangeSet_eq (threadId : String) (pos : LinePosition) (fallback : Option Int)
    (changes : ThreadHistoryChangeSet) (rows : RolloutRows) :
    applyChangeSet threadId pos fallback changes rows =
      changes.rowChanges.foldlM (applyChange threadId pos fallback) rows := by
  rw [ThreadHistoryChangeSet.rowChanges, List.foldlM_append, foldlM_turns]
  change _ = (changes.changedItems.map RowChange.item).foldlM _ _
  rw [List.foldlM_map]
  rfl

section Lines

variable (db : HistoryDb) (lineage : RolloutLineage) (place : CutPlace)

/-- A change does not touch what the fork shows. -/
def KeepsChange (position : LinePosition) : RowChange → Prop
  | .turn turn => KeepsTurn db lineage place position turn
  | .item change => KeepsItem db lineage place change

instance (position : LinePosition) :
    ∀ change, Decidable (KeepsChange db lineage place position change)
  | .turn turn => inferInstanceAs (Decidable (KeepsTurn db lineage place position turn))
  | .item change => inferInstanceAs (Decidable (KeepsItem db lineage place change))

/-- The line lies after the cut, and its changes keep what is read of the rows they find. -/
def KeepsLine (projection : ProjectedRolloutLine) (rows : RolloutRows) : Prop :=
  place.IsBefore projection.position.ordinal ∧
    Run.Every (fun rows change => (applyChange place.cut.rolloutId projection.position
        projection.fallbackCreatedAtMs rows change).toOption)
      (fun rows change => KeepsChange (withRows db place rows)
        lineage place projection.position change)
      rows projection.changes.rowChanges

instance (projection : ProjectedRolloutLine) (rows : RolloutRows) :
    Decidable (KeepsLine db lineage place projection rows) :=
  inferInstanceAs (Decidable (_ ∧ _))

/-- A step of the projection does not touch what the fork shows. -/
def KeepsStep (state : RolloutRows × Nat) : RolloutProjectionStep → Prop
  | .line projection => KeepsLine db lineage place projection state.1
  | .skippedOrdinalRange _ _ => True

instance (state : RolloutRows × Nat) : ∀ step, Decidable (KeepsStep db lineage place state step)
  | .line projection => inferInstanceAs (Decidable (KeepsLine db lineage place projection state.1))
  | .skippedOrdinalRange _ _ => inferInstanceAs (Decidable True)

/-- Every line of a batch keeps what is read of the rows it finds. -/
def KeepsSteps (nextOrdinal : Nat) (steps : List RolloutProjectionStep) : Prop :=
  Run.Every (fun state step => (applyStep place.cut.rolloutId state step).toOption)
    (KeepsStep db lineage place) (db place.cut.rolloutId, nextOrdinal) steps

instance (nextOrdinal : Nat) (steps : List RolloutProjectionStep) :
    Decidable (KeepsSteps db lineage place nextOrdinal steps) :=
  inferInstanceAs (Decidable (Run.Every ..))

end Lines

variable {lineage : RolloutLineage} {place : CutPlace} {rows : RolloutRows}

section Batches

variable {db : HistoryDb} {later : RolloutRows} (hlin : IsLineage lineage)
  (hplace : lineage = place.older ++ place.cut :: place.newer) (hnewer : place.newer ≠ [])
  {after : RolloutRows × Nat} {nextOrdinal : Nat}

include hlin hplace hnewer

theorem sameView_applyChange {pos : LinePosition} {fallback : Option Int}
    {change : RowChange} (hbefore : place.IsBefore pos.ordinal)
    (hkeeps : KeepsChange (withRows db place rows) lineage place pos change)
    (happly : applyChange place.cut.rolloutId pos fallback rows change = .ok later) :
    SameView lineage (withRows db place rows) (withRows db place later) := by
  have hrows : withRows db place rows place.cut.rolloutId = rows := withRows_cut
  cases change with
  | turn turn =>
    injection happly with hlater
    have hview := (rowsKept_applyTurn hbefore hkeeps).sameView hlin hplace hnewer
    rwa [withRows_withRows, hrows, hlater] at hview
  | item change =>
    have hkept := rowsKept_applyItem hbefore hkeeps (by rw [hrows]; exact happly)
    have hview := hkept.sameView hlin hplace hnewer
    rwa [withRows_withRows] at hview

theorem sameView_applyLine {proj : ProjectedRolloutLine}
    (hkeeps : KeepsLine db lineage place proj rows)
    (happly : applyLine place.cut.rolloutId proj rows nextOrdinal = .ok after) :
    SameView lineage (withRows db place rows) (withRows db place after.1) := by
  obtain ⟨hbefore, hkeeps⟩ := hkeeps
  obtain ⟨-, -, -, changed, hchanged, hfinal⟩ := applyLine_eq_ok happly
  rw [applyChangeSet_eq] at hchanged
  have hstep : ∀ current change next,
      SameView lineage (withRows db place rows) (withRows db place current) →
        KeepsChange (withRows db place current) lineage place proj.position change →
          applyChange place.cut.rolloutId proj.position proj.fallbackCreatedAtMs current
            change = .ok next →
            SameView lineage (withRows db place rows) (withRows db place next) :=
    fun _ _ _ hview hkept happly =>
      hview.trans (sameView_applyChange hlin hplace hnewer hbefore hkept happly)
  have hchgs := Run.foldlM_invariant_of_every hstep hchanged hkeeps (refl _ _)
  have hrealtime : RowsKept lineage (withRows db place changed) place
      (withRows (withRows db place changed) place after.1) id :=
    rowsKept_applyRealtime hbefore (by rw [withRows_cut]; exact hfinal)
  have hlast := hrealtime.sameView hlin hplace hnewer
  rw [withRows_withRows] at hlast
  exact hchgs.trans hlast

theorem sameView_applySteps {steps : List RolloutProjectionStep}
    (hkeeps : KeepsSteps db lineage place nextOrdinal steps)
    (happly : steps.foldlM (applyStep place.cut.rolloutId) (db place.cut.rolloutId, nextOrdinal) =
      .ok after) : SameView lineage db (withRows db place after.1) := by
  have hstart : withRows db place (db place.cut.rolloutId) = db := Function.update_eq_self ..
  have hstep : ∀ (state : RolloutRows × Nat) step next,
      SameView lineage db (withRows db place state.1) →
      KeepsStep db lineage place state step → applyStep place.cut.rolloutId state step = .ok next →
        SameView lineage db (withRows db place next.1) := by
    intro state step next hview hkept happly
    cases step with
    | line proj =>
      exact hview.trans (sameView_applyLine hlin hplace hnewer hkept happly)
    | skippedOrdinalRange start stop =>
      obtain ⟨nextOrdinal, -, happly⟩ := bind_eq_ok.mp happly
      cases happly
      exact hview
  have hfirst : SameView lineage db (withRows db place (db place.cut.rolloutId)) := by
    rw [hstart]
    exact refl _ _
  exact (Run.foldlM_invariant_of_every hstep happly hkeeps hfirst :)

end Batches

/-! ## Growing ancestors -/

/-- What happens to the source of a fork. -/
inductive GrowthAction where
  | append (rolloutId : String) (bytes : List UInt8)
  | materialize (rolloutId : String)

section Growth

variable (decode : List UInt8 → LineReading)

/-- Bytes come to the end of a file, or what a file has is brought to SQLite.  A
materialisation that fails leaves the rows alone. -/
def grow (store : LocalThreadStore) : GrowthAction → LocalThreadStore
  | .append rolloutId bytes => store.append rolloutId bytes
  | .materialize rolloutId =>
    match store.stateDb, store.file? rolloutId with
    | some _, some file =>
      match materializeToSqlite decode rolloutId file (store.history rolloutId) with
      | .ok rows => { store with history := Function.update store.history rolloutId rows }
      | .error _ => store
    | _, _ => store

/-- The lines that a materialisation of the ancestor projects keep what the thread reads. -/
def KeepsFile (lineage : RolloutLineage) (store : LocalThreadStore) (place : CutPlace)
    (file : RolloutFile) : Prop :=
  let checkpoint := ((store.history place.cut.rolloutId).projection).getD
    ⟨0, initialOrdinal file.header⟩
  ∀ result ∈ (readProjectionSteps decode file checkpoint.nextByteOffset
    checkpoint.nextOrdinal).toOption,
    KeepsSteps store.history lineage place checkpoint.nextOrdinal result.1

instance (lineage : RolloutLineage) (store : LocalThreadStore) (place : CutPlace)
    (file : RolloutFile) :
    Decidable (KeepsFile decode lineage store place file) :=
  inferInstanceAs (Decidable (∀ result ∈ _, KeepsSteps ..))

/-- Files may grow at will; a materialisation is one of an ancestor, and its lines lie after
the cut and keep what the thread reads. -/
def Undisturbed (lineage : RolloutLineage) (store : LocalThreadStore) : GrowthAction → Prop
  | .append _ _ => True
  | .materialize rolloutId =>
    ∃ place ∈ cutPlace rolloutId lineage, place.newer ≠ [] ∧
      ∀ file ∈ store.file? rolloutId, KeepsFile decode lineage store place file

instance (lineage : RolloutLineage) (store : LocalThreadStore) :
    ∀ action, Decidable (Undisturbed decode lineage store action)
  | .append _ _ => inferInstanceAs (Decidable True)
  | .materialize rolloutId =>
    inferInstanceAs (Decidable (∃ place ∈ cutPlace rolloutId lineage, place.newer ≠ [] ∧
      ∀ file ∈ store.file? rolloutId, KeepsFile decode lineage store place file))

end Growth

section Frame

variable {decode : List UInt8 → LineReading} {store : LocalThreadStore} {file : RolloutFile}
  {threadId : String}

section Place

variable (hlin : IsLineage lineage) (hplace : lineage = place.older ++ place.cut :: place.newer)
  (hnewer : place.newer ≠ [])

include hlin hplace hnewer

/-- The checkpoint is not part of the view. -/
theorem sameView_checkpoint (db : HistoryDb) (rows : RolloutRows) (cp : Option ProjectionState) :
    SameView lineage (withRows db place rows)
      (withRows db place { rows with projection := cp }) := by
  have hkept : RowsKept lineage (withRows db place rows) place
      (withRows (withRows db place rows) place { rows with projection := cp }) id := by
    refine rowsKept_of_realtime ?_ ?_ ?_
    · rw [withRows_cut]
    · rw [withRows_cut]
    · unfold RolloutLineageSegment.realtime
      rw [withRows_cut]
  rw [withRows_withRows] at hkept
  exact hkept.sameView hlin hplace hnewer

/-- What a materialisation leaves of the view. -/
theorem sameView_materialize (hkeeps : KeepsFile decode lineage store place file)
    (happly : materializeToSqlite decode place.cut.rolloutId file
      (store.history place.cut.rolloutId) =
      .ok rows) : SameView lineage store.history (withRows store.history place rows) := by
  have hself : withRows store.history place (store.history place.cut.rolloutId) = store.history :=
    Function.update_eq_self ..
  unfold materializeToSqlite at happly
  dsimp only at happly hkeeps
  obtain ⟨⟨steps, nextOffset⟩, hsteps, happly⟩ := bind_eq_ok.mp happly
  have hlines := hkeeps (steps, nextOffset) (toOption_eq_some.mpr hsteps)
  split at happly
  · cases happly
    rw [hself]
    exact refl _ _
  · unfold applyProjection at happly
    obtain ⟨first, hfirst, happly⟩ := bind_eq_ok.mp happly
    obtain ⟨rfl, -⟩ := sqliteInteger_eq_ok_iff.mp hfirst
    obtain ⟨start, -, happly⟩ := bind_eq_ok.mp happly
    split at happly
    · cases happly
    · obtain ⟨after, hafter, happly⟩ := bind_eq_ok.mp happly
      obtain ⟨offset, -, happly⟩ := bind_eq_ok.mp happly
      cases happly
      exact (sameView_applySteps hlin hplace hnewer hlines hafter).trans
        (sameView_checkpoint hlin hplace hnewer _ _ _)

end Place

/-- The lineage and the view of a thread after one action. -/
theorem sameView_grow (hres : resolveRolloutLineage store threadId = .ok lineage)
    {action : GrowthAction} (hundisturbed : Undisturbed decode lineage store action) :
    resolveRolloutLineage (grow decode store action) threadId = .ok lineage ∧
      (grow decode store action).stateDb = store.stateDb ∧
      SameView lineage store.history (grow decode store action).history := by
  have hlin := isLineage_of_resolve hres
  cases action with
  | append rolloutId bytes =>
    exact ⟨resolveRolloutLineage_extends (extends_append rolloutId bytes) hres, rfl, refl _ _⟩
  | materialize rolloutId =>
    obtain ⟨place, hmem, hnewer, hkeeps⟩ := hundisturbed
    obtain ⟨hplace, rfl⟩ := cutPlace_eq_some hmem
    dsimp only [grow]
    split
    · rename_i file _ hfile
      split
      · rename_i rows happly
        refine ⟨?_, rfl, sameView_materialize hlin hplace hnewer (hkeeps file hfile) happly⟩
        refine resolveRolloutLineage_extends (extends_of_files ?_ ?_) hres <;> rfl
      · exact ⟨hres, rfl, refl _ _⟩
    · exact ⟨hres, rfl, refl _ _⟩

theorem sameView_run {actions : List GrowthAction}
    (hres : resolveRolloutLineage store threadId = .ok lineage)
    (hundisturbed : Run.Every (fun store action => some (grow decode store action))
      (Undisturbed decode lineage) store actions) :
    resolveRolloutLineage (actions.foldl (grow decode) store) threadId = .ok lineage ∧
      (actions.foldl (grow decode) store).stateDb = store.stateDb ∧
      SameView lineage store.history (actions.foldl (grow decode) store).history := by
  induction actions generalizing store with
  | nil => exact ⟨hres, rfl, refl _ _⟩
  | cons action actions ih =>
    obtain ⟨hfirst, hrest⟩ := hundisturbed
    obtain ⟨hres', hstate, hview⟩ := sameView_grow hres hfirst
    obtain ⟨hres'', hstate', hview'⟩ := ih hres' (hrest _ rfl)
    exact ⟨hres'', hstate'.trans hstate, hview.trans hview'⟩

end Frame

theorem validateThread_congr {store later : LocalThreadStore} (h : later.stateDb = store.stateDb)
    (threadId : String) (includeArchived : Bool) (operation : String) :
    validateThreadForPaginatedReads later threadId includeArchived operation =
      validateThreadForPaginatedReads store threadId includeArchived operation := by
  unfold validateThreadForPaginatedReads
  rw [h]

/-- **A fork's history does not change when its ancestors grow undisturbed.**  Whatever bytes
come to the files and whenever ancestors are materialised, as long as every projected line
after the cut keeps what the thread reads of older rows, each list call of the thread returns
what it returned before. -/
theorem listCalls_grow (decode : List UInt8 → LineReading) (codec : CursorCodec HistoryCursor)
    (timelineCodec : CursorCodec TimelineCursor) (store : LocalThreadStore) (threadId : String)
    (lineage : RolloutLineage) (actions : List GrowthAction)
    (hresolve : resolveRolloutLineage store threadId = .ok lineage)
    (hundisturbed : Run.Every (fun store action => some (grow decode store action))
      (Undisturbed decode lineage) store actions) :
    (∀ params : ListTurnsParams, params.threadId = threadId →
        listTurns codec (actions.foldl (grow decode) store) params = listTurns codec store params) ∧
      (∀ params : ListItemsParams, params.threadId = threadId →
        listItems codec (actions.foldl (grow decode) store) params = listItems codec store params) ∧
      ∀ params : ListTimelineParams, params.threadId = threadId →
        listTimeline timelineCodec (actions.foldl (grow decode) store) params =
          listTimeline timelineCodec store params := by
  obtain ⟨hlater, hstate, hview⟩ := sameView_run hresolve hundisturbed
  have hlineage := isLineage_of_resolve hresolve
  refine ⟨?_, ?_, ?_⟩
  · rintro params rfl
    unfold listTurns
    rw [validateThread_congr hstate, hlater, hresolve]
    refine bind_congr fun _ => bind_congr fun _ => ?_
    exact (turnPage_congr hview codec params).symm
  · rintro params rfl
    unfold listItems
    rw [validateThread_congr hstate, hlater, hresolve]
    refine bind_congr fun _ => bind_congr fun _ => ?_
    change (pageItemRows codec _ lineage params >>= _) = (pageItemRows codec _ lineage params >>= _)
    rw [pageItemRows_congr hview codec params]
  · rintro params rfl
    unfold listTimeline
    rw [validateThread_congr hstate, hlater, hresolve]
    refine bind_congr fun _ => bind_congr fun _ => ?_
    exact (timelinePage_congr hview hlineage timelineCodec params).symm

/-! ## A turn that ends after the cut -/

/-- One byte stands for each line of the samples. -/
def sampleLine : List UInt8 → LineReading
  | 1 :: _ => .decoded ⟨some 1, none, .turnStarted "turn" (some 5)⟩
  | 2 :: _ => .decoded
      ⟨some 2, none, .itemCompleted "turn" ⟨"ask", .userMessage, "hello"⟩ (some 5) 6⟩
  | 3 :: _ => .decoded ⟨some 3, none,
      .itemCompleted "turn" ⟨"say", .agentMessage none, "hi"⟩ (some 7) 8⟩
  | 4 :: _ => .decoded ⟨some 4, none, .turnComplete "turn" none (some 5) (some 9) (some 4)⟩
  | 5 :: _ => .decoded ⟨some 5, none, .turnAborted (some "turn") none none none⟩
  | 7 :: _ => .decoded ⟨some 0, none, .other⟩
  | 8 :: _ => .decoded ⟨some 4, none, .other⟩
  | 20 :: _ => .decoded ⟨some 4, none, .turnStarted "turn" (some 5)⟩
  | 21 :: _ => .decoded ⟨some 5, none, .itemCompleted "turn" ⟨"note", .other, "later"⟩ (some 8) 9⟩
  | 22 :: _ => .decoded ⟨some 6, none, .turnStarted "next" (some 9)⟩
  | _ => .malformed

/-- A rollout that is cut while a turn is running, and a fork that has the turn as interrupted. -/
def sampleStore : LocalThreadStore :=
  [GrowthAction.materialize "source", .materialize "fork"].foldl (grow sampleLine)
    { stateDb := some fun _ => some ⟨false, .paginated⟩
      currentRollout := some
      files :=
        [("source", ⟨⟨"source", .paginated, none, none⟩, [7, 10, 1, 10, 2, 10, 3, 10]⟩),
          ("fork", ⟨⟨"fork", .paginated, some ⟨"source", 4, 8⟩, none⟩, [8, 10, 5, 10]⟩)]
      history := fun _ => {} }

/-- Listings without cursors. -/
def sampleCodec (Cursor : Type) : CursorCodec Cursor := ⟨fun _ => "", fun _ => none⟩

/-- The turns of the fork. -/
def sampleParams : ListTurnsParams := ⟨"fork", false, none, 10, .asc, .summary⟩

/-- The items of its turn. -/
def sampleItemParams : ListItemsParams :=
  ⟨"fork", some "turn", false, none, 10, .asc, .createdAtOrdinal, none⟩

/-- The summaries that the fork lists. -/
def sampleSummaries (store : LocalThreadStore) : Option (List (List String)) :=
  (listTurns (sampleCodec _) store sampleParams).toOption.map fun page =>
    page.turns.map fun turn => turn.items.map StoredThreadItem.itemId

/-- The lineage of the fork. -/
def sampleSegments : RolloutLineage :=
  [⟨"source", 1, some ⟨"source", 4, 8⟩⟩, ⟨"fork", 5, none⟩]

/-- After the cut the ancestor goes on with its running turn: it is started again, an item comes
to it, and another turn starts. -/
def sampleActions : List GrowthAction :=
  [.append "source" [20, 10, 21, 10, 22], .materialize "source", .append "source" [10],
    .materialize "source"]

/-- A turn of the ancestor that goes on after the cut without an end changes nothing for the
fork, which has the turn as interrupted. -/
theorem listCalls_grow_next :
    hasTurn sampleStore.history [⟨"source", 1, some ⟨"source", 4, 8⟩⟩] "turn" = true ∧
      listTurns (sampleCodec _) (sampleActions.foldl (grow sampleLine) sampleStore) sampleParams =
        listTurns (sampleCodec _) sampleStore sampleParams ∧
      listItems (sampleCodec _) (sampleActions.foldl (grow sampleLine) sampleStore)
          sampleItemParams = listItems (sampleCodec _) sampleStore sampleItemParams := by
  have hresolve : resolveRolloutLineage sampleStore "fork" = .ok sampleSegments := by
    decide +kernel
  have hundisturbed : Run.Every (fun store action => some (grow sampleLine store action))
      (Undisturbed sampleLine sampleSegments) sampleStore sampleActions := by
    decide +kernel
  obtain ⟨hturns, hitems, -⟩ := listCalls_grow sampleLine (sampleCodec _) (sampleCodec _)
    sampleStore "fork" sampleSegments sampleActions hresolve hundisturbed
  exact ⟨by decide +kernel, hturns sampleParams rfl, hitems sampleItemParams rfl⟩

/-- The end of the ancestor's turn is appended after the cut, and then the fork lists one more
item: the message without a phase from before the cut has become the turn's answer. -/
theorem listTurns_grow_completed :
    resolveRolloutLineage sampleStore "fork" = .ok sampleSegments ∧
      sampleSummaries sampleStore = some [["ask"]] ∧
      sampleSummaries ([GrowthAction.append "source" [4, 10], .materialize "source"].foldl
        (grow sampleLine) sampleStore) = some [["ask", "say"]] := by
  decide +kernel

end RenCrow.ThreadStore
