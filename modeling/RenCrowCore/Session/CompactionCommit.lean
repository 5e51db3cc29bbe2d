import RenCrowCore.History.CompactionTransaction

/-!
# Writing a compaction checkpoint

The rows that `Session::commit_rencrow_checkpoint`
(`core/src/session/rencrow_compaction.rs`) appends for a validated candidate:
identifiers are assigned, the number of companions is stamped into the
provenance of the summary, and the rows are closed by a marker with their hash.
What the function reads from the session is one record, `CommitContext`.

* `prepareCommit_batch`: the writer's rows form a `TransactionBatch`, so the
  writer's count of companions is the reader's;
* `committedItems_append_commit`: the reader keeps the batch whole in any
  surroundings, and the persistence policy drops none of its rows.
-/

namespace RenCrow

open Serde Fallible List

/-- The errors of the session layer that the modelled code raises. -/
inductive CodexErr where
  | fatal (message : String)
  | invalidRequest (message : String)
  | turnAborted
  /-- The Rust code panics. -/
  | panicked
deriving DecidableEq, Repr

/-! ## Identifiers -/

/-- `Session::assign_missing_response_item_id`; `uuid` is the fresh UUID. -/
def assignMissingResponseItemId (uuid : String) (item : ResponseItem) : ResponseItem :=
  if item.id.any (· ≠ "") then item
  else
    match item.idPrefix with
    | none => item
    | some idPrefix => item.setId (some (idPrefix ++ "_" ++ uuid))

/-- The identifiers of a history; `uuids` are the UUIDs generated, by position. -/
def assignMissingIds (uuids : Nat → String) (items : List ResponseItemEnvelope) :
    List ResponseItemEnvelope :=
  items.mapIdx fun index envelope =>
    { envelope with item := assignMissingResponseItemId (uuids index) envelope.item }

/-! ## The batch -/

/-- A validated candidate. -/
structure RenCrowCheckpoint where
  items : List ResponseItemEnvelope
  referenceContext : Option TurnContextItem
  /-- The snapshot of the candidate's world state, as a JSON object. -/
  worldState : Option Json.Fields
  summary : String
  responseId : Option String

/-- What the session supplies under its lock. -/
structure CommitContext where
  /-- Fresh UUIDs, by position in the history. -/
  uuids : Nat → String
  /-- The forced attribution checkpoint, when there is one. -/
  mcpAttribution : Option Json
  retainedContext : RetainedContext
  guardianHistory : Option GuardianHistoryCheckpoint
  mcpResourceOrigins : Option McpResourceOriginCheckpoint
  /-- The number of the current window. -/
  windowNumber : UInt64
  firstWindowId : String
  windowId : String
  newWindowId : String
  latestTokenUsageRecord : Option TokenUsageRecord
  threadId : String
  currentSettings : Json

/-- `u64::saturating_add(1)`. -/
def saturatingSucc (n : UInt64) : UInt64 := if n = UInt64.ofNat (2 ^ 64 - 1) then n else n + 1

/-- The attribution checkpoint goes into the metadata of the last item. -/
def attachMcpAttribution (attribution : Option Json) (items : List ResponseItemEnvelope) :
    List ResponseItemEnvelope :=
  match attribution, items.getLast? with
  | some attribution, some envelope =>
    let metadata := { envelope.metadata.getD .default with mcpAttribution := some attribution }
    items.dropLast ++ [{ envelope with metadata := some metadata }]
  | _, _ => items

/-- The number of companions goes into the provenance of the last item. -/
def stampFollowingItems (following : Nat) (items : List ResponseItemEnvelope) :
    Except CodexErr (List ResponseItemEnvelope) :=
  match items.getLast? with
  | none => .error (.invalidRequest "missing validated compaction metadata")
  | some envelope =>
    match envelope.metadata with
    | none => .error (.invalidRequest "missing validated compaction metadata")
    | some metadata =>
      match metadata.rencrowCompaction with
      | none => .error (.invalidRequest "missing validated compaction metadata")
      | some value =>
        match Json.indexAssign transactionFollowingItemsKey (Json.ofNat following) value with
        | none => .error .panicked
        | some value' =>
          let metadata := { metadata with rencrowCompaction := some value' }
          .ok (items.dropLast ++ [{ envelope with metadata := some metadata }])

/-- The history a commit installs, and the rows it appends. -/
structure PreparedCommit where
  items : List ResponseItemEnvelope
  batch : List RolloutItem

/-- The checkpoint row of a candidate with its final items. -/
def checkpointOf (candidate : RenCrowCheckpoint) (ctx : CommitContext)
    (items : List ResponseItemEnvelope) : CompactedItem where
  message := candidate.summary
  replacementHistory := some items
  guardianHistory := ctx.guardianHistory
  retainedContext := some ctx.retainedContext
  mcpResourceOrigins := ctx.mcpResourceOrigins
  windowNumber := some (saturatingSucc ctx.windowNumber)
  firstWindowId := some ctx.firstWindowId
  previousWindowId := some ctx.windowId
  windowId := some ctx.newWindowId
  compactionResponseId := candidate.responseId
  latestTokenUsageRecord := ctx.latestTokenUsageRecord

section Commit

variable [PayloadCodec] {items : List ResponseItemEnvelope} {ctx : CommitContext}
  {summary : ResponseItemEnvelope} {candidate : RenCrowCheckpoint} {prepared : PreparedCommit}
  {following : Nat} {items' : List ResponseItemEnvelope}

/-- The batch `commit_rencrow_checkpoint` builds before it appends. -/
def prepareCommit (candidate : RenCrowCheckpoint) (ctx : CommitContext) :
    Except CodexErr PreparedCommit := do
  let items := attachMcpAttribution ctx.mcpAttribution (assignMissingIds ctx.uuids candidate.items)
  let following := 1 + candidate.worldState.isSome.toNat + candidate.referenceContext.isSome.toNat
  let items ← stampFollowingItems following items
  let batch := [RolloutItem.compacted (checkpointOf candidate ctx items)] ++
    candidate.worldState.toList.map (fun state => .worldState ⟨true, state⟩) ++
    candidate.referenceContext.toList.map .turnContext ++
    [.eventMsg (.threadSettingsApplied ⟨some ctx.threadId, ctx.currentSettings⟩)]
  return ⟨items, batch ++ [.renCrowCompactionCommit (transactionHash batch)]⟩

omit [PayloadCodec] in
/-- The stamp changes the provenance of the last item. -/
theorem stampFollowingItems_eq_ok (h : stampFollowingItems following items = .ok items') :
    ∃ envelope metadata value value', items.getLast? = some envelope ∧
      envelope.metadata = some metadata ∧
      Json.indexAssign transactionFollowingItemsKey (Json.ofNat following) value = some value' ∧
      items' = items.dropLast ++
        [⟨envelope.item, some { metadata with rencrowCompaction := some value' }⟩] := by
  unfold stampFollowingItems at h
  split at h
  · cases h
  split at h
  · cases h
  split at h
  · cases h
  split at h
  · cases h
  rename_i envelope hlast _ metadata hmeta _ value _ _ value' hassign
  cases h
  exact ⟨envelope, metadata, value, value', hlast, hmeta, hassign, rfl⟩

omit [PayloadCodec] in
/-- The stamp makes the checkpoint a prepared one, with the count that was stamped. -/
theorem transactionFollowingItems_stamp
    (h : stampFollowingItems following items = .ok items') (hmax : following ≤ maxFollowingItems)
    {item : CompactedItem} (hitem : item.replacementHistory = some items') :
    transactionFollowingItems (.compacted item) = .ok (some following) := by
  obtain ⟨envelope, metadata, value, value', -, -, hassign, rfl⟩ := stampFollowingItems_eq_ok h
  obtain ⟨fields, rfl, hget⟩ := Json.indexAssign_eq_some hassign
  have hsmall : following < 2 ^ 64 := by
    rw [maxFollowingItems] at hmax
    omega
  simp only [transactionFollowingItems, compactionMetadata, hitem, Option.bind_eq_bind,
    Option.bind_some, getLast?_concat, Json.asObject_object, hget,
    Json.asU64_ofNat hsmall, gt_iff_lt, not_lt.mpr hmax, if_false]

/-- The companions of a candidate, in the order they are written. -/
def RenCrowCheckpoint.companions (candidate : RenCrowCheckpoint) (ctx : CommitContext) :
    List RolloutItem :=
  companionRows (candidate.worldState.map fun state => ⟨true, state⟩) candidate.referenceContext
    (some ⟨some ctx.threadId, ctx.currentSettings⟩)

omit [PayloadCodec] in
theorem RenCrowCheckpoint.length_companions (candidate : RenCrowCheckpoint)
    (ctx : CommitContext) : (candidate.companions ctx).length =
      1 + candidate.worldState.isSome.toNat + candidate.referenceContext.isSome.toNat := by
  unfold RenCrowCheckpoint.companions companionRows
  cases candidate.worldState <;> cases candidate.referenceContext <;> rfl

/-- **The writer's rows are a transaction the reader knows**: the checkpoint
declares exactly the companions that follow it. -/
theorem prepareCommit_batch (h : prepareCommit candidate ctx = .ok prepared) :
    ∃ batch : TransactionBatch, prepared.batch = batch.rows ∧
      batch.checkpoint = .compacted (checkpointOf candidate ctx prepared.items) ∧
      batch.companions = candidate.companions ctx := by
  obtain ⟨items, hstamp, hprep⟩ := bind_eq_ok.mp h
  cases hprep
  have hlen := candidate.length_companions ctx
  have hmax : 1 + candidate.worldState.isSome.toNat + candidate.referenceContext.isSome.toNat ≤
      maxFollowingItems := by
    have hw := Bool.toNat_le candidate.worldState.isSome
    have hc := Bool.toNat_le candidate.referenceContext.isSome
    rw [maxFollowingItems]
    omega
  have hdecl : transactionFollowingItems (.compacted (checkpointOf candidate ctx items)) =
      .ok (some (candidate.companions ctx).length) := by
    rw [hlen]
    exact transactionFollowingItems_stamp hstamp hmax rfl
  refine ⟨⟨.compacted (checkpointOf candidate ctx items), _, _, _, hdecl⟩, ?_, rfl, rfl⟩
  simp [TransactionBatch.rows, TransactionBatch.companions, companionRows, Option.toList_map,
    Function.comp_def]

omit [PayloadCodec] in
theorem isPersisted_companionRow {row : RolloutItem} (h : isCompanionRow row = true)
    (mode : ThreadHistoryMode) : isPersistedRolloutItem row mode = true := by
  cases row with
  | eventMsg ev =>
    cases ev with
    | threadSettingsApplied e => rfl
    | _ => cases h
  | worldState p => rfl
  | turnContext p => rfl
  | _ => cases h

/-- **Writer and reader agree.**  The batch of a commit is kept whole, as the
committed checkpoint and its companions, whatever rows precede and follow it;
and the persistence policy lets every row of the batch through. -/
theorem committedItems_append_commit {candidate : RenCrowCheckpoint} {ctx : CommitContext}
    {prepared : PreparedCommit} {pre post a b : List RolloutItem}
    (h : prepareCommit candidate ctx = .ok prepared) (hpre : committedItems pre = .ok a)
    (hpost : committedItems post = .ok b) :
    ∃ row, committedCheckpoint (.compacted (checkpointOf candidate ctx prepared.items))
        (transactionHash (.compacted (checkpointOf candidate ctx prepared.items) ::
          candidate.companions ctx)) = .ok row ∧
      CommittedForm (transactionHash (.compacted (checkpointOf candidate ctx prepared.items) ::
        candidate.companions ctx)) (checkpointOf candidate ctx prepared.items) row ∧
      committedItems (pre ++ prepared.batch ++ post) =
        .ok (a ++ [row] ++ candidate.companions ctx ++ b) ∧
      ∀ mode, persistedRolloutItems prepared.batch mode = prepared.batch := by
  rw [committedItems_eq_ok_iff] at hpre hpost
  obtain ⟨batch, hbatch, hcp, hcomps⟩ := prepareCommit_batch h
  obtain ⟨row, hrow, hreplay⟩ := hpre.append_batch batch hpost
  rw [hcp, hcomps] at hrow
  refine ⟨row, hrow, committedForm_of_committedCheckpoint hrow, ?_, ?_⟩
  · rw [committedItems_eq_ok_iff, hbatch, ← hcomps]
    simpa using hreplay
  · intro mode
    refine persistedRolloutItems_eq_self ?_
    intro item hitem
    rw [hbatch, TransactionBatch.rows, hcp] at hitem
    rcases mem_cons.mp hitem with rfl | hitem
    · rfl
    · rcases mem_append.mp hitem with hitem | hitem
      · have hall : Companions batch.companions := companions_companionRows _ _ _
        exact isPersisted_companionRow (hall.isCompanionRow item hitem) mode
      · rw [mem_singleton.mp hitem]
        rfl

end Commit

/-- A candidate with a kept message, its summary and a world state. -/
def sampleCandidate : RenCrowCheckpoint where
  items := [⟨.message (some "msg_2") "user" [.inputText "fix the build"] none none, none⟩,
    ⟨.message none "user" [.inputText "summary"] none none,
      some { rencrowCompaction := some (.object [("version", .ofNat 2)]) }⟩]
  referenceContext := none
  worldState := some [("cwd", .string "/work")]
  summary := "summary"
  responseId := none

/-- What the session supplies for the sample commit. -/
def sampleContext : CommitContext where
  uuids _ := "0190"
  mcpAttribution := none
  retainedContext := default
  guardianHistory := none
  mcpResourceOrigins := none
  windowNumber := 1
  firstWindowId := "w1"
  windowId := "w1"
  newWindowId := "w2"
  latestTokenUsageRecord := none
  threadId := "thread"
  currentSettings := .object []

/-- A commit after a checkpoint that was left dangling, with a row after it. -/
theorem committedItems_append_commit_dangling :
    ∃ prepared row, @prepareCommit .sample sampleCandidate sampleContext = .ok prepared ∧
      (∃ hash, CommittedForm hash (checkpointOf sampleCandidate sampleContext prepared.items)
        row) ∧
      @committedItems .sample
          ([sampleCheckpoint] ++ prepared.batch ++ [.responseItem ⟨.other, none⟩]) =
        .ok ([] ++ [row] ++ [.worldState ⟨true, [("cwd", .string "/work")]⟩,
          .eventMsg (.threadSettingsApplied sampleSettings)] ++
          [.responseItem ⟨.other, none⟩]) := by
  obtain ⟨prepared, hprep⟩ :
      ∃ prepared, @prepareCommit .sample sampleCandidate sampleContext = .ok prepared := ⟨_, rfl⟩
  obtain ⟨row, -, hform, hreplay, -⟩ := @committedItems_append_commit .sample _ _ prepared
    [sampleCheckpoint] [.responseItem ⟨.other, none⟩] [] [.responseItem ⟨.other, none⟩] hprep
    rfl rfl
  exact ⟨prepared, row, hprep, ⟨_, hform⟩, hreplay⟩

end RenCrow
