import RenCrowCore.Lib.Codec
import RenCrowCore.History.Rollout

/-!
# The wire form of rollout rows

`history/src/rollout_payload.rs`: how a row becomes one JSON object and how it
is read back.  A compaction checkpoint stores its replacement history and the
metadata of that history in two parallel arrays, and the second array is written
only when some envelope has metadata; an absent metadata beside a present one
comes back as the default value.

* `ofWire_ofItem`: reading a checkpoint's wire struct gives its *normal form*
  `CompactedItem.normalize`;
* `decodeCompacted_encodeCompacted`, `encodeCompacted_normalize`: the same for
  the JSON value, and the normal form has the same wire value as the checkpoint;
* `decodeRollout_encodeRollout`, `encodeRollout_normalize`: the same for whole
  rows, over any payload codec whose payloads round-trip.
-/

namespace RenCrow

open Serde SortedMap Codec List

/-! ## The payload codecs -/

/-- The serializers of the payload types, which live outside the history crate.
Every payload of a rollout serializes, so encoders are total. -/
class PayloadCodec where
  sessionMetaLine : Codec SessionMetaLine
  responseItem : Codec ResponseItem
  harnessMetadata : Codec CodexHarnessMetadata
  interAgentCommunication : Codec InterAgentCommunication
  turnContextItem : Codec TurnContextItem
  tokenUsageRecord : Codec TokenUsageRecord
  worldStateItem : Codec WorldStateItem
  retainedContextEvent : Codec RetainedContextEvent
  securityRiskScore : Codec SecurityRiskScore
  eventMsg : Codec EventMsg
  realtimeItem : Codec RealtimeItem
  guardianHistoryCheckpoint : Codec GuardianHistoryCheckpoint
  retainedContext : Codec RetainedContext
  mcpResourceOriginCheckpoint : Codec McpResourceOriginCheckpoint

/-! ## Checkpoints -/

/-- The `window_id` of a checkpoint: older rollouts stored the window number there. -/
inductive WindowIdWire where
  | id (windowId : String)
  | legacyWindowNumber (number : UInt64)
deriving DecidableEq, Repr

/-- The serde representation of `WindowIdWire` is untagged. -/
def WindowIdWire.codec : Codec WindowIdWire where
  encode
    | .id windowId => .string windowId
    | .legacyWindowNumber number => .number (.posInt number)
  decode
    | .string windowId => .ok (.id windowId)
    | .number (.posInt number) => .ok (.legacyWindowNumber number)
    | _ => .error "data did not match any variant of untagged enum WindowIdWire"

theorem WindowIdWire.codec_roundTrips (w : WindowIdWire) : WindowIdWire.codec.RoundTrips w := by
  cases w with
  | id windowId | legacyWindowNumber number => exact ⟨rfl, by simp [WindowIdWire.codec]⟩

/-- A checkpoint as it is written. -/
structure CompactedItemWire where
  message : String
  replacementHistory : Option (List ResponseItem)
  replacementHistoryMetadata : Option (List CodexHarnessMetadata)
  guardianHistory : Option GuardianHistoryCheckpoint
  retainedContext : Option RetainedContext
  mcpResourceOrigins : Option McpResourceOriginCheckpoint
  windowNumber : Option UInt64
  firstWindowId : Option String
  previousWindowId : Option String
  windowId : Option WindowIdWire
  compactionResponseId : Option String
  latestTokenUsageRecord : Option TokenUsageRecord

/-- `CompactedItemWire::from`. -/
def CompactedItemWire.ofItem (item : CompactedItem) : CompactedItemWire where
  message := item.message
  replacementHistory := item.replacementHistory.map fun items => items.map (·.item)
  replacementHistoryMetadata :=
    (item.replacementHistory.filter fun items => items.any (·.metadata.isSome)).map fun items =>
      items.map fun envelope => envelope.metadata.getD .default
  guardianHistory := item.guardianHistory
  retainedContext := item.retainedContext
  mcpResourceOrigins := item.mcpResourceOrigins
  windowNumber := item.windowNumber
  firstWindowId := item.firstWindowId
  previousWindowId := item.previousWindowId
  windowId := item.windowId.map .id
  compactionResponseId := item.compactionResponseId
  latestTokenUsageRecord := item.latestTokenUsageRecord

/-- The replacement history of a wire struct: items zipped with their metadata. -/
def joinHistory : Option (List ResponseItem) → Option (List CodexHarnessMetadata) →
    Except String (Option (List ResponseItemEnvelope))
  | some items, some metadata =>
    if items.length ≠ metadata.length then
      .error ("replacement_history_metadata has " ++ toString metadata.length ++
        " entries for " ++ toString items.length ++ " history items")
    else .ok (some (items.zipWith (fun item metadata => ⟨item, some metadata⟩) metadata))
  | some items, none => .ok (some (items.map fun item => ⟨item, none⟩))
  | none, some _ => .error "replacement_history_metadata requires replacement_history"
  | none, none => .ok none

/-- `CompactedItem::try_from`. -/
def CompactedItem.ofWire (item : CompactedItemWire) : Except String CompactedItem := do
  let replacementHistory ← joinHistory item.replacementHistory item.replacementHistoryMetadata
  -- a legacy window number fills in for a missing one
  let (windowNumber, windowId) := match item.windowId with
    | some (.id windowId) => (item.windowNumber, some windowId)
    | some (.legacyWindowNumber legacy) => (item.windowNumber.or (some legacy), none)
    | none => (item.windowNumber, none)
  return {
    message := item.message
    replacementHistory
    guardianHistory := item.guardianHistory
    retainedContext := item.retainedContext
    mcpResourceOrigins := item.mcpResourceOrigins
    windowNumber
    firstWindowId := item.firstWindowId
    previousWindowId := item.previousWindowId
    windowId
    compactionResponseId := item.compactionResponseId
    latestTokenUsageRecord := item.latestTokenUsageRecord }

/-- Some envelope of a history has metadata. -/
def hasMetadata (items : List ResponseItemEnvelope) : Bool := items.any (·.metadata.isSome)

/-- What a history reads back as: where some envelope has metadata, an absent one
is the default. -/
def normalizeHistory (items : List ResponseItemEnvelope) : List ResponseItemEnvelope :=
  if hasMetadata items then
    items.map fun envelope => ⟨envelope.item, some (envelope.metadata.getD .default)⟩
  else items

/-- What a checkpoint reads back as. -/
def CompactedItem.normalize (item : CompactedItem) : CompactedItem :=
  { item with replacementHistory := item.replacementHistory.map normalizeHistory }

theorem joinHistory_split (history : Option (List ResponseItemEnvelope)) :
    joinHistory (history.map fun items => items.map (·.item))
      ((history.filter hasMetadata).map fun items =>
        items.map fun envelope => envelope.metadata.getD .default) =
      .ok (history.map normalizeHistory) := by
  cases history with
  | none => rfl
  | some items =>
    by_cases h : hasMetadata items = true
    · simp only [Option.map_some, Option.filter_some, h, if_true, joinHistory,
        length_map, ne_eq, not_true_eq_false, if_false, normalizeHistory, zipWith_map]
      rw [zipWith_self]
    · simp only [Option.map_some, Option.filter_some, h, Option.map_none, joinHistory,
        normalizeHistory, Bool.false_eq_true, if_false, map_map]
      refine congrArg (fun l => Except.ok (some l)) ?_
      refine (map_congr_left ?_).trans (map_id items)
      intro envelope hmem
      have hnone : envelope.metadata = none := by
        by_contra hsome
        refine h (any_eq_true.mpr ⟨envelope, hmem, ?_⟩)
        exact Option.isSome_iff_ne_none.mpr hsome
      obtain ⟨item, metadata⟩ := envelope
      subst hnone
      rfl

open CompactedItemWire

open CompactedItem

/-- Reading the wire struct of a checkpoint gives its normal form. -/
theorem ofWire_ofItem (item : CompactedItem) : ofWire (ofItem item) = .ok item.normalize := by
  have hjoin := joinHistory_split item.replacementHistory
  unfold ofWire
  simp only [ofItem]
  rw [show (fun items : List ResponseItemEnvelope => items.any (·.metadata.isSome)) = hasMetadata
    from rfl, hjoin]
  cases hid : item.windowId with
  | none
  | some windowId => simp [CompactedItem.normalize, hid, bind, Except.bind, pure, Except.pure]

/-! ## The JSON value of a checkpoint -/

section Wire

variable [codec : PayloadCodec] {rows : List RolloutItem} {row : RolloutItem}

/-- The fields of a checkpoint; all but the last two optional ones are skipped when absent. -/
def CompactedItemWire.entries (wire : CompactedItemWire) : List (String × Option Json) :=
  [("message", some (string.encode wire.message)),
   ("replacement_history", wire.replacementHistory.map codec.responseItem.list.encode),
   ("replacement_history_metadata",
     wire.replacementHistoryMetadata.map codec.harnessMetadata.list.encode),
   ("guardian_history", wire.guardianHistory.map codec.guardianHistoryCheckpoint.encode),
   ("retained_context", wire.retainedContext.map codec.retainedContext.encode),
   ("mcp_resource_origins", wire.mcpResourceOrigins.map codec.mcpResourceOriginCheckpoint.encode),
   ("window_number", wire.windowNumber.map u64.encode),
   ("first_window_id", wire.firstWindowId.map string.encode),
   ("previous_window_id", wire.previousWindowId.map string.encode),
   ("window_id", wire.windowId.map WindowIdWire.codec.encode),
   ("compaction_response_id", some (encodeNullable string wire.compactionResponseId)),
   ("latest_token_usage_record",
     some (encodeNullable codec.tokenUsageRecord wire.latestTokenUsageRecord))]

/-- The object a checkpoint is written as. -/
def CompactedItemWire.encode (wire : CompactedItemWire) : Json :=
  .object (ofEntries wire.entries)

/-- Reading the object of a checkpoint. -/
def CompactedItemWire.decode : Json → Except String CompactedItemWire
  | .object fields => do
    let message ← decodeField string "message" fields
    let replacementHistory ← decodeOptField codec.responseItem.list "replacement_history" fields
    let replacementHistoryMetadata ←
      decodeOptField codec.harnessMetadata.list "replacement_history_metadata" fields
    let guardianHistory ←
      decodeOptField codec.guardianHistoryCheckpoint "guardian_history" fields
    let retainedContext ← decodeOptField codec.retainedContext "retained_context" fields
    let mcpResourceOrigins ←
      decodeOptField codec.mcpResourceOriginCheckpoint "mcp_resource_origins" fields
    let windowNumber ← decodeOptField u64 "window_number" fields
    let firstWindowId ← decodeOptField string "first_window_id" fields
    let previousWindowId ← decodeOptField string "previous_window_id" fields
    let windowId ← decodeOptField WindowIdWire.codec "window_id" fields
    let compactionResponseId ← decodeOptField string "compaction_response_id" fields
    let latestTokenUsageRecord ←
      decodeOptField codec.tokenUsageRecord "latest_token_usage_record" fields
    return {
      message, replacementHistory, replacementHistoryMetadata, guardianHistory,
      retainedContext, mcpResourceOrigins, windowNumber, firstWindowId, previousWindowId,
      windowId, compactionResponseId, latestTokenUsageRecord }
  | _ => .error "expected struct CompactedItemWire"

/-- `CompactedItem::serialize`. -/
def encodeCompacted (item : CompactedItem) : Json := (CompactedItemWire.ofItem item).encode

/-- `CompactedItem::deserialize`. -/
def decodeCompacted (value : Json) : Except String CompactedItem := do
  CompactedItem.ofWire (← CompactedItemWire.decode value)

/-- The payloads of a wire struct survive their own serializers. -/
structure CompactedItemWire.PayloadsRoundTrip (wire : CompactedItemWire) : Prop where
  items : ∀ items ∈ wire.replacementHistory, ∀ item ∈ items, codec.responseItem.RoundTrips item
  metadata : ∀ metadata ∈ wire.replacementHistoryMetadata, ∀ m ∈ metadata,
    codec.harnessMetadata.RoundTrips m
  guardian : ∀ g ∈ wire.guardianHistory, codec.guardianHistoryCheckpoint.RoundTrips g
  retained : ∀ r ∈ wire.retainedContext, codec.retainedContext.RoundTrips r
  origins : ∀ o ∈ wire.mcpResourceOrigins, codec.mcpResourceOriginCheckpoint.RoundTrips o
  usage : ∀ u ∈ wire.latestTokenUsageRecord, codec.tokenUsageRecord.RoundTrips u

/-- Every field of a written checkpoint is found under its name. -/
theorem CompactedItemWire.get_entries (wire : CompactedItemWire) (key : String) :
    get key (ofEntries wire.entries) = (wire.entries.lookup key).join :=
  get_ofEntries key wire.entries (by simp [entries])

/-- A wire struct whose payloads round-trip is read back from its object. -/
theorem CompactedItemWire.decode_encode {wire : CompactedItemWire}
    (h : wire.PayloadsRoundTrip) : decode wire.encode = .ok wire := by
  have hmsg := decodeField_of_get (c := string) (wire.get_entries "message") (string_roundTrips _)
  have hitems := decodeOptField_of_get (c := codec.responseItem.list)
    (wire.get_entries "replacement_history") fun items hm => list_roundTrips (h.items items hm)
  have hmeta := decodeOptField_of_get (c := codec.harnessMetadata.list)
    (wire.get_entries "replacement_history_metadata")
    fun metadata hm => list_roundTrips (h.metadata metadata hm)
  have hguardian := decodeOptField_of_get (wire.get_entries "guardian_history") h.guardian
  have hret := decodeOptField_of_get (wire.get_entries "retained_context") h.retained
  have horigins := decodeOptField_of_get (wire.get_entries "mcp_resource_origins") h.origins
  have hnum := decodeOptField_of_get (wire.get_entries "window_number")
    fun n _ => ⟨rfl, by simp [u64]⟩
  have hfirst := decodeOptField_of_get (wire.get_entries "first_window_id")
    fun s _ => string_roundTrips s
  have hprev := decodeOptField_of_get (wire.get_entries "previous_window_id")
    fun s _ => string_roundTrips s
  have hid := decodeOptField_of_get (wire.get_entries "window_id")
    fun w _ => WindowIdWire.codec_roundTrips w
  have hresponse := decodeOptField_of_nullable (wire.get_entries "compaction_response_id")
    fun s _ => string_roundTrips s
  have husage := decodeOptField_of_nullable (wire.get_entries "latest_token_usage_record") h.usage
  unfold decode encode
  simp only [hmsg, hitems, hmeta, hguardian, hret, horigins, hnum, hfirst, hprev,
    hid, hresponse, husage]
  rfl

omit codec in
theorem hasMetadata_normalizeHistory (items : List ResponseItemEnvelope) :
    hasMetadata (normalizeHistory items) = hasMetadata items := by
  unfold normalizeHistory
  by_cases h : hasMetadata items = true
  · rw [if_pos h, h]
    obtain ⟨env, hmem, -⟩ := any_eq_true.mp h
    rw [hasMetadata, any_map, any_eq_true]
    exact ⟨env, hmem, rfl⟩
  · rw [if_neg h]

omit codec in
/-- A checkpoint and its normal form are written alike. -/
theorem ofItem_normalize (item : CompactedItem) : ofItem item.normalize = ofItem item := by
  simp only [CompactedItemWire.ofItem, CompactedItem.normalize, CompactedItemWire.mk.injEq,
    true_and, and_true]
  cases item.replacementHistory with
  | none => exact ⟨rfl, rfl⟩
  | some items =>
    have hhas := hasMetadata_normalizeHistory items
    refine ⟨?_, ?_⟩
    · simp only [Option.map_some, normalizeHistory]
      split
      · rw [map_map]; rfl
      · rfl
    · simp only [Option.map_some, Option.filter_some]
      by_cases h : hasMetadata items = true
      · rw [show (normalizeHistory items).any (·.metadata.isSome) = true from hhas.trans h,
          show items.any (·.metadata.isSome) = true from h, normalizeHistory, if_pos h]
        simp only [if_true, Option.map_some, map_map, Option.some.injEq]
        rfl
      · rw [normalizeHistory, if_neg h]

/-- **A checkpoint reads back as its normal form.** -/
theorem decodeCompacted_encodeCompacted {item : CompactedItem}
    (h : (ofItem item).PayloadsRoundTrip) :
    decodeCompacted (encodeCompacted item) = .ok item.normalize := by
  rw [decodeCompacted, encodeCompacted, decode_encode h]
  exact ofWire_ofItem item

theorem encodeCompacted_normalize (item : CompactedItem) :
    encodeCompacted item.normalize = encodeCompacted item := by
  rw [encodeCompacted, encodeCompacted, ofItem_normalize]

/-! ## Rows -/

/-- A variant of an internally tagged enum. -/
def tagged (tag : String) (payload : Json) (metadata : Option Json) : Json :=
  .object (ofEntries
    [("type", some (.string tag)), ("payload", some payload), ("metadata", metadata)])

/-- `RolloutItem::serialize`. -/
def encodeRollout : RolloutItem → Json
  | .sessionMeta p => tagged "session_meta" (codec.sessionMetaLine.encode p) none
  | .responseItem e => tagged "response_item" (codec.responseItem.encode e.item)
      (e.metadata.map codec.harnessMetadata.encode)
  | .interAgentCommunication p =>
    tagged "inter_agent_communication" (codec.interAgentCommunication.encode p) none
  | .interAgentCommunicationMetadata triggerTurn =>
    tagged "inter_agent_communication_metadata"
      (.object [("trigger_turn", .bool triggerTurn)]) none
  | .compacted p => tagged "compacted" (encodeCompacted p) none
  | .renCrowCompactionCommit checkpointHash =>
    tagged "rencrow_compaction_commit"
      (.object [("checkpoint_hash", .string checkpointHash)]) none
  | .turnContext p => tagged "turn_context" (codec.turnContextItem.encode p) none
  | .tokenUsageRecord p => tagged "token_usage_record" (codec.tokenUsageRecord.encode p) none
  | .worldState p => tagged "world_state" (codec.worldStateItem.encode p) none
  | .retainedContext p => tagged "retained_context" (codec.retainedContextEvent.encode p) none
  | .securityRiskScore p => tagged "security_risk_score" (codec.securityRiskScore.encode p) none
  | .eventMsg p => tagged "event_msg" (codec.eventMsg.encode p) none
  | .realtimeItem p => tagged "realtime_item" (codec.realtimeItem.encode p) none

/-- The payload of a tagged object, read by a decoder. -/
def decodePayload {α : Type} (decode : Json → Except String α) (fields : Json.Fields) :
    Except String α :=
  match get "payload" fields with
  | some value => decode value
  | none => .error "missing field payload"

/-- A field of the payload object. -/
def decodePayloadField {α : Type} (c : Codec α) (key : String) : Json → Except String α
  | .object fields => decodeField c key fields
  | _ => .error "expected a payload object"

/-- `RolloutItem::deserialize`. -/
def decodeRollout : Json → Except String RolloutItem
  | .object fields => do
    let tag ← decodeField string "type" fields
    match tag with
    | "session_meta" => .sessionMeta <$> decodePayload codec.sessionMetaLine.decode fields
    | "response_item" => do
      let item ← decodePayload codec.responseItem.decode fields
      let metadata ← decodeOptField codec.harnessMetadata "metadata" fields
      return .responseItem ⟨item, metadata⟩
    | "inter_agent_communication" =>
      .interAgentCommunication <$> decodePayload codec.interAgentCommunication.decode fields
    | "inter_agent_communication_metadata" =>
      .interAgentCommunicationMetadata <$> decodePayload
        (decodePayloadField bool "trigger_turn") fields
    | "compacted" => .compacted <$> decodePayload decodeCompacted fields
    | "rencrow_compaction_commit" =>
      .renCrowCompactionCommit <$> decodePayload
        (decodePayloadField string "checkpoint_hash") fields
    | "turn_context" => .turnContext <$> decodePayload codec.turnContextItem.decode fields
    | "token_usage_record" =>
      .tokenUsageRecord <$> decodePayload codec.tokenUsageRecord.decode fields
    | "world_state" => .worldState <$> decodePayload codec.worldStateItem.decode fields
    | "retained_context" =>
      .retainedContext <$> decodePayload codec.retainedContextEvent.decode fields
    | "security_risk_score" =>
      .securityRiskScore <$> decodePayload codec.securityRiskScore.decode fields
    | "event_msg" => .eventMsg <$> decodePayload codec.eventMsg.decode fields
    | "realtime_item" => .realtimeItem <$> decodePayload codec.realtimeItem.decode fields
    | _ => .error ("unknown variant " ++ tag)
  | _ => .error "expected internally tagged enum RolloutItemWire"

/-- What a row reads back as. -/
def RolloutItem.normalize : RolloutItem → RolloutItem
  | .compacted item => .compacted item.normalize
  | row => row

/-- The payloads of a row survive their own serializers. -/
def RolloutItem.PayloadsRoundTrip : RolloutItem → Prop
  | .sessionMeta p => codec.sessionMetaLine.RoundTrips p
  | .responseItem e =>
    codec.responseItem.RoundTrips e.item ∧ ∀ m ∈ e.metadata, codec.harnessMetadata.RoundTrips m
  | .interAgentCommunication p => codec.interAgentCommunication.RoundTrips p
  | .interAgentCommunicationMetadata _ => True
  | .compacted item => (CompactedItemWire.ofItem item).PayloadsRoundTrip
  | .renCrowCompactionCommit _ => True
  | .turnContext p => codec.turnContextItem.RoundTrips p
  | .tokenUsageRecord p => codec.tokenUsageRecord.RoundTrips p
  | .worldState p => codec.worldStateItem.RoundTrips p
  | .retainedContext p => codec.retainedContextEvent.RoundTrips p
  | .securityRiskScore p => codec.securityRiskScore.RoundTrips p
  | .eventMsg p => codec.eventMsg.RoundTrips p
  | .realtimeItem p => codec.realtimeItem.RoundTrips p

section Tagged

omit codec

variable (tag : String) (payload : Json) (metadata : Option Json)

/-- A payload with its tag, as an object. -/
abbrev taggedEntries : List (String × Option Json) :=
  [("type", some (.string tag)), ("payload", some payload), ("metadata", metadata)]

theorem get_tagged (key : String) : get key (ofEntries (taggedEntries tag payload metadata)) =
    ((taggedEntries tag payload metadata).lookup key).join := get_ofEntries key _ (by simp)

theorem decodeType_tagged :
    decodeField string "type" (ofEntries (taggedEntries tag payload metadata)) = .ok tag := by
  rw [decodeField, get_tagged]
  rfl

theorem decodePayload_tagged {α : Type} (decode : Json → Except String α) :
    decodePayload decode (ofEntries (taggedEntries tag payload metadata)) = decode payload := by
  rw [decodePayload, get_tagged]
  rfl

end Tagged

/-- **A row reads back as its normal form**, whatever its kind. -/
theorem decodeRollout_encodeRollout (h : row.PayloadsRoundTrip) :
    decodeRollout (encodeRollout row) = .ok row.normalize := by
  cases row with
  | responseItem e =>
    obtain ⟨hitem, hmeta⟩ := h
    have hm := decodeOptField_of_get (get_tagged "response_item" (codec.responseItem.encode e.item)
      (e.metadata.map codec.harnessMetadata.encode) "metadata") hmeta
    simp only [encodeRollout, tagged, decodeRollout, decodeType_tagged, decodePayload_tagged,
      hitem.decode_encode, hm, bind, Except.bind]
    rfl
  | compacted item =>
    simp only [encodeRollout, tagged, decodeRollout, decodeType_tagged, decodePayload_tagged,
      decodeCompacted_encodeCompacted h, bind, Except.bind]
    rfl
  | interAgentCommunicationMetadata triggerTurn =>
    rfl
  | renCrowCompactionCommit checkpointHash =>
    rfl
  | _ p =>
    simp only [encodeRollout, tagged, decodeRollout, decodeType_tagged, decodePayload_tagged,
      Codec.RoundTrips.decode_encode h, bind, Except.bind]
    rfl

/-- A row and its normal form are written alike. -/
theorem encodeRollout_normalize (row : RolloutItem) :
    encodeRollout row.normalize = encodeRollout row := by
  cases row with
  | compacted item =>
    rw [RolloutItem.normalize, encodeRollout, encodeRollout, encodeCompacted_normalize]
  | _ => rfl

theorem RolloutItem.PayloadsRoundTrip.normalize (h : row.PayloadsRoundTrip) :
    row.normalize.PayloadsRoundTrip := by
  cases row with
  | compacted item =>
    rw [RolloutItem.normalize, RolloutItem.PayloadsRoundTrip, ofItem_normalize]
    exact h
  | _ => exact h

/-! ## Rollout files -/

/-- Saving rows and loading them again. -/
def reload (rows : List RolloutItem) : Except String (List RolloutItem) :=
  decodeItems ⟨encodeRollout, decodeRollout⟩ (rows.map encodeRollout)

/-- Any number of save and reload cycles. -/
def reloads : Nat → List RolloutItem → Except String (List RolloutItem)
  | 0, rows => .ok rows
  | n + 1, rows => do reloads n (← reload rows)

/-- A reload brings every row into its normal form. -/
theorem reload_eq (h : ∀ row ∈ rows, row.PayloadsRoundTrip) :
    reload rows = .ok (rows.map RolloutItem.normalize) := by
  induction rows with
  | nil => rfl
  | cons row rest ih =>
    have hrow := decodeRollout_encodeRollout (h row (mem_cons_self ..))
    have hrest := ih fun r hr => h r (mem_cons_of_mem _ hr)
    rw [reload] at hrest ⊢
    rw [map_cons, decodeItems]
    simp only [hrow, hrest, bind, Except.bind]
    rfl

/-- Any number of reloads succeeds and leaves every row written as it was. -/
theorem reloads_encode (n : Nat) (h : ∀ row ∈ rows, row.PayloadsRoundTrip) :
    ∃ rows', reloads n rows = .ok rows' ∧
      rows'.map encodeRollout = rows.map encodeRollout := by
  induction n generalizing rows with
  | zero => exact ⟨rows, rfl, rfl⟩
  | succ n ih =>
    have hnorm : ∀ row ∈ rows.map RolloutItem.normalize, row.PayloadsRoundTrip := by
      intro row hrow
      obtain ⟨r, hr, rfl⟩ := mem_map.mp hrow
      exact (h r hr).normalize
    obtain ⟨rows', hreloads, henc⟩ := ih hnorm
    refine ⟨rows', ?_, ?_⟩
    · rw [reloads, reload_eq h]
      exact hreloads
    · rw [henc, map_map]
      exact map_congr_left fun row _ => encodeRollout_normalize row

end Wire

end RenCrow
