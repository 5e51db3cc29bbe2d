import RenCrowCore.Lib.Text
import RenCrowCore.Protocol.Events

/-!
# Rollout rows

The persisted rows of a thread (`history/src/lib.rs`): history envelopes with
the metadata the host keeps beside a response item, compaction checkpoints, and
the thirteen kinds of row a rollout file holds.  The persistence policy of
`rollout/src/policy.rs`, which decides what of a live append reaches the file,
stands at the end; `persistedRolloutItems_eq_self` is the form the writers use.
-/

namespace RenCrow

open Serde

open Text (ByteRange)

/-! ## Host metadata -/

/-- A content-addressed pointer to one tool observation of a rollout. -/
structure ObservationReference where
  threadId : String
  callId : String
  sha256 : String
deriving DecidableEq, Repr, Inhabited

/-- The final status of an archived command. -/
inductive ArchiveTerminalStatus where
  | completed
  | failed
deriving DecidableEq, Repr, Inhabited

/-- A pointer to the archived output of a finished command. -/
structure ArchiveReference where
  version : Nat
  threadId : String
  callId : String
  originalContentSha256 : String
  status : ArchiveTerminalStatus
  exitCode : Int
  processId : Option String
deriving DecidableEq, Repr, Inhabited

/-- Which bytes of one part of an observation were shown. -/
structure ObservationPartCoverage where
  sha256 : String
  totalBytes : Nat
  presentedRanges : List ByteRange
  unpresentedRanges : List ByteRange
  isPartial : Bool
deriving DecidableEq, Repr, Inhabited

/-- The coverage of an observation, without any excerpt text. -/
structure ObservationCoverage where
  reference : ObservationReference
  toolName : String
  call : ObservationPartCoverage
  output : ObservationPartCoverage
deriving DecidableEq, Repr, Inhabited

/-- Metadata owned by the harness and persisted with a response item. -/
structure CodexHarnessMetadata where
  rencrowArchiveReference : Option ArchiveReference := none
  rencrowObservationProjection : Option ObservationCoverage := none
  rencrowInput : Option Json := none
  rencrowCompaction : Option Json := none
  clientAuthored : Bool := false
  historyTruncationTokenLimit : Option Nat := none
  deliveredAssistantMessage : Option String := none
  harnessAuthoredConfiguration : Bool := false
  compactionModelHash : Option String := none
  userInputOrder : Option Nat := none
  inheritedUserMessage : Bool := false
  mcpAttribution : Option Json := none
  senderUserMessages : Option Json := none
deriving DecidableEq, Repr, Inhabited

/-- `CodexHarnessMetadata::default()`. -/
def CodexHarnessMetadata.default : CodexHarnessMetadata := {}

/-- A history item with room for host metadata. -/
structure ResponseItemEnvelope where
  item : ResponseItem
  metadata : Option CodexHarnessMetadata := none
deriving DecidableEq, Repr, Inhabited

/-! ## Rows -/

/-- A payload no modelled function looks into, in serialized form. -/
structure SerializedPayload where
  value : Json
deriving DecidableEq, Repr, Inhabited

/-- What the guardian has seen, as it is stored. -/
abbrev GuardianHistoryCheckpoint := SerializedPayload

/-- The retained facts, as they are stored. -/
abbrev RetainedContext := SerializedPayload

/-- An event of the retained facts, as it is stored. -/
abbrev RetainedContextEvent := SerializedPayload

/-- The origins of MCP resources, as they are stored. -/
abbrev McpResourceOriginCheckpoint := SerializedPayload

/-- The token usage, as it is stored. -/
abbrev TokenUsageRecord := SerializedPayload

/-- A risk score, as it is stored. -/
abbrev SecurityRiskScore := SerializedPayload

/-- A realtime item, as it is stored. -/
abbrev RealtimeItem := SerializedPayload

/-- A compaction checkpoint. -/
structure CompactedItem where
  message : String
  replacementHistory : Option (List ResponseItemEnvelope) := none
  guardianHistory : Option GuardianHistoryCheckpoint := none
  retainedContext : Option RetainedContext := none
  mcpResourceOrigins : Option McpResourceOriginCheckpoint := none
  windowNumber : Option UInt64 := none
  firstWindowId : Option String := none
  previousWindowId : Option String := none
  windowId : Option String := none
  compactionResponseId : Option String := none
  latestTokenUsageRecord : Option TokenUsageRecord := none
deriving DecidableEq, Repr, Inhabited

/-- A persisted rollout row. -/
inductive RolloutItem where
  | sessionMeta (payload : SessionMetaLine)
  | responseItem (envelope : ResponseItemEnvelope)
  | interAgentCommunication (payload : InterAgentCommunication)
  | interAgentCommunicationMetadata (triggerTurn : Bool)
  | compacted (payload : CompactedItem)
  | renCrowCompactionCommit (checkpointHash : String)
  | turnContext (payload : TurnContextItem)
  | tokenUsageRecord (payload : TokenUsageRecord)
  | worldState (payload : WorldStateItem)
  | securityRiskScore (payload : SecurityRiskScore)
  | retainedContext (payload : RetainedContextEvent)
  | eventMsg (payload : EventMsg)
  | realtimeItem (payload : RealtimeItem)
deriving DecidableEq, Repr, Inhabited

/-! ## The persistence policy -/

/-- How a thread stores its history. -/
inductive ThreadHistoryMode where
  | legacy
  | paginated
deriving DecidableEq, Repr, Inhabited

/-- Whether a response item is written to the rollout file. -/
def shouldPersistResponseItem : ResponseItem → Bool
  | .additionalTools .. | .compactionTrigger | .other => false
  | _ => true

/-- The events that stand for a turn item in a legacy rollout. -/
def EventKind.isLegacyItem : EventKind → Bool
  | .agentMessage | .agentReasoning | .agentReasoningRawContent | .enteredReviewMode
  | .exitedReviewMode | .patchApplyEnd | .contextCompacted | .mcpToolCallEnd | .webSearchEnd
  | .imageGenerationEnd => true
  | _ => false

/-- Whether an event is written to the rollout file. -/
def shouldPersistEventMsg (ev : EventMsg) (historyMode : ThreadHistoryMode) : Bool :=
  match ev with
  | .itemCompleted event =>
    decide (historyMode = .paginated) ||
      match event.item with
      | .functionCallOutput _ | .plan _ | .extensionItem (.sleep _) => true
      | .subAgentActivity kind _ => decide (kind = .completed)
      | _ => false
  | .threadRolledBack _ | .turnAborted _ | .turnStarted _ | .turnComplete _
  | .threadSettingsApplied _ => true
  | .userMessage _ => decide (historyMode = .legacy)
  | .subAgentActivity kind _ => decide (historyMode = .legacy) && decide (kind ≠ .completed)
  | .other .tokenCount _ | .other .threadGoalUpdated _ => true
  -- every other event is transient
  | .other kind _ => kind.isLegacyItem && decide (historyMode = .legacy)

/-- Whether a row is written to the rollout file. -/
def isPersistedRolloutItem (item : RolloutItem) (historyMode : ThreadHistoryMode) : Bool :=
  match item with
  | .responseItem envelope => shouldPersistResponseItem envelope.item
  | .eventMsg ev => shouldPersistEventMsg ev historyMode
  | .realtimeItem _ => decide (historyMode = .paginated)
  | _ => true

/-- The rows of a live append that reach the file. -/
def persistedRolloutItems (items : List RolloutItem) (historyMode : ThreadHistoryMode) :
    List RolloutItem :=
  items.filter fun item => isPersistedRolloutItem item historyMode

/-- An append whose rows all pass the policy reaches the file whole. -/
theorem persistedRolloutItems_eq_self {items : List RolloutItem} {historyMode : ThreadHistoryMode}
    (h : ∀ item ∈ items, isPersistedRolloutItem item historyMode = true) :
    persistedRolloutItems items historyMode = items := by
  rw [persistedRolloutItems, List.filter_eq_self]
  exact h

end RenCrow
