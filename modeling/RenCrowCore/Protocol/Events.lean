import RenCrowCore.Protocol.Items

/-!
# Events and the typed rollout payloads

The payloads a rollout row can carry beside response items: the turn items and
events of `protocol/src/items.rs` and `protocol/src/protocol.rs`, the turn
context and the world state.  Of each record the identities and settings have
fields of their own; everything else is kept in one field `rest`, in serialized
form, so that two rows that differ anywhere stay different.
-/

namespace RenCrow

open Serde

/-! ## Turn items -/

/-- What a sub-agent did. -/
inductive SubAgentActivityKind where
  | started
  | interacted
  | interrupted
  | completed
deriving DecidableEq, Repr, Inhabited

/-- An item owned by an extension. -/
inductive ExtensionItem where
  | imageGeneration (payload : Json)
  | sleep (payload : Json)
  | webSearch (payload : Json)
deriving DecidableEq, Repr, Inhabited

/-- A completed item of a turn. -/
inductive TurnItem where
  | userMessage (payload : Json)
  | functionCallOutput (payload : Json)
  | hookPrompt (payload : Json)
  | agentMessage (payload : Json)
  | plan (payload : Json)
  | reasoning (payload : Json)
  | commandExecution (payload : Json)
  | dynamicToolCall (payload : Json)
  | collabAgentToolCall (payload : Json)
  | subAgentActivity (kind : SubAgentActivityKind) (payload : Json)
  | webSearch (payload : Json)
  | imageView (payload : Json)
  | extensionItem (item : ExtensionItem)
  | imageGeneration (payload : Json)
  | enteredReviewMode (payload : Json)
  | exitedReviewMode (payload : Json)
  | fileChange (payload : Json)
  | mcpToolCall (payload : Json)
  | contextCompaction (payload : Json)
deriving DecidableEq, Repr, Inhabited

/-! ## Events -/

/-- A turn starts. -/
structure TurnStartedEvent where
  turnId : String
  rest : Json := .null
deriving DecidableEq, Repr, Inhabited

/-- A turn ends. -/
structure TurnCompleteEvent where
  turnId : String
  rest : Json := .null
deriving DecidableEq, Repr, Inhabited

/-- A turn is given up. -/
structure TurnAbortedEvent where
  turnId : Option String
  rest : Json := .null
deriving DecidableEq, Repr, Inhabited

/-- An item of a turn is complete. -/
structure ItemCompletedEvent where
  threadId : String
  turnId : String
  item : TurnItem
  rest : Json := .null
deriving DecidableEq, Repr, Inhabited

/-- The settings of a thread change. -/
structure ThreadSettingsAppliedEvent where
  threadId : Option String
  threadSettings : Json
deriving DecidableEq, Repr, Inhabited

/-- The events whose payload no modelled function reads. -/
inductive EventKind where
  | error | warning | authRecoveryStarted | authRecoveryCompleted | guardianWarning
  | realtimeConversationStarted | realtimeConversationRealtime | realtimeConversationClosed
  | realtimeConversationSdp | modelReroute | modelVerification | turnModerationMetadata
  | safetyBuffering | contextCompacted | tokenCount | agentMessage | agentReasoning
  | agentReasoningRawContent | agentReasoningSectionBreak | sessionConfigured
  | environmentConnected | environmentDisconnected | threadGoalUpdated | threadQueueChanged
  | mcpStartupUpdate | mcpStartupComplete | mcpToolCallBegin | mcpToolCallEnd | webSearchBegin
  | webSearchEnd | imageGenerationBegin | imageGenerationEnd | execCommandBegin
  | execCommandOutputDelta | terminalInteraction | execCommandEnd | viewImageToolCall
  | execApprovalRequest | requestPermissions | requestUserInput | dynamicToolCallRequest
  | dynamicToolCallResponse | elicitationRequest | applyPatchApprovalRequest | guardianAssessment
  | deprecationNotice | streamError | patchApplyBegin | patchApplyUpdated | patchApplyEnd
  | turnDiff | realtimeConversationListVoicesResponse | planUpdate | shutdownComplete
  | enteredReviewMode | exitedReviewMode | rawResponseItem | rawResponseCompleted | itemStarted
  | hookStarted | hookCompleted | agentMessageContentDelta | planDelta | reasoningContentDelta
  | reasoningRawContentDelta | collabAgentSpawnBegin | collabAgentSpawnEnd
  | collabAgentInteractionBegin | collabAgentInteractionEnd | collabWaitingBegin
  | collabWaitingEnd | collabCloseBegin | collabCloseEnd | collabResumeBegin | collabResumeEnd
deriving DecidableEq, Repr, Inhabited

/-- An event of a session. -/
inductive EventMsg where
  | threadRolledBack (numTurns : UInt32)
  | turnStarted (event : TurnStartedEvent)
  | threadSettingsApplied (event : ThreadSettingsAppliedEvent)
  | turnComplete (event : TurnCompleteEvent)
  | userMessage (payload : Json)
  | turnAborted (event : TurnAbortedEvent)
  | itemCompleted (event : ItemCompletedEvent)
  | subAgentActivity (kind : SubAgentActivityKind) (payload : Json)
  | other (kind : EventKind) (payload : Json)
deriving DecidableEq, Repr, Inhabited

/-! ## Turn context and world state -/

/-- The settings a turn ran with. -/
structure TurnContextItem where
  turnId : Option String
  model : String
  compHash : Option String
  realtimeActive : Option Bool
  rest : Json := .null
deriving DecidableEq, Repr, Inhabited

/-- A world-state row: a full snapshot, or a merge patch on the one before. -/
structure WorldStateItem where
  full : Bool
  state : Json.Fields
deriving DecidableEq, Repr, Inhabited

/-- A message between agents. -/
structure InterAgentCommunication where
  triggerTurn : Bool
  rest : Json := .null
deriving DecidableEq, Repr, Inhabited

/-- The first row of a rollout. -/
structure SessionMetaLine where
  id : String
  /-- The identity of the first context window. -/
  contextWindow : Option String
  rest : Json := .null
deriving DecidableEq, Repr, Inhabited

end RenCrow
