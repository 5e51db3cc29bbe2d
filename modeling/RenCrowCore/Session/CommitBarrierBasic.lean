import RenCrowCore.Lib.Run
import RenCrowCore.Session.CompactionCommit

/-!
# The commit barrier

`Session::commit_rencrow_checkpoint` takes the state lock twice and releases it while
the batch is written.  Between its two sections anything may happen: other tasks
change the history and the settings, the turn is cancelled, the write fails.

* `firstSection`: the checks, the batch, and the flag that is latched;
* `secondSection`: the snapshot is compared again before the history is replaced;
* `step`: one step of any task of the session.
-/

namespace RenCrow

open Serde Fallible

/-! ## The session -/

/-- The ids of the windows of a thread. -/
structure AutoCompactWindowIds where
  firstWindowId : String
  previousWindowId : Option String
  windowId : String
deriving DecidableEq, Repr

/-- The reasoning effort that requests are pinned to. -/
inductive ReasoningEffortPin where
  | unset
  | compacted
  | active (model effort : String)
deriving DecidableEq, Repr

/-- Why a session starts. -/
inductive SessionStartSource where
  | startup
  | resume
  | clear
  | compact
  | fork
deriving DecidableEq, Repr

/-- The state behind the lock, as far as a commit reads or writes it. -/
structure SessionState where
  rencrowCheckpointFailed : Bool
  /-- The items of the live history. -/
  items : List ResponseItemEnvelope
  referenceContextItem : Option TurnContextItem
  worldStateBaseline : Option Json.Fields
  historyVersion : UInt64
  /-- The snapshot of the thread settings. -/
  settings : Json
  baseInstructions : String
  windowNumber : UInt64
  windowIds : AutoCompactWindowIds
  reasoningEffortPin : ReasoningEffortPin
  pendingSessionStartSources : List SessionStartSource

/-- A candidate with the snapshot it was made from. -/
structure CommitCandidate extends RenCrowCheckpoint where
  expectedHistoryHash : String
  expectedSettings : Json
  expectedTurn : String
  expectedBaseText : String
  expectedWorld : Option WorldStateItem

/-- What other components of the session answer during the first section. -/
structure Services where
  uuids : Nat → String
  /-- The forced attribution checkpoint and its revision. -/
  mcpAttribution : Option (Json × UInt64)
  retainedContext : RetainedContext
  guardianHistory : Option GuardianHistoryCheckpoint
  mcpResourceOrigins : Option McpResourceOriginCheckpoint
  newWindowId : String
  latestTokenUsageRecord : Option TokenUsageRecord
  threadId : String
  /-- The session has a thread to persist to. -/
  liveThread : Bool

/-- A cancellation token. -/
abbrev Token := Nat

/-- What a commit carries from its first section to its second. -/
structure InFlight where
  candidate : CommitCandidate
  prepared : PreparedCommit
  windowNumber : UInt64
  windowIds : AutoCompactWindowIds
  mcpRevision : Option UInt64
  token : Token

namespace SessionState

/-- `ContextManager::world_state_checkpoint`. -/
def worldStateCheckpoint (state : SessionState) : Option WorldStateItem :=
  state.worldStateBaseline.map fun snapshot => ⟨true, snapshot⟩

/-- `check_rencrow_checkpoint`. -/
def checkRencrowCheckpoint (state : SessionState) : Except CodexErr Unit :=
  ensure (!state.rencrowCheckpointFailed)
    (.fatal ("Compaction checkpoint persistence was uncertain; restart to recover the last " ++
      "readable owner checkpoint before continuing"))

/-- What the commit reads from the session for its batch. -/
def commitContext (state : SessionState) (services : Services) : CommitContext where
  uuids := services.uuids
  mcpAttribution := services.mcpAttribution.map Prod.fst
  retainedContext := services.retainedContext
  guardianHistory := services.guardianHistory
  mcpResourceOrigins := services.mcpResourceOrigins
  windowNumber := state.windowNumber
  firstWindowId := state.windowIds.firstWindowId
  windowId := state.windowIds.windowId
  newWindowId := services.newWindowId
  latestTokenUsageRecord := services.latestTokenUsageRecord
  threadId := services.threadId
  currentSettings := state.settings

/-- The replacement of the live history, and what goes with it. -/
def publish (state : SessionState) (commit : InFlight) : SessionState where
  rencrowCheckpointFailed := false
  items := commit.prepared.items
  referenceContextItem := commit.candidate.referenceContext
  worldStateBaseline := commit.candidate.worldState
  historyVersion := saturatingSucc state.historyVersion
  settings := state.settings
  baseInstructions := state.baseInstructions
  windowNumber := commit.windowNumber
  windowIds := commit.windowIds
  reasoningEffortPin := .compacted
  pendingSessionStartSources := state.pendingSessionStartSources ++ [.compact]

end SessionState

section Commit

variable [PayloadCodec]

/-- `history_digest`. -/
def historyDigest (items : List ResponseItemEnvelope) : String :=
  digest (.array (items.map fun envelope => .array
    [PayloadCodec.responseItem.encode envelope.item,
      .ofOption PayloadCodec.harnessMetadata.encode envelope.metadata]))

/-- The session is still at the snapshot of the candidate. -/
def SessionState.isExpected (state : SessionState) (candidate : CommitCandidate) : Bool :=
  decide (historyDigest state.items = candidate.expectedHistoryHash) &&
    decide (state.settings = candidate.expectedSettings) &&
    decide (state.baseInstructions = candidate.expectedBaseText) &&
    decide (state.worldStateCheckpoint = candidate.expectedWorld)

/-- A candidate whose history has changed. -/
def staleCandidate : CodexErr :=
  .invalidRequest "RenCrow compaction candidate is stale; history was not replaced"

/-- The first section; if it succeeds, the flag is latched. -/
def firstSection (state : SessionState) (candidate : CommitCandidate)
    (cancellation : Option Token) (isCancelled : Token → Bool) (services : Services) :
    Except CodexErr InFlight := do
  ensure (!state.rencrowCheckpointFailed && state.isExpected candidate) staleCandidate
  let token ← cancellation.elim (.error .turnAborted) .ok
  ensure (!isCancelled token) .turnAborted
  ensure services.liveThread
    (.invalidRequest "RenCrow compaction requires owner persistence")
  let prepared ← prepareCommit candidate.toRenCrowCheckpoint (state.commitContext services)
  return {
    candidate
    prepared
    windowNumber := saturatingSucc state.windowNumber
    windowIds := ⟨state.windowIds.firstWindowId, some state.windowIds.windowId,
      services.newWindowId⟩
    mcpRevision := services.mcpAttribution.map Prod.snd
    token }

/-- The second section, after the batch was persisted. -/
def secondSection (state : SessionState) (commit : InFlight) (isCancelled : Token → Bool) :
    Except CodexErr SessionState := do
  ensure (!isCancelled commit.token && state.isExpected commit.candidate)
    (.fatal "Compaction snapshot changed at persistence barrier; restart required")
  return state.publish commit

/-! ## The tasks of a session -/

/-- Where a commit stands. -/
inductive CommitTask where
  | absent
  | started (candidate : CommitCandidate) (cancellation : Option Token)
  | persisting (commit : InFlight)
  | persisted (commit : InFlight)
  /-- It ended in its first section, or was dropped before it. -/
  | rejected (error : Option CodexErr)
  /-- It ended after its first section and did not replace the history. -/
  | interrupted (error : Option CodexErr)
  | committed

/-- The commit that has passed its first section and not ended. -/
def CommitTask.inFlight : CommitTask → Option InFlight
  | .persisting commit | .persisted commit => some commit
  | _ => none

/-- A session, its rollout and the tasks that commit a compaction. -/
structure System where
  state : SessionState
  /-- The rows that were written. -/
  rollout : List RolloutItem
  /-- The turn that runs, with the token that cancels it. -/
  activeTurn : Option (String × Token)
  cancelled : List Token
  tasks : Nat → CommitTask
  persistedMcpRevision : Option UInt64

/-- How `append_items` and `flush` end; a failed or cancelled write has written some of
the rows, perhaps all. -/
inductive Persistence where
  | written
  | failed (rows : Nat) (error : String)
  | canceled (rows : Nat)

/-- What happens in a session. -/
inductive Event where
  /-- Another task changes what is behind the lock; none writes the flag. -/
  | other (update : SessionState → SessionState)
  /-- Another task writes rows. -/
  | append (rows : List RolloutItem)
  | turn (active : Option (String × Token))
  | cancel (token : Token)
  | start (task : Nat) (candidate : CommitCandidate)
  | firstSection (task : Nat) (services : Services)
  | persist (task : Nat) (outcome : Persistence)
  | secondSection (task : Nat)
  /-- The future of a commit is dropped, perhaps during the write. -/
  | drop (task : Nat) (rows : Nat)

/-- What another task makes of the state. -/
def SessionState.updated (state : SessionState) (update : SessionState → SessionState) :
    SessionState :=
  { update state with rencrowCheckpointFailed := state.rencrowCheckpointFailed }

namespace System

/-- The token was cancelled. -/
def isCancelled (system : System) (token : Token) : Bool := system.cancelled.contains token

/-- The system after a task has moved on. -/
def setTask (system : System) (task : Nat) (status : CommitTask) : System :=
  { system with tasks := fun other => if other = task then status else system.tasks other }

/-- The cancellation token of the turn that the candidate belongs to. -/
def cancellationOf (system : System) (candidate : CommitCandidate) : Option Token :=
  (system.activeTurn.filter fun turn => decide (turn.1 = candidate.expectedTurn)).map Prod.snd

/-- The rows of a batch that reached the rollout. -/
def write (system : System) (rows : List RolloutItem) : System :=
  { system with rollout := system.rollout ++ rows }

/-- One step; `none` if the task is not where the event needs it. -/
def step (system : System) : Event → Option System
  | .other update => some { system with state := system.state.updated update }
  | .append rows => some (system.write rows)
  | .turn active => some { system with activeTurn := active }
  | .cancel token => some { system with cancelled := token :: system.cancelled }
  | .start task candidate =>
    match system.tasks task with
    | .absent =>
      some (system.setTask task (.started candidate (system.cancellationOf candidate)))
    | _ => none
  | .firstSection task services =>
    match system.tasks task with
    | .started candidate cancellation =>
      match RenCrow.firstSection system.state candidate cancellation system.isCancelled
          services with
      | .error error => some (system.setTask task (.rejected (some error)))
      | .ok commit =>
        let state := { system.state with rencrowCheckpointFailed := true }
        some ({ system with state }.setTask task (.persisting commit))
    | _ => none
  | .persist task outcome =>
    match system.tasks task, outcome with
    | .persisting commit, .written =>
      some ((system.write commit.prepared.batch).setTask task (.persisted commit))
    | .persisting commit, .failed rows error =>
      let error := CodexErr.fatal ("RenCrow checkpoint persistence uncertain: " ++ error ++
        "; restart required")
      some ((system.write (commit.prepared.batch.take rows)).setTask task
        (.interrupted (some error)))
    | .persisting commit, .canceled rows =>
      if system.isCancelled commit.token then
        let error := CodexErr.fatal "Compaction canceled during persistence; restart required"
        some ((system.write (commit.prepared.batch.take rows)).setTask task
          (.interrupted (some error)))
      else none
    | _, _ => none
  | .secondSection task =>
    match system.tasks task with
    | .persisted commit =>
      match RenCrow.secondSection system.state commit system.isCancelled with
      | .error error => some (system.setTask task (.interrupted (some error)))
      | .ok state =>
        let revision := commit.mcpRevision.or system.persistedMcpRevision
        some ({ system with state, persistedMcpRevision := revision }.setTask task .committed)
    | _ => none
  | .drop task rows =>
    match system.tasks task with
    | .started _ _ => some (system.setTask task (.rejected none))
    | .persisting commit =>
      some ((system.write (commit.prepared.batch.take rows)).setTask task (.interrupted none))
    | .persisted _ => some (system.setTask task (.interrupted none))
    | _ => none

end System

end Commit

end RenCrow
