import Mathlib.Data.List.Nodup
import RenCrowCore.Lib.Run

/-!
# Remote-control connections

The tracker of remote-control clients (`client_tracker.rs`) and the part of the reader loop
(`websocket.rs`) that collects outbound tasks.  A task returns the client and the stream it
served, not its connection, so a task that ends late closes whatever connection the pair has
by then.

* `handleMessage`, `closeExpiredClients`, `trackerStep`: the steps of the reader loop;
* `ClosedConnection.isOwn`: a connection was closed for a reason of its own;
* `connections_closed_once`: so it is, once, while no late task finds a newer connection.
-/

namespace RenCrow.RemoteControl

/-! ## Envelopes and clients -/

/-- A client and one of its streams. -/
abbrev ClientKey := String × String

/-- The messages that the tracker tells apart. -/
inductive JsonRpcMessage where
  | request (method : String)
  | other
deriving DecidableEq, Repr

/-- `remote_control_message_starts_connection`. -/
def startsConnection : JsonRpcMessage → Bool
  | .request method => method = "initialize"
  | .other => false

/-- What an envelope carries. -/
inductive ClientEvent where
  | clientMessage (message : JsonRpcMessage)
  | clientMessageChunk
  | ack
  | ping
  | clientClosed
deriving DecidableEq, Repr

/-- An envelope from a client. -/
structure ClientEnvelope where
  clientId : String
  event : ClientEvent
  streamId : Option String
  seqId : Option Nat
deriving DecidableEq, Repr

/-- The envelope starts a connection. -/
def ClientEnvelope.isInitialize (envelope : ClientEnvelope) : Bool :=
  match envelope.event with
  | .clientMessage message => startsConnection message
  | _ => false

/-- What the tracker knows of a connection. -/
structure ClientState where
  connectionId : Nat
  lastActivityAt : Nat
  lastInboundSeqId : Option Nat
deriving DecidableEq, Repr

/-- Ten minutes, in milliseconds. -/
def clientIdleTimeout : Nat := 10 * 60 * 1000

/-- The client was active not too long ago. -/
def ClientState.isAlive (client : ClientState) (now : Nat) : Bool :=
  now - client.lastActivityAt < clientIdleTimeout

/-- What a `ConnectionClosed` event is sent for. -/
inductive CloseReason where
  | closeEnvelope (key : ClientKey)
  | laterInitialize (key : ClientKey)
  | initializeNotForwarded
  | expiry (now : Nat)
  | outboundTask (connectionId : Nat)
deriving DecidableEq, Repr

/-- A `ConnectionClosed` event and why it was sent. -/
structure ClosedConnection where
  key : ClientKey
  client : ClientState
  reason : CloseReason
deriving DecidableEq, Repr

/-- A task of the join set.  It returns its key; the connection is only known here. -/
structure OutboundTask where
  key : ClientKey
  connectionId : Nat
deriving DecidableEq, Repr

/-- The connections of all clients, and the tasks that have not been collected. -/
structure ClientTracker where
  clients : ClientKey → Option ClientState := fun _ => none
  legacyStreamIds : String → Option String := fun _ => none
  joinSet : List OutboundTask := []
  nextConnectionId : Nat := 0
  /-- The `ConnectionClosed` events so far. -/
  closed : List ClosedConnection := []

/-- The clock, a random stream id and what becomes of the events that a step sends. -/
structure Moment where
  now : Nat
  randomStreamId : String
  closes : Bool := true
  opens : Bool := true
  forwards : Bool := true
deriving DecidableEq, Repr

/-! ## Steps -/

namespace ClientTracker

variable (tracker : ClientTracker)

/-- Changes the state of a client that is there. -/
def modifyClient (key : ClientKey) (f : ClientState → ClientState) : ClientTracker :=
  { tracker with clients := Function.update tracker.clients key ((tracker.clients key).map f) }

/-- The message with this number has been delivered. -/
def recordInboundMessageDelivery (key : ClientKey) (seqId : Option Nat) : ClientTracker :=
  match seqId with
  | none => tracker
  | some seqId => tracker.modifyClient key fun client =>
    { client with lastInboundSeqId := some seqId }

/-- The client was active now. -/
def touch (key : ClientKey) (now : Nat) : ClientTracker :=
  tracker.modifyClient key fun client => { client with lastActivityAt := now }

/-- `remove_client`, which also forgets the stream of a legacy client. -/
def removeClient (key : ClientKey) : ClientTracker :=
  { tracker with
    clients := Function.update tracker.clients key none
    legacyStreamIds := if tracker.legacyStreamIds key.1 = some key.2 then
      Function.update tracker.legacyStreamIds key.1 none else tracker.legacyStreamIds }

/-- `close_client`.  Its event is sent by a task of its own, whatever becomes of the caller. -/
def closeClient (key : ClientKey) (reason : CloseReason) : ClientTracker :=
  match tracker.clients key with
  | none => tracker
  | some client =>
    { tracker.removeClient key with closed := tracker.closed ++ [⟨key, client, reason⟩] }

/-- The stream of an envelope; clients without streams have one of their own. -/
def takeStreamId (envelope : ClientEnvelope) (randomStreamId : String) : String × ClientTracker :=
  let found := tracker.legacyStreamIds envelope.clientId
  match envelope.streamId with
  | some streamId => (streamId, tracker)
  | none =>
    if envelope.isInitialize then
      (found.getD randomStreamId, { tracker with
        legacyStreamIds := Function.update tracker.legacyStreamIds envelope.clientId none })
    else (found.getD (if envelope.event = .ping then randomStreamId else ""), tracker)

/-- A new connection and its outbound task. -/
def insertClient (key : ClientKey) (now : Nat) (isLegacyStreamId : Bool) : ClientTracker :=
  let id := tracker.nextConnectionId
  { tracker with
    clients := Function.update tracker.clients key (some ⟨id, now, none⟩)
    legacyStreamIds := if isLegacyStreamId then
      Function.update tracker.legacyStreamIds key.1 (some key.2) else tracker.legacyStreamIds
    joinSet := tracker.joinSet ++ [⟨key, id⟩]
    nextConnectionId := id + 1 }

/-- Opens a connection and forwards its first message. -/
def openClient (key : ClientKey) (envelope : ClientEnvelope) (moment : Moment) : ClientTracker :=
  let isLegacyStreamId := envelope.streamId.isNone
  let opened := tracker.insertClient key moment.now isLegacyStreamId
  if !moment.opens then { tracker with nextConnectionId := tracker.nextConnectionId + 1 }
  else if !moment.forwards then opened.closeClient key .initializeNotForwarded
  else if isLegacyStreamId then opened
  else opened.recordInboundMessageDelivery key envelope.seqId

/-- A repeated message is one that was delivered before. -/
def isRepeated (key : ClientKey) (seqId : Option Nat) : Bool :=
  seqId.any fun seqId => (tracker.clients key).any fun client =>
    client.lastInboundSeqId.any (seqId ≤ ·)

/-- A message of a client: it starts a connection, replaces one or is forwarded. -/
def handleClientMessage (key : ClientKey) (envelope : ClientEnvelope) (moment : Moment) :
    ClientTracker :=
  let starts := envelope.isInitialize
  if tracker.isRepeated key envelope.seqId && !starts then tracker
  else
    let restarts := starts && (tracker.clients key).isSome
    let tracker := if restarts then tracker.closeClient key (.laterInitialize key) else tracker
    if restarts && !moment.closes then tracker
    else if (tracker.clients key).isSome then
      let tracker := tracker.touch key moment.now
      if moment.forwards then tracker.recordInboundMessageDelivery key envelope.seqId else tracker
    else if starts then tracker.openClient key envelope moment
    else tracker

/-- `handle_message`. -/
def handleMessage (envelope : ClientEnvelope) (moment : Moment) : ClientTracker :=
  let (streamId, tracker) := tracker.takeStreamId envelope moment.randomStreamId
  let key := (envelope.clientId, streamId)
  if streamId = "" then tracker
  else
    match envelope.event with
    | .clientMessage _ => tracker.handleClientMessage key envelope moment
    | .clientMessageChunk | .ack => tracker
    | .ping => tracker.touch key moment.now
    | .clientClosed => tracker.closeClient key (.closeEnvelope key)

/-- The keys come in the order of a hash map, and the clients that have expired are closed up to
one whose event cannot be sent. -/
def closeExpiredClients (now : Nat) (closes : ClientKey → Bool) :
    ClientTracker → List ClientKey → ClientTracker
  | tracker, [] => tracker
  | tracker, key :: keys =>
    if (tracker.clients key).any fun client => !client.isAlive now then
      let next := tracker.closeClient key (.expiry now)
      if closes key then closeExpiredClients now closes next keys else next
    else closeExpiredClients now closes tracker keys

end ClientTracker

/-- What happens to the tracker. -/
inductive TrackerEvent where
  | message (envelope : ClientEnvelope) (moment : Moment)
  | sweep (now : Nat) (keys : List ClientKey) (closes : ClientKey → Bool)
  /-- A task that has ended is collected, and its key closed. -/
  | collect (index : Nat)
  /-- A task that panicked returns no key. -/
  | collectPanicked (index : Nat)

/-- One event; a task that is not there cannot be collected. -/
def trackerStep (tracker : ClientTracker) : TrackerEvent → Option ClientTracker
  | .message envelope moment => some (tracker.handleMessage envelope moment)
  | .sweep now keys closes => some (.closeExpiredClients now closes tracker keys)
  | .collect index => tracker.joinSet[index]?.map fun task =>
      { tracker with joinSet := tracker.joinSet.eraseIdx index }.closeClient task.key
        (.outboundTask task.connectionId)
  | .collectPanicked index => some { tracker with joinSet := tracker.joinSet.eraseIdx index }

/-! ## Own reasons -/

/-- The reasons that a connection may be closed for. -/
def ClosedConnection.isOwn (connection : ClosedConnection) : Bool :=
  match connection.reason with
  | .closeEnvelope key | .laterInitialize key => connection.key = key
  | .initializeNotForwarded => false
  | .expiry now => !connection.client.isAlive now
  | .outboundTask connectionId => connection.client.connectionId = connectionId

/-- A message opens a connection: it has a stream, the connection it replaces is seen to be
closed, and the transport takes the new one. -/
def opensConnection (tracker : ClientTracker) (envelope : ClientEnvelope) (moment : Moment) :
    Bool :=
  let (streamId, tracker) := tracker.takeStreamId envelope moment.randomStreamId
  envelope.isInitialize && streamId != "" &&
    (moment.closes || (tracker.clients (envelope.clientId, streamId)).isNone) && moment.opens

/-- The pair of a collected task has no connection or still that of the task; and the
transport takes the first message of a connection that is opened. -/
def inTime (tracker : ClientTracker) : TrackerEvent → Bool
  | .message envelope moment => !opensConnection tracker envelope moment || moment.forwards
  | .collect index => tracker.joinSet[index]?.all fun task =>
      (tracker.clients task.key).all fun client => client.connectionId = task.connectionId
  | .sweep .. | .collectPanicked _ => true

/-- The connection of a pair. -/
def ClientTracker.connectionAt (tracker : ClientTracker) (key : ClientKey) : Option Nat :=
  (tracker.clients key).map ClientState.connectionId

/-- What every run keeps: ids are fresh, no open connection is closed yet, and each event has its
own reason. -/
structure Sound (tracker : ClientTracker) : Prop where
  once : (tracker.closed.map (·.client.connectionId)).Nodup
  below : ∀ connection ∈ tracker.closed, connection.client.connectionId < tracker.nextConnectionId
  live : ∀ key id, tracker.connectionAt key = some id → id < tracker.nextConnectionId ∧
    ∀ connection ∈ tracker.closed, connection.client.connectionId ≠ id
  unique : ∀ key other id, tracker.connectionAt key = some id →
    tracker.connectionAt other = some id →
    key = other
  own : ∀ connection ∈ tracker.closed, connection.isOwn = true

section Steps

variable {tracker next : ClientTracker} {key : ClientKey} {envelope : ClientEnvelope}
    {moment : Moment}

theorem Sound.modifyClient (h : Sound tracker) {f : ClientState → ClientState}
    (hf : ∀ client, (f client).connectionId = client.connectionId) :
    Sound (tracker.modifyClient key f) := by
  have hsame : (tracker.modifyClient key f).connectionAt = tracker.connectionAt := by
    funext other
    by_cases hother : other = key <;>
      simp [ClientTracker.connectionAt, ClientTracker.modifyClient, hother, Function.comp_def, hf]
  exact ⟨h.once, h.below, hsame ▸ h.live, hsame ▸ h.unique, h.own⟩

theorem Sound.record (h : Sound tracker) (seqId : Option Nat) :
    Sound (tracker.recordInboundMessageDelivery key seqId) := by
  cases seqId with
  | none => exact h
  | some seqId =>
    exact h.modifyClient (by simp)

/-- A connection that is closed is no longer among the clients. -/
theorem Sound.closeClient (h : Sound tracker) {reason : CloseReason}
    (hown : ∀ client ∈ tracker.clients key, (ClosedConnection.mk key client reason).isOwn = true) :
    Sound (tracker.closeClient key reason) := by
  unfold ClientTracker.closeClient
  split
  · exact h
  rename_i client hclient
  have hkey : tracker.connectionAt key = some client.connectionId := by
    simp [ClientTracker.connectionAt, hclient]
  have hrest : ∀ other id, (tracker.removeClient key).connectionAt other = some id →
      other ≠ key ∧ tracker.connectionAt other = some id := by
    intro other id hid
    by_cases hother : other = key
    · simp [ClientTracker.connectionAt, ClientTracker.removeClient, hother] at hid
    · simpa [ClientTracker.connectionAt, ClientTracker.removeClient, hother] using hid
  obtain ⟨hlt, hopen⟩ := h.live key client.connectionId hkey
  refine ⟨?_, ?_, ?_, ?_, ?_⟩
  · rw [List.map_append, List.nodup_append]
    refine ⟨h.once, List.nodup_singleton _, ?_⟩
    simpa using hopen
  · simpa [or_imp, forall_and, ClientTracker.removeClient] using ⟨h.below, hlt⟩
  · intro other id hid
    obtain ⟨hother, hid⟩ := hrest other id hid
    refine ⟨(h.live other id hid).1, ?_⟩
    intro connection hmem
    rcases List.mem_append.mp hmem with hmem | hmem
    · exact (h.live other id hid).2 connection hmem
    · rw [List.mem_singleton.mp hmem]
      rintro rfl
      exact hother (h.unique other key _ hid hkey)
  · intro first second id hfirst hsnd
    exact h.unique first second id (hrest first id hfirst).2 (hrest second id hsnd).2
  · simpa [or_imp, forall_and] using ⟨h.own, hown client hclient⟩

theorem Sound.insertClient (h : Sound tracker) (now : Nat) (isLegacyStreamId : Bool) :
    Sound (tracker.insertClient key now isLegacyStreamId) := by
  have hcases : ∀ other id, (tracker.insertClient key now isLegacyStreamId).connectionAt other =
      some id →
      other = key ∧ id = tracker.nextConnectionId ∨ tracker.connectionAt other = some id := by
    intro other id hid
    by_cases hother : other = key
    · refine .inl ⟨hother, ?_⟩
      simpa [ClientTracker.connectionAt, ClientTracker.insertClient, hother, eq_comm] using hid
    · refine .inr ?_
      simpa [ClientTracker.connectionAt, ClientTracker.insertClient, hother] using hid
  refine ⟨h.once, fun connection hmem => Nat.lt_succ_of_lt (h.below connection hmem), ?_, ?_, h.own⟩
  · intro other id hid
    rcases hcases other id hid with ⟨-, rfl⟩ | hid
    · exact ⟨Nat.lt_succ_self _, fun connection hmem => Nat.ne_of_lt (h.below connection hmem)⟩
    · exact ⟨Nat.lt_succ_of_lt (h.live other id hid).1, (h.live other id hid).2⟩
  · intro first second id hfirst hsnd
    rcases hcases first id hfirst with ⟨rfl, hid⟩ | hold <;>
      rcases hcases second id hsnd with ⟨rfl, hid⟩ | hold'
    · rfl
    · exact absurd (h.live _ _ hold').1 (by omega)
    · exact absurd (h.live _ _ hold).1 (by omega)
    · exact h.unique first second id hold hold'

theorem Sound.openClient (h : Sound tracker)
    (hforwards : moment.opens = true → moment.forwards = true) :
    Sound (tracker.openClient key envelope moment) := by
  have hopened : Sound (tracker.insertClient key moment.now envelope.streamId.isNone) :=
    h.insertClient _ _
  unfold ClientTracker.openClient
  split
  · exact ⟨h.once, fun connection hmem => Nat.lt_succ_of_lt (h.below connection hmem),
      fun key id hid => ⟨Nat.lt_succ_of_lt (h.live key id hid).1, (h.live key id hid).2⟩,
        h.unique, h.own⟩
  rename_i hopens
  rw [hforwards (by simpa using hopens)]
  dsimp only
  split
  · contradiction
  split
  · exact hopened
  · exact hopened.record _

theorem Sound.handleClientMessage (h : Sound tracker)
    (hforwards : envelope.isInitialize = true →
      moment.closes = true ∨ tracker.clients key = none → moment.opens = true →
      moment.forwards = true) :
    Sound (tracker.handleClientMessage key envelope moment) := by
  unfold ClientTracker.handleClientMessage
  dsimp only
  split
  · exact h
  have hclosed : Sound (if (envelope.isInitialize && (tracker.clients key).isSome) = true then
      tracker.closeClient key (.laterInitialize key) else tracker) := by
    split
    · exact h.closeClient fun _ _ => by simp [ClosedConnection.isOwn]
    · exact h
  generalize (if (envelope.isInitialize && (tracker.clients key).isSome) = true then
    tracker.closeClient key (.laterInitialize key) else tracker) = current at hclosed ⊢
  have htouched : Sound (current.touch key moment.now) := hclosed.modifyClient (by simp)
  split
  · exact hclosed
  rename_i hcloses
  split
  · split
    · exact htouched.record _
    · exact htouched
  split
  · rename_i hstarts
    refine hclosed.openClient (hforwards hstarts ?_)
    -- The old connection of the pair is seen to be closed, or there is none.
    cases hclient : tracker.clients key with
    | none => exact .inr rfl
    | some client => exact .inl (by simpa [hstarts, hclient] using hcloses)
  · exact hclosed

theorem Sound.handleMessage (h : Sound tracker)
    (hintime : inTime tracker (.message envelope moment) = true) :
    Sound (tracker.handleMessage envelope moment) := by
  have hstream : Sound (tracker.takeStreamId envelope moment.randomStreamId).2 := by
    unfold ClientTracker.takeStreamId
    split
    · exact h
    · split
      · exact ⟨h.once, h.below, h.live, h.unique, h.own⟩
      · exact h
  unfold ClientTracker.handleMessage
  dsimp only at hstream ⊢
  split
  · exact hstream
  rename_i hnamed
  split
  · refine hstream.handleClientMessage fun hstarts hcloses hopens => ?_
    have hnew : opensConnection tracker envelope moment = true := by
      simpa [opensConnection, hstarts, hnamed, hopens] using hcloses
    simpa [inTime, hnew] using hintime
  · exact hstream
  · exact hstream
  · exact hstream.modifyClient (by simp)
  · exact hstream.closeClient fun _ _ => by simp [ClosedConnection.isOwn]

theorem Sound.closeExpiredClients (now : Nat) (closes : ClientKey → Bool) (keys : List ClientKey)
    (h : Sound tracker) : Sound (.closeExpiredClients now closes tracker keys) := by
  induction keys generalizing tracker with
  | nil => exact h
  | cons key keys ih =>
    unfold ClientTracker.closeExpiredClients
    split
    · rename_i hexpired
      have hnext : Sound (tracker.closeClient key (.expiry now)) := by
        refine h.closeClient fun client hclient => ?_
        simpa [Option.mem_def.mp hclient, ClosedConnection.isOwn] using hexpired
      split
      · exact ih hnext
      · exact hnext
    · exact ih h

/-- What one step preserves. -/
theorem Sound.trackerStep {event : TrackerEvent} (h : Sound tracker)
    (hintime : inTime tracker event = true)
    (hstep : trackerStep tracker event = some next) : Sound next := by
  cases event with
  | message envelope moment =>
    cases hstep
    exact h.handleMessage hintime
  | sweep now keys closes =>
    cases hstep
    exact h.closeExpiredClients now closes keys
  | collect index =>
    obtain ⟨task, htask, rfl⟩ := Option.map_eq_some_iff.mp hstep
    have hcoll : Sound { tracker with joinSet := tracker.joinSet.eraseIdx index } :=
      ⟨h.once, h.below, h.live, h.unique, h.own⟩
    refine hcoll.closeClient fun client hclient => ?_
    rw [inTime, htask, Option.all_some, Option.mem_def.mp hclient] at hintime
    exact hintime
  | collectPanicked index =>
    cases hstep
    exact ⟨h.once, h.below, h.live, h.unique, h.own⟩

end Steps

/-- **A connection is closed once and for its own reasons**, in every run in which no late task
finds a newer connection of its pair and the first message of a connection is forwarded. -/
theorem connections_closed_once (events : List TrackerEvent) (tracker : ClientTracker)
    (hrun : Run.run trackerStep {} events = some tracker)
    (hintime : Run.Every trackerStep (inTime · · = true) {} events) :
    (tracker.closed.map (·.client.connectionId)).Nodup ∧
      ∀ connection ∈ tracker.closed, connection.isOwn = true := by
  have hstart : Sound {} := by
    constructor <;> simp [ClientTracker.connectionAt]
  have hstep : ∀ tracker event next, Sound tracker → inTime tracker event = true →
      trackerStep tracker event = some next → Sound next := fun _ _ _ h hevent =>
        h.trackerStep hevent
  have h := Run.run_invariant_of_every hstep hrun hintime hstart
  exact ⟨h.once, h.own⟩

/-- A client with a stream that starts a connection. -/
def sampleInitialize : TrackerEvent :=
  .message ⟨"client", .clientMessage (.request "initialize"), some "stream", none⟩
    { now := 0, randomStreamId := "" }

/-- The same, where the transport takes neither the connection nor the message. -/
def refusedInitialize : TrackerEvent :=
  .message ⟨"client", .clientMessage (.request "initialize"), some "stream", none⟩
    { now := 0, randomStreamId := "", opens := false, forwards := false }

/-- The task of the first connection is collected before the pair is initialised again, the
transport refuses once, and the second connection expires. -/
def sampleEvents : List TrackerEvent :=
  [sampleInitialize, .collect 0, refusedInitialize, sampleInitialize,
    .sweep clientIdleTimeout [("client", "stream")] fun _ => true]

/-- Two connections are closed, each for its own reason. -/
theorem connections_closed_once_sample :
    ∃ tracker, Run.run trackerStep {} sampleEvents = some tracker ∧ tracker.closed.length = 2 ∧
      ∀ connection ∈ tracker.closed, connection.isOwn = true :=
  ⟨_, rfl, by decide +kernel, (connections_closed_once sampleEvents _ rfl (by decide +kernel)).2⟩

/-- **The task of the first connection closes the second one**, which its pair was given while the
task was still ending. -/
theorem late_task_closes_newer_connection :
    ∃ tracker, Run.run trackerStep {} [sampleInitialize, sampleInitialize, .collect 0] =
      some tracker ∧
      ∃ connection ∈ tracker.closed, connection.isOwn = false :=
  ⟨_, rfl, by decide +kernel⟩

end RenCrow.RemoteControl
