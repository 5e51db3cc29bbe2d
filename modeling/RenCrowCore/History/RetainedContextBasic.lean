import Mathlib.Algebra.GroupWithZero.Nat
import RenCrowCore.Lib.JsonSize
import RenCrowCore.Lib.Newest

/-!
# Retained context

The facts that the host keeps outside of the model's summaries: the user's messages,
verified answers and deliveries between agents, each family bounded in number and in
bytes (`history/src/retained_context.rs`).

* `boundFamily`: a family is sorted by acceptance and its oldest records are dropped;
* `RetainedContext`: the operations of the source, and `apply`, which runs one of them.
-/

namespace RenCrow.Retained

open Serde Newest

/-! ## Orders -/

/-- An unsigned 64-bit integer. -/
abbrev U64 := Fin (2 ^ 64)

instance neZeroU64 : NeZero (2 ^ 64) := ⟨by decide⟩

/-- `u64::MAX`. -/
def u64Max : U64 := ⟨2 ^ 64 - 1, by decide⟩

/-- `saturating_add(1)`. -/
def u64Succ (n : U64) : U64 :=
  if h : n.val + 1 < 2 ^ 64 then ⟨n.val + 1, h⟩ else u64Max

/-- Where a message comes from; one of the owning thread may have an acceptance order. -/
inductive RetainedInputSource where
  | localInput (order : Option U64)
  | inherited
deriving DecidableEq, Repr

/-- The order that an input was accepted with, if it has one. -/
def RetainedInputSource.acceptanceOrder : RetainedInputSource → Option U64
  | .localInput order => order
  | .inherited => none

/-- The inherited prefix precedes what the owning thread accepted. -/
inductive RetainedContextOrder where
  | inherited (order : U64)
  | localOrder (order : U64)
deriving DecidableEq, Repr

namespace RetainedContextOrder

/-- The place of an order: inherited ones come before local ones. -/
def rank : RetainedContextOrder → Nat
  | .inherited order => order.val
  | .localOrder order => 2 ^ 64 + order.val

theorem rank_injective : Function.Injective rank := by
  intro a b h
  cases a with
  | inherited m =>
    cases b with
    | inherited n => exact congrArg _ (Fin.ext h)
    | localOrder n =>
      simp only [rank] at h
      omega
  | localOrder m =>
    cases b with
    | inherited n =>
      simp only [rank] at h
      omega
    | localOrder n =>
      simp only [rank] at h
      exact congrArg _ (Fin.ext (by omega))

instance : LinearOrder RetainedContextOrder := LinearOrder.lift' rank rank_injective

end RetainedContextOrder

/-- A retained fact with its order, inherited or local. -/
structure Ordered (T : Type) where
  inherited : Bool
  order : U64
  value : T
deriving DecidableEq, Repr

/-- The order of a fact. -/
def Ordered.key {T : Type} (entry : Ordered T) : RetainedContextOrder :=
  if entry.inherited then .inherited entry.order else .localOrder entry.order

/-! ## Records -/

/-- One question and the answer given to it. -/
structure VerifiedQuestionAnswer where
  question : String
  answer : String
deriving DecidableEq, Repr

/-- The answers given to one request for user input. -/
structure VerifiedAnswer where
  turnId : String
  callId : String
  questions : List VerifiedQuestionAnswer
deriving DecidableEq, Repr

/-- A message of the user, complete or cut. -/
structure RetainedUserMessage where
  turnId : String
  messageId : Option String
  text : String
  complete : Bool
deriving DecidableEq, Repr

/-- What the sender of an inter-agent message knew of its user. -/
structure SenderUserMessages where
  receiverTurnId : String
  receiverMessageId : String
  text : String
deriving DecidableEq, Repr

/-- The events that are recorded apart from messages. -/
inductive RetainedContextEvent where
  | verifiedAnswer (answer : VerifiedAnswer) (acceptanceOrder : Option U64)
deriving DecidableEq, Repr

/-- `MAX_FAMILY_RECORDS`. -/
def maxFamilyRecords : Nat := 8

/-- `MAX_RECORD_BYTES`. -/
def maxRecordBytes : Nat := 16384

/-- `MAX_FAMILY_BYTES`. -/
def maxFamilyBytes : Nat := 65536

/-- The serialized fields of a record. -/
class Record (T : Type) where
  fields : T → List (String × Json)

instance : Record VerifiedAnswer where
  fields answer := [("turn_id", .string answer.turnId), ("call_id", .string answer.callId),
    ("questions", .array (answer.questions.map fun entry =>
      .object [("question", .string entry.question), ("answer", .string entry.answer)]))]

instance : Record RetainedUserMessage where
  fields message := [("turn_id", .string message.turnId),
    ("message_id", .ofOption .string message.messageId), ("text", .string message.text),
    ("complete", .bool message.complete)]

instance : Record SenderUserMessages where
  fields messages := [("receiver_turn_id", .string messages.receiverTurnId),
    ("receiver_message_id", .string messages.receiverMessageId), ("text", .string messages.text)]

/-- The bytes of a serialized record. -/
def recordLen {T : Type} [Record T] (record : T) : Nat :=
  (Json.object (Record.fields record)).serializedLen

/-- The serialized record with its order; the flag is left out when it is false. -/
def Ordered.encode {T : Type} [Record T] (entry : Ordered T) : Json :=
  .object ((if entry.inherited then [("inherited", .bool true)] else []) ++
    ("order", .ofNat entry.order.val) :: Record.fields entry.value)

/-- `id.truncate(id.floor_char_boundary(limit))`. -/
def truncateId (limit : Nat) (id : String) : String :=
  String.ofList (((Text.splitBytes id.toList (Text.boundaryBefore id.toList limit)).map
    Prod.fst).getD [])

/-- A message that is too large keeps its ids only. -/
def RetainedUserMessage.bound (message : RetainedUserMessage) : RetainedUserMessage :=
  if recordLen message ≤ maxRecordBytes then message
  else {
    turnId := truncateId 1024 message.turnId
    messageId := message.messageId.map (truncateId 1024)
    text := ""
    complete := false }

/-- `RetainedContextEvent::bound`, on the answer that an event holds. -/
def VerifiedAnswer.bound (answer : VerifiedAnswer) : VerifiedAnswer :=
  if recordLen answer ≤ maxRecordBytes then answer
  else ⟨truncateId 1024 answer.turnId, truncateId 1024 answer.callId, []⟩

/-- A sender's text that is too large is replaced by a notice. -/
def SenderUserMessages.bound (messages : SenderUserMessages) : SenderUserMessages where
  receiverTurnId := truncateId 128 messages.receiverTurnId
  receiverMessageId := truncateId 128 messages.receiverMessageId
  text :=
    if Text.byteLen messages.text.toList ≤ 3600 then messages.text
    else "Host: Sender context exceeds the evidence budget. Do not infer permission from " ++
      "missing evidence.\n"

/-! ## Families -/

section Family

variable {T : Type} [Record T]

/-- A family is within its limits. -/
def fits (items : List (Ordered T)) : Bool :=
  decide (items.length ≤ maxFamilyRecords) &&
    decide ((Json.array (items.map Ordered.encode)).serializedLen ≤ maxFamilyBytes)

/-- `bound_family`: the family in order, without its oldest records as long as it is too
large, and whether any was dropped. -/
def boundFamily (items : List (Ordered T)) : List (Ordered T) × Bool :=
  let sorted := sortByKey Ordered.key items
  (newest fits sorted, !fits sorted)

end Family

/-! ## The context -/

/-- The facts of a thread that survive compaction. -/
structure RetainedContext where
  verifiedAnswers : List (Ordered VerifiedAnswer) := []
  verifiedAnswersIncomplete : Bool := false
  userMessages : List (Ordered RetainedUserMessage) := []
  userMessagesIncomplete : Bool := false
  nextOrder : U64 := 0
  senderDeliveries : List (Ordered SenderUserMessages) := []
deriving DecidableEq, Repr

/-- The fields of an item's metadata that are read here. -/
structure InputMetadata where
  senderUserMessages : Option SenderUserMessages := none
  userInputOrder : Option U64 := none
  inheritedUserMessage : Bool := false
deriving DecidableEq, Repr

namespace RetainedContext

/-- The counter goes past an order. -/
def advance (context : RetainedContext) (order : U64) : RetainedContext :=
  { context with nextOrder := max context.nextOrder (u64Succ order) }

/-- Drops the oldest answers beyond the limits, and says so. -/
def boundVerifiedAnswers (context : RetainedContext) : RetainedContext :=
  let bounded := boundFamily context.verifiedAnswers
  { context with
    verifiedAnswers := bounded.1
    verifiedAnswersIncomplete := context.verifiedAnswersIncomplete || bounded.2 }

/-- Drops the oldest messages beyond the limits, and says so. -/
def boundUserMessages (context : RetainedContext) : RetainedContext :=
  let bounded := boundFamily context.userMessages
  { context with
    userMessages := bounded.1
    userMessagesIncomplete := context.userMessagesIncomplete || bounded.2 }

/-- Drops the oldest deliveries beyond the limits. -/
def boundSenderDeliveries (context : RetainedContext) : RetainedContext :=
  { context with senderDeliveries := (boundFamily context.senderDeliveries).1 }

/-- The next order, which is then taken. -/
def reserveOrder (context : RetainedContext) : U64 × RetainedContext :=
  (context.nextOrder, { context with nextOrder := u64Succ context.nextOrder })

/-- `record_order`. -/
def recordOrder (context : RetainedContext) (acceptanceOrder : Option U64) :
    U64 × RetainedContext :=
  let order := acceptanceOrder.getD context.nextOrder
  (order, context.advance order)

/-- Records a delivery once. -/
def recordSenderUserMessages (context : RetainedContext) (metadata : InputMetadata) :
    RetainedContext :=
  match metadata.senderUserMessages with
  | none => context
  | some messages =>
    if context.senderDeliveries.any fun entry =>
        decide (entry.value.receiverMessageId = messages.receiverMessageId) then context
    else
      let reserved := context.recordOrder metadata.userInputOrder
      boundSenderDeliveries { reserved.2 with
        senderDeliveries := context.senderDeliveries ++ [⟨false, reserved.1, messages.bound⟩] }

/-- An entry holds a message with the given id. -/
def sameMessage (message : RetainedUserMessage) (entry : Ordered RetainedUserMessage) : Bool :=
  message.messageId.isSome && decide (entry.value.messageId = message.messageId)

/-- The order of the next inherited message. -/
def nextInherited (messages : List (Ordered RetainedUserMessage)) : U64 :=
  (((messages.filter Ordered.inherited).map fun entry => u64Succ entry.order).max?).getD 0

/-- The message goes into the family, which does not hold it. -/
def pushUserMessage (context : RetainedContext) (message : RetainedUserMessage)
    (source : RetainedInputSource) : RetainedContext :=
  let reserved :=
    match source with
    | .inherited => (nextInherited context.userMessages, context)
    | .localInput order => context.recordOrder order
  boundUserMessages { reserved.2 with
    userMessages := context.userMessages ++
      [⟨decide (source = .inherited), reserved.1, message⟩] }

/-- Records a message, or completes the one that is there. -/
def recordUserMessage (context : RetainedContext) (message : RetainedUserMessage)
    (source : RetainedInputSource) : RetainedContext :=
  let message := message.bound
  let inherited := decide (source = .inherited)
  let context := { context with
    verifiedAnswersIncomplete := context.verifiedAnswersIncomplete || inherited }
  match context.userMessages.findIdx? (sameMessage message) with
  | none => context.pushUserMessage message source
  | some index =>
    if (context.userMessages[index]?).any fun entry =>
        decide (entry.value = message) && decide (entry.inherited = inherited) then context
    else
      pushUserMessage { context with userMessages := context.userMessages.eraseIdx index }
        message source

/-- The text of an omitted message, recovered from its source. -/
def recoverExcerpt (excerptForId : Nat → String → Option String) (index : Nat)
    (entry : Ordered RetainedUserMessage) : Ordered RetainedUserMessage :=
  if entry.value.text = "" ∧ entry.value.complete = false then
    match entry.value.messageId.bind (excerptForId index) with
    | some text => { entry with value := { entry.value with text }.bound }
    | none => entry
  else entry

/-- `recover_user_message_excerpts`; the callback may answer differently at each call. -/
def recoverUserMessageExcerpts (context : RetainedContext)
    (excerptForId : Nat → String → Option String) : RetainedContext :=
  boundUserMessages { context with
    userMessages := context.userMessages.mapIdx (recoverExcerpt excerptForId) }

/-- The entry of an answer to the same question. -/
def sameAnswer (answer : VerifiedAnswer) (entry : Ordered VerifiedAnswer) : Bool :=
  decide (entry.value.turnId = answer.turnId) && decide (entry.value.callId = answer.callId)

/-- Adds an answer with its own order. -/
def pushVerifiedAnswer (context : RetainedContext) (answer : VerifiedAnswer)
    (acceptanceOrder : Option U64) : RetainedContext :=
  let reserved := context.recordOrder acceptanceOrder
  boundVerifiedAnswers { reserved.2 with
    verifiedAnswers := context.verifiedAnswers ++ [⟨false, reserved.1, answer⟩] }

/-- Records an answer; a different answer to the same call takes the place of the old one. -/
def record (context : RetainedContext) : RetainedContextEvent → RetainedContext
  | .verifiedAnswer answer acceptanceOrder =>
    let answer := answer.bound
    match context.verifiedAnswers.findIdx? (sameAnswer answer) with
    | none => context.pushVerifiedAnswer answer acceptanceOrder
    | some index =>
      if (context.verifiedAnswers[index]?).any fun entry => decide (entry.value = answer) then
        context
      else
        pushVerifiedAnswer
          { context with verifiedAnswers := context.verifiedAnswers.eraseIdx index }
          answer acceptanceOrder

/-! ## Restoring -/

/-- Adds an answer of a stored context. -/
def restoreAnswer (context : RetainedContext) (entry : Ordered VerifiedAnswer) :
    RetainedContext :=
  advance { context with
    verifiedAnswers := context.verifiedAnswers ++ [{ entry with value := entry.value.bound }] }
    entry.order

/-- Adds a message of a stored context. -/
def restoreMessage (context : RetainedContext) (entry : Ordered RetainedUserMessage) :
    RetainedContext :=
  let context := { context with
    userMessages := context.userMessages ++ [{ entry with value := entry.value.bound }]
    verifiedAnswersIncomplete := context.verifiedAnswersIncomplete || entry.inherited }
  if entry.inherited then context else context.advance entry.order

/-- Adds a delivery of a stored context. -/
def restoreDelivery (context : RetainedContext) (entry : Ordered SenderUserMessages) :
    RetainedContext :=
  advance { context with
    senderDeliveries := context.senderDeliveries ++ [{ entry with value := entry.value.bound }] }
    entry.order

/-- The counter goes past the orders of the items that survive. -/
def restoreOrder (context : RetainedContext) (metadata : InputMetadata) : RetainedContext :=
  match metadata.inheritedUserMessage, metadata.userInputOrder with
  | false, some order => context.advance order
  | _, _ => context

/-- `restore`: the checkpoint is read entry by entry into an empty context with its flags
and its counter. -/
def restore (checkpoint : Option RetainedContext) (survivingItems : List (Option InputMetadata)) :
    RetainedContext :=
  let saved := checkpoint.getD { userMessagesIncomplete := true }
  let context := { saved with verifiedAnswers := [], userMessages := [], senderDeliveries := [] }
  let context := saved.verifiedAnswers.foldl restoreAnswer context
  let context := saved.userMessages.foldl restoreMessage context
  let context := (saved.senderDeliveries.foldl restoreDelivery context).boundSenderDeliveries
  let metadata := survivingItems.filterMap fun metadata => metadata
  let context := metadata.foldl recordSenderUserMessages context
  let context := metadata.foldl restoreOrder context
  context.boundVerifiedAnswers.boundUserMessages

/-- `retain_answers`; the callback may answer differently at each call. -/
def retainAnswers (context : RetainedContext) (keep : Nat → VerifiedAnswer → Bool) :
    RetainedContext :=
  { context with
    verifiedAnswers := (context.verifiedAnswers.zipIdx.filter fun entry =>
      keep entry.2 entry.1.value).map Prod.fst }

/-! ## Rolling back -/

/-- The boundary of a rollback: the explicit order, or the order of the message. -/
def boundary (context : RetainedContext) (firstRemovedMessageId : Option String)
    (source : RetainedInputSource) : Option RetainedContextOrder :=
  (source.acceptanceOrder.map .localOrder).or (firstRemovedMessageId.bind fun id =>
    (context.userMessages.find? fun entry => decide (entry.value.messageId = some id)).map
      Ordered.key)

/-- The entries before a boundary. -/
def before {T : Type} (boundary : RetainedContextOrder) (items : List (Ordered T)) :
    List (Ordered T) :=
  items.filter fun entry => decide (entry.key < boundary)

/-- A message of the family belongs to one of the turns. -/
def hasMessageOf (context : RetainedContext) (turnIds : List String) : Bool :=
  context.userMessages.any fun entry => turnIds.contains entry.value.turnId

/-- Removes the facts from a boundary on; without a boundary, those of the removed turns, and local
ones when the thread only inherits the removal. -/
def rollback (context : RetainedContext) (turnIds : List String)
    (firstRemovedMessageId : Option String) (source : RetainedInputSource) : RetainedContext :=
  match context.boundary firstRemovedMessageId source with
  | some boundary =>
    { context with
      senderDeliveries := before boundary context.senderDeliveries
      verifiedAnswers := before boundary context.verifiedAnswers
      userMessages := before boundary context.userMessages }
  | none =>
    { context with
      userMessagesIncomplete := context.userMessagesIncomplete ||
        (firstRemovedMessageId.isSome || context.hasMessageOf turnIds)
      verifiedAnswers := context.verifiedAnswers.filter fun entry =>
        decide (source ≠ .inherited) && !turnIds.contains entry.value.turnId
      senderDeliveries := context.senderDeliveries.filter fun entry =>
        decide (source ≠ .inherited) && !turnIds.contains entry.value.receiverTurnId
      userMessages := context.userMessages.filter fun entry =>
        (decide (source ≠ .inherited) || entry.inherited) &&
          !turnIds.contains entry.value.turnId }

/-- `user_messages_complete`. -/
def userMessagesComplete (context : RetainedContext) : Bool :=
  !context.userMessagesIncomplete && context.userMessages.all fun entry => entry.value.complete

end RetainedContext

/-! ## Runs -/

/-- The operations on a retained context. -/
inductive Operation where
  | recordUserMessage (message : RetainedUserMessage) (source : RetainedInputSource)
  | record (event : RetainedContextEvent)
  | recordSenderUserMessages (metadata : InputMetadata)
  | reserveOrder
  | recoverUserMessageExcerpts (excerptForId : Nat → String → Option String)
  | retainAnswers (keep : Nat → VerifiedAnswer → Bool)
  | rollback (turnIds : List String) (firstRemovedMessageId : Option String)
      (source : RetainedInputSource)
  | restore (checkpoint : Option RetainedContext) (survivingItems : List (Option InputMetadata))

namespace RetainedContext

/-- One operation. -/
def apply (context : RetainedContext) : Operation → RetainedContext
  | .recordUserMessage message source => context.recordUserMessage message source
  | .record event => context.record event
  | .recordSenderUserMessages metadata => context.recordSenderUserMessages metadata
  | .reserveOrder => context.reserveOrder.2
  | .recoverUserMessageExcerpts excerptForId => context.recoverUserMessageExcerpts excerptForId
  | .retainAnswers keep => context.retainAnswers keep
  | .rollback turnIds firstRemovedMessageId source =>
    context.rollback turnIds firstRemovedMessageId source
  | .restore checkpoint survivingItems => restore checkpoint survivingItems

end RetainedContext

end RenCrow.Retained
