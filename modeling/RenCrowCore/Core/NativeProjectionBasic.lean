import RenCrowCore.History.CompactionSelection
import RenCrowCore.History.ObservationProjection

/-!
# What the host recognises in a history

The summaries of earlier compactions, the items that a native projection keeps, and the
messages that the host writes itself (`core/src/compact_rencrow_native.rs`,
`core/src/compact_rencrow_timeline.rs`).
-/

namespace RenCrow

open Serde Fallible Text SortedMap

/-! ## Values by position -/

/-- The value of a position in a hash map filled from a list: the last one. -/
def lastAt {α : Type} (index : Nat) (entries : List (Nat × α)) : Option α :=
  (entries.reverse.find? fun entry => decide (entry.1 = index)).map Prod.snd

/-! ## Items the host recognises -/

/-- The kinds of a message are given for every entry and pass a test. -/
def kindsAll (test : String → Bool) (passthrough : Option Passthrough)
    (content : List ContentItem) : Bool :=
  (passthrough.bind InternalChatMessageMetadataPassthrough.contentItemKinds).any fun kinds =>
    !kinds.isEmpty && decide (kinds.length = content.length) && kinds.all test

/-- A message of the user. -/
def isUserMessage : ResponseItem → Bool
  | .message _ role .. => decide (role = "user")
  | _ => false

/-- `is_provenance_summary`: a summary by its metadata, whatever its text. -/
def isProvenanceSummary (envelope : ResponseItemEnvelope) : Bool :=
  let author := (envelope.metadata.bind CodexHarnessMetadata.rencrowInput).bind fun intake =>
    (intake.get "author").bind Json.asStr
  if author = some "human" then false
  else if envelope.metadata.any (fun m => m.rencrowCompaction.isSome) then true
  else
    match envelope.item with
    | .message _ _ content _ passthrough =>
      kindsAll (fun kind => decide (kind = "compaction.summary")) passthrough content
    | _ => false

/-- A summary that an earlier compaction wrote as a message of the user. -/
def isUserSummary (envelope : ResponseItemEnvelope) : Bool :=
  isUserMessage envelope.item && isProvenanceSummary envelope

/-! ## What is kept -/

/-- An item that is kept, with its place. -/
structure RetainedItem where
  originalIndex : Nat
  envelope : ResponseItemEnvelope
deriving DecidableEq, Repr

/-- A message of the user that is written again. -/
structure CompactedUserMessage where
  id : Option String
  message : String
  passthrough : Option Passthrough
  harnessMetadata : Option CodexHarnessMetadata
deriving DecidableEq, Repr

/-- One checked projection: the kept items, the user messages among them, and the
note before the summary. -/
structure NativeProjection where
  retained : List RetainedItem
  userMessages : List CompactedUserMessage
  timelineNote : Option ResponseItemEnvelope
deriving DecidableEq, Repr

/-! ## Messages of the host -/

/-- A fragment that the host injects as a message of its own. -/
def fragmentItem (role kind text : String) : ResponseItem :=
  .message none role [.inputText text] none (some { contentItemKinds := some [kind] })

end RenCrow
