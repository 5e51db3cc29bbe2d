import RenCrowCore.Lib.Json

/-!
# Response items

The items of a model history, as `protocol/src/models.rs` declares them: the
eighteen variants of `ResponseItem` with their content, the passthrough
metadata, and the accessors `id`, `setId` and `idPrefix` that assign a fresh
identifier to an item that lacks one.

A field that no modelled function looks into (the action of a web search, the
summary of a reasoning item, …) is carried in its serialized form.
-/

namespace RenCrow

open Serde

/-! ## Content -/

/-- How closely an image is to be looked at. -/
inductive ImageDetail where
  | auto
  | low
  | high
  | original
deriving DecidableEq, Repr, Inhabited

/-- Where the bytes of an image are. -/
inductive ImageReference where
  | inline (imageUrl : String)
  | file (fileId : String)
deriving DecidableEq, Repr, Inhabited

/-- One entry of a message. -/
inductive ContentItem where
  | inputText (text : String)
  | inputImage (image : ImageReference) (detail : Option ImageDetail)
  | inputAudio (audioUrl : String)
  | outputText (text : String)
deriving DecidableEq, Repr, Inhabited

/-- One entry of a message between agents. -/
inductive AgentMessageInputContent where
  | inputText (text : String)
  | encryptedContent (encryptedContent : String)
deriving DecidableEq, Repr, Inhabited

/-- One entry of a structured tool output. -/
inductive FunctionCallOutputContentItem where
  | inputText (text : String)
  | inputImage (image : ImageReference) (detail : Option ImageDetail)
  | inputAudio (audioUrl : String)
  | encryptedContent (encryptedContent : String)
deriving DecidableEq, Repr, Inhabited

/-- The body of a tool output. -/
inductive FunctionCallOutputBody where
  | text (text : String)
  | contentItems (items : List FunctionCallOutputContentItem)
deriving DecidableEq, Repr, Inhabited

/-- A tool output; `success` is internal and never serialized. -/
structure FunctionCallOutputPayload where
  body : FunctionCallOutputBody
  success : Option Bool := none
deriving DecidableEq, Repr, Inhabited

/-- The plain text of an output, when its body is text. -/
def FunctionCallOutputPayload.textContent (output : FunctionCallOutputPayload) : Option String :=
  match output.body with
  | .text text => some text
  | .contentItems _ => none

/-- The phase of an assistant message. -/
inductive MessagePhase where
  | commentary
  | finalAnswer
deriving DecidableEq, Repr, Inhabited

/-- Metadata copied into the underlying chat message. -/
structure InternalChatMessageMetadataPassthrough where
  turnId : Option String := none
  createTime : Option JsonNumber := none
  /-- Classifications aligned with the item's content entries. -/
  contentItemKinds : Option (List String) := none
  cellId : Option String := none
  executedToolCalls : Option (List Json) := none
  toolCallsComplete : Option Bool := none
deriving DecidableEq, Repr, Inhabited

/-- The passthrough metadata of an item, under a shorter name. -/
abbrev Passthrough := InternalChatMessageMetadataPassthrough

/-- The status of a local shell call. -/
inductive LocalShellStatus where
  | completed
  | inProgress
  | incomplete
deriving DecidableEq, Repr, Inhabited

/-! ## Response items -/

/-- An item of the model history. -/
inductive ResponseItem where
  | additionalTools (id : Option String) (role : String) (tools : List Json)
  | message (id : Option String) (role : String) (content : List ContentItem)
      (phase : Option MessagePhase) (passthrough : Option Passthrough)
  | agentMessage (id : Option String) (author recipient : String)
      (content : List AgentMessageInputContent) (passthrough : Option Passthrough)
  | reasoning (id : Option String) (summary : List Json) (content : Option (List Json))
      (encryptedContent : Option String) (passthrough : Option Passthrough)
  | localShellCall (id callId : Option String) (status : LocalShellStatus) (action : Json)
      (passthrough : Option Passthrough)
  | functionCall (id : Option String) (name : String) (nameSpace : Option String)
      (arguments : String) (encryptedFunctionArgs : Option (List String)) (callId : String)
      (passthrough : Option Passthrough)
  | toolSearchCall (id callId status : Option String) (execution : String) (arguments : Json)
      (passthrough : Option Passthrough)
  | functionCallOutput (id callId name nameSpace : Option String)
      (output : FunctionCallOutputPayload) (passthrough : Option Passthrough)
  | customToolCall (id status : Option String) (callId name : String)
      (nameSpace : Option String) (input : String) (passthrough : Option Passthrough)
  | customToolCallOutput (id : Option String) (callId : String) (name : Option String)
      (output : FunctionCallOutputPayload) (passthrough : Option Passthrough)
  | toolSearchOutput (id callId : Option String) (status execution : String) (tools : List Json)
      (passthrough : Option Passthrough)
  | webSearchCall (id status : Option String) (action : Option Json)
      (passthrough : Option Passthrough)
  | imageGenerationCall (id : Option String) (status : String) (revisedPrompt : Option String)
      (result : String) (passthrough : Option Passthrough)
  | compaction (id : Option String) (encryptedContent : String) (passthrough : Option Passthrough)
  | configurationUpdate (reasoning : Json)
  | compactionTrigger
  | contextCompaction (id encryptedContent : Option String) (passthrough : Option Passthrough)
  | other
deriving DecidableEq, Repr, Inhabited

namespace ResponseItem

/-- The identifier of an item, if it has one. -/
def id : ResponseItem → Option String
  | additionalTools id .. | message id .. | agentMessage id .. | localShellCall id ..
  | functionCall id .. | toolSearchCall id .. | functionCallOutput id .. | customToolCall id ..
  | customToolCallOutput id .. | toolSearchOutput id .. | webSearchCall id .. | reasoning id ..
  | imageGenerationCall id .. | compaction id .. | contextCompaction id .. => id
  | configurationUpdate _ | compactionTrigger | other => none

/-- The item with its identifier set, for the variants that carry one. -/
def setId (newId : Option String) : ResponseItem → ResponseItem
  | additionalTools _ role tools => additionalTools newId role tools
  | message _ role content phase p => message newId role content phase p
  | agentMessage _ author recipient content p => agentMessage newId author recipient content p
  | reasoning _ summary content enc p => reasoning newId summary content enc p
  | localShellCall _ callId status action p => localShellCall newId callId status action p
  | functionCall _ name ns args enc callId p => functionCall newId name ns args enc callId p
  | toolSearchCall _ callId status execution args p =>
    toolSearchCall newId callId status execution args p
  | functionCallOutput _ callId name ns output p =>
    functionCallOutput newId callId name ns output p
  | customToolCall _ status callId name ns input p =>
    customToolCall newId status callId name ns input p
  | customToolCallOutput _ callId name output p => customToolCallOutput newId callId name output p
  | toolSearchOutput _ callId status execution tools p =>
    toolSearchOutput newId callId status execution tools p
  | webSearchCall _ status action p => webSearchCall newId status action p
  | imageGenerationCall _ status prompt result p =>
    imageGenerationCall newId status prompt result p
  | compaction _ enc p => compaction newId enc p
  | contextCompaction _ enc p => contextCompaction newId enc p
  | configurationUpdate r => configurationUpdate r
  | compactionTrigger => compactionTrigger
  | other => other

/-- The prefix of a fresh identifier, for the variants that carry one. -/
def idPrefix : ResponseItem → Option String
  | additionalTools .. => some "at"
  | message .. => some "msg"
  | agentMessage .. => some "amsg"
  | reasoning .. => some "rs"
  | localShellCall .. => some "lsh"
  | functionCall .. => some "fc"
  | toolSearchCall .. => some "tsc"
  | functionCallOutput .. => some "fco"
  | customToolCall .. => some "ctc"
  | customToolCallOutput .. => some "ctco"
  | toolSearchOutput .. => some "tso"
  | webSearchCall .. => some "ws"
  | imageGenerationCall .. => some "ig"
  | compaction .. | contextCompaction .. => some "cmp"
  | configurationUpdate _ | compactionTrigger | other => none

end ResponseItem

end RenCrow
