import RenCrowCore.Core.NativeProjectionBasic
import RenCrowCore.Lib.Splice

/-!
# Emergency compaction

`core/src/compact_rencrow_emergency.rs`, with the projection of unhandled
observations (`core/src/compact_rencrow_observation.rs`) and the host's slot for
the initial context (`core/src/compact_rencrow_native.rs`).

Emergency asks no model.  It keeps declared input with the removals already
accepted, whatever is protected, every observation no summary covers, and all
work after the boundary of the last summary; it may replace an output with a
marker that is made, and can be made again, from the rollout.
-/

namespace RenCrow

open Fallible

/-! ## Markers -/

/-- The plain text of an output item. -/
def outputTextContent : ResponseItem → Option String
  | .functionCallOutput _ _ _ _ output _ | .customToolCallOutput _ _ _ output _ =>
    output.textContent
  | _ => none

/-- The metadata of the output that an original slot stands for. -/
def sourceOutputMetadata (original : ResponseItemEnvelope) : Option CodexHarnessMetadata :=
  original.metadata.map fun metadata => { metadata with rencrowObservationProjection := none }

/-- The output item with a text for its body. -/
def withTextBody (text : String) : ResponseItem → Option ResponseItem
  | .functionCallOutput id callId name nameSpace output passthrough =>
    some (.functionCallOutput id callId name nameSpace { output with body := .text text }
      passthrough)
  | .customToolCallOutput id callId name output passthrough =>
    some (.customToolCallOutput id callId name { output with body := .text text } passthrough)
  | _ => none

/-- `marker_output`: an output whose body is replaced with its marker. -/
def markerOutput (original : ResponseItemEnvelope) (projection : ObservationProjection) :
    Except String ResponseItemEnvelope := do
  let item ← (withTextBody (observationMarkerBody projection) original.item).elim
    (.error "observation marker target is not a tool output") .ok
  let metadata ← observationMarkerMetadata (sourceOutputMetadata original) projection.coverage
  return ⟨item, some metadata⟩

/-! ## The plan -/

/-- What an emergency compaction has found out about a history. -/
structure EmergencyPlan where
  originals : List ResponseItemEnvelope
  input : CandidateInput
  native : NativeProjection
  unhandledPairs : List (Nat × Nat)
  markers : List (Nat × ObservationProjection)
  workBoundary : Option Nat
  summaryText : String

/-- What the plan requires at one position of the history. -/
inductive Slot where
  | retained (envelope : ResponseItemEnvelope)
  | marker (projection : ObservationProjection)
  | original
  | dropped

namespace EmergencyPlan

/-- The items of the native projection by position. -/
def retainedByOriginalIndex (plan : EmergencyPlan) : List (Nat × ResponseItemEnvelope) :=
  plan.native.retained.map fun item => (item.originalIndex, item.envelope)

/-- The positions of the unhandled pairs. -/
def pairSlots (plan : EmergencyPlan) : List Nat :=
  plan.unhandledPairs.flatMap fun pair => [pair.1, pair.2]

/-- The slot of one position. -/
def slotAt (plan : EmergencyPlan) (index : Nat) (record : CandidateRecord)
    (original : ResponseItemEnvelope) : Slot :=
  match lastAt index plan.retainedByOriginalIndex with
  | some envelope => .retained envelope
  | none =>
    match lastAt index plan.markers with
    | some projection => .marker projection
    | none =>
      if index ∈ plan.pairSlots ∨ (record.origin = .work ∧
          plan.workBoundary.all (fun boundary => decide (boundary < index)) = true ∧
          isUserSummary original = false) then .original
      else .dropped

/-- `EmergencyPlan::slots`. -/
def slots (plan : EmergencyPlan) : Except String (List Slot) := do
  ensure (decide (plan.input.records.length = plan.originals.length))
    "emergency history and candidate record counts differ"
  ensure (plan.markers.all fun marker => decide (marker.1 ∈ plan.pairSlots))
    "emergency marker targets a handled or unpaired output"
  return (plan.input.records.zip plan.originals).mapIdx fun index entry =>
    plan.slotAt index entry.1 entry.2

end EmergencyPlan

/-! ## The host's slot for the initial context -/

/-- A message of another agent that is not its final answer. -/
def isAgentTurn : ResponseItem → Bool
  | .agentMessage _ _ _ content _ =>
    match content.head? with
    | some (.inputText text) =>
      !"Message Type: FINAL_ANSWER\n".toList.isPrefixOf text.toList
    | _ => true
  | _ => false

/-- An item that a compaction wrote. -/
def isCompactionItem : ResponseItem → Bool
  | .compaction .. | .contextCompaction .. => true
  | _ => false

/-- The walk of `host_insertion_index`, from the last item to the first. -/
def hostScan : List (ResponseItemEnvelope × Nat) → Option Nat → Option Nat → Option Nat
  | [], lastSummary, lastCompaction => lastSummary.or lastCompaction
  | (envelope, index) :: rest, lastSummary, lastCompaction =>
    if isAgentTurn envelope.item then some index
    else if isUserMessage envelope.item then
      if isProvenanceSummary envelope then
        hostScan rest (lastSummary.or (some index)) lastCompaction
      else some index
    else if isCompactionItem envelope.item then
      hostScan rest lastSummary (lastCompaction.or (some index))
    else hostScan rest lastSummary lastCompaction

/-- `host_insertion_index`. -/
def hostInsertionIndex (history : List ResponseItemEnvelope) : Option Nat :=
  hostScan history.zipIdx.reverse none none

/-- `insertion_index`: the host's slot in a body that a summary follows. -/
def insertionIndex (body : List ResponseItemEnvelope) (summary : ResponseItemEnvelope) : Nat :=
  min ((hostInsertionIndex (body ++ [summary])).getD body.length) body.length

/-! ## Building -/

/-- The typed summary at the end of a checkpoint. -/
def EmergencyPlan.summaryItem (plan : EmergencyPlan) : ResponseItemEnvelope :=
  ⟨fragmentItem "user" "compaction.summary" plan.summaryText, none⟩

/-- What the builder puts at one position. -/
def buildSlot (original : ResponseItemEnvelope) : Slot → Except String (Option ResponseItemEnvelope)
  | .retained envelope => .ok (some envelope)
  | .marker projection => some <$> markerOutput original projection
  | .original => .ok (some original)
  | .dropped => .ok none

/-- The body of the checkpoint: the history without context and summary. -/
def EmergencyPlan.body (plan : EmergencyPlan) : Except String (List ResponseItemEnvelope) := do
  let slots ← plan.slots
  let items ← (slots.zip plan.originals).mapM fun entry => buildSlot entry.2 entry.1
  return items.filterMap fun item => item

/-- `EmergencyPlan::build`. -/
def EmergencyPlan.build (plan : EmergencyPlan) (initialContext : List ResponseItemEnvelope) :
    Except String (List ResponseItemEnvelope) := do
  let body ← plan.body
  let insertion := insertionIndex body plan.summaryItem
  return Splice.insertAt insertion initialContext body ++ [plan.summaryItem]

/-! ## Validating -/

/-- The search for the position at which the initial context was put in. -/
def searchInitialContext (items initialContext : List ResponseItemEnvelope)
    (summary : ResponseItemEnvelope) : List Nat → Except String (List ResponseItemEnvelope)
  | [] => .error "emergency candidate places the initial context outside the host slot"
  | start :: rest =>
    let body := items.take start ++ items.drop (start + initialContext.length)
    if (items.drop start).take initialContext.length = initialContext ∧
        insertionIndex body summary = start then .ok body
    else searchInitialContext items initialContext summary rest

/-- `remove_initial_context`. -/
def removeInitialContext (items initialContext : List ResponseItemEnvelope)
    (summary : ResponseItemEnvelope) : Except String (List ResponseItemEnvelope) :=
  if initialContext.isEmpty then .ok items
  else if items.length < initialContext.length then
    .error "emergency candidate omits the initial context"
  else searchInitialContext items initialContext summary
    (List.range (items.length - initialContext.length + 1))

/-- The item with the body of the original, if both are outputs of one type. -/
def restoreBody : ResponseItem → ResponseItem → Option ResponseItem
  | .functionCallOutput id callId name nameSpace output passthrough,
    .functionCallOutput _ _ _ _ originalOutput _ =>
      some (.functionCallOutput id callId name nameSpace
        { output with body := originalOutput.body } passthrough)
  | .customToolCallOutput id callId name output passthrough,
    .customToolCallOutput _ _ _ originalOutput _ =>
      some (.customToolCallOutput id callId name { output with body := originalOutput.body }
        passthrough)
  | _, _ => none

/-- `verify_marker_output`. -/
def verifyMarkerOutput (original actual : ResponseItemEnvelope)
    (projection : ObservationProjection) : Except String Unit := do
  let body ← (outputTextContent actual.item).elim
    (.error "emergency marker output is not text") .ok
  verifyObservationMarker projection (sourceOutputMetadata original) actual.metadata body
  let restored ← (restoreBody actual.item original.item).elim
    (.error "emergency marker changed the output item type") .ok
  ensure (decide (restored = original.item))
    "emergency marker changed the output identity"

/-- The body of a candidate against the slots of the plan. -/
def validateSlots : List (Slot × ResponseItemEnvelope) → List ResponseItemEnvelope →
    Except String Unit
  | [], [] => .ok ()
  | [], _ :: _ => .error "emergency candidate adds items outside the plan"
  | (.dropped, _) :: rest, body => validateSlots rest body
  | _ :: _, [] => .error "emergency candidate omits a retained item"
  | (.marker projection, original) :: rest, actual :: body => do
    verifyMarkerOutput original actual projection
    validateSlots rest body
  | (.retained expected, _) :: rest, actual :: body => do
    ensure (decide (actual = expected))
      "emergency candidate changed, reordered, or dropped a retained item"
    validateSlots rest body
  | (.original, original) :: rest, actual :: body => do
    ensure (decide (actual = original))
      "emergency candidate changed, reordered, or dropped a retained item"
    validateSlots rest body

/-- A user message whose only entry is the given text. -/
def isTextMessage (text : String) : ResponseItem → Bool
  | .message _ role [.inputText body] _ _ => decide (role = "user") && decide (body = text)
  | _ => false

/-- `EmergencyPlan::validate`. -/
def EmergencyPlan.validate (plan : EmergencyPlan) (initialContext candidate :
    List ResponseItemEnvelope) : Except String Unit :=
  match candidate.getLast? with
  | none => .error "emergency candidate is empty"
  | some summary => do
    ensure (isTextMessage plan.summaryText summary.item)
      "emergency candidate does not end with its planned summary"
    let body ← removeInitialContext candidate.dropLast initialContext summary
    let slots ← plan.slots
    validateSlots (slots.zip plan.originals) body

end RenCrow
