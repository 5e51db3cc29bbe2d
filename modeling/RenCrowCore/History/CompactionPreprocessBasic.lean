import Mathlib.Algebra.GroupWithZero.Nat
import RenCrowCore.History.ArchiveReference
import RenCrowCore.History.CompactionCandidate

/-!
# Preprocessing of candidates: definitions

`history/src/compaction_preprocess.rs`.  `pruneKnownObsolete` applies the source
references that were adopted before to the records they still fit;
`collectInstructionCandidates` shows the rest to a model, with the completion
links the host has verified.
-/

namespace RenCrow

open Serde Fallible Text

/-! ## Pruning -/

/-- The exclusions in force, and the text left of each record that lost some. -/
structure InstructionPruning where
  applied : List SourceRef := []
  retainedHumanText : SortedMap String := []
deriving DecidableEq, Repr

/-- The record of an id in a hash map filled from the records: the last one. -/
def CandidateInput.recordOf (input : CandidateInput) (id : String) : Option CandidateRecord :=
  input.records.reverse.find? fun record => decide (record.id = id)

/-- The accumulators of the pruning loop.  A removal keeps the text it is for. -/
structure PruneState where
  applied : List SourceRef := []
  removals : SortedMap (String × List ByteRange) := []

/-- `entry(id).or_insert_with(|| (text, [])).1.push(range)`. -/
def pushRemoval (removals : SortedMap (String × List ByteRange)) (id text : String)
    (range : ByteRange) : SortedMap (String × List ByteRange) :=
  let entry := (SortedMap.get id removals).getD (text, [])
  SortedMap.insert id (entry.1, entry.2 ++ [range]) removals

/-- One known reference: skipped when its record is gone or has changed. -/
def pruneReference (input : CandidateInput) (snapshot : CompactionSnapshot) (state : PruneState)
    (reference : SourceRef) : Except Failure PruneState :=
  match input.recordOf reference.id with
  | none => .ok state
  | some record =>
    if record.text = "" then .ok state
    else do
      let currentFragment ← mapPlanError "invalid candidate snapshot: "
        (snapshot.reference record.id (fullRange record.text))
      if currentFragment.hash ≠ reference.hash then .ok state
      else
        let currentReference ← mapPlanError "invalid known instruction range: "
          (snapshot.reference record.id reference.range)
        if currentReference ≠ reference then .ok state
        else do
          ensure (!(record.protectedRanges.any (overlaps reference.range) ||
              record.opaqueData.isSome || decide (record.origin = .unknown)))
            (.error "known instruction reference overlaps protected source content")
          ensure (record.origin.isDeclaredInput && decide (record.role = "user"))
            (.error "known instruction reference does not target a declared user source")
          return {
            applied := state.applied ++ [reference]
            removals := pushRemoval state.removals record.id record.text reference.range }

/-- Applies known removals one after another. -/
def pruneReferences (input : CandidateInput) (snapshot : CompactionSnapshot) :
    List SourceRef → PruneState → Except Failure PruneState
  | [], state => .ok state
  | reference :: rest, state => do
    let state ← pruneReference input snapshot state reference
    pruneReferences input snapshot rest state

/-- A text without the ranges, which the check before has left in rising order. -/
def retainText (entry : String × String × List ByteRange) : Except Failure (String × String) :=
  match removeRanges entry.2.1.toList (sortDescending (sortAscending entry.2.2)) with
  | none => .error .panicked
  | some text => .ok (entry.1, String.ofList text)

/-- `prune_known_obsolete`. -/
def pruneKnownObsolete (input : CandidateInput) (known : List SourceRef) :
    Except Failure InstructionPruning := do
  let snapshot ← input.snapshot
  ensure (known.all fun reference => decide (reference.range.start < reference.range.stop))
    (.error "known instruction reference has an empty or reversed range")
  let state ← pruneReferences input snapshot known {}
  ensure (!state.removals.any fun entry =>
      adjacentOverlap (sortAscending entry.2.2))
    (.error "current instruction references have duplicate or overlapping ranges")
  let retained ← state.removals.mapM retainText
  return { applied := state.applied, retainedHumanText := retained }

/-- The text left of a record. -/
def InstructionPruning.retainedText (pruning : InstructionPruning) (record : CandidateRecord) :
    String :=
  (SortedMap.get record.id pruning.retainedHumanText).getD record.text

/-! ## Presentation -/

/-- A link from an instruction to one tool call and its output, made by the host. -/
structure InstructionObservationLink where
  instruction : SourceRef
  call : SourceRef
  output : SourceRef
  terminal : ArchiveReference
deriving DecidableEq, Repr

/-- A link as JSON. -/
def encodeLink (link : InstructionObservationLink) : Json :=
  .object [("instruction", encodeSourceRef link.instruction), ("call", encodeSourceRef link.call),
    ("output", encodeSourceRef link.output), ("terminal", encodeArchiveReference link.terminal)]

/-- The hash of what a selection is shown. -/
def instructionPresentationHash (snapshotHash : String) (applied : List SourceRef)
    (links : List InstructionObservationLink) : String :=
  digest (.object [("contract", .string "rencrow-instruction-presentation-v1"),
    ("snapshot_hash", .string snapshotHash),
    ("applied", .array (applied.map encodeSourceRef)),
    ("links", .array (links.map encodeLink))])

/-- An offset of the original text in the text without the deletions. -/
def rebaseOffset (offset : Nat) (deletions : List ByteRange) : Nat :=
  offset - ((deletions.filter fun range => decide (range.stop ≤ offset)).map
    fun range => range.stop - range.start).sum

/-- The loop of `fully_protected` over ranges in order. -/
def coversUpTo (textLen : Nat) : List ByteRange → Nat → Bool
  | [], _ => false
  | range :: rest, coveredUntil =>
    if coveredUntil < range.start then false
    else if textLen ≤ max coveredUntil range.stop then true
    else coversUpTo textLen rest (max coveredUntil range.stop)

/-- Nothing of a record may be removed. -/
def fullyProtected (text : String) (protectedRanges : List ByteRange) (hasOpaque : Bool) : Bool :=
  if byteLen text.toList = 0 ∨ hasOpaque = true then true
  else coversUpTo (byteLen text.toList) (sortAscending protectedRanges) 0

/-- The ranges of a record's protection in the text that is shown. -/
def rebasedProtection (pruning : InstructionPruning) (record : CandidateRecord) : List ByteRange :=
  let deletions := removedRanges pruning.applied record.id
  record.protectedRanges.map fun range =>
    ⟨rebaseOffset range.start deletions, rebaseOffset range.stop deletions⟩

/-- The record may lose text. -/
def isCandidate (pruning : InstructionPruning) (record : CandidateRecord) : Bool :=
  !fullyProtected (pruning.retainedText record) (rebasedProtection pruning record)
    record.opaqueData.isSome

/-- A range as it is shown. -/
def presentRange (range : ByteRange) : Json :=
  .ofPairs [("start", .ofNat range.start), ("end", .ofNat range.stop)]

/-- A declared record as the model sees it. -/
def presentSource (pruning : InstructionPruning) (record : CandidateRecord) : Json :=
  .ofPairs [("id", .string record.id),
    ("origin", .string (if record.origin = .human then "human" else "automation")),
    ("role", .string record.role),
    ("text", .string (pruning.retainedText record)),
    ("protected", .array ((rebasedProtection pruning record).map presentRange)),
    ("has_opaque", .bool record.opaqueData.isSome),
    ("candidate", .bool (isCandidate pruning record))]

/-- The index of an id in a hash map filled from the records: the last one. -/
def CandidateInput.indexOf (input : CandidateInput) (id : String) : Option Nat :=
  (input.records.zipIdx.reverse.find? fun entry => decide (entry.1.id = id)).map (·.2)

/-- A linked passage is that of the snapshot; the index of its record is returned. -/
def validateLinkReference (input : CandidateInput) (snapshot : CompactionSnapshot)
    (reference : SourceRef) : Except Failure Nat :=
  match input.indexOf reference.id with
  | none => .error (.error "linked source ID is absent from the snapshot")
  | some index => do
    let checked ← mapPlanError "invalid linked source reference: "
      (snapshot.reference reference.id reference.range)
    ensure (decide (checked = reference)) (.error "linked source reference is stale")
    return index

/-- A reference to the whole of a text that is not too long. -/
def isFullBoundedText (reference : SourceRef) (text : String) : Bool :=
  decide (1 ≤ byteLen text.toList) && decide (byteLen text.toList ≤ 2048) &&
    decide (reference.range = fullRange text)

/-- The sets of the link loop, and the links it has presented. -/
structure LinkState where
  instructions : List String := []
  calls : List String := []
  outputs : List String := []
  terminalPairs : List (String × String) := []
  presented : List Json := []

/-- `input.records[index]`. -/
def CandidateInput.recordAt (input : CandidateInput) (index : Nat) :
    Except Failure CandidateRecord :=
  match input.records[index]? with
  | none => .error .panicked
  | some record => .ok record

/-- The text of a range, or the error given. -/
def textAt (text : String) (range : ByteRange) (message : String) : Except Failure String :=
  match slice text.toList range with
  | none => .error (.error message)
  | some part => .ok (String.ofList part)

/-- The checks on one completion link, and its presentation. -/
def collectLink (input : CandidateInput) (snapshot : CompactionSnapshot)
    (pruning : InstructionPruning) (state : LinkState) (link : InstructionObservationLink) :
    Except Failure LinkState := do
  ensure (!(state.instructions.contains link.instruction.id ||
      state.calls.contains link.call.id || state.outputs.contains link.output.id ||
      state.terminalPairs.contains (link.terminal.threadId, link.terminal.callId)))
    (.error "linked instruction or terminal pair is reused")
  let instructionIndex ← validateLinkReference input snapshot link.instruction
  let callIndex ← validateLinkReference input snapshot link.call
  let outputIndex ← validateLinkReference input snapshot link.output
  ensure (decide (instructionIndex < callIndex) && decide (callIndex < outputIndex))
    (.error "linked instruction and observation sources are out of order")
  let instruction ← input.recordAt instructionIndex
  let call ← input.recordAt callIndex
  let output ← input.recordAt outputIndex
  -- a declared record has an entry in `candidate_humans`, any other one has not
  ensure (!(!instruction.origin.isDeclaredInput || decide (instruction.role ≠ "user") ||
      instruction.opaqueData.isSome ||
      pruning.applied.any (fun reference => decide (reference.id = instruction.id)) ||
      !isCandidate pruning instruction))
    (.error "linked instruction is not an unpruned Human candidate")
  ensure (!instruction.protectedRanges.any (overlaps link.instruction.range))
    (.error "linked instruction range is protected")
  ensure (!(decide (call.origin ≠ .work) || call.executionEvidence ||
      call.opaqueData.isSome || !call.protectedRanges.isEmpty || decide (output.origin ≠ .work) ||
      !output.executionEvidence || output.opaqueData.isSome || !output.protectedRanges.isEmpty))
    (.error "linked call/output do not have ordinary work provenance")
  ensure (isFullBoundedText link.call call.text && isFullBoundedText link.output output.text)
    (.error "linked call/output must be full text between 1 and 2048 bytes")
  ensure (!(decide (link.terminal.version ≠ archiveReferenceVersion) ||
      isBlank link.terminal.threadId || isBlank link.terminal.callId ||
      !link.terminal.validatesTerminal ||
      decide (link.terminal.originalContentSha256 ≠ contentSha256 output.text)))
    (.error "linked terminal reference is invalid or does not match output text")
  let callText ← textAt call.text link.call.range "linked call range is not valid UTF-8 text"
  let outputText ← textAt output.text link.output.range
    "linked output range is not valid UTF-8 text"
  return {
    instructions := state.instructions ++ [link.instruction.id]
    calls := state.calls ++ [link.call.id]
    outputs := state.outputs ++ [link.output.id]
    terminalPairs := state.terminalPairs ++ [(link.terminal.threadId, link.terminal.callId)]
    presented := state.presented ++ [.ofPairs [("instruction_id", .string instruction.id),
      ("instruction_range", presentRange link.instruction.range),
      ("call_source_id", .string call.id), ("output_source_id", .string output.id),
      ("tool_call_id", .string link.terminal.callId), ("call_text", .string callText),
      ("output_text", .string outputText),
      ("terminal_status", encodeArchiveTerminalStatus link.terminal.status),
      ("terminal_exit_code", .ofInt link.terminal.exitCode), ("candidate_only", .bool true)]] }

/-- Checks links one after another. -/
def collectLinks (input : CandidateInput) (snapshot : CompactionSnapshot)
    (pruning : InstructionPruning) :
    List InstructionObservationLink → LinkState → Except Failure LinkState
  | [], state => .ok state
  | link :: rest, state => do
    let state ← collectLink input snapshot pruning state link
    collectLinks input snapshot pruning rest state

/-- `collect_instruction_candidates`. -/
def collectInstructionCandidates (input : CandidateInput) (pruning : InstructionPruning)
    (links : List InstructionObservationLink) : Except Failure (Option Json) := do
  let snapshot ← input.snapshot
  let checkedPruning ← pruneKnownObsolete input pruning.applied
  ensure (decide (checkedPruning = pruning))
    (.error "instruction pruning projection does not match its source references")
  let declared := input.records.filter fun record => record.origin.isDeclaredInput
  let state ← collectLinks input snapshot pruning links {}
  if !declared.any (isCandidate pruning) then return none
  else return some (.ofPairs [("schema_version", .ofNat 1),
    ("snapshot_hash", .string snapshot.hash),
    ("presentation_hash",
      .string (instructionPresentationHash snapshot.hash pruning.applied links)),
    ("sources", .array (declared.map (presentSource pruning))),
    ("completion_links", .array state.presented)])

end RenCrow
