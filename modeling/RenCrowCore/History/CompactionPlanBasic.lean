import RenCrowCore.History.CompactionTransactionBasic

/-!
# Deletion plans: definitions

`history/src/compaction_plan.rs`.  A snapshot holds the fragments of a
conversation with the spans the host protects; a model proposes operations that
delete passages, each with a witness passage that justifies the deletion; and a
review names the operations to apply.  `validatePlanStructure` checks every
operation, `CompactionSnapshot.apply` deletes the accepted ones.
-/

namespace RenCrow

open Serde Text

/-! ## Fragments, operations, plans -/

/-- What a fragment is. -/
inductive SourceKind where
  | userInstruction
  | automationInstruction
  | executionEvidence
  | context
deriving DecidableEq, Repr, Inhabited

/-- A host-authored passage. -/
structure SourceFragment where
  id : String
  scope : String
  kind : SourceKind
  text : String
  /-- Spans that may not be deleted. -/
  protectedRanges : List ByteRange
deriving DecidableEq, Repr, Inhabited

/-- A user instruction is superseded by the user only, automation input also by
later automation. -/
def maySupersede : SourceKind → SourceKind → Bool
  | .userInstruction, .userInstruction | .userInstruction, .automationInstruction
  | .automationInstruction, .automationInstruction => true
  | _, _ => false

/-- A passage of a fragment, bound to the fragment's content by its hash. -/
structure SourceRef where
  id : String
  hash : String
  range : ByteRange
deriving DecidableEq, Repr, Inhabited

/-- What a plan does with a passage. -/
inductive Operation where
  | keep (source : SourceRef)
  | dropSuperseded (source correction : SourceRef)
  | replaceCompleted (source evidence : SourceRef) (result : String)
deriving DecidableEq, Repr, Inhabited

/-- The passage an operation is about. -/
def Operation.source : Operation → SourceRef
  | .keep source | .dropSuperseded source _ | .replaceCompleted source _ _ => source

/-- The passage that justifies a deletion. -/
def Operation.witness : Operation → Option SourceRef
  | .keep _ => none
  | .dropSuperseded _ correction => some correction
  | .replaceCompleted _ evidence _ => some evidence

/-- A plan over a snapshot. -/
structure CompactionPlan where
  schemaVersion : Nat
  snapshotHash : String
  operations : List Operation
deriving DecidableEq, Repr

/-- The operations of a plan that a reviewer accepts. -/
structure SemanticReview where
  planHash : String
  acceptedOperations : List Nat
deriving DecidableEq, Repr

/-- Why a plan is refused. -/
inductive PlanError where
  | invalidSnapshot
  | invalidSchema
  | staleSnapshot
  | staleReview
  | invalidReview
  | unknownReference
  | staleReference
  | invalidRange
  | overlappingOperations
  | protectedSource
  | invalidEvidence
  | removedEvidence
  | invalidResult
  | serialization
  /-- The Rust code panics. -/
  | panicked
deriving DecidableEq, Repr, Inhabited

/-! ## Serialized forms and hashes -/

/-- A range as JSON. -/
def encodeByteRange (range : ByteRange) : Json :=
  .object [("start", .ofNat range.start), ("end", .ofNat range.stop)]

/-- A kind as JSON. -/
def encodeSourceKind : SourceKind → Json
  | .userInstruction => .string "user_instruction"
  | .automationInstruction => .string "automation_instruction"
  | .executionEvidence => .string "execution_evidence"
  | .context => .string "context"

/-- A fragment as JSON. -/
def encodeFragment (fragment : SourceFragment) : Json :=
  .object [("id", .string fragment.id), ("scope", .string fragment.scope),
    ("kind", encodeSourceKind fragment.kind), ("text", .string fragment.text),
    ("protected", .array (fragment.protectedRanges.map encodeByteRange))]

/-- A reference as JSON. -/
def encodeSourceRef (reference : SourceRef) : Json :=
  .object [("id", .string reference.id), ("hash", .string reference.hash),
    ("range", encodeByteRange reference.range)]

/-- An operation as JSON. -/
def encodeOperation : Operation → Json
  | .keep source => .object [("action", .string "keep"), ("source", encodeSourceRef source)]
  | .dropSuperseded source correction =>
    .object [("action", .string "drop_superseded"), ("source", encodeSourceRef source),
      ("correction", encodeSourceRef correction)]
  | .replaceCompleted source evidence result =>
    .object [("action", .string "replace_completed"), ("source", encodeSourceRef source),
      ("evidence", encodeSourceRef evidence), ("result", .string result)]

/-- `CompactionPlan::hash`. -/
def CompactionPlan.hash (plan : CompactionPlan) : String :=
  digest (.object [("schema_version", .ofNat plan.schemaVersion),
    ("snapshot_hash", .string plan.snapshotHash),
    ("operations", .array (plan.operations.map encodeOperation))])

/-- The hash a reference to a fragment carries. -/
def SourceFragment.hash (fragment : SourceFragment) : String := digest (encodeFragment fragment)

/-! ## Snapshots -/

/-- A nonempty range whose ends are character boundaries of the text. -/
def validRange (text : String) (range : ByteRange) : Bool :=
  decide (range.start < range.stop) && (slice text.toList range).isSome

/-- What `capture` checks of the fragments. -/
def validFragments (fragments : List SourceFragment) : Bool :=
  fragments.all (fun fragment => !isBlank fragment.id && !isBlank fragment.scope &&
    fragment.protectedRanges.all (validRange fragment.text)) &&
  decide (fragments.map (·.id)).Nodup

/-- A captured snapshot.  Its fields are private in the source, so that only
`capture` makes one; the checks it makes are part of the value. -/
structure CompactionSnapshot where
  binding : String
  fragments : List SourceFragment
  hash : String
  valid : validFragments fragments = true

/-- Takes a snapshot of fragments that are well formed. -/
def CompactionSnapshot.capture (binding : String) (fragments : List SourceFragment) :
    Except PlanError CompactionSnapshot :=
  if h : !isBlank binding && validFragments fragments then
    .ok {
      binding
      fragments
      hash := digest (.array [.string binding, .array (fragments.map encodeFragment)])
      valid := (Bool.and_eq_true_iff.mp h).2 }
  else .error .invalidSnapshot

/-- The position and the fragment a reference is about. -/
def CompactionSnapshot.resolve (snapshot : CompactionSnapshot) (reference : SourceRef) :
    Except PlanError (Nat × SourceFragment) :=
  match snapshot.fragments.zipIdx.find? (fun p => decide (p.1.id = reference.id)) with
  | none => .error .unknownReference
  | some (fragment, index) =>
    if fragment.hash ≠ reference.hash then .error .staleReference
    else if !validRange fragment.text reference.range then .error .invalidRange
    else .ok (index, fragment)

/-- `CompactionSnapshot::reference`. -/
def CompactionSnapshot.reference (snapshot : CompactionSnapshot) (id : String)
    (range : ByteRange) : Except PlanError SourceRef :=
  match snapshot.fragments.find? (fun fragment => decide (fragment.id = id)) with
  | none => .error .unknownReference
  | some fragment =>
    if !validRange fragment.text range then .error .invalidRange
    else .ok ⟨id, fragment.hash, range⟩

/-- The plan is of this schema and this snapshot; its hash is returned. -/
def CompactionSnapshot.validatePlanHeader (snapshot : CompactionSnapshot) (plan : CompactionPlan) :
    Except PlanError String :=
  if plan.schemaVersion ≠ 1 then .error .invalidSchema
  else if snapshot.hash ≠ plan.snapshotHash then .error .staleSnapshot
  else .ok plan.hash

/-! ## Structural validation -/

/-- A result a model wrote for a completed instruction. -/
structure DerivedResult where
  source : SourceRef
  evidence : SourceRef
  text : String
deriving DecidableEq, Repr

/-- What the validation loop has collected. -/
structure PlanState where
  sources : List SourceRef := []
  removed : List SourceRef := []
  witnesses : List SourceRef := []
  results : List DerivedResult := []
  applied : List Nat := []
  unresolved : List Nat := []

/-- Two references meet in one fragment. -/
def SourceRef.meets (a b : SourceRef) : Bool := decide (a.id = b.id) && overlaps a.range b.range

/-- The check of an operation's witness against the passage it deletes. -/
def validateWitness (snapshot : CompactionSnapshot) (sourceIndex : Nat)
    (fragment : SourceFragment) : Operation → Except PlanError (Option SourceRef)
  | .keep _ => .ok none
  | .dropSuperseded source correction => do
    let (index, correcting) ← snapshot.resolve correction
    if index < sourceIndex ∨ (index = sourceIndex ∧ correction.range.start < source.range.stop) ∨
        maySupersede correcting.kind fragment.kind = false ∨ correcting.scope ≠ fragment.scope then
      .error .invalidEvidence
    else .ok (some correction)
  | .replaceCompleted _ evidence result => do
    let (index, proving) ← snapshot.resolve evidence
    if index ≤ sourceIndex ∨ proving.kind ≠ .executionEvidence ∨
        proving.scope ≠ fragment.scope then
      .error .invalidEvidence
    else if isBlank result then .error .invalidResult
    else .ok (some evidence)

/-- The result an applied operation contributes. -/
def Operation.result? : Operation → Option DerivedResult
  | .replaceCompleted source evidence result => some ⟨source, evidence, result⟩
  | _ => none

/-- One iteration of the validation loop, on operation number `i`. -/
def validateOperation (snapshot : CompactionSnapshot) (accepted : List Nat) (state : PlanState)
    (i : Nat) (operation : Operation) : Except PlanError PlanState := do
  let source := operation.source
  let (sourceIndex, fragment) ← snapshot.resolve source
  if state.sources.any (·.meets source) then .error .overlappingOperations
  else
    let state := { state with sources := state.sources ++ [source] }
    match operation with
    | .keep _ => .ok state
    | _ =>
      if (fragment.kind ≠ .userInstruction ∧ fragment.kind ≠ .automationInstruction) ∨
          fragment.protectedRanges.any (overlaps · source.range) = true then
        .error .protectedSource
      else
        let evidence ← validateWitness snapshot sourceIndex fragment operation
        if !accepted.contains i then .ok { state with unresolved := state.unresolved ++ [i] }
        else .ok { state with
          removed := state.removed ++ [source]
          witnesses := state.witnesses ++ evidence.toList
          results := state.results ++ operation.result?.toList
          applied := state.applied ++ [i] }

/-- The validation loop from operation number `i` on. -/
def validateOperations (snapshot : CompactionSnapshot) (accepted : List Nat) :
    List Operation → Nat → PlanState → Except PlanError PlanState
  | [], _, state => .ok state
  | operation :: rest, i, state => do
    let state ← validateOperation snapshot accepted state i operation
    validateOperations snapshot accepted rest (i + 1) state

/-- The effects of a plan that passed validation. -/
structure ValidatedPlanStructure where
  planHash : String
  removed : List SourceRef
  witnesses : List SourceRef
  results : List DerivedResult
  appliedOperations : List Nat
  unresolvedOperations : List Nat

/-- Every operation is checked; witnesses are checked against the removals of the
accepted operations. -/
def CompactionSnapshot.validatePlanStructure (snapshot : CompactionSnapshot)
    (plan : CompactionPlan) (accepted : List Nat) (planHash : String) :
    Except PlanError ValidatedPlanStructure := do
  let state ← validateOperations snapshot accepted plan.operations 0 {}
  if state.witnesses.any (fun witness => state.removed.any witness.meets) then
    .error .removedEvidence
  else .ok {
    planHash
    removed := state.removed
    witnesses := state.witnesses
    results := state.results
    appliedOperations := state.applied
    unresolvedOperations := state.unresolved }

/-! ## Application -/

/-- What is left of a fragment. -/
structure RetainedFragment where
  id : String
  kind : SourceKind
  text : String
deriving DecidableEq, Repr

/-- The view of a conversation after its plan. -/
structure CompactionView where
  snapshotHash : String
  planHash : String
  retained : List RetainedFragment
  results : List DerivedResult
  appliedOperations : List Nat
  unresolvedOperations : List Nat
deriving DecidableEq, Repr

/-- The ranges removed from a fragment. -/
def removedRanges (removed : List SourceRef) (id : String) : List ByteRange :=
  (removed.filter fun reference => decide (reference.id = id)).map (·.range)

/-- A fragment without the removed passages, deleted from right to left. -/
def retainFragment (removed : List SourceRef) (fragment : SourceFragment) :
    Except PlanError RetainedFragment :=
  match removeRanges fragment.text.toList
      (sortDescending (removedRanges removed fragment.id)) with
  | none => .error .panicked
  | some text => .ok ⟨fragment.id, fragment.kind, String.ofList text⟩

/-- `CompactionSnapshot::apply`. -/
def CompactionSnapshot.apply (snapshot : CompactionSnapshot) (plan : CompactionPlan)
    (review : SemanticReview) : Except PlanError CompactionView := do
  let planHash ← snapshot.validatePlanHeader plan
  if review.planHash ≠ planHash then .error .staleReview
  else if ¬ review.acceptedOperations.Nodup ∨
      review.acceptedOperations.any (fun i => decide (plan.operations.length ≤ i)) = true then
    .error .invalidReview
  else
    let validated ← snapshot.validatePlanStructure plan review.acceptedOperations planHash
    let retained ← snapshot.fragments.mapM (retainFragment validated.removed)
    return {
      snapshotHash := snapshot.hash
      planHash := validated.planHash
      retained
      results := validated.results
      appliedOperations := validated.appliedOperations
      unresolvedOperations := validated.unresolvedOperations }

end RenCrow
