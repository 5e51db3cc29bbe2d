import RenCrowCore.History.CompactionPreprocess

/-!
# Instruction selection

`history/src/compaction_selection.rs`, with the binding of a proposal to its
snapshot from `compaction_pipeline.rs`.  A model proposes which instructions are
obsolete, by record id and copied text; the host turns the texts into byte ranges,
validates the plan and checks it against what it had presented.

* `bindPlan_exact`: a bound plan has the operations of the proposal, each passage
  bound to the only place where it stands;
* `validatePresentedOperation_spec`: a bound operation on text of a person has a
  correction by a person, or is the subject of a link with the cited output;
* `validateAndApplySelection_safe`: what an accepted selection can delete.
-/

namespace RenCrow

open Fallible Text List

/-! ## Proposals -/

/-- An operation as a model proposes it, with record ids and copied passages. -/
inductive ProposedOperation where
  | dropSuperseded (source : String) (sourceText : Option String) (correction : String)
      (correctionText : Option String)
  | replaceCompleted (source : String) (sourceText : Option String) (evidence result : String)
deriving DecidableEq, Repr

/-- The operations that a selection proposes. -/
structure ProposedPlan where
  operations : List ProposedOperation
deriving DecidableEq, Repr

/-- A proposal with the presentation it answers. -/
structure InstructionSelection where
  snapshotHash : String
  presentationHash : String
  proposed : ProposedPlan
deriving DecidableEq, Repr

/-- The offsets at which a passage stands in a text, overlapping ones included. -/
def occurrences (passage : List Char) : List Char → Nat → List Nat
  | [], _ => []
  | c :: cs, offset =>
    if passage.isPrefixOf (c :: cs) then offset :: occurrences passage cs (offset + c.utf8Size)
    else occurrences passage cs (offset + c.utf8Size)

/-- The range of a copied passage, which must stand in the text exactly once; the
whole text when there is none. -/
def selectedRange (text : String) : Option String → Except Failure ByteRange
  | none => .ok (fullRange text)
  | some passage =>
    if passage = "" then .error (.error "empty source_text")
    else match occurrences passage.toList text.toList 0 with
      | [] => .error (.error "source_text is not an exact source passage")
      | [start] => .ok ⟨start, start + byteLen passage.toList⟩
      | _ => .error (.error "source_text is ambiguous; include unique surrounding text")

/-- The record of an id. -/
def CandidateInput.findRecord (input : CandidateInput) (id : String) : Option CandidateRecord :=
  input.records.find? fun record => decide (record.id = id)

/-- The closure `reference` of `bind_plan`. -/
def bindReference (input : CandidateInput) (snapshot : CompactionSnapshot) (id : String)
    (passage : Option String) : Except Failure SourceRef :=
  match input.findRecord id with
  | none => .error (.error "unknown proposed source ID")
  | some record => do
    let range ← selectedRange record.text passage
    mapPlanError "" (snapshot.reference id range)

/-- Resolves the references of a proposed operation. -/
def bindOperation (input : CandidateInput) (snapshot : CompactionSnapshot) :
    ProposedOperation → Except Failure Operation
  | .dropSuperseded source sourceText correction correctionText => do
    let source ← bindReference input snapshot source sourceText
    let correction ← bindReference input snapshot correction correctionText
    return .dropSuperseded source correction
  | .replaceCompleted source sourceText evidence result => do
    let source ← bindReference input snapshot source sourceText
    let evidence ← bindReference input snapshot evidence none
    return .replaceCompleted source evidence result

/-- `bind_plan`. -/
def bindPlan (input : CandidateInput) (proposed : ProposedPlan) :
    Except Failure CompactionPlan := do
  let snapshot ← input.snapshot
  let operations ← proposed.operations.mapM (bindOperation input snapshot)
  return { schemaVersion := 1, snapshotHash := snapshot.hash, operations }

/-! ## Validation of a selection -/

/-- Where the record of an id comes from. -/
def CandidateInput.originOf (input : CandidateInput) (id : String) : Option Origin :=
  (input.findRecord id).map (·.origin)

/-- One range lies inside another. -/
def ByteRange.contains (outer inner : ByteRange) : Bool :=
  decide (outer.start ≤ inner.start) && decide (inner.stop ≤ outer.stop)

/-- A reference is to text of the user that is still there and may be removed. -/
def validateHumanReference (input : CandidateInput) (pruning : InstructionPruning)
    (reference : SourceRef) (wholeRecordRequested : Bool) : Except Failure Unit :=
  match input.findRecord reference.id with
  | none => .error (.error "selection references an unknown Human source")
  | some record => do
    ensure (record.origin.isDeclaredInput && decide (record.role = "user") &&
        record.opaqueData.isNone)
      (.error "selection source must be ordinary Human user text")
    ensure (!(wholeRecordRequested && (decide (reference.range.start ≠ 0) ||
        decide (reference.range.stop ≠ byteLen record.text.toList) ||
        !record.protectedRanges.isEmpty ||
        pruning.applied.any fun known => decide (known.id = reference.id))))
      (.error "whole-record selection requires a fully shown, unprotected Human record")
    ensure (!pruning.applied.any (·.meets reference))
      (.error "selection reference crosses a previously removed range")
    ensure (!record.protectedRanges.any (overlaps · reference.range))
      (.error "selection reference overlaps protected Human content")

/-- One proposal against its bound operation. -/
def validatePresentedOperation (input : CandidateInput) (pruning : InstructionPruning)
    (links : List InstructionObservationLink) :
    ProposedOperation → Operation → Except Failure Unit
  | .dropSuperseded _ sourceText _ (some _), .dropSuperseded source correction => do
    validateHumanReference input pruning source sourceText.isNone
    validateHumanReference input pruning correction false
    ensure (!(decide (input.originOf source.id = some .human) &&
        decide (input.originOf correction.id ≠ some .human)))
      (.error "an automation correction cannot remove a Human instruction")
  | .replaceCompleted _ sourceText _ _, .replaceCompleted source evidence _ => do
    validateHumanReference input pruning source sourceText.isNone
    match links.find? (fun link => decide (link.instruction.id = source.id) &&
        decide (link.instruction.hash = source.hash) &&
        ByteRange.contains link.instruction.range source.range) with
    | none => .error (.error "completion source is not contained in an explicit link")
    | some link =>
      ensure (decide (evidence = link.output))
        (.error "completion evidence must equal its linked full output reference")
  | _, _ => .error (.error "proposal and bound plan operations do not match")

/-- Each operation is what was proposed in its place. -/
def validateZipped (input : CandidateInput) (pruning : InstructionPruning)
    (links : List InstructionObservationLink) :
    List ProposedOperation → List Operation → Except Failure Unit
  | proposal :: proposals, operation :: operations => do
    validatePresentedOperation input pruning links proposal operation
    validateZipped input pruning links proposals operations
  | _, _ => .ok ⟨⟩

/-- A plan is what was proposed, operation by operation. -/
def validatePresentedOperations (input : CandidateInput) (pruning : InstructionPruning)
    (links : List InstructionObservationLink) (proposed : List ProposedOperation)
    (plan : CompactionPlan) : Except Failure Unit := do
  ensure (decide (proposed.length = plan.operations.length))
    (.error "bound plan does not preserve proposal operation order")
  validateZipped input pruning links proposed plan.operations

/-- No removal, earlier or new, meets a witness. -/
def validateWitnessesAgainstPrior (pruning : InstructionPruning)
    (validated : ValidatedPlanStructure) : Except Failure Unit :=
  ensure (!validated.witnesses.any fun witness =>
      (pruning.applied ++ validated.removed).any (·.meets witness))
    (.error "an applied removal overlaps a correction or completion witness")

/-- The outcome of a selection. -/
structure InstructionSelectionApplication where
  pruning : InstructionPruning
  planHash : Option String
  results : List DerivedResult
deriving DecidableEq, Repr

/-- A supersession without a copied correction. -/
def ProposedOperation.lacksCorrection : ProposedOperation → Bool
  | .dropSuperseded _ _ _ correctionText => correctionText.all isBlank
  | .replaceCompleted .. => false

/-- `validate_and_apply_selection`. -/
def validateAndApplySelection (input : CandidateInput) (pruning : InstructionPruning)
    (links : List InstructionObservationLink) (selection : Option InstructionSelection) :
    Except Failure InstructionSelectionApplication := do
  let presented ← collectInstructionCandidates input pruning links
  match selection with
  | none => return { pruning, planHash := none, results := [] }
  | some selection =>
    match presented with
    | none => .error (.error "selection supplied without eligible candidates")
    | some presented =>
      ensure (decide ((presented.index "snapshot_hash").asStr =
          some selection.snapshotHash))
        (.error "instruction selection is bound to a stale snapshot")
      ensure (decide ((presented.index "presentation_hash").asStr =
          some selection.presentationHash))
        (.error "instruction selection is bound to a different presentation")
      ensure (!selection.proposed.operations.any ProposedOperation.lacksCorrection)
        (.error "V2 supersession requires nonblank exact correction_text")
      let plan ← bindPlan input selection.proposed
      let snapshot ← input.snapshot
      let planHash ← mapPlanError "" (snapshot.validatePlanHeader plan)
      let validated ← mapPlanError ""
        (snapshot.validatePlanStructure plan (List.range plan.operations.length) planHash)
      validatePresentedOperations input pruning links selection.proposed.operations plan
      validateWitnessesAgainstPrior pruning validated
      let unified ← pruneKnownObsolete input (pruning.applied ++ validated.removed)
      return { pruning := unified, planHash := some validated.planHash,
               results := validated.results }

/-! ## What the checks establish -/

variable {input : CandidateInput} {record : CandidateRecord}

theorem mem_of_findRecord {id : String} (h : input.findRecord id = some record) :
    record ∈ input.records ∧ record.id = id :=
  ⟨mem_of_find?_eq_some h, by simpa using find?_some h⟩

variable {snapshot : CompactionSnapshot}

theorem originOf_record (hs : input.snapshot = .ok snapshot) (hmem : record ∈ input.records) :
    input.originOf record.id = some record.origin := by
  cases h : input.findRecord record.id with
  | none => exact absurd (find?_eq_none.mp h record hmem) (by simp)
  | some found =>
    obtain ⟨hfound, hid⟩ := mem_of_findRecord h
    rw [CandidateInput.originOf, h, record_unique hs hfound hmem hid]
    rfl

/-- A passage stands in a text after so many bytes. -/
def StandsAt (text passage : List Char) (n : Nat) : Prop :=
  ∃ before after, text = before ++ (passage ++ after) ∧ byteLen before = n

theorem mem_occurrences {passage text : List Char} (hp : passage ≠ []) {offset n : Nat} :
    n ∈ occurrences passage text offset ↔
      ∃ before after, text = before ++ (passage ++ after) ∧ offset + byteLen before = n := by
  induction text generalizing offset with
  | nil => simp [occurrences, hp]
  | cons c cs ih =>
    have hhead : (∃ before after, c :: cs = before ++ (passage ++ after) ∧
        offset + byteLen before = n) ↔ passage <+: c :: cs ∧ n = offset ∨
          n ∈ occurrences passage cs (offset + c.utf8Size) := by
      rw [ih]
      constructor
      · rintro ⟨_ | ⟨d, before⟩, after, heq, rfl⟩
        · exact .inl ⟨⟨after, heq.symm⟩, rfl⟩
        · obtain ⟨rfl, rfl⟩ := List.cons.inj heq
          exact .inr ⟨before, after, rfl, by rw [byteLen_cons, Nat.add_assoc]⟩
      · rintro (⟨⟨after, heq⟩, rfl⟩ | ⟨before, after, rfl, rfl⟩)
        · exact ⟨[], after, heq.symm, rfl⟩
        · exact ⟨c :: before, after, rfl, by rw [byteLen_cons, Nat.add_assoc]⟩
    rw [hhead, occurrences]
    split
    · rename_i hprefix
      simp [ isPrefixOf_iff_prefix.mp hprefix]
    · rename_i hprefix
      simp [mt isPrefixOf_iff_prefix.mpr hprefix]

/-- What a passage is bound to: the only place where it stands in the text of the
record, or the whole text, which is not empty. -/
def BoundTo (input : CandidateInput) (id : String) (passage : Option String)
    (reference : SourceRef) : Prop :=
  ∃ record ∈ input.records, record.id = id ∧ reference.id = id ∧
    match passage with
    | none => record.text ≠ "" ∧ reference.range = fullRange record.text
    | some passage => passage ≠ "" ∧
      (∀ n, StandsAt record.text.toList passage.toList n ↔ n = reference.range.start) ∧
      slice record.text.toList reference.range = some passage.toList

theorem bindReference_spec (hs : input.snapshot = .ok snapshot) {id : String}
    {passage : Option String}
    {reference : SourceRef} (h : bindReference input snapshot id passage = .ok reference) :
    BoundTo input id passage reference := by
  unfold bindReference at h
  split at h
  · cases h
  · rename_i record hfind
    obtain ⟨hmem, rfl⟩ := mem_of_findRecord hfind
    obtain ⟨range, hrange, h⟩ := bind_eq_ok.mp h
    rw [mapPlanError_eq_ok, reference_record hs hmem] at h
    split at h <;> cases h
    rename_i hvalid
    refine ⟨record, hmem, rfl, rfl, ?_⟩
    unfold selectedRange at hrange
    split at hrange
    · cases hrange
      refine ⟨?_, rfl⟩
      rintro hempty
      simp [hempty, validRange, fullRange] at hvalid
    · rename_i passage
      split at hrange
      · cases hrange
      · rename_i hne
        have hp : passage.toList ≠ [] := by simpa using hne
        split at hrange <;> cases hrange
        rename_i start honce
        have hstands : ∀ n, StandsAt record.text.toList passage.toList n ↔ n = start := by
          intro n
          have hmem : n ∈ occurrences passage.toList record.text.toList 0 ↔ _ := mem_occurrences hp
          rw [honce, mem_singleton] at hmem
          simpa [StandsAt] using hmem.symm
        obtain ⟨before, after, heq, hlen⟩ := (hstands start).mpr rfl
        exact ⟨hne, hstands, slice_eq_some_iff.mpr ⟨before, after, heq, hlen, by simp [hlen]⟩⟩

/-- An operation bound from a proposal. -/
inductive BoundFrom (input : CandidateInput) : ProposedOperation → Operation → Prop
  | dropSuperseded {source correction : String} {sourceText correctionText : Option String}
      {sourceRef correctionRef : SourceRef} (hsrc : BoundTo input source sourceText sourceRef)
      (hcorr : BoundTo input correction correctionText correctionRef) :
      BoundFrom input (.dropSuperseded source sourceText correction correctionText)
        (.dropSuperseded sourceRef correctionRef)
  | replaceCompleted {source evidence result : String} {sourceText : Option String}
      {sourceRef evidenceRef : SourceRef} (hsrc : BoundTo input source sourceText sourceRef)
      (hev : BoundTo input evidence none evidenceRef) :
      BoundFrom input (.replaceCompleted source sourceText evidence result)
        (.replaceCompleted sourceRef evidenceRef result)

variable {operation : Operation} {proposal : ProposedOperation}

theorem bindOperation_spec (hs : input.snapshot = .ok snapshot)
    (h : bindOperation input snapshot proposal = .ok operation) :
    BoundFrom input proposal operation := by
  cases proposal with
  | dropSuperseded source sourceText corr correctionText =>
    obtain ⟨sourceRef, hsrc, h⟩ := bind_eq_ok.mp h
    obtain ⟨correctionRef, hcorr, h⟩ := bind_eq_ok.mp h
    cases h
    exact .dropSuperseded (bindReference_spec hs hsrc) (bindReference_spec hs hcorr)
  | replaceCompleted source sourceText ev result =>
    obtain ⟨sourceRef, hsrc, h⟩ := bind_eq_ok.mp h
    obtain ⟨evidenceRef, hev, h⟩ := bind_eq_ok.mp h
    cases h
    exact .replaceCompleted (bindReference_spec hs hsrc) (bindReference_spec hs hev)

theorem bindPlan_boundFrom {proposed : ProposedPlan} {plan : CompactionPlan}
    (h : bindPlan input proposed = .ok plan) :
    (∃ snapshot, input.snapshot = .ok snapshot) ∧
      List.Forall₂ (BoundFrom input) proposed.operations plan.operations := by
  obtain ⟨snapshot, hs, h⟩ := bind_eq_ok.mp h
  obtain ⟨operations, hops, h⟩ := bind_eq_ok.mp h
  cases h
  exact ⟨⟨snapshot, hs⟩, (mapM_eq_ok.mp hops).imp fun _ _ => bindOperation_spec hs⟩

/-- What is known of a bound operation: it deletes, and the evidence of a
completion is the whole text of a record. -/
def BoundOk (input : CandidateInput) : Operation → Prop
  | .keep _ => False
  | .dropSuperseded _ _ => True
  | .replaceCompleted _ evidence _ =>
    ∃ record ∈ input.records, record.id = evidence.id ∧ evidence.range = fullRange record.text

theorem BoundFrom.boundOk (h : BoundFrom input proposal operation) : BoundOk input operation := by
  cases h with
  | dropSuperseded => trivial
  | replaceCompleted _ hev =>
    obtain ⟨record, hmem, hid, hid', -, hrange⟩ := hev
    exact ⟨record, hmem, hid.trans hid'.symm, hrange⟩

/-- **A bound plan** has only deleting operations. -/
theorem bindPlan_spec {proposed : ProposedPlan} {plan : CompactionPlan}
    (h : bindPlan input proposed = .ok plan) :
    ∀ operation ∈ plan.operations, BoundOk input operation := by
  intro operation hop
  obtain ⟨i, hi, rfl⟩ := mem_iff_getElem.mp hop
  have hall := (bindPlan_boundFrom h).2
  exact (hall.get (hall.length_eq ▸ hi) hi).boundOk

/-- The passages a proposal gives, with the records they are said to stand in. -/
def ProposedOperation.givenPassages : ProposedOperation → List (String × String)
  | .dropSuperseded source sourceText correction correctionText =>
    (sourceText.map (source, ·)).toList ++ (correctionText.map (correction, ·)).toList
  | .replaceCompleted source sourceText _ _ => (sourceText.map (source, ·)).toList

theorem BoundFrom.unique (hs : input.snapshot = .ok snapshot)
    (h : BoundFrom input proposal operation) :
    ∀ given ∈ proposal.givenPassages, given.2 ≠ "" ∧ ∃! n, ∃ record ∈ input.records,
      record.id = given.1 ∧ StandsAt record.text.toList given.2.toList n := by
  have hbound : ∀ {id passage ref}, BoundTo input id (some passage) ref →
      passage ≠ "" ∧ ∃! n, ∃ record ∈ input.records,
        record.id = id ∧ StandsAt record.text.toList passage.toList n := by
    rintro _ passage ref ⟨record, hmem, rfl, -, hne, hstands, -⟩
    refine ⟨hne, ref.range.start, ⟨record, hmem, rfl, (hstands _).mpr rfl⟩, ?_⟩
    rintro n ⟨record', hmem', hid, hn⟩
    obtain rfl := record_unique hs hmem' hmem hid
    exact (hstands n).mp hn
  intro given hgiven
  cases h with
  | dropSuperseded hsrc hcorr =>
    simp only [ProposedOperation.givenPassages, mem_append, Option.mem_toList,
      Option.map_eq_some_iff] at hgiven
    obtain ⟨passage, rfl, rfl⟩ | ⟨passage, rfl, rfl⟩ := hgiven
    · exact hbound hsrc
    · exact hbound hcorr
  | replaceCompleted hsrc _ =>
    simp only [ProposedOperation.givenPassages, Option.mem_toList, Option.map_eq_some_iff] at hgiven
    obtain ⟨passage, rfl, rfl⟩ := hgiven
    exact hbound hsrc

/-- **Binding is exact.** Each operation of a bound plan comes from the proposal at
its place, with a given passage bound to the only place where it stands; a plan with
an empty passage, or one that stands nowhere or twice, is not bound. -/
theorem bindPlan_exact (input : CandidateInput) (proposed : ProposedPlan) :
    (∀ plan, bindPlan input proposed = .ok plan →
      List.Forall₂ (BoundFrom input) proposed.operations plan.operations) ∧
    ∀ proposal ∈ proposed.operations, ∀ given ∈ proposal.givenPassages,
      (given.2 = "" ∨ ¬∃! n, ∃ record ∈ input.records,
        record.id = given.1 ∧ StandsAt record.text.toList given.2.toList n) →
      ∀ plan, bindPlan input proposed ≠ .ok plan := by
  refine ⟨fun plan h => (bindPlan_boundFrom h).2, ?_⟩
  intro proposal hproposal given hgiven hbad plan h
  obtain ⟨⟨snapshot, hs⟩, hall⟩ := bindPlan_boundFrom h
  obtain ⟨i, hi, rfl⟩ := mem_iff_getElem.mp hproposal
  obtain ⟨hne, hunique⟩ := (hall.get hi (hall.length_eq ▸ hi)).unique hs given hgiven
  exact hbad.elim hne fun hnot => hnot hunique

variable {operations : List Operation}

/-- When every operation is accepted, the ones that take effect are those that
delete. -/
theorem appliedFrom_of_all {acc : List Nat} {i : Nat}
    (hdeletes : ∀ operation ∈ operations, operation.deletes = true)
    (hacc : ∀ k < operations.length, i + k ∈ acc) :
    appliedFrom acc operations i = operations := by
  rw [appliedFrom_eq_filter, filter_eq_self.mpr, zipIdx_map_fst]
  rintro ⟨operation, n⟩ hmem
  obtain ⟨hle, hlt, hget⟩ := mem_zipIdx hmem
  have hn := hacc (n - i) (by omega)
  rw [Nat.add_sub_cancel' hle] at hn
  simp [hn, hget, hdeletes]

/-- What the comparison with the presentation establishes. -/
def PresentedOk (input : CandidateInput) (links : List InstructionObservationLink) :
    Operation → Prop
  | .keep _ => False
  | .dropSuperseded source correction =>
    input.originOf source.id = some .human → input.originOf correction.id = some .human
  | .replaceCompleted source evidence _ =>
    ∃ link ∈ links, link.instruction.id = source.id ∧ link.instruction.hash = source.hash ∧
      ByteRange.contains link.instruction.range source.range = true ∧ evidence = link.output

variable {links : List InstructionObservationLink} {pruning : InstructionPruning}

theorem validatePresentedOperation_spec
    (h : validatePresentedOperation input pruning links proposal operation = .ok ⟨⟩) :
    PresentedOk input links operation := by
  unfold validatePresentedOperation at h
  split at h
  · obtain ⟨-, -, h⟩ := bind_eq_ok.mp h
    obtain ⟨-, -, h⟩ := bind_eq_ok.mp h
    have hcheck := ensure_eq_ok.mp h
    intro hhuman
    simpa [hhuman] using hcheck
  · obtain ⟨-, -, h⟩ := bind_eq_ok.mp h
    split at h
    · cases h
    · rename_i link hlink
      have hfound := find?_some hlink
      simp only [Bool.and_eq_true, decide_eq_true_eq] at hfound
      exact ⟨link, mem_of_find?_eq_some hlink, hfound.1.1, hfound.1.2, hfound.2,
        of_decide_eq_true (ensure_eq_ok.mp h)⟩
  · cases h

theorem validateZipped_spec {proposals : List ProposedOperation}
    (hlen : proposals.length = operations.length)
    (h : validateZipped input pruning links proposals operations = .ok ⟨⟩) :
    ∀ operation ∈ operations, PresentedOk input links operation := by
  induction operations generalizing proposals with
  | nil => simp
  | cons operation rest ih =>
    cases proposals with
    | nil => cases hlen
    | cons proposal proposals =>
      obtain ⟨⟨⟩, hhead, hrest⟩ := bind_eq_ok.mp h
      exact forall_mem_cons.mpr
        ⟨validatePresentedOperation_spec hhead, ih (Nat.succ.inj hlen) hrest⟩

/-! ## Safety of a selection -/

theorem OperationOk.resolves (h : OperationOk snapshot operation) :
    Resolves snapshot operation.source := by
  cases operation with
  | keep source => exact h
  | dropSuperseded source corr | replaceCompleted source ev result =>
    obtain ⟨i, frag, -, -, hres, -⟩ := h
    exact ⟨i, frag, hres⟩

/-- The steps of a successful application of a selection. -/
theorem validateAndApplySelection_eq_ok {selection : InstructionSelection}
    {result : InstructionSelectionApplication}
    (h : validateAndApplySelection input pruning links (some selection) = .ok result) :
    ∃ plan snapshot val, bindPlan input selection.proposed = .ok plan ∧
      input.snapshot = .ok snapshot ∧
      snapshot.validatePlanStructure plan (List.range plan.operations.length) plan.hash = .ok val ∧
      validatePresentedOperations input pruning links selection.proposed.operations plan = .ok ⟨⟩ ∧
      validateWitnessesAgainstPrior pruning val = .ok ⟨⟩ ∧
      pruneKnownObsolete input (pruning.applied ++ val.removed) = .ok result.pruning := by
  obtain ⟨presented, -, h⟩ := bind_eq_ok.mp h
  cases presented with
  | none => cases h
  | some presented =>
    simp only [bind_eq_ok, ensure_eq_ok, exists_const] at h
    obtain ⟨-, -, -, plan, hplan, snapshot, hsnap, planHash, hhead, val, hval, ⟨⟩, hpres, ⟨⟩,
      hwits, unified, hunified, ⟨⟩⟩ := h
    obtain rfl : planHash = plan.hash := by
      unfold CompactionSnapshot.validatePlanHeader at hhead
      split at hhead
      · cases hhead
      · split at hhead <;> cases hhead
        rfl
    exact ⟨plan, snapshot, val, hplan, hsnap, mapPlanError_eq_ok.mp hval, hpres, hwits, hunified⟩

/-- **Safety of a selection.**  When a selection is applied on top of a pruning:

* its removals, one for each operation of the bound plan, are added to those in
  effect, and none is skipped;
* every record keeps exactly its bytes outside all removals;
* a removed byte is unprotected text of a declared user record without attachment;
* a record of a person loses text to a later correction by a person, or to a link
  of the list whose instruction contains the passage and whose output, a whole
  record, is the cited evidence;
* no passage an operation cites meets a removal, old or new. -/
theorem validateAndApplySelection_safe {input : CandidateInput} {known : List SourceRef}
    {pruning : InstructionPruning} {links : List InstructionObservationLink}
    {selection : InstructionSelection} {result : InstructionSelectionApplication}
    (hpruning : pruneKnownObsolete input known = .ok pruning)
    (h : validateAndApplySelection input pruning links (some selection) = .ok result) :
    ∃ plan, bindPlan input selection.proposed = .ok plan ∧
      result.pruning.applied = pruning.applied ++ plan.operations.map Operation.source ∧
      (∀ record ∈ input.records, utf8Bytes (result.pruning.retainedText record).toList =
        keepOutside (removedRanges result.pruning.applied record.id)
          (utf8Bytes record.text.toList)) ∧
      (∀ record ∈ input.records, ∀ n,
        covered (removedRanges result.pruning.applied record.id) n = true →
        record.origin.isDeclaredInput = true ∧ record.role = "user" ∧ record.opaqueData = none ∧
          ∀ p ∈ record.protectedRanges, p.covers n = false) ∧
      (∀ operation ∈ plan.operations, ∀ (i : Nat) (record : CandidateRecord),
        input.records[i]? = some record → record.id = operation.source.id →
        record.origin = .human →
        (∃ (source correction : SourceRef) (j : Nat) (correcting : CandidateRecord),
          operation = .dropSuperseded source correction ∧ input.records[j]? = some correcting ∧
          correcting.id = correction.id ∧ correcting.origin = .human ∧
          (i < j ∨ (i = j ∧ source.range.stop ≤ correction.range.start))) ∨
        ∃ source evidence text, operation = .replaceCompleted source evidence text ∧
          ∃ link ∈ links, link.instruction.id = source.id ∧
            ByteRange.contains link.instruction.range source.range = true ∧
            evidence = link.output ∧ ∃ output ∈ input.records, output.id = link.output.id ∧
              link.output.range = fullRange output.text) ∧
      ∀ operation ∈ plan.operations, ∀ witness ∈ operation.witness,
        ∀ removal ∈ result.pruning.applied, removal.meets witness = false := by
  obtain ⟨plan, snapshot, validated, hplan, hs, hval, hpresented, hwits, hunified⟩ :=
    validateAndApplySelection_eq_ok h
  have hbound := bindPlan_spec hplan
  have hdeletes : ∀ operation ∈ plan.operations, operation.deletes = true := by
    intro operation hop
    have := hbound operation hop
    cases operation with
    | keep source => exact this.elim
    | _ => rfl
  have happFrom : appliedFrom (List.range plan.operations.length) plan.operations 0 =
      plan.operations := appliedFrom_of_all hdeletes fun k hk => by simpa using hk
  obtain ⟨hok, hremoved, hcited⟩ := validatePlanStructure_spec hval
  rw [happFrom] at hok hremoved hcited
  obtain ⟨holdApplied, -, -⟩ := pruneKnownObsolete_spec hs hpruning
  obtain ⟨happ, hto, hret⟩ := pruneKnownObsolete_spec hs hunified
  have hall : result.pruning.applied = pruning.applied ++ plan.operations.map Operation.source := by
    rw [happ, hremoved, filter_eq_self]
    intro reference href
    refine decide_eq_true ?_
    rcases mem_append.mp href with hold | hnew
    · rw [holdApplied] at hold
      exact of_decide_eq_true (mem_filter.mp hold).2
    · obtain ⟨operation, hop, rfl⟩ := mem_map.mp hnew
      exact (hok.checked operation hop).resolves
  refine ⟨plan, hplan, hall, fun record hmem => (hret record hmem).1, ?_, ?_, ?_⟩
  · intro record hmem n hn
    obtain ⟨range, hrange, hcovers⟩ := any_eq_true.mp hn
    obtain ⟨reference, href, hid, rfl⟩ := mem_removedRanges_iff.mp hrange
    obtain ⟨found, hfound, hfid, -, hprun⟩ := hto reference href
    obtain rfl := record_unique hs hfound hmem (hfid.trans hid)
    exact ⟨hprun.declared, hprun.user, hprun.noOpaque, fun p hp =>
      covers_eq_false (overlaps_comm .. ▸ hprun.unprotected p hp) hcovers⟩
  · intro operation hop i record hi hid hhuman
    obtain ⟨hlen, hzip⟩ := ensure_bind_eq_ok.mp hpresented
    have hpres := validateZipped_spec (of_decide_eq_true hlen) hzip operation hop
    have hchk := hok.checked operation hop
    cases operation with
    | keep source => exact hpres.elim
    | dropSuperseded source correction =>
      left
      obtain ⟨i', fragment, j, correcting, hsrc, -, hcorr, hlater, -⟩ := hchk
      obtain ⟨found, hfound, hfid, -⟩ := resolve_record hs hsrc
      obtain ⟨corrector, hcorrector, hcid, -⟩ := resolve_record hs hcorr
      obtain rfl : i' = i := record_index_unique hs hfound hi (hfid.trans hid.symm)
      have horigin := hpres (by
        rw [← show record.id = source.id from hid, originOf_record hs (mem_of_getElem? hi), hhuman])
      rw [← hcid, originOf_record hs (mem_of_getElem? hcorrector)] at horigin
      exact ⟨source, correction, j, corrector, rfl, hcorrector, hcid, Option.some.inj horigin,
        hlater⟩
    | replaceCompleted source evidence text =>
      right
      obtain ⟨link, hlink, hlid, -, hcont, rfl⟩ := hpres
      obtain ⟨output, hout, hoid, hrange⟩ := hbound _ hop
      exact ⟨source, link.output, text, rfl, link, hlink, hlid, hcont, rfl, output, hout,
        hoid, hrange⟩
  · intro operation hop witness hwit removal hrem
    have hnone := ensure_eq_ok.mp hwits
    rw [hall, ← hremoved] at hrem
    rw [Bool.not_eq_true', any_eq_false] at hnone
    have hmem : witness ∈ validated.witnesses := by
      rw [hcited]
      exact mem_filterMap.mpr ⟨operation, hop, hwit⟩
    simpa using any_eq_false.mp (Bool.eq_false_iff.mpr (hnone witness hmem)) removal hrem

/-! ## A sample -/

/-- A record of the user. -/
def sampleHuman (id text : String) (protectedRanges : List ByteRange) : CandidateRecord where
  id
  origin := .human
  intakeRef := some "intake"
  scope := "s"
  role := "user"
  text
  protectedRanges
  executionEvidence := false
  opaqueData := none

/-- An instruction, of which a part is protected. -/
def sampleFirst : CandidateRecord := sampleHuman "1" "Use é. Be kind." [⟨8, 16⟩]

/-- The correction of it. -/
def sampleSecond : CandidateRecord := sampleHuman "2" "Use e." []

/-- Two instructions of a person; the second one corrects the first. -/
def sampleInput : CandidateInput where
  version := 1
  binding := "b"
  records := [sampleFirst, sampleSecond]
  currentContext := []
  priorInvalidations := []

/-- The snapshot of the two records. -/
def sampleInputSnapshot : CompactionSnapshot where
  binding := digest (encodeCandidateInput sampleInput)
  fragments := sampleInput.records.map CandidateRecord.fragment
  hash := digest (.array [.string (digest (encodeCandidateInput sampleInput)),
    .array ((sampleInput.records.map CandidateRecord.fragment).map encodeFragment)])
  valid := by decide

theorem snapshot_sampleInput : sampleInput.snapshot = .ok sampleInputSnapshot := by
  have hfrags : sampleInput.records.mapM CandidateRecord.checkedFragment =
      .ok (sampleInput.records.map CandidateRecord.fragment) := by
    rfl
  refine ensure_bind_eq_ok.mpr ⟨rfl, ensure_bind_eq_ok.mpr ⟨rfl, ?_⟩⟩
  exact bind_eq_ok.mpr
    ⟨_, hfrags, mapPlanError_eq_ok.mpr (capture_digest sampleInputSnapshot.valid)⟩

/-- The first sentence is dropped for its correction. -/
def sampleSelection : InstructionSelection where
  snapshotHash := sampleInputSnapshot.hash
  presentationHash := instructionPresentationHash sampleInputSnapshot.hash [] []
  proposed := ⟨[.dropSuperseded "1" (some "Use é.") "2" (some "Use e.")]⟩

theorem prune_sampleInput : pruneKnownObsolete sampleInput [] = .ok {} := by
  rw [pruneKnownObsolete, snapshot_sampleInput]
  rfl

/-- The passage that is dropped. -/
def samplePassage : SourceRef := sampleRef sampleFirst.fragment ⟨0, 7⟩

/-- The correction it is dropped for. -/
def sampleCorrectionRef : SourceRef := sampleRef sampleSecond.fragment ⟨0, 6⟩

/-- The selection with its references resolved. -/
def sampleBound : CompactionPlan :=
  ⟨1, sampleInputSnapshot.hash, [.dropSuperseded samplePassage sampleCorrectionRef]⟩

theorem bindPlan_sample : bindPlan sampleInput sampleSelection.proposed = .ok sampleBound := by
  rw [bindPlan, snapshot_sampleInput]
  rfl

theorem bindPlan_exact_sample :
    List.Forall₂ (BoundFrom sampleInput) sampleSelection.proposed.operations
      sampleBound.operations :=
  (bindPlan_exact sampleInput sampleSelection.proposed).1 sampleBound bindPlan_sample

/-- The sample selection removes the corrected passage. -/
theorem validateAndApplySelection_safe_sample : ∃ result plan,
    validateAndApplySelection sampleInput {} [] (some sampleSelection) = .ok result ∧
      bindPlan sampleInput sampleSelection.proposed = .ok plan ∧
      result.pruning.applied = plan.operations.map Operation.source := by
  have hsome : (validateAndApplySelection sampleInput {} []
      (some sampleSelection)).toOption.isSome =
      true := by decide +kernel
  obtain ⟨result, hres⟩ := Option.isSome_iff_exists.mp hsome
  rw [toOption_eq_some] at hres
  obtain ⟨plan, hplan, happ, -⟩ := validateAndApplySelection_safe prune_sampleInput hres
  exact ⟨result, plan, hres, hplan, happ⟩

end RenCrow
