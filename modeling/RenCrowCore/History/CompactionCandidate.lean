import RenCrowCore.History.CompactionPlan

/-!
# Compaction candidates

`history/src/compaction_candidate.rs`.  A trusted collector turns a conversation
into records with a declared origin; `CandidateInput.snapshot` checks the
records and captures them as the fragments that a deletion plan works on.

* `snapshot_fragments`: a captured snapshot has one fragment for each record, in
  order;
* `record_unique`: a record is determined by its id;
* `resolve_record`: a reference that resolves is about the record of its id.
-/

namespace RenCrow

open Serde Fallible Text

/-! ## Records -/

/-- Who a record comes from. -/
inductive Origin where
  | human
  /-- User input that its sender declared as automation. -/
  | automation
  | host
  | work
  | unknown
deriving DecidableEq, Repr, Inhabited

/-- Input whose author was declared through a verified intake record. -/
def Origin.isDeclaredInput : Origin → Bool
  | .human | .automation => true
  | _ => false

/-- A record of the history that may be compacted. -/
structure CandidateRecord where
  id : String
  origin : Origin
  intakeRef : Option String
  scope : String
  role : String
  text : String
  protectedRanges : List ByteRange
  executionEvidence : Bool
  /-- An attachment. -/
  opaqueData : Option Json
deriving DecidableEq, Repr, Inhabited

/-- The records and the context that a compaction works on. -/
structure CandidateInput where
  version : Nat
  binding : String
  records : List CandidateRecord
  currentContext : List Json
  priorInvalidations : List String
deriving DecidableEq, Repr, Inhabited

/-- How a function of these modules fails: with an error text, or in a panic. -/
inductive Failure where
  | error (message : String)
  | panicked
deriving DecidableEq, Repr, Inhabited

/-- The `Debug` form of a plan error. -/
def PlanError.debug : PlanError → String
  | .invalidSnapshot => "InvalidSnapshot"
  | .invalidSchema => "InvalidSchema"
  | .staleSnapshot => "StaleSnapshot"
  | .staleReview => "StaleReview"
  | .invalidReview => "InvalidReview"
  | .unknownReference => "UnknownReference"
  | .staleReference => "StaleReference"
  | .invalidRange => "InvalidRange"
  | .overlappingOperations => "OverlappingOperations"
  | .protectedSource => "ProtectedSource"
  | .invalidEvidence => "InvalidEvidence"
  | .removedEvidence => "RemovedEvidence"
  | .invalidResult => "InvalidResult"
  | .serialization => "Serialization"
  | .panicked => "panic"

/-- `map_err(|error| format!("{lead}{error:?}"))`. -/
def mapPlanError {α : Type} (lead : String) : Except PlanError α → Except Failure α
  | .ok value => .ok value
  | .error .panicked => .error .panicked
  | .error error => .error (.error (lead ++ error.debug))

@[simp] theorem mapPlanError_eq_ok {α : Type} {lead : String} {x : Except PlanError α} {value : α} :
    mapPlanError lead x = .ok value ↔ x = .ok value := by
  cases x with
  | ok value => simp [mapPlanError]
  | error error => cases error <;> simp [mapPlanError]

/-! ## Serialized form -/

/-- An origin as JSON. -/
def encodeOrigin : Origin → Json
  | .human => .string "human"
  | .automation => .string "automation"
  | .host => .string "host"
  | .work => .string "work"
  | .unknown => .string "unknown"

/-- A record as JSON. -/
def encodeCandidateRecord (record : CandidateRecord) : Json :=
  .object [("id", .string record.id), ("origin", encodeOrigin record.origin),
    ("intake_ref", .ofOption .string record.intakeRef), ("scope", .string record.scope),
    ("role", .string record.role), ("text", .string record.text),
    ("protected", .array (record.protectedRanges.map encodeByteRange)),
    ("execution_evidence", .bool record.executionEvidence),
    ("opaque", .ofOption (fun value => value) record.opaqueData)]

/-- The serialized input; an empty list of invalidations is skipped. -/
def encodeCandidateInput (input : CandidateInput) : Json :=
  .object ([("version", .ofNat input.version), ("binding", .string input.binding),
    ("records", .array (input.records.map encodeCandidateRecord)),
    ("current_context", .array input.currentContext)] ++
    if input.priorInvalidations.isEmpty then []
    else [("prior_invalidations", .array (input.priorInvalidations.map .string))])

/-! ## The snapshot -/

/-- What the fragment of a record is. -/
def CandidateRecord.kind (record : CandidateRecord) : SourceKind :=
  if record.origin = .human then .userInstruction
  else if record.origin = .automation then .automationInstruction
  else if record.executionEvidence then .executionEvidence
  else .context

/-- The whole of a text. -/
def fullRange (text : String) : ByteRange := ⟨0, byteLen text.toList⟩

/-- Attachments and records of unknown origin are protected as a whole. -/
def CandidateRecord.fragment (record : CandidateRecord) : SourceFragment where
  id := record.id
  scope := record.scope
  kind := record.kind
  text := record.text
  protectedRanges := record.protectedRanges ++
    if (record.opaqueData.isSome || decide (record.origin = .unknown)) &&
      decide (record.text ≠ "") then [fullRange record.text] else []

@[simp] theorem CandidateRecord.fragment_id (record : CandidateRecord) :
    record.fragment.id = record.id := rfl

@[simp] theorem CandidateRecord.fragment_text (record : CandidateRecord) :
    record.fragment.text = record.text := rfl

@[simp] theorem CandidateRecord.fragment_kind (record : CandidateRecord) :
    record.fragment.kind = record.kind := rfl

/-- The checks on one record. -/
def CandidateRecord.checkedFragment (record : CandidateRecord) : Except Failure SourceFragment := do
  ensure (!(record.origin.isDeclaredInput &&
      (decide (record.role ≠ "user") || record.intakeRef.all isBlank)))
    (.error (if record.origin = .human then
      "human origin requires user role and trusted intake reference"
      else "automation origin requires user role and trusted intake reference"))
  ensure (!(record.executionEvidence && decide (record.origin ≠ .work)))
    (.error "execution evidence must have work provenance")
  return record.fragment

/-- `CandidateInput::snapshot`. -/
def CandidateInput.snapshot (input : CandidateInput) : Except Failure CompactionSnapshot := do
  ensure (decide (input.version = 1)) (.error "unsupported input version")
  ensure (!(input.records.any (fun record => decide (record.origin = .host)) &&
      input.currentContext.isEmpty))
    (.error "host context requires a current owner context")
  let fragments ← input.records.mapM CandidateRecord.checkedFragment
  mapPlanError "" (CompactionSnapshot.capture (digest (encodeCandidateInput input)) fragments)

theorem not_isWhitespace_of_isHexDigit {c : Char} (h : Sha256.isHexDigit c = true) :
    isWhitespace c = false := by
  simp only [Sha256.isHexDigit, Bool.or_eq_true, Bool.and_eq_true, decide_eq_true_eq,
    Char.le_def, UInt32.le_iff_toNat_le] at h
  have hrange : ((48 ≤ c.toNat ∧ c.toNat ≤ 57) ∨ (97 ≤ c.toNat ∧ c.toNat ≤ 102)) ∨
      (65 ≤ c.toNat ∧ c.toNat ≤ 70) := h
  rw [← Bool.not_eq_true]
  simp only [isWhitespace, Bool.or_eq_true, Bool.and_eq_true, decide_eq_true_eq, beq_iff_eq]
  omega

/-- A digest is never blank. -/
theorem isBlank_digest (value : Json) : isBlank (digest value) = false := by
  rw [← Bool.not_eq_true]
  intro hblank
  have hlen := Sha256.sha256Hex_length (utf8Bytes value.render)
  have hhex := Sha256.sha256Hex_isHexDigit (utf8Bytes value.render)
  rw [isBlank, List.all_eq_true] at hblank
  cases htext : (Sha256.sha256Hex (utf8Bytes value.render)).toList with
  | nil => simp [htext] at hlen
  | cons c cs =>
    have hc : c ∈ (Sha256.sha256Hex (utf8Bytes value.render)).toList := by simp [htext]
    have hspace := hblank c hc
    rw [not_isWhitespace_of_isHexDigit (hhex c hc)] at hspace
    cases hspace

/-- Capturing valid fragments under a digest succeeds. -/
theorem capture_digest {value : Json} {fragments : List SourceFragment}
    (h : validFragments fragments = true) :
    CompactionSnapshot.capture (digest value) fragments = .ok {
      binding := digest value
      fragments
      hash := digest (.array [.string (digest value), .array (fragments.map encodeFragment)])
      valid := h } := by
  rw [CompactionSnapshot.capture, dif_pos]
  rw [isBlank_digest, h]
  rfl

variable {fragment : SourceFragment}

theorem checkedFragment_eq_ok {record : CandidateRecord}
    (h : record.checkedFragment = .ok fragment) :
    fragment = record.fragment := by
  obtain ⟨-, h⟩ := ensure_bind_eq_ok.mp h
  obtain ⟨-, h⟩ := ensure_bind_eq_ok.mp h
  cases h
  rfl

variable {snapshot : CompactionSnapshot} {input : CandidateInput}

variable (h : input.snapshot = .ok snapshot)
include h

/-- A captured snapshot has one fragment for each record, in order. -/
theorem snapshot_fragments : snapshot.fragments = input.records.map CandidateRecord.fragment := by
  simp only [CandidateInput.snapshot, bind_eq_ok, ensure_eq_ok, exists_const] at h
  obtain ⟨-, -, fragments, hfrags, h⟩ := h
  rw [capture_eq_ok (mapPlanError_eq_ok.mp h)]
  have hall : List.Forall₂ (· = ·) (input.records.map CandidateRecord.fragment) fragments :=
    List.forall₂_map_left_iff.mpr ((mapM_eq_ok.mp hfrags).imp
      fun _ _ hchk => (checkedFragment_eq_ok hchk).symm)
  rw [List.forall₂_eq_eq_eq] at hall
  exact hall.symm

/-- An id determines the position of its record. -/
theorem record_index_unique {i j : Nat} {a b : CandidateRecord} (ha : input.records[i]? = some a)
    (hb : input.records[j]? = some b) (hid : a.id = b.id) : i = j := by
  have hget : ∀ {k : Nat} {record : CandidateRecord}, input.records[k]? = some record →
      snapshot.fragments[k]? = some record.fragment := by
    intro k record hk
    rw [snapshot_fragments h, List.getElem?_map, hk]
    rfl
  exact CompactionSnapshot.index_unique (hget ha) (hget hb) hid

/-- A record is determined by its id. -/
theorem record_unique {a b : CandidateRecord} (ha : a ∈ input.records) (hb : b ∈ input.records)
    (hid : a.id = b.id) : a = b := by
  obtain ⟨i, hi⟩ := List.mem_iff_getElem?.mp ha
  obtain ⟨j, hj⟩ := List.mem_iff_getElem?.mp hb
  obtain rfl := record_index_unique h hi hj hid
  exact Option.some.inj (hi.symm.trans hj)

/-- A reference that resolves is about the record of its id. -/
theorem resolve_record {ref : SourceRef} {index : Nat}
    (hres : snapshot.resolve ref = .ok (index, fragment)) :
    ∃ record, input.records[index]? = some record ∧ record.id = ref.id ∧
      fragment = record.fragment ∧ validRange record.text ref.range = true := by
  obtain ⟨hget, hid, hrange⟩ := resolve_eq_ok hres
  rw [snapshot_fragments h, List.getElem?_map, Option.map_eq_some_iff] at hget
  obtain ⟨record, hrec, rfl⟩ := hget
  exact ⟨record, hrec, hid, rfl, hrange⟩

end RenCrow
