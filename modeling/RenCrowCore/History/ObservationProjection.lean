import RenCrowCore.History.ArchiveReference

/-!
# Projections of tool observations

`history/src/observation_projection.rs` and `history/src/observation_marker.rs`.
A returned tool observation is shown by bounded excerpts of its call and its
output, or by a reference without excerpts of the output; a marker is the JSON
text of either, and is checked by making it again from the source.

* `projectObservation_eq_ok_iff`: a projection fails only on a blank identity or a
  wrong digest, so its own validation never does;
* `projectObservation_exact`: the ranges partition each text, and each excerpt is
  the text at its range;
* `verifyObservationMarker_eq_ok_iff`: what a marker is compared with.
-/

namespace RenCrow

open Serde Fallible Text

/-! ## Parts and projections -/

/-- `OBSERVATION_PART_FULL_LIMIT_BYTES`. -/
def observationPartFullLimitBytes : Nat := 2048

/-- `OBSERVATION_PART_EDGE_BYTES`. -/
def observationPartEdgeBytes : Nat := 1024

/-- The coverage of a part with the texts it presents. -/
structure ObservationPartExcerpt where
  coverage : ObservationPartCoverage
  excerpts : List String
deriving DecidableEq, Repr, Inhabited

/-- What a summary is shown of an observation. -/
structure ObservationSummaryExcerpt where
  reference : ObservationReference
  toolName : String
  call : ObservationPartExcerpt
  output : ObservationPartExcerpt
deriving DecidableEq, Repr, Inhabited

/-- The excerpts of an observation and what they cover. -/
structure ObservationProjection where
  summary : ObservationSummaryExcerpt
  coverage : ObservationCoverage
deriving DecidableEq, Repr, Inhabited

/-- A lower-case hexadecimal digest of 64 digits. -/
def validSha256 (digest : String) : Bool :=
  decide (byteLen digest.toList = 64) && digest.toList.all fun c =>
    ('0' ≤ c && c ≤ '9') || ('a' ≤ c && c ≤ 'f')

/-- The ranges and the flag of a part fit together. -/
def ObservationPartCoverage.consistent (part : ObservationPartCoverage) : Bool :=
  if part.totalBytes = 0 then
    part.presentedRanges.isEmpty && part.unpresentedRanges.isEmpty && !part.isPartial
  else if part.presentedRanges.isEmpty ∧ part.unpresentedRanges = [⟨0, part.totalBytes⟩] ∧
      part.isPartial = true then true
  else if part.totalBytes ≤ observationPartFullLimitBytes then
    decide (part.presentedRanges = [⟨0, part.totalBytes⟩]) && part.unpresentedRanges.isEmpty &&
      !part.isPartial
  else match part.presentedRanges, part.unpresentedRanges with
    | [head, tail], [gap] =>
      decide (head.start = 0) && decide (head.start < head.stop) &&
        decide (head.stop ≤ observationPartEdgeBytes) && decide (head.stop < tail.start) &&
        decide (tail.start < tail.stop) && decide (tail.stop = part.totalBytes) &&
        decide (part.totalBytes - tail.start ≤ observationPartEdgeBytes) &&
        decide (gap.start = head.stop) && decide (gap.stop = tail.start) && part.isPartial
    | _, _ => false

/-- The digest has its form, and the ranges agree with the flag. -/
def ObservationPartCoverage.validate (part : ObservationPartCoverage) : Except String Unit := do
  ensure (validSha256 part.sha256) "observation part has an invalid SHA-256 digest"
  ensure part.consistent "observation part ranges and partial flag are inconsistent"

/-- An observation is named. -/
def validateIdentity (reference : ObservationReference) (toolName : String) :
    Except String Unit := do
  ensure (!(isBlank reference.threadId || isBlank reference.callId ||
      isBlank toolName))
    "observation identity and tool name must be nonempty"
  ensure (validSha256 reference.sha256)
    "observation reference has an invalid SHA-256 digest"

/-- Nothing of a part is shown. -/
def isFullyUnpresented (part : ObservationPartCoverage) : Bool :=
  decide (0 < part.totalBytes) && part.presentedRanges.isEmpty &&
    decide (part.unpresentedRanges = [⟨0, part.totalBytes⟩]) && part.isPartial

/-- `ObservationCoverage::validate`. -/
def ObservationCoverage.validate (coverage : ObservationCoverage) : Except String Unit := do
  validateIdentity coverage.reference coverage.toolName
  coverage.call.validate
  coverage.output.validate
  ensure (!isFullyUnpresented coverage.call)
    "observation call coverage must include its bounded projection"
  ensure (decide (coverage.reference.sha256 = coverage.output.sha256))
    "observation output coverage does not match its reference digest"
  ensure (!(decide (coverage.output.totalBytes = 0) &&
      decide (coverage.reference.sha256 ≠ contentSha256 "")))
    "empty observation output has an incorrect digest"

/-- An excerpt is what its coverage says. -/
def validatePartExcerpt (excerpt : ObservationPartExcerpt) (checkpoint : ObservationPartCoverage) :
    Except String Unit := do
  excerpt.coverage.validate
  ensure (decide (excerpt.coverage = checkpoint) &&
      decide (excerpt.excerpts.length = checkpoint.presentedRanges.length) &&
      (excerpt.excerpts.zip checkpoint.presentedRanges).all fun entry =>
        decide (byteLen entry.1.toList = entry.2.stop - entry.2.start))
    "summary excerpt does not match observation coverage"

/-- Both excerpts are what the coverage says. -/
def ObservationProjection.validate (projection : ObservationProjection) : Except String Unit := do
  projection.coverage.validate
  ensure (decide (projection.summary.reference = projection.coverage.reference) &&
      decide (projection.summary.toolName = projection.coverage.toolName))
    "summary excerpt identity does not match observation coverage"
  validatePartExcerpt projection.summary.call projection.coverage.call
  validatePartExcerpt projection.summary.output projection.coverage.output

/-! ## Projecting -/

/-- The text in a range that is on boundaries. -/
def excerptAt (text : List Char) (range : ByteRange) : String :=
  String.ofList ((slice text range).getD [])

/-- A short part as a whole; of a long one its two ends. -/
def projectPart (text : String) : ObservationPartExcerpt :=
  let totalBytes := byteLen text.toList
  let presented : List ByteRange × List ByteRange :=
    if totalBytes = 0 then ([], [])
    else if totalBytes ≤ observationPartFullLimitBytes then ([⟨0, totalBytes⟩], [])
    else
      let headEnd := boundaryBefore text.toList (min observationPartEdgeBytes totalBytes)
      let tailStart := boundaryAfter text.toList (totalBytes - observationPartEdgeBytes)
        observationPartEdgeBytes
      ([⟨0, headEnd⟩, ⟨tailStart, totalBytes⟩], [⟨headEnd, tailStart⟩])
  { coverage := {
      sha256 := contentSha256 text
      totalBytes
      presentedRanges := presented.1
      unpresentedRanges := presented.2
      isPartial := !presented.2.isEmpty }
    excerpts := presented.1.map (excerptAt text.toList) }

/-- A projection whose summary and coverage have the given parts. -/
def projectionOf (reference : ObservationReference) (toolName : String)
    (call output : ObservationPartExcerpt) : ObservationProjection where
  summary := ⟨reference, toolName, call, output⟩
  coverage := ⟨reference, toolName, call.coverage, output.coverage⟩

/-- `project_observation`. -/
def projectObservation (reference : ObservationReference) (toolName callText outputText : String) :
    Except String ObservationProjection := do
  validateIdentity reference toolName
  ensure (validSha256 reference.sha256 &&
      decide (contentSha256 outputText = reference.sha256))
    "observation output does not match its reference digest"
  let projection := projectionOf reference toolName (projectPart callText) (projectPart outputText)
  projection.validate
  return projection

/-! ## Markers -/

/-- `OBSERVATION_MARKER_INSTRUCTION`. -/
def observationMarkerInstruction : String :=
  "Archived historical tool data. Retrieve bounded source ranges before treating unpresented " ++
    "data as evidence."

/-- The text of a marker. -/
def observationMarkerBody (projection : ObservationProjection) : String :=
  let output := projection.summary.output
  (Json.ofPairs [("rencrow_observation", .bool true), ("version", .ofNat 2),
    ("call_id", .string projection.coverage.reference.callId),
    ("tool", .string projection.coverage.toolName),
    ("sha256", .string output.coverage.sha256),
    ("total_bytes", .ofNat output.coverage.totalBytes),
    ("partial", .bool output.coverage.isPartial),
    ("presented_ranges", .array (output.coverage.presentedRanges.map fun range =>
      .ofPairs [("start", .ofNat range.start), ("end", .ofNat range.stop)])),
    ("excerpts", .array (output.excerpts.map .string)),
    ("instruction", .string observationMarkerInstruction)]).renderText

/-- The metadata of a marker: that of the output it replaces, without the
truncation budget, with the coverage. -/
def observationMarkerMetadata (canonical : Option CodexHarnessMetadata)
    (coverage : ObservationCoverage) : Except String CodexHarnessMetadata := do
  let metadata := canonical.getD .default
  ensure (!(metadata.rencrowArchiveReference.isSome ||
      metadata.rencrowObservationProjection.isSome || metadata.rencrowInput.isSome ||
      metadata.rencrowCompaction.isSome))
    "observation marker source output carries RenCrow provenance"
  return { metadata with
    historyTruncationTokenLimit := none
    rencrowObservationProjection := some coverage }

/-- A live marker against the projection made again from its source. -/
def verifyObservationMarker (regenerated : ObservationProjection)
    (canonicalMetadata markerMetadata : Option CodexHarnessMetadata) (markerBody : String) :
    Except String Unit := do
  regenerated.validate
  let expected ← observationMarkerMetadata canonicalMetadata regenerated.coverage
  ensure (decide (markerMetadata = some expected))
    "V2 observation marker metadata does not match its canonical source"
  ensure (decide (markerBody = observationMarkerBody regenerated))
    "V2 observation marker body does not match its canonical source"

/-! ## Validation of projections -/

theorem validSha256_contentSha256 (text : String) : validSha256 (contentSha256 text) = true := by
  have hsize : ∀ cs : List Char, (∀ c ∈ cs, c.utf8Size = 1) → byteLen cs = cs.length := by
    intro cs h
    induction cs with
    | nil => rfl
    | cons c cs ih =>
      rw [byteLen_cons, h c List.mem_cons_self,
        ih fun d hd => h d (List.mem_cons_of_mem _ hd), List.length_cons, Nat.add_comm]
  have hlen := hsize (contentSha256 text).toList (Sha256.sha256Hex_forall (by decide) _)
  rw [validSha256, Bool.and_eq_true_iff]
  refine ⟨decide_eq_true (hlen.trans (Sha256.sha256Hex_length _)), ?_⟩
  exact List.all_eq_true.mpr (Sha256.sha256Hex_forall (by decide) _)

variable {text : List Char}

/-- The ranges of a long text: a head and a tail of 1021 to 1024 bytes, with a gap
between them. -/
theorem projectPart_edges (h : observationPartFullLimitBytes < byteLen text) :
    let headEnd := boundaryBefore text (min observationPartEdgeBytes (byteLen text))
    let tailStart := boundaryAfter text (byteLen text - observationPartEdgeBytes)
      observationPartEdgeBytes
    1021 ≤ headEnd ∧ headEnd ≤ observationPartEdgeBytes ∧ headEnd < tailStart ∧
      1021 ≤ byteLen text - tailStart ∧ byteLen text - tailStart ≤ observationPartEdgeBytes ∧
      isBoundary text headEnd = true ∧ isBoundary text tailStart = true := by
  intro headEnd tailStart
  simp only [observationPartFullLimitBytes] at h
  have hmin : min observationPartEdgeBytes (byteLen text) = 1024 := by
    simp only [observationPartEdgeBytes]
    omega
  obtain ⟨⟨a, ha, hale⟩, -⟩ := exists_boundary_near text (show 1024 ≤ byteLen text by omega)
  obtain ⟨-, b, hb, hble⟩ :=
    exists_boundary_near text (show byteLen text - 1024 ≤ byteLen text by omega)
  have hhead : a ≤ headEnd ∧ headEnd ≤ 1024 := by
    simp only [headEnd, hmin]
    exact ⟨le_boundaryBefore ha hale.1, boundaryBefore_le text 1024⟩
  obtain ⟨htail, hstart, hstop⟩ := boundaryAfter_spec hb hble.1
    (show b < byteLen text - 1024 + 1024 by omega)
  have htailStart : tailStart = boundaryAfter text (byteLen text - 1024) 1024 := rfl
  exact ⟨by omega, by omega, by omega, by omega, by omega, isBoundary_boundaryBefore text _, htail⟩

theorem isBoundary_byteLen (text : List Char) : isBoundary text (byteLen text) = true :=
  isBoundary_iff.mpr ⟨text, [], (List.append_nil text).symm, rfl⟩

theorem slice_excerptAt {a b : Nat} (ha : isBoundary text a = true) (hb : isBoundary text b = true)
    (hle : a ≤ b) : slice text ⟨a, b⟩ = some (excerptAt text ⟨a, b⟩).toList ∧
      byteLen (excerptAt text ⟨a, b⟩).toList = b - a := by
  obtain ⟨part, hpart, hlen⟩ := slice_of_boundaries ha hb hle
  rw [excerptAt, String.toList_ofList, hpart]
  exact ⟨rfl, hlen⟩

open ObservationPartCoverage

/-- A projected part is consistent, is shown at least in part, and its excerpts are
as long as their ranges. -/
theorem projectPart_spec (text : String) :
    (projectPart text).coverage.consistent = true ∧
      isFullyUnpresented (projectPart text).coverage = false ∧
      ((projectPart text).excerpts.zip (projectPart text).coverage.presentedRanges).all
        (fun entry =>
        decide (byteLen entry.1.toList = entry.2.stop - entry.2.start)) = true := by
  have hend := isBoundary_byteLen text.toList
  have hzero := isBoundary_zero text.toList
  unfold projectPart
  by_cases hempty : byteLen text.toList = 0
  · simp [hempty, consistent, isFullyUnpresented]
  · by_cases hsmall : byteLen text.toList ≤ observationPartFullLimitBytes
    · have hlen := (slice_excerptAt hzero hend (Nat.zero_le _)).2
      simp [hempty, hsmall, consistent, isFullyUnpresented, hlen]
    · obtain ⟨hpos, hhead, hgap, htail, hedge, hb, hb'⟩ := projectPart_edges (not_le.mp hsmall)
      have hlenHead := (slice_excerptAt hzero hb (Nat.zero_le _)).2
      have hlenTail := (slice_excerptAt hb' hend (by omega)).2
      simp only [hempty, hsmall, if_false, consistent, isFullyUnpresented]
      refine ⟨?_, by simp, ?_⟩
      · simp [hhead, hgap, hedge]
        omega
      · simp [hlenHead, hlenTail]

theorem validate_projectPart (text : String) :
    (projectPart text).coverage.validate = .ok () ∧
      validatePartExcerpt (projectPart text) (projectPart text).coverage = .ok () := by
  obtain ⟨hcons, -, hlengths⟩ := projectPart_spec text
  have hvalid : (projectPart text).coverage.validate = .ok () := ensure_bind_eq_ok.mpr
      ⟨validSha256_contentSha256 text, ensure_eq_ok.mpr hcons⟩
  refine ⟨hvalid, bind_eq_ok.mpr ⟨(), hvalid, ensure_eq_ok.mpr ?_⟩⟩
  have hcount : (projectPart text).excerpts.length =
      (projectPart text).coverage.presentedRanges.length := by simp [projectPart]
  simp [hcount, hlengths]

variable {reference : ObservationReference} {toolName : String}

/-- A projection made of valid parts is valid. -/
theorem validate_projectionOf {call output : ObservationPartExcerpt}
    (hid : validateIdentity reference toolName = .ok ())
    (hcall : call.coverage.validate = .ok () ∧ validatePartExcerpt call call.coverage = .ok ())
    (hout : output.coverage.validate = .ok () ∧
      validatePartExcerpt output output.coverage = .ok ())
    (hshown : isFullyUnpresented call.coverage = false)
    (hsha : reference.sha256 = output.coverage.sha256)
    (hempty : output.coverage.totalBytes = 0 → reference.sha256 = contentSha256 "") :
    (projectionOf reference toolName call output).validate = .ok () := by
  refine bind_eq_ok.mpr ⟨(), ?_, ?_⟩
  · refine bind_eq_ok.mpr ⟨(), hid, bind_eq_ok.mpr ⟨(), hcall.1, ?_⟩⟩
    refine bind_eq_ok.mpr ⟨(), hout.1, ensure_bind_eq_ok.mpr ⟨?_, ?_⟩⟩
    · simp [projectionOf, hshown]
    · exact ensure_bind_eq_ok.mpr ⟨decide_eq_true hsha,
        ensure_eq_ok.mpr (not_and_not_eq_true.mpr hempty)⟩
  · refine ensure_bind_eq_ok.mpr ⟨by simp [projectionOf], ?_⟩
    exact bind_eq_ok.mpr ⟨(), hcall.2, hout.2⟩

theorem validSha256_of_validateIdentity (h : validateIdentity reference toolName = .ok ()) :
    validSha256 reference.sha256 = true :=
  ensure_eq_ok.mp (ensure_bind_eq_ok.mp h).2

variable {projection : ObservationProjection}

/-- **A bounded projection** fails only on a blank identity or a wrong digest. -/
theorem projectObservation_eq_ok_iff {callText outputText : String} :
    projectObservation reference toolName callText outputText = .ok projection ↔
      validateIdentity reference toolName = .ok () ∧ contentSha256 outputText = reference.sha256 ∧
        projection =
          projectionOf reference toolName (projectPart callText) (projectPart outputText) := by
  simp only [projectObservation, bind_eq_ok, ensure_eq_ok, exists_const, Bool.and_eq_true,
    decide_eq_true_eq]
  constructor
  · rintro ⟨⟨⟩, hid, hsha, ⟨⟩, -, ⟨⟩⟩
    exact ⟨hid, hsha.2, rfl⟩
  · rintro ⟨hid, hsha, rfl⟩
    refine ⟨(), hid, ⟨validSha256_of_validateIdentity hid, hsha⟩, (), ?_, rfl⟩
    refine validate_projectionOf hid (validate_projectPart callText)
      (validate_projectPart outputText) (projectPart_spec callText).2.1 hsha.symm ?_
    intro hzero
    have hnil := byteLen_eq_zero hzero
    rw [← hsha, contentSha256, contentSha256, hnil]
    rfl

/-- Nonempty ranges, each starting where the one before it stops. -/
inductive Tiles : Nat → List ByteRange → Nat → Prop
  | nil (stop : Nat) : Tiles stop [] stop
  | cons {range : ByteRange} {rest : List ByteRange} {stop : Nat} (hlt : range.start < range.stop)
      (hrest : Tiles range.stop rest stop) : Tiles range.start (range :: rest) stop

/-- The presented and the unpresented ranges, each in order, are the pieces of a
partition of the bytes. -/
def ObservationPartCoverage.Partitions (part : ObservationPartCoverage) : Prop :=
  ∃ ranges, Tiles 0 ranges part.totalBytes ∧
    ranges.Perm (part.presentedRanges ++ part.unpresentedRanges) ∧
    part.presentedRanges.Sublist ranges ∧ part.unpresentedRanges.Sublist ranges

/-- What a bounded part shows of a text. -/
structure ShownOf (text : String) (part : ObservationPartExcerpt) : Prop where
  partitions : part.coverage.Partitions
  total : part.coverage.totalBytes = byteLen text.toList
  excerpts : part.coverage.presentedRanges.map (slice text.toList) =
    part.excerpts.map fun excerpt => some excerpt.toList
  whole : byteLen text.toList ≤ 2048 → part.coverage.unpresentedRanges = []
  edges : 2048 < byteLen text.toList → ∃ head tail,
    part.coverage.presentedRanges = [⟨0, head⟩, ⟨tail, byteLen text.toList⟩] ∧
      (1021 ≤ head ∧ head ≤ 1024) ∧ 1021 ≤ byteLen text.toList - tail ∧
      byteLen text.toList - tail ≤ 1024

theorem partitions_of_consistent {part : ObservationPartCoverage} (h : part.consistent = true) :
    part.Partitions := by
  obtain ⟨sha256, total, presented, unpresented, isPartial⟩ := part
  unfold consistent at h
  split at h
  · simp only [Bool.and_eq_true, List.isEmpty_iff] at h
    rename_i hzero
    obtain ⟨⟨rfl, rfl⟩, -⟩ := h
    obtain rfl : total = 0 := hzero
    exact ⟨[], .nil 0, .nil, .slnil, .slnil⟩
  · rename_i hzero
    have hone : Tiles (⟨0, total⟩ : ByteRange).start [⟨0, total⟩] total :=
      .cons (Nat.pos_of_ne_zero hzero) (.nil total)
    split at h
    · rename_i hnone
      simp only [List.isEmpty_iff] at hnone
      obtain ⟨rfl, rfl, -⟩ := hnone
      exact ⟨_, hone, .refl _, List.nil_sublist _, .refl _⟩
    · split at h
      · simp only [Bool.and_eq_true, decide_eq_true_eq, List.isEmpty_iff] at h
        obtain ⟨⟨rfl, rfl⟩, -⟩ := h
        exact ⟨_, hone, .refl _, .refl _, List.nil_sublist _⟩
      · split at h
        · rename_i head tail gap hpres hunpresented
          simp only [Bool.and_eq_true, decide_eq_true_eq] at h
          obtain ⟨⟨⟨⟨⟨⟨⟨⟨⟨hbegin, hhead⟩, -⟩, hgap⟩, htail⟩, hend⟩, -⟩, hstart⟩, hstop⟩, -⟩ := h
          obtain rfl : presented = [head, tail] := hpres
          obtain rfl : unpresented = [gap] := hunpresented
          obtain rfl : tail.stop = total := hend
          refine ⟨[head, gap, tail], ?_, .cons head (.swap tail gap []), by simp, by simp⟩
          rw [← hbegin]
          refine .cons hhead ?_
          rw [← hstart]
          refine .cons (by omega) ?_
          rw [hstop]
          exact .cons htail (.nil _)
        · cases h

theorem shownOf_projectPart (text : String) : ShownOf text (projectPart text) := by
  have hend := isBoundary_byteLen text.toList
  have hzero := isBoundary_zero text.toList
  have hpart := partitions_of_consistent (projectPart_spec text).1
  by_cases hempty : byteLen text.toList = 0
  · exact ⟨hpart, rfl, by simp [projectPart, hempty], by simp [projectPart, hempty], by omega⟩
  · by_cases hsmall : byteLen text.toList ≤ 2048
    · refine ⟨hpart, rfl, ?_, ?_, by omega⟩ <;>
        simp [projectPart, hempty, observationPartFullLimitBytes, hsmall,
          (slice_excerptAt hzero hend (Nat.zero_le _)).1]
    · obtain ⟨hpos, hhead, hgap, htail, hedge, hb, hb'⟩ := projectPart_edges (not_le.mp hsmall)
      refine ⟨hpart, rfl, ?_, fun h => absurd h hsmall, fun _ => ⟨_, _, ?_, ⟨hpos, hhead⟩, htail,
        hedge⟩⟩ <;> simp only [projectPart, hempty, observationPartFullLimitBytes, hsmall, if_false]
      simp [(slice_excerptAt hzero hb (Nat.zero_le _)).1, (slice_excerptAt hb' hend (by omega)).1]

/-- **A bounded projection is exact.** It is made for every nonblank identity and
matching digest, its parts partition their texts, each excerpt is the text at its
range, and only the middle of a long text is left out; and what passes the
validation of a coverage is always a partition. -/
theorem projectObservation_exact :
    (∀ (reference : ObservationReference) (toolName callText outputText : String),
      isBlank reference.threadId = false ∧ isBlank reference.callId = false ∧
          isBlank toolName = false →
        contentSha256 outputText = reference.sha256 →
          ∃ projection, projectObservation reference toolName callText outputText = .ok projection ∧
            projection.summary.call.coverage = projection.coverage.call ∧
            projection.summary.output.coverage = projection.coverage.output ∧
            ShownOf callText projection.summary.call ∧
            ShownOf outputText projection.summary.output) ∧
    ∀ part : ObservationPartCoverage, part.validate = .ok () → part.Partitions := by
  constructor
  · intro reference toolName callText outputText hid hsha
    have hident : validateIdentity reference toolName = .ok () := by
      refine ensure_bind_eq_ok.mpr ⟨by simp [hid], ensure_eq_ok.mpr ?_⟩
      rw [← hsha]
      exact validSha256_contentSha256 outputText
    exact ⟨_, projectObservation_eq_ok_iff.mpr ⟨hident, hsha, rfl⟩, rfl, rfl,
      shownOf_projectPart callText, shownOf_projectPart outputText⟩
  · intro part hvalid
    exact partitions_of_consistent (ensure_eq_ok.mp (ensure_bind_eq_ok.mp hvalid).2)

/-- An output too long to be shown whole; the end of its first 1024 bytes lies in a character. -/
def longOutput : String := String.ofList ('あ' :: List.replicate 1100 'é')

/-- The call is shown whole, and the output without its middle. -/
theorem projectObservation_exact_sample :
    ∃ projection, projectObservation ⟨"thread", "call", contentSha256 longOutput⟩ "sh" "ls -l"
        longOutput = .ok projection ∧
      projection.coverage.call.unpresentedRanges = [] ∧
      ∃ head tail, projection.coverage.output.presentedRanges = [⟨0, head⟩, ⟨tail, 2203⟩] ∧
        head ≤ 1024 ∧ 2203 - tail ≤ 1024 ∧
        [⟨0, head⟩, ⟨tail, 2203⟩].map (slice longOutput.toList) =
          projection.summary.output.excerpts.map fun excerpt => some excerpt.toList := by
  obtain ⟨projection, hproject, hcall, houtput, hcallShown, hshown⟩ :=
    projectObservation_exact.1 ⟨"thread", "call", contentSha256 longOutput⟩ "sh" "ls -l" longOutput
      (by decide) rfl
  have hreplicate : ∀ n, byteLen (List.replicate n 'é') = 2 * n := by
    intro n
    induction n with
    | zero => rfl
    | succ n ih =>
      have hsize : 'é'.utf8Size = 2 := by decide
      rw [List.replicate_succ, byteLen_cons, ih, hsize]
      omega
  have hbytes : byteLen longOutput.toList = 2203 := by
    have hsize : 'あ'.utf8Size = 3 := by decide
    have hlist : longOutput.toList = 'あ' :: List.replicate 1100 'é' := String.toList_ofList
    rw [hlist, byteLen_cons, hreplicate, hsize]
  obtain ⟨head, tail, hranges, hhead, -, htail⟩ := hshown.edges (by omega)
  rw [hbytes] at hranges htail
  refine ⟨projection, hproject, hcall ▸ hcallShown.whole (by decide), head, tail,
    houtput ▸ hranges, hhead.2, htail, ?_⟩
  rw [← hranges]
  exact hshown.excerpts

/-! ## Checking markers -/

theorem verifyObservationMarker_eq_ok_iff {source actual : Option CodexHarnessMetadata}
    {body : String} :
    verifyObservationMarker projection source actual body = .ok () ↔
      projection.validate = .ok () ∧ body = observationMarkerBody projection ∧
        ∃ metadata, observationMarkerMetadata source projection.coverage = .ok metadata ∧
          actual = some metadata := by
  simp only [verifyObservationMarker, bind_eq_ok, ensure_eq_ok, exists_const, decide_eq_true_eq]
  constructor
  · rintro ⟨⟨⟩, hvalid, metadata, hmeta, hact, hbody⟩
    exact ⟨hvalid, hbody, metadata, hmeta, hact⟩
  · rintro ⟨hvalid, hbody, metadata, hmeta, hact⟩
    exact ⟨(), hvalid, metadata, hmeta, hact, hbody⟩

end RenCrow
