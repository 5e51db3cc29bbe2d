import RenCrowCore.Core.NativeProjectionBasic
import RenCrowCore.History.Presentation

/-!
# Removal in the entries of a message

`filter_retained_instructions` (`core/src/compact_rencrow_native.rs`) applies an accepted map of
removals to the history itself: declared input is kept without the removed passages, plain work
and host context are dropped, and everything that is protected or not understood is kept as it is.
A removal is a range of the whole text of a message, and it is cut out of its entries one by one.
The user messages and the note that the function makes of the kept items are left out.

* `retainContext`, `retainAll`: the checks, and the loop over the history;
* `applyRangesToContent_spec`: a removal never panics, keeps every entry, and leaves of the whole
  text exactly what lies outside the ranges;
* `native_removal_agrees`: so the text of a kept message is the text that pruning has retained.
-/

namespace RenCrow

open Serde Fallible Text SortedMap

open Text (ByteRange overlaps)

/-! ## Entries -/

/-- The text of an entry that has one. -/
def ContentItem.text? : ContentItem → Option String
  | .inputText text | .outputText text => some text
  | .inputImage .. | .inputAudio _ => none

/-- `content_text`: the text of a message. -/
def contentText (content : List ContentItem) : String :=
  String.join (content.filterMap ContentItem.text?)

/-- One entry of a message with the byte offset at which it starts. -/
def contentOffsets : Nat → List ContentItem → List (ContentItem × Nat)
  | _, [] => []
  | start, item :: rest =>
    (item, start) ::
      contentOffsets (start + byteLen ((item.text?).getD "").toList) rest

/-- The part of a range that is inside an entry, relative to it. -/
def localRange (start : Nat) (text : String) (range : ByteRange) : Option ByteRange :=
  let first := max range.start start
  let last := min range.stop (start + byteLen text.toList)
  if first < last then some ⟨first - start, last - start⟩ else none

/-- One entry without the removed passages. -/
def removeFromItem (ranges : List ByteRange) (entry : ContentItem × Nat) :
    Except Failure ContentItem :=
  let remove (text : String) : Except Failure String :=
    match removeRanges text.toList (ranges.filterMap (localRange entry.2 text)).reverse with
    | none => .error .panicked
    | some rest => .ok (String.ofList rest)
  match entry.1 with
  | .inputText text => .inputText <$> remove text
  | .outputText text => .outputText <$> remove text
  | item => .ok item

/-- `apply_ranges_to_content`. -/
def applyRangesToContent (content : List ContentItem) (ranges : List ByteRange) :
    Except Failure (List ContentItem) := do
  let fullText := (contentText content).toList
  ensure (ranges.all fun range => decide (range.start < range.stop) &&
      decide (range.stop ≤ byteLen fullText) && isBoundary fullText range.start &&
      isBoundary fullText range.stop)
    (.error "accepted native removal range is outside the Human text")
  (contentOffsets 0 content).mapM (removeFromItem ranges)

/-! ## Removals -/

/-- The removals of one accepted reference, after every check on it. -/
def addRemoval (originals : List ResponseItemEnvelope) (input : CandidateInput)
    (snapshot : CompactionSnapshot) (removals : SortedMap (List ByteRange))
    (reference : SourceRef) : Except Failure (SortedMap (List ByteRange)) := do
  match input.records.zipIdx.reverse.find? fun entry => decide (entry.1.id = reference.id) with
  | none => .error (.error "native exclusion references an absent source")
  | some (record, index) =>
    let original := originals.getD index default
    ensure (original.item.id.any fun id => decide (id = reference.id))
      (.error "native exclusion targets an item without a stable native identity")
    ensure (record.origin.isDeclaredInput && decide (record.role = "user") &&
        record.opaqueData.isNone && isUserMessage original.item)
      (.error "native exclusion does not target a plain Human user message")
    let current ← mapPlanError "invalid native exclusion reference: "
      (snapshot.reference record.id reference.range)
    ensure (decide (current = reference))
      (.error "native exclusion source changed after selection")
    ensure (!record.protectedRanges.any fun range => overlaps range reference.range)
      (.error "native exclusion intersects protected Human text")
    return insert record.id
      ((get record.id removals).getD [] ++ [reference.range]) removals

/-- `windows(2).any(ranges_overlap)`. -/
def neighboursOverlap : List ByteRange → Bool
  | first :: second :: rest => overlaps first second || neighboursOverlap (second :: rest)
  | _ => false

/-- The removals of an accepted map, sorted. -/
def nativeRemovals (originals : List ResponseItemEnvelope) (input : CandidateInput)
    (snapshot : CompactionSnapshot) (applied : List SourceRef) :
    Except Failure (SortedMap (List ByteRange)) := do
  let removals ← applied.foldlM (addRemoval originals input snapshot) []
  let removals := removals.map fun entry => (entry.1, sortAscending entry.2)
  ensure (!removals.any fun entry => neighboursOverlap entry.2)
    (.error "native exclusion ranges overlap or repeat")
  return removals

/-! ## What is kept -/

/-- The source of a runtime-owned context message. -/
def internalContextSource : ResponseItem → Option String
  | .message _ role content _ passthrough =>
    let kinds := passthrough.bind InternalChatMessageMetadataPassthrough.contentItemKinds
    match role, content, kinds with
    | "user", [_], some [kind] =>
      let suffix := ".internal_context".toList
      if suffix.isSuffixOf kind.toList then
        some (String.ofList (kind.toList.take (kind.toList.length - suffix.length)))
      else none
    | _, _, _ => none
  | _ => none

/-- What the loop over the history reads. -/
structure RetainContext where
  removals : SortedMap (List ByteRange)
  retainedHumanText : SortedMap String
  selectionHash : String
  /-- The newest item of each source of host context. -/
  latestInternalContext : SortedMap Nat

/-- The intake record of a message whose text was cut. -/
def retainedIntake (selectionHash retainedText : String) (intake : Json) : Except Failure Json :=
  match Json.indexAssign "selected_text" (.string retainedText) intake with
  | none => .error .panicked
  | some intake =>
    match Json.indexAssign "selection_hash" (.string selectionHash) intake with
    | none => .error .panicked
    | some intake => .ok intake

/-- The error when the two renderings of a removal differ. -/
def projectionDiffers : Failure :=
  .error "native Human projection differs from accepted exclusion map"

/-- Declared input, without the removed passages. -/
def retainInput (ctx : RetainContext) (record : CandidateRecord)
    (original : ResponseItemEnvelope) : Except Failure (Option ResponseItemEnvelope) :=
  match original.item with
  | .message id role content phase passthrough => do
    ensure (decide (role = "user"))
      (.error "Human candidate no longer has user role")
    ensure (decide (contentText content = record.text))
      (.error "native Human text differs from its captured snapshot")
    match (get record.id ctx.removals).getD [] with
    | [] => return some original
    | ranges =>
      match original.metadata, original.metadata.bind CodexHarnessMetadata.rencrowInput with
      | some metadata, some intake =>
        ensure (decide ((intake.index "selected_text").asStr = some record.text))
          (.error "native Human intake text differs from its captured snapshot")
        let content ← applyRangesToContent content ranges
        let retainedText := contentText content
        ensure (decide (get record.id ctx.retainedHumanText = some retainedText)) projectionDiffers
        let intake ← retainedIntake ctx.selectionHash retainedText intake
        if record.text ≠ "" ∧ retainedText = "" ∧ record.opaqueData.isNone then return none
        else return some {
          item := .message id role content phase passthrough
          metadata := some { metadata with rencrowInput := some intake } }
      | _, _ => .error (.error "selected Human source lost its host intake record")
  | _ => .error (.error "Human candidate no longer maps to a native message")

/-- What is kept of one item of the history. -/
def retainItem (ctx : RetainContext) (index : Nat) (record : CandidateRecord)
    (original : ResponseItemEnvelope) : Except Failure (Option ResponseItemEnvelope) :=
  if isUserSummary original && !record.origin.isDeclaredInput then .ok none
  else
    match record.origin with
    | .human | .automation => retainInput ctx record original
    | .host =>
      if (internalContextSource original.item).any fun source =>
          decide (get source ctx.latestInternalContext = some index) then
        .ok (some original)
      else if record.opaqueData.isNone ∧ record.protectedRanges = [] then .ok none
      else .ok (some original)
    | .work =>
      if record.opaqueData.isNone ∧ record.protectedRanges = [] then .ok none
      else .ok (some original)
    | .unknown => .ok (some original)

/-- `TIMELINE_SOURCE`. -/
def timelineSource : String := "compaction"

/-- The newest position of each source of host context, the timeline apart. -/
def latestInternalContext (originals : List ResponseItemEnvelope) : SortedMap Nat :=
  originals.zipIdx.foldl (fun latest entry =>
    match internalContextSource entry.1.item with
    | some source =>
      if source ≠ timelineSource then insert source entry.2 latest else latest
    | none => latest) []

/-- The kept items with their positions in the history. -/
def retainedItems (kept : List (Option ResponseItemEnvelope)) : List RetainedItem :=
  kept.zipIdx.filterMap fun entry => entry.1.map (RetainedItem.mk entry.2)

/-- The checks of `filter_retained_instructions` before its loop. -/
def retainContext (originals : List ResponseItemEnvelope) (input : CandidateInput)
    (application : InstructionSelectionApplication) : Except Failure RetainContext := do
  let snapshot ← input.snapshot
  ensure (decide (input.records.length = originals.length))
    (.error "native history and candidate record counts differ")
  (input.records.zip originals).zipIdx.forM fun entry =>
    ensure (decide (entry.1.1.id = (entry.1.2.item.id).getD ("item-" ++ toString entry.2)))
      (.error ("native identity mapping mismatch at candidate index " ++ toString entry.2))
  let checked ← pruneKnownObsolete input application.pruning.applied
  ensure (decide (checked = application.pruning))
    (.error "accepted native exclusion map does not match its source references")
  let removals ← nativeRemovals originals input snapshot application.pruning.applied
  let selectionHash := application.planHash.getD
    (digest (.array (application.pruning.applied.map encodeSourceRef)))
  return ⟨removals, application.pruning.retainedHumanText, selectionHash,
    latestInternalContext originals⟩

/-- The loop of `filter_retained_instructions`: what is kept of each item. -/
def retainAll (ctx : RetainContext) (originals : List ResponseItemEnvelope)
    (input : CandidateInput) : Except Failure (List (Option ResponseItemEnvelope)) :=
  (input.records.zip originals).zipIdx.mapM fun entry =>
    retainItem ctx entry.2 entry.1.1 entry.1.2

/-- The items that `filter_retained_instructions` keeps. -/
def retainedInstructions (originals : List ResponseItemEnvelope) (input : CandidateInput)
    (application : InstructionSelectionApplication) : Except Failure (List RetainedItem) := do
  let ctx ← retainContext originals input application
  let kept ← retainAll ctx originals input
  return retainedItems kept

/-! ## What is cut out of the entries -/

/-- The entries are of one kind, and the same if they are no text. -/
def SameEntry : ContentItem → ContentItem → Prop
  | .inputText _, .inputText _ => True
  | .outputText _, .outputText _ => True
  | item, item' => item.text? = none ∧ item' = item

variable {ranges : List ByteRange}

/-- Ranges are in order, do not overlap and are not empty. -/
structure InOrder (ranges : List ByteRange) : Prop where
  nonempty : ∀ range ∈ ranges, range.start < range.stop
  sorted : ranges.Pairwise fun a b => a.stop ≤ b.start

theorem localRange_eq_some {start : Nat} {text : String} {range cut : ByteRange}
    (h : localRange start text range = some cut) :
    max range.start start < min range.stop (start + byteLen text.toList) ∧
      cut = ⟨max range.start start - start,
        min range.stop (start + byteLen text.toList) - start⟩ := by
  simp only [localRange] at h
  split at h
  · cases h
    exact ⟨by assumption, rfl⟩
  · cases h

/-- What the ranges leave of one entry. -/
theorem removeRanges_local (hranges : InOrder ranges) {start : Nat} {text : String}
    (hbtw : ∀ range ∈ ranges, Between text.toList start range.start ∧
      Between text.toList start range.stop) :
    removeRanges text.toList (ranges.filterMap (localRange start text)).reverse =
      some (keepChars ranges start text.toList) := by
  have hvalid : ∀ cut ∈ ranges.filterMap (localRange start text),
      (slice text.toList cut).isSome = true := by
    intro cut hcut
    obtain ⟨range, hrange, hlocal⟩ := List.mem_filterMap.mp hcut
    obtain ⟨hlt, rfl⟩ := localRange_eq_some hlocal
    obtain ⟨hstart, hstop⟩ := hbtw range hrange
    have hclamp := hstart.clamp
    rw [show min range.start (start + byteLen text.toList) - start =
      max range.start start - start by omega] at hclamp
    obtain ⟨part, hpart, -⟩ := slice_of_boundaries hclamp hstop.clamp (by omega)
    rw [hpart]
    rfl
  have hsort : (ranges.filterMap (localRange start text)).Pairwise
      fun a b => a.stop ≤ b.start := by
    rw [List.pairwise_filterMap]
    refine hranges.sorted.imp fun {a b} hab cut hcut cut' hcut' => ?_
    obtain ⟨hlt, rfl⟩ := localRange_eq_some hcut
    obtain ⟨hlt', rfl⟩ := localRange_eq_some hcut'
    simp only
    omega
  obtain ⟨out, hout, hbytes⟩ := removeRanges_spec
    (fun cut hcut => hvalid cut (List.mem_reverse.mp hcut)) (List.pairwise_reverse.mpr hsort)
  rw [hout]
  refine congrArg some (utf8Bytes_injective (hbytes.trans ?_))
  rw [utf8Bytes_keepChars hbtw]
  refine keepFrom_congr fun i hi => ?_
  rw [length_utf8Bytes] at hi
  rw [covered, covered, List.any_reverse, Bool.eq_iff_iff, List.any_eq_true, List.any_eq_true]
  constructor
  · rintro ⟨cut, hcut, hcovers⟩
    obtain ⟨range, hrange, hlocal⟩ := List.mem_filterMap.mp hcut
    obtain ⟨hlt, rfl⟩ := localRange_eq_some hlocal
    refine ⟨range, hrange, ?_⟩
    rw [ByteRange.covers_iff] at hcovers ⊢
    dsimp only at hcovers
    omega
  · rintro ⟨range, hrange, hcovers⟩
    rw [ByteRange.covers_iff] at hcovers
    refine ⟨_, List.mem_filterMap.mpr ⟨range, hrange, if_pos (by omega)⟩, ?_⟩
    rw [ByteRange.covers_iff]
    dsimp only
    omega

/-- The text of one entry. -/
def entryText (item : ContentItem) : List Char := ((item.text?).getD "").toList

theorem toList_contentText_cons (item : ContentItem) (rest : List ContentItem) :
    (contentText (item :: rest)).toList = entryText item ++ (contentText rest).toList := by
  rw [contentText, contentText, List.filterMap_cons, entryText]
  cases item.text? <;> simp

theorem removeFromItem_spec (hranges : InOrder ranges) {start : Nat} {item : ContentItem}
    (hbtw : ∀ range ∈ ranges, Between (entryText item) start range.start ∧
      Between (entryText item) start range.stop) :
    ∃ item', removeFromItem ranges (item, start) = .ok item' ∧ SameEntry item item' ∧
      entryText item' = keepChars ranges start (entryText item) := by
  cases item with
  | inputText text =>
    refine ⟨.inputText (String.ofList (keepChars ranges start text.toList)), ?_, trivial, ?_⟩
    · have hrem : removeRanges text.toList _ = _ := removeRanges_local hranges hbtw
      unfold removeFromItem
      dsimp only
      rw [hrem]
      rfl
    · simp [entryText, ContentItem.text?]
  | outputText text =>
    refine ⟨.outputText (String.ofList (keepChars ranges start text.toList)), ?_, trivial, ?_⟩
    · have hrem : removeRanges text.toList _ = _ := removeRanges_local hranges hbtw
      unfold removeFromItem
      dsimp only
      rw [hrem]
      rfl
    · simp [entryText, ContentItem.text?]
  | _ => exact ⟨_, rfl, ⟨rfl, rfl⟩, rfl⟩

/-- **What is cut out of the entries** of a message. -/
theorem mapM_removeFromItem (hranges : InOrder ranges) {content : List ContentItem} {start : Nat}
    (hbtw : ∀ range ∈ ranges, Between (contentText content).toList start range.start ∧
      Between (contentText content).toList start range.stop) :
    ∃ content', (contentOffsets start content).mapM (removeFromItem ranges) = .ok content' ∧
      List.Forall₂ SameEntry content content' ∧
      (contentText content').toList = keepChars ranges start (contentText content).toList := by
  induction content generalizing start with
  | nil => exact ⟨[], rfl, .nil, rfl⟩
  | cons item rest ih =>
    have hsplit : ∀ b, Between (contentText (item :: rest)).toList start b →
        Between (entryText item) start b ∧
          Between (contentText rest).toList (start + byteLen (entryText item)) b := by
      intro b h
      rw [toList_contentText_cons] at h
      exact h.append
    obtain ⟨item', hitem, hsame, htext⟩ := removeFromItem_spec hranges fun range hrange =>
      ⟨(hsplit _ (hbtw range hrange).1).1, (hsplit _ (hbtw range hrange).2).1⟩
    obtain ⟨rest', hrest, hsameRest, htextRest⟩ := ih fun range hrange =>
      ⟨(hsplit _ (hbtw range hrange).1).2, (hsplit _ (hbtw range hrange).2).2⟩
    refine ⟨item' :: rest', ?_, .cons hsame hsameRest, ?_⟩
    · rw [contentOffsets, List.mapM_cons]
      exact bind_eq_ok.mpr ⟨item', hitem, bind_eq_ok.mpr ⟨rest', hrest, rfl⟩⟩
    · rw [toList_contentText_cons, toList_contentText_cons, keepChars_append, htext, htextRest]

/-- **Removal from a message** never panics, keeps every entry, and leaves of the text what
lies outside the ranges. -/
theorem applyRangesToContent_spec (hranges : InOrder ranges) {content : List ContentItem}
    (hbounds : ∀ range ∈ ranges, isBoundary (contentText content).toList range.start = true ∧
      isBoundary (contentText content).toList range.stop = true) :
    ∃ content', applyRangesToContent content ranges = .ok content' ∧
      List.Forall₂ SameEntry content content' ∧
      utf8Bytes (contentText content').toList =
        keepOutside ranges (utf8Bytes (contentText content).toList) := by
  have hbtw : ∀ range ∈ ranges, Between (contentText content).toList 0 range.start ∧
      Between (contentText content).toList 0 range.stop := by
    intro range hrange
    exact ⟨.inr (.inr (hbounds range hrange).1), .inr (.inr (hbounds range hrange).2)⟩
  obtain ⟨content', hcont, hsame, htext⟩ := mapM_removeFromItem hranges hbtw
  refine ⟨content', ensure_bind_eq_ok.mpr ⟨?_, hcont⟩, hsame, ?_⟩
  · refine List.all_eq_true.mpr fun range hrange => ?_
    obtain ⟨before, after, heq, hlen⟩ := isBoundary_iff.mp (hbounds range hrange).2
    have hle : range.stop ≤ byteLen (contentText content).toList := by
      rw [heq, byteLen_append]
      omega
    simp [hranges.nonempty range hrange, hle, hbounds range hrange]
  · rw [htext, utf8Bytes_keepChars hbtw]
    rfl

/-! ## The removals of a projection -/

section Removals

variable {originals : List ResponseItemEnvelope} {input : CandidateInput}
  {snapshot : CompactionSnapshot} {applied : List SourceRef}

theorem foldlM_addRemoval {removals removals' : SortedMap (List ByteRange)}
    (h : applied.foldlM (addRemoval originals input snapshot) removals = .ok removals')
    (id : String) :
    (get id removals').getD [] = (get id removals).getD [] ++ removedRanges applied id := by
  induction applied generalizing removals with
  | nil =>
    cases h
    simp [removedRanges]
  | cons reference rest ih =>
    rw [List.foldlM_cons] at h
    obtain ⟨next, hstep, hrest⟩ := bind_eq_ok.mp h
    rw [ih hrest]
    unfold addRemoval at hstep
    split at hstep
    · cases hstep
    · rename_i record index hfind
      have hid : record.id = reference.id := by simpa using List.find?_some hfind
      obtain ⟨-, hstep⟩ := ensure_bind_eq_ok.mp hstep
      obtain ⟨-, hstep⟩ := ensure_bind_eq_ok.mp hstep
      obtain ⟨current, -, hstep⟩ := bind_eq_ok.mp hstep
      obtain ⟨-, hstep⟩ := ensure_bind_eq_ok.mp hstep
      obtain ⟨-, hstep⟩ := ensure_bind_eq_ok.mp hstep
      cases hstep
      by_cases heq : id = record.id
      · subst heq
        simp [removedRanges, hid]
      · rw [get_insert_of_ne heq]
        simp [removedRanges, show reference.id ≠ id from fun h => heq (h.symm.trans hid.symm)]

theorem nativeRemovals_get {removals : SortedMap (List ByteRange)}
    (h : nativeRemovals originals input snapshot applied = .ok removals) (id : String) :
    (get id removals).getD [] = sortAscending (removedRanges applied id) := by
  obtain ⟨collected, hcollected, h⟩ := bind_eq_ok.mp h
  obtain ⟨-, h⟩ := ensure_bind_eq_ok.mp h
  cases h
  have hid := foldlM_addRemoval hcollected id
  rw [get_map]
  cases hget : get id collected with
  | none =>
    have hnil : removedRanges applied id = [] := by simpa [hget, SortedMap.get] using hid.symm
    rw [hnil]
    rfl
  | some ranges =>
    obtain rfl : ranges = removedRanges applied id := by simpa [hget, SortedMap.get] using hid
    rfl

variable {application : InstructionSelectionApplication} {ctx : RetainContext}
  {record : CandidateRecord}

/-- Disjoint deletions are in order once they are sorted. -/
theorem Deletions.inOrder (h : Deletions record ranges) : InOrder (sortAscending ranges) := by
  have hnonempty : ∀ range ∈ sortAscending ranges, range.start < range.stop := by
    intro range hrange
    have hvalid := h.valid range (mem_sortAscending.mp hrange)
    exact of_decide_eq_true (Bool.and_eq_true_iff.mp hvalid).1
  have hdisjoint : (sortAscending ranges).Pairwise fun a b => overlaps a b = false :=
    ((List.perm_insertionSort _ _).pairwise_iff fun {a b} hab => by rwa [overlaps_comm]).mpr
      h.disjoint
  refine ⟨hnonempty, (hdisjoint.and (pairwise_start_sortAscending ranges)).imp_of_mem ?_⟩
  rintro a b - hb ⟨hover, hstart⟩
  have hlt := hnonempty b hb
  rw [← Bool.not_eq_true, overlaps_iff] at hover
  omega

/-- What the checks before the loop establish. -/
theorem retainContext_eq_ok (h : retainContext originals input application = .ok ctx) :
    ∃ snapshot, input.snapshot = .ok snapshot ∧
      pruneKnownObsolete input application.pruning.applied = .ok application.pruning ∧
      ctx.retainedHumanText = application.pruning.retainedHumanText ∧
      ∀ id, (get id ctx.removals).getD [] =
        sortAscending (removedRanges application.pruning.applied id) := by
  simp only [retainContext, bind_eq_ok, ensure_eq_ok, exists_const] at h
  obtain ⟨snapshot, hs, -, -, -, checked, hchecked, hsame, removals, hremovals, ⟨⟩⟩ := h
  obtain rfl : checked = application.pruning := of_decide_eq_true hsame
  exact ⟨snapshot, hs, hchecked, rfl, nativeRemovals_get hremovals⟩

/-- The entries of a message that loses text have the text that pruning has retained. -/
theorem applyRangesToContent_retained
    (h : retainContext originals input application = .ok ctx) (hmem : record ∈ input.records)
    {content : List ContentItem} (htext : contentText content = record.text)
    (hsome : (get record.id ctx.removals).getD [] ≠ []) :
    ∃ content', applyRangesToContent content ((get record.id ctx.removals).getD []) =
        .ok content' ∧
      List.Forall₂ SameEntry content content' ∧
      get record.id ctx.retainedHumanText = some (contentText content') := by
  obtain ⟨snapshot, hs, hpruned, hretained, hranges⟩ := retainContext_eq_ok h
  have hdels := deletions_of_prune hs hpruned hmem
  obtain ⟨hbytes, -, hret⟩ := (pruneKnownObsolete_spec hs hpruned).2.2 record hmem
  rw [hranges] at hsome ⊢
  have hbounds : ∀ range ∈ sortAscending (removedRanges application.pruning.applied record.id),
      isBoundary (contentText content).toList range.start = true ∧
        isBoundary (contentText content).toList range.stop = true := by
    intro range hrange
    have hvalid := hdels.valid range (mem_sortAscending.mp hrange)
    rw [htext]
    exact isBoundary_of_slice (Bool.and_eq_true_iff.mp hvalid).2
  obtain ⟨content', hcontent, hsame, hkept⟩ := applyRangesToContent_spec hdels.inOrder hbounds
  refine ⟨content', hcontent, hsame, ?_⟩
  have hne : removedRanges application.pruning.applied record.id ≠ [] := by
    intro hnil
    rw [hnil] at hsome
    exact hsome rfl
  rw [hretained, hret hne]
  refine congrArg some (String.toList_injective (utf8Bytes_injective ?_))
  rw [hbytes, hkept, htext]
  exact keepOutside_congr_mem (fun _ => mem_sortAscending.symm) _

/-- The comparison with the retained text never fails. -/
theorem retainInput_ne_differs (h : retainContext originals input application = .ok ctx)
    (hmem : record ∈ input.records) (original : ResponseItemEnvelope) :
    retainInput ctx record original ≠ .error projectionDiffers := by
  intro herror
  rw [retainInput] at herror
  split at herror
  · rcases ensure_bind_eq_error.mp herror with ⟨-, herror⟩ | ⟨-, herror⟩
    · simp [projectionDiffers] at herror
    rcases ensure_bind_eq_error.mp herror with ⟨-, herror⟩ | ⟨htext, herror⟩
    · simp [projectionDiffers] at herror
    split at herror
    · cases herror
    rename_i hsome
    split at herror
    · rcases ensure_bind_eq_error.mp herror with ⟨-, herror⟩ | ⟨-, herror⟩
      · simp [projectionDiffers] at herror
      obtain ⟨content', hcontent, -, hretained⟩ :=
        applyRangesToContent_retained h hmem (of_decide_eq_true htext) hsome
      rw [hcontent] at herror
      rcases ensure_bind_eq_error.mp herror with ⟨hdiffers, -⟩ | ⟨-, herror⟩
      · exact of_decide_eq_false hdiffers hretained
      rcases bind_eq_error.mp herror with herror | ⟨intake', -, herror⟩
      · unfold retainedIntake at herror
        split at herror
        · cases herror
        · split at herror <;> cases herror
      · split at herror <;> cases herror
    · simp [projectionDiffers] at herror
  · simp [projectionDiffers] at herror

theorem retainItem_ne_differs (h : retainContext originals input application = .ok ctx)
    (hmem : record ∈ input.records) (index : Nat) (original : ResponseItemEnvelope) :
    retainItem ctx index record original ≠ .error projectionDiffers := by
  have hinput := retainInput_ne_differs h hmem original
  rw [retainItem]
  split
  · nofun
  · split
    · exact hinput
    · exact hinput
    · split
      · nofun
      · split <;> nofun
    · split <;> nofun
    · nofun

end Removals

/-- **Two renderings of a removal agree.**  Ranges in order on boundaries of the text of a message
are cut out of its entries without a panic, which keeps every entry and leaves what is outside the
ranges; and in a projection this is the text that pruning has retained, so that the comparison of
the two never fails. -/
theorem native_removal_agrees :
    (∀ (content : List ContentItem) (ranges : List ByteRange), InOrder ranges →
      (∀ range ∈ ranges, isBoundary (contentText content).toList range.start = true ∧
        isBoundary (contentText content).toList range.stop = true) →
      ∃ content', applyRangesToContent content ranges = .ok content' ∧
        List.Forall₂ SameEntry content content' ∧
        utf8Bytes (contentText content').toList =
          keepOutside ranges (utf8Bytes (contentText content).toList)) ∧
    ∀ (originals : List ResponseItemEnvelope) (input : CandidateInput)
      (application : InstructionSelectionApplication) (ctx : RetainContext),
      retainContext originals input application = .ok ctx →
      (∀ record ∈ input.records, ∀ content, contentText content = record.text →
        (get record.id ctx.removals).getD [] ≠ [] →
        ∃ content', applyRangesToContent content ((get record.id ctx.removals).getD []) =
            .ok content' ∧
          List.Forall₂ SameEntry content content' ∧
          get record.id application.pruning.retainedHumanText = some (contentText content')) ∧
      retainAll ctx originals input ≠ .error projectionDiffers := by
  refine ⟨fun _ _ hranges hbounds => applyRangesToContent_spec hranges hbounds, ?_⟩
  intro originals input application ctx h
  constructor
  · intro record hmem content htext hsome
    obtain ⟨-, -, -, hretained, -⟩ := retainContext_eq_ok h
    rw [← hretained]
    exact applyRangesToContent_retained h hmem htext hsome
  · intro herror
    obtain ⟨⟨⟨record, original⟩, index⟩, hentry, hitem⟩ := mapM_eq_error herror
    have hmem := (List.of_mem_zip (List.fst_mem_of_mem_zipIdx hentry)).1
    exact retainItem_ne_differs h hmem index original hitem

/-- The entries of the first sample message. -/
def sampleContent : List ContentItem :=
  [.inputText "Use", .inputAudio "a", .inputText " é. Be kind."]

/-- The history of the sample records. -/
def sampleOriginals : List ResponseItemEnvelope :=
  [⟨.message (some "1") "user" sampleContent none none,
      some { rencrowInput := some (.object [("selected_text", .string sampleFirst.text)]) }⟩,
    ⟨.message (some "2") "user" [.inputText sampleSecond.text] none none, none⟩]

theorem retainContext_sample :
    ∃ ctx, retainContext sampleOriginals sampleInput ⟨samplePruning, none, []⟩ = .ok ctx := by
  have hpruned : pruneKnownObsolete sampleInput samplePruning.applied = .ok samplePruning :=
    prune_samplePassage
  have hsome : (retainContext sampleOriginals sampleInput
      ⟨samplePruning, none, []⟩).toOption.isSome = true := by
    rw [retainContext, snapshot_sampleInput, hpruned]
    decide +kernel
  obtain ⟨ctx, hctx⟩ := Option.isSome_iff_exists.mp hsome
  exact ⟨ctx, toOption_eq_some.mp hctx⟩

/-- A passage that spans two entries with another between them. -/
theorem native_removal_agrees_sample :
    (∃ content', applyRangesToContent sampleContent [⟨0, 7⟩, ⟨8, 10⟩] = .ok content' ∧
      utf8Bytes (contentText content').toList = utf8Bytes "  kind.".toList) ∧
    ∃ ctx, retainContext sampleOriginals sampleInput ⟨samplePruning, none, []⟩ = .ok ctx ∧
      (∃ content', applyRangesToContent sampleContent [⟨0, 7⟩] = .ok content' ∧
        List.Forall₂ SameEntry sampleContent content' ∧
        samplePruning.retainedHumanText = [("1", contentText content')]) ∧
      retainAll ctx sampleOriginals sampleInput ≠ .error projectionDiffers := by
  obtain ⟨hranges, hproject⟩ := native_removal_agrees
  constructor
  · obtain ⟨content', hcontent, -, hkept⟩ :=
      hranges sampleContent [⟨0, 7⟩, ⟨8, 10⟩] ⟨by decide, by decide⟩ (by decide)
    exact ⟨content', hcontent, hkept.trans (by decide)⟩
  · obtain ⟨ctx, hctx⟩ := retainContext_sample
    obtain ⟨hretained, hloop⟩ := hproject _ _ _ ctx hctx
    obtain ⟨-, -, -, -, hremovals⟩ := retainContext_eq_ok hctx
    have hremoved : (get sampleFirst.id ctx.removals).getD [] = [⟨0, 7⟩] :=
      (hremovals sampleFirst.id).trans (by decide)
    obtain ⟨content', hcontent, hsame, hget⟩ := hretained sampleFirst List.mem_cons_self
      sampleContent (by decide) (by rw [hremoved]; nofun)
    rw [hremoved] at hcontent
    have htext : some " Be kind." = some (contentText content') := hget
    refine ⟨ctx, hctx, ⟨content', hcontent, hsame, ?_⟩, hloop⟩
    rw [← Option.some.inj htext]
    rfl

end RenCrow
