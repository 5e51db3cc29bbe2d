import Mathlib.Algebra.Order.BigOperators.Group.List
import RenCrowCore.Lib.KeptText
import RenCrowCore.History.CompactionSelection

/-!
# Pruned text, shown and pruned again

What pruning leaves of a record is shown to the model with the protected ranges moved to
where they now stand, and it is what the next compaction finds.

* `ShownFaithfully`: each protected passage stands in the shown text at its moved range, and
  a source is a candidate when some byte of it is not protected;
* `collectInstructionCandidates_faithful`: every declared record is shown so;
* `pruneKnownObsolete_once`: a reference that was put into effect changes nothing when it
  comes again.
-/

namespace RenCrow

open Serde Fallible Text SortedMap

open Text (ByteRange overlaps)

variable {input : CandidateInput} {known : List SourceRef} {pruning : InstructionPruning}
  {snapshot : CompactionSnapshot} {record : CandidateRecord}

/-! ## What is left of a record -/

/-- The ranges that a record loses are valid, and no two of them overlap. -/
structure Deletions (record : CandidateRecord) (ranges : List ByteRange) : Prop where
  valid : ∀ range ∈ ranges, validRange record.text range = true
  prunable : ∀ range ∈ ranges, Prunable record range
  disjoint : ranges.Pairwise fun a b => overlaps a b = false

theorem deletions_of_prune (hs : input.snapshot = .ok snapshot)
    (h : pruneKnownObsolete input known = .ok pruning) (hmem : record ∈ input.records) :
    Deletions record (removedRanges pruning.applied record.id) := by
  obtain ⟨-, hto, hret⟩ := pruneKnownObsolete_spec hs h
  exact ⟨fun range hrange => (hto.of_mem hs hmem hrange).1,
    fun range hrange => (hto.of_mem hs hmem hrange).2, (hret record hmem).2.1⟩

/-- What is left of a record are the characters outside its deletions. -/
theorem retainedText_eq (hs : input.snapshot = .ok snapshot)
    (h : pruneKnownObsolete input known = .ok pruning) (hmem : record ∈ input.records) :
    (pruning.retainedText record).toList =
      keepChars (removedRanges pruning.applied record.id) 0 record.text.toList := by
  have hdels := deletions_of_prune hs h hmem
  refine utf8Bytes_injective (((pruneKnownObsolete_spec hs h).2.2 record hmem).1.trans ?_)
  exact (utf8Bytes_keepChars fun range hrange =>
    between_of_slice (Bool.and_eq_true_iff.mp (hdels.valid range hrange)).2).symm

variable {ranges : List ByteRange}

/-- What `rebase_offset` subtracts from an offset. -/
def deletedBefore (offset : Nat) (deletions : List ByteRange) : Nat :=
  ((deletions.filter fun range => decide (range.stop ≤ offset)).map
    fun range => range.stop - range.start).sum

/-- Where an offset that no deletion crosses comes to stand. -/
theorem Deletions.rebase (h : Deletions record ranges) {before after : List Char}
    (htext : record.text.toList = before ++ after)
    (hcross : ∀ range ∈ ranges, range.stop ≤ byteLen before ∨ byteLen before ≤ range.start) :
    byteLen (keepChars ranges 0 before) = rebaseOffset (byteLen before) ranges ∧
      deletedBefore (byteLen before) ranges ≤ byteLen before := by
  have hbytes : utf8Bytes (keepChars ranges 0 before) = keepOutside ranges (utf8Bytes before) := by
    refine utf8Bytes_keepChars fun range hrange => ?_
    have hboth := between_of_slice (Bool.and_eq_true_iff.mp (h.valid range hrange)).2
    rw [htext] at hboth
    exact ⟨hboth.1.append.1, hboth.2.append.1⟩
  have hend : ∀ range ∈ ranges, range.start ≤ range.stop ∧ (range.stop ≤ (utf8Bytes before).length ∨
        (utf8Bytes before).length < range.stop ∧ (utf8Bytes before).length ≤ range.start) := by
    intro range hrange
    have hlt := of_decide_eq_true (Bool.and_eq_true_iff.mp (h.valid range hrange)).1
    rw [length_utf8Bytes]
    have := hcross range hrange
    omega
  have hlen := length_keepOutside h.disjoint hend
  rw [← hbytes, length_utf8Bytes, length_utf8Bytes] at hlen
  rw [rebaseOffset, deletedBefore]
  omega

/-! ## The shown text -/

/-- A source as it is shown: each protected passage stands at its moved range, whose offsets do
not fall below zero, and it is a candidate when nothing is attached and some byte is not
protected. -/
structure ShownFaithfully (pruning : InstructionPruning) (record : CandidateRecord)
    (source : Json) : Prop where
  text : source.index "text" = .string (pruning.retainedText record)
  protection : source.index "protected" =
    .array ((rebasedProtection pruning record).map presentRange)
  passages : ∀ p ∈ record.protectedRanges,
    let deletions := removedRanges pruning.applied record.id
    ∃ part, slice record.text.toList p = some part ∧
      slice (pruning.retainedText record).toList
        ⟨rebaseOffset p.start deletions, rebaseOffset p.stop deletions⟩ = some part ∧
      deletedBefore p.start deletions ≤ p.start ∧ deletedBefore p.stop deletions ≤ p.stop
  candidate : ∃ shown, source.index "candidate" = .bool shown ∧
    (shown = true ↔ record.opaqueData = none ∧
      ∃ i < byteLen (pruning.retainedText record).toList,
        ∀ range ∈ rebasedProtection pruning record, range.covers i = false)

/-- The sweep over ranges in order finds whether they cover every position up to the end. -/
theorem coversUpTo_iff {n c : Nat} (hlt : c < n)
    (hsort : ranges.Pairwise fun a b => a.start ≤ b.start) :
    coversUpTo n ranges c = true ↔
      ∀ i, c ≤ i → i < n → ∃ range ∈ ranges, range.covers i = true := by
  induction ranges generalizing c with
  | nil => simpa [coversUpTo] using ⟨c, le_refl c, hlt⟩
  | cons range rest ih =>
    rw [List.pairwise_cons] at hsort
    rw [coversUpTo]
    split
    · rename_i hgap
      refine iff_of_false (by simp) fun hall => ?_
      obtain ⟨other, hother, hcovers⟩ := hall c (le_refl c) hlt
      rw [ByteRange.covers_iff] at hcovers
      rcases List.mem_cons.mp hother with rfl | hother
      · omega
      · have := hsort.1 other hother
        omega
    · split
      · rename_i hgap hend
        refine iff_of_true rfl fun i hi hn => ⟨range, List.mem_cons_self, ?_⟩
        rw [ByteRange.covers_iff]
        omega
      · rename_i hgap hend
        rw [ih (by omega) hsort.2]
        constructor
        · intro hall i hi hn
          by_cases hnext : max c range.stop ≤ i
          · obtain ⟨other, hother, hcovers⟩ := hall i hnext hn
            exact ⟨other, List.mem_cons_of_mem _ hother, hcovers⟩
          · refine ⟨range, List.mem_cons_self, ?_⟩
            rw [ByteRange.covers_iff]
            omega
        · intro hall i hi hn
          obtain ⟨other, hother, hcovers⟩ := hall i (by omega) hn
          rcases List.mem_cons.mp hother with rfl | hother
          · rw [ByteRange.covers_iff] at hcovers
            omega
          · exact ⟨other, hother, hcovers⟩

theorem fullyProtected_iff {text : String} {hasOpaque : Bool} :
    fullyProtected text ranges hasOpaque = true ↔ hasOpaque = true ∨
      ∀ i < byteLen text.toList, ∃ range ∈ ranges, range.covers i = true := by
  have hsort := pairwise_start_sortAscending ranges
  unfold fullyProtected
  split
  · rename_i hempty
    refine iff_of_true rfl (hempty.symm.imp id fun hzero i hi => ?_)
    omega
  · rename_i hnot
    rw [not_or, Bool.not_eq_true] at hnot
    rw [coversUpTo_iff (by omega) hsort]
    simp [hnot.2, mem_sortAscending]

/-- A passage that no deletion touches stands in what is left, at the moved range. -/
theorem Deletions.passage (h : Deletions record ranges) {p : ByteRange} {part : List Char}
    (hpart : slice record.text.toList p = some part) (hlt : p.start < p.stop)
    (hapart : ∀ range ∈ ranges, overlaps range p = false) :
    slice (keepChars ranges 0 record.text.toList)
        ⟨rebaseOffset p.start ranges, rebaseOffset p.stop ranges⟩ = some part ∧
      deletedBefore p.start ranges ≤ p.start ∧ deletedBefore p.stop ranges ≤ p.stop := by
  obtain ⟨before, after, htext, hstart, hstop⟩ := slice_eq_some_iff.mp hpart
  have hside : ∀ range ∈ ranges, range.stop ≤ p.start ∨ p.stop ≤ range.start := by
    intro range hrange
    have hover := hapart range hrange
    rw [← Bool.not_eq_true, overlaps_iff] at hover
    omega
  have hmid : keepChars ranges (0 + byteLen before) part = part := by
    refine keepChars_of_not_covered fun i hi hlt => ?_
    rw [covered, List.any_eq_false]
    intro range hrange hcovers
    have := hside range hrange
    rw [ByteRange.covers_iff] at hcovers
    omega
  obtain ⟨hfirst, hsum⟩ := h.rebase htext fun range hrange => by
    have := hside range hrange
    omega
  have htext' : record.text.toList = (before ++ part) ++ after := by rw [htext, List.append_assoc]
  obtain ⟨hsnd, hsum'⟩ := h.rebase htext' fun range hrange => by
    have := hside range hrange
    rw [byteLen_append]
    omega
  rw [hstart] at hfirst hsum
  rw [byteLen_append, hstop] at hsnd hsum'
  rw [keepChars_append, hmid, byteLen_append] at hsnd
  refine ⟨slice_eq_some_iff.mpr
    ⟨_, keepChars ranges (0 + byteLen before + byteLen part) after, ?_, hfirst, hsnd⟩, hsum, hsum'⟩
  rw [htext, keepChars_append, keepChars_append, hmid]

theorem validRange_of_protected (hs : input.snapshot = .ok snapshot) (hmem : record ∈ input.records)
    {p : ByteRange} (hp : p ∈ record.protectedRanges) : validRange record.text p = true := by
  have hall := List.all_eq_true.mp (Bool.and_eq_true_iff.mp snapshot.valid).1 record.fragment (by
    rw [snapshot_fragments hs]
    exact List.mem_map_of_mem hmem)
  exact List.all_eq_true.mp (Bool.and_eq_true_iff.mp hall).2 p (List.mem_append_left _ hp)

theorem protected_passage (hs : input.snapshot = .ok snapshot)
    (h : pruneKnownObsolete input known = .ok pruning) (hmem : record ∈ input.records)
    {p : ByteRange} (hp : p ∈ record.protectedRanges) :
    let deletions := removedRanges pruning.applied record.id
    ∃ part, slice record.text.toList p = some part ∧
      slice (pruning.retainedText record).toList
        ⟨rebaseOffset p.start deletions, rebaseOffset p.stop deletions⟩ = some part ∧
      deletedBefore p.start deletions ≤ p.start ∧ deletedBefore p.stop deletions ≤ p.stop := by
  have hdels := deletions_of_prune hs h hmem
  obtain ⟨hlt, hslice⟩ := Bool.and_eq_true_iff.mp (validRange_of_protected hs hmem hp)
  obtain ⟨part, hpart⟩ := Option.isSome_iff_exists.mp hslice
  rw [retainedText_eq hs h hmem]
  exact ⟨part, hpart, hdels.passage hpart (of_decide_eq_true hlt)
    fun range hrange => (hdels.prunable range hrange).unprotected p hp⟩

theorem isCandidate_iff : isCandidate pruning record = true ↔ record.opaqueData = none ∧
    ∃ i < byteLen (pruning.retainedText record).toList,
      ∀ range ∈ rebasedProtection pruning record, range.covers i = false := by
  rw [isCandidate, Bool.not_eq_true', ← Bool.not_eq_true, fullyProtected_iff, not_or]
  simp

theorem presentSource_faithful (hs : input.snapshot = .ok snapshot)
    (h : pruneKnownObsolete input known = .ok pruning) (hmem : record ∈ input.records) :
    ShownFaithfully pruning record (presentSource pruning record) where
  text := Json.index_ofPairs (by simp) (by simp)
  protection := Json.index_ofPairs (by simp) (by simp)
  passages := fun p hp => protected_passage hs h hmem hp
  candidate := ⟨_, Json.index_ofPairs (by simp) (by simp), isCandidate_iff⟩

/-- **What is shown of declared input is faithful.**  An accepted presentation shows every
declared record, in order. -/
theorem collectInstructionCandidates_faithful {links : List InstructionObservationLink}
    {result : Option Json} (h : collectInstructionCandidates input pruning links = .ok result) :
    let declared := input.records.filter fun record => record.origin.isDeclaredInput
    (∀ presented ∈ result,
      presented.index "sources" = .array (declared.map (presentSource pruning))) ∧
    ∀ record ∈ declared, ShownFaithfully pruning record (presentSource pruning record) := by
  obtain ⟨snapshot, hs, h⟩ := bind_eq_ok.mp h
  obtain ⟨checked, hchk, h⟩ := bind_eq_ok.mp h
  obtain ⟨hsame, h⟩ := ensure_bind_eq_ok.mp h
  obtain rfl : checked = pruning := of_decide_eq_true hsame
  obtain ⟨state, -, h⟩ := bind_eq_ok.mp h
  refine ⟨?_, fun record hmem => presentSource_faithful hs hchk (List.mem_of_mem_filter hmem)⟩
  intro presented hpres
  split at h
  · cases h
    cases hpres
  · cases h
    cases hpres
    exact Json.index_ofPairs (by simp) (by simp)

/-- The sample without its first sentence. -/
def samplePruning : InstructionPruning := ⟨[samplePassage], [("1", " Be kind.")]⟩

theorem prune_samplePassage :
    pruneKnownObsolete sampleInput [samplePassage] = .ok samplePruning := by
  rw [pruneKnownObsolete, snapshot_sampleInput]
  decide +kernel

theorem collect_samplePruning : ∃ presented,
    collectInstructionCandidates sampleInput samplePruning [] = .ok (some presented) := by
  have hpruned : pruneKnownObsolete sampleInput samplePruning.applied = .ok samplePruning :=
    prune_samplePassage
  have hsome : (collectInstructionCandidates sampleInput samplePruning []).toOption.join.isSome =
      true := by
    rw [collectInstructionCandidates, snapshot_sampleInput, hpruned]
    decide +kernel
  obtain ⟨presented, hpresented⟩ := Option.isSome_iff_exists.mp hsome
  exact ⟨presented, toOption_eq_some.mp (Option.join_eq_some_iff.mp hpresented)⟩

/-- After the removal of seven bytes, the protected sentence stands at 1 instead of 8, and the
blank before it leaves the source a candidate. -/
theorem collectInstructionCandidates_faithful_sample : ∃ presented,
    collectInstructionCandidates sampleInput samplePruning [] = .ok (some presented) ∧
      ShownFaithfully samplePruning sampleFirst (presentSource samplePruning sampleFirst) ∧
      rebasedProtection samplePruning sampleFirst = [⟨1, 9⟩] ∧
      isCandidate samplePruning sampleFirst = true := by
  obtain ⟨presented, hok⟩ := collect_samplePruning
  exact ⟨presented, hok,
    (collectInstructionCandidates_faithful hok).2 sampleFirst (by decide), by decide, by decide⟩

/-! ## References that come again -/

theorem pruneReferences_filter (hs : input.snapshot = .ok snapshot) {state state' : PruneState}
    (h : pruneReferences input snapshot known state = .ok state') :
    pruneReferences input snapshot (known.filter fun r => decide (Resolves snapshot r)) state =
      .ok state' := by
  induction known generalizing state with
  | nil => exact h
  | cons reference rest ih =>
    obtain ⟨next, hstep, hrest⟩ := bind_eq_ok.mp h
    rcases pruneReference_spec hs hstep with ⟨hno, rfl⟩ | ⟨hyes, -⟩
    · rw [List.filter_cons_of_neg (by simpa using hno)]
      exact ih hrest
    · rw [List.filter_cons_of_pos (by simpa using hyes)]
      exact bind_eq_ok.mpr ⟨next, hstep, ih hrest⟩

theorem pruneKnownObsolete_applied (h : pruneKnownObsolete input known = .ok pruning) :
    pruneKnownObsolete input pruning.applied = .ok pruning := by
  obtain ⟨snapshot, hs, hrest⟩ := bind_eq_ok.mp h
  obtain ⟨hranges, hrest⟩ := ensure_bind_eq_ok.mp hrest
  obtain ⟨state, hstate, hrest⟩ := bind_eq_ok.mp hrest
  rw [(pruneKnownObsolete_spec hs h).1]
  refine bind_eq_ok.mpr ⟨snapshot, hs, ensure_bind_eq_ok.mpr ⟨?_, bind_eq_ok.mpr
    ⟨state, pruneReferences_filter hs hstate, hrest⟩⟩⟩
  exact List.all_eq_true.mpr fun r hr => List.all_eq_true.mp hranges r (List.mem_of_mem_filter hr)

/-- A reference to a record that is gone, empty or changed is skipped. -/
theorem pruneReference_stale (hs : input.snapshot = .ok snapshot) {reference : SourceRef}
    (hstale : ∀ record ∈ input.records, record.id = reference.id → record.text ≠ "" →
      record.fragment.hash ≠ reference.hash) (state : PruneState) :
    pruneReference input snapshot state reference = .ok state := by
  unfold pruneReference
  split
  · rfl
  · rename_i record hfind
    obtain ⟨hmem, hid⟩ := mem_of_recordOf hfind
    split
    · rfl
    · rename_i hne
      have hpos : 0 < byteLen record.text.toList :=
        Nat.pos_of_ne_zero fun hzero => hne (by simpa using byteLen_eq_zero hzero)
      have hslice : slice record.text.toList (fullRange record.text) = some record.text.toList :=
        slice_eq_some_iff.mpr ⟨[], [], by simp, rfl, by simp [fullRange]⟩
      have hfull : validRange record.text (fullRange record.text) = true :=
        Bool.and_eq_true_iff.mpr ⟨decide_eq_true hpos, by rw [hslice]; rfl⟩
      rw [reference_record hs hmem, if_pos hfull]
      exact if_pos (hstale record hmem hid hne)

theorem pruneReferences_stale (hs : input.snapshot = .ok snapshot)
    (hstale : ∀ reference ∈ known, ∀ record ∈ input.records, record.id = reference.id →
      record.text ≠ "" → record.fragment.hash ≠ reference.hash) (state : PruneState) :
    pruneReferences input snapshot known state = .ok state := by
  induction known with
  | nil => rfl
  | cons reference rest ih =>
    have hfirst := pruneReference_stale hs (hstale reference List.mem_cons_self) state
    exact bind_eq_ok.mpr ⟨state, hfirst, ih fun r hr => hstale r (List.mem_cons_of_mem _ hr)⟩

/-- A record that lost a range has another text. -/
theorem retainedText_ne (hs : input.snapshot = .ok snapshot)
    (h : pruneKnownObsolete input known = .ok pruning) (hmem : record ∈ input.records)
    (hne : removedRanges pruning.applied record.id ≠ []) :
    pruning.retainedText record ≠ record.text := by
  have hdels := deletions_of_prune hs h hmem
  have hbytes := ((pruneKnownObsolete_spec hs h).2.2 record hmem).1
  intro heq
  rw [heq] at hbytes
  obtain ⟨range, hrange⟩ := List.exists_mem_of_ne_nil _ hne
  have hvalid : ∀ r ∈ removedRanges pruning.applied record.id,
      r.start < r.stop ∧ r.stop ≤ (utf8Bytes record.text.toList).length := by
    intro r hr
    obtain ⟨hlt, hslice⟩ := Bool.and_eq_true_iff.mp (hdels.valid r hr)
    rw [length_utf8Bytes]
    exact ⟨of_decide_eq_true hlt, stop_le_of_slice hslice⟩
  have hlen := length_keepOutside hdels.disjoint
    fun r hr => ⟨(hvalid r hr).1.le, .inl (hvalid r hr).2⟩
  rw [← hbytes] at hlen
  have hin : range ∈ (removedRanges pruning.applied record.id).filter fun r =>
      decide (r.stop ≤ (utf8Bytes record.text.toList).length) :=
    List.mem_filter.mpr ⟨hrange, decide_eq_true (hvalid range hrange).2⟩
  have hle := List.single_le_sum (fun _ _ => Nat.zero_le _) _
    (List.mem_map_of_mem (f := fun r : ByteRange => r.stop - r.start) hin)
  have := (hvalid range hrange).1
  omega

/-- **Accepted removals are applied once.** Pruning by the references that were put into
effect has the same result, and where the records that lost text stand as they were left, or
are gone, these references remove nothing.  A fragment hash that is the same stands for the
same text. -/
theorem pruneKnownObsolete_once (h : pruneKnownObsolete input known = .ok pruning) :
    pruneKnownObsolete input pruning.applied = .ok pruning ∧
    ∀ (recaptured : CandidateInput) (now : CompactionSnapshot), recaptured.snapshot = .ok now →
      (∀ record ∈ input.records, removedRanges pruning.applied record.id ≠ [] →
        ∀ again ∈ recaptured.records, again.id = record.id →
          again.text = pruning.retainedText record ∧
            (again.fragment.hash = record.fragment.hash → again.text = record.text)) →
      pruneKnownObsolete recaptured pruning.applied = .ok {} := by
  refine ⟨pruneKnownObsolete_applied h, ?_⟩
  intro recaptured now hnow hagain
  obtain ⟨snapshot, hs, -⟩ := bind_eq_ok.mp h
  obtain ⟨happ, hto, -⟩ := pruneKnownObsolete_spec hs h
  have hstale : ∀ reference ∈ pruning.applied, ∀ again ∈ recaptured.records,
      again.id = reference.id → again.text ≠ "" → again.fragment.hash ≠ reference.hash := by
    intro reference href again hmem hid _ hhash
    obtain ⟨record, hrec, hrid, -⟩ := hto reference href
    have hranges : removedRanges pruning.applied record.id ≠ [] :=
      List.ne_nil_of_mem (mem_removedRanges_iff.mpr ⟨reference, href, hrid.symm, rfl⟩)
    obtain ⟨htext, hsame⟩ := hagain record hrec hranges again hmem (hid.trans hrid.symm)
    rw [happ] at href
    have hresolves := of_decide_eq_true (List.mem_filter.mp href).2
    obtain ⟨hoffered, -⟩ := (resolves_record_iff hs hrec hrid.symm).mp hresolves
    exact retainedText_ne hs h hrec hranges (htext.symm.trans (hsame (hhash.trans hoffered)))
  refine bind_eq_ok.mpr ⟨now, hnow, ensure_bind_eq_ok.mpr ⟨?_, bind_eq_ok.mpr
    ⟨{}, pruneReferences_stale hnow hstale {}, rfl⟩⟩⟩
  refine List.all_eq_true.mpr fun reference href => ?_
  obtain ⟨record, -, -, hvalid, -⟩ := hto reference href
  exact (Bool.and_eq_true_iff.mp hvalid).1

/-- What the next compaction finds of the sample. -/
def sampleRecaptured : CandidateInput :=
  { sampleInput with records := [sampleHuman "1" " Be kind." [⟨1, 9⟩], sampleSecond] }

theorem snapshot_sampleRecaptured : ∃ now, sampleRecaptured.snapshot = .ok now := by
  have hfrags : sampleRecaptured.records.mapM CandidateRecord.checkedFragment =
      .ok (sampleRecaptured.records.map CandidateRecord.fragment) := by
    rfl
  refine ⟨_, ensure_bind_eq_ok.mpr ⟨rfl, ensure_bind_eq_ok.mpr ⟨rfl, bind_eq_ok.mpr
    ⟨_, hfrags, mapPlanError_eq_ok.mpr (capture_digest ?_)⟩⟩⟩⟩
  decide

/-- The removal of the first sentence is repeated on the original and not on what is left of it. -/
theorem pruneKnownObsolete_once_sample :
    pruneKnownObsolete sampleInput samplePruning.applied = .ok samplePruning ∧
      pruneKnownObsolete sampleRecaptured samplePruning.applied = .ok {} := by
  obtain ⟨hagain, honce⟩ := pruneKnownObsolete_once prune_samplePassage
  obtain ⟨now, hnow⟩ := snapshot_sampleRecaptured
  refine ⟨hagain, honce sampleRecaptured now hnow ?_⟩
  decide +kernel

end RenCrow
