import RenCrowCore.History.CompactionPreprocessBasic

/-!
# Preprocessing of candidates: main results

* `pruneReference_spec`: one known reference is put into effect when it still
  resolves, and skipped otherwise;
* `pruneKnownObsolete_spec`: pruning puts into effect exactly the known references
  that resolve, all of them in ordinary declared user text, and leaves of every
  record exactly the bytes outside them.
-/

namespace RenCrow

open Fallible Text SortedMap List

/-! ## Records and references -/

variable {input : CandidateInput} {record : CandidateRecord} {id : String}

theorem mem_of_recordOf (h : input.recordOf id = some record) :
    record ∈ input.records ∧ record.id = id := by
  have hmem := mem_of_find?_eq_some h
  exact ⟨mem_reverse.mp hmem, by simpa using find?_some h⟩

theorem recordOf_eq_none (h : input.recordOf id = none) :
    ∀ record ∈ input.records, record.id ≠ id := by
  intro record hmem
  simpa using find?_eq_none.mp h record (mem_reverse.mpr hmem)

variable {snapshot : CompactionSnapshot}

/-- `CompactionSnapshot::reference` on the record of an id. -/
theorem reference_record (hs : input.snapshot = .ok snapshot) (hmem : record ∈ input.records)
    (range : ByteRange) :
    snapshot.reference record.id range =
      if validRange record.text range then .ok ⟨record.id, record.fragment.hash, range⟩
      else .error .invalidRange := by
  have hfrag : record.fragment ∈ snapshot.fragments := by
    rw [snapshot_fragments hs]
    exact mem_map_of_mem hmem
  unfold CompactionSnapshot.reference
  split
  · rename_i hnone
    exact absurd (find?_eq_none.mp hnone _ hfrag) (by simp)
  · rename_i found hfind
    have hid : found.id = record.fragment.id := by simpa using find?_some hfind
    have hfound := mem_of_find?_eq_some hfind
    obtain ⟨i, hi⟩ := mem_iff_getElem?.mp hfound
    obtain ⟨j, hj⟩ := mem_iff_getElem?.mp hfrag
    obtain rfl : i = j := CompactionSnapshot.index_unique hi hj hid
    obtain rfl : found = record.fragment := Option.some.inj (hi.symm.trans hj)
    by_cases hvalid : validRange record.text range = true <;> simp [hvalid]

/-- The reference is about a record as it stands. -/
def Resolves (snapshot : CompactionSnapshot) (reference : SourceRef) : Prop :=
  ∃ index fragment, snapshot.resolve reference = .ok (index, fragment)

instance (snapshot : CompactionSnapshot) (reference : SourceRef) :
    Decidable (Resolves snapshot reference) :=
  match h : snapshot.resolve reference with
  | .ok (index, fragment) => isTrue ⟨index, fragment, h⟩
  | .error _ => isFalse fun ⟨_, _, hok⟩ => by rw [h] at hok; cases hok

variable {reference : SourceRef}

theorem resolves_record_iff (hs : input.snapshot = .ok snapshot) (hmem : record ∈ input.records)
    (hid : reference.id = record.id) :
    Resolves snapshot reference ↔
      reference.hash = record.fragment.hash ∧ validRange record.text reference.range = true := by
  obtain ⟨i, hi⟩ := mem_iff_getElem?.mp hmem
  have hget : snapshot.fragments[i]? = some record.fragment := by
    rw [snapshot_fragments hs, getElem?_map, hi]
    rfl
  constructor
  · rintro ⟨index, frag, hres⟩
    obtain ⟨found, hfound, hfid, rfl, hvalid⟩ := resolve_record hs hres
    obtain rfl := record_unique hs (mem_of_getElem? hfound) hmem (hfid.trans hid)
    refine ⟨?_, hvalid⟩
    unfold CompactionSnapshot.resolve at hres
    split at hres
    · cases hres
    · split at hres
      · cases hres
      · rename_i hhash
        split at hres
        · cases hres
        · cases hres
          exact (not_not.mp hhash).symm
  · rintro ⟨hhash, hvalid⟩
    obtain ⟨id, hash, range⟩ := reference
    obtain rfl : id = record.id := hid
    obtain rfl : hash = record.fragment.hash := hhash
    exact ⟨i, record.fragment, resolve_of_getElem? hget hvalid⟩

/-! ## Pruning, reference by reference -/

/-- A record that may lose a range: declared user text without attachment, and
the range meets none of its protected spans. -/
structure Prunable (record : CandidateRecord) (range : ByteRange) : Prop where
  declared : record.origin.isDeclaredInput = true
  user : record.role = "user"
  noOpaque : record.opaqueData = none
  unprotected : ∀ p ∈ record.protectedRanges, overlaps range p = false

/-- The state after a reference to a record was put into effect. -/
def PruneState.push (state : PruneState) (record : CandidateRecord) (reference : SourceRef) :
    PruneState where
  applied := state.applied ++ [reference]
  removals := pushRemoval state.removals record.id record.text reference.range

variable {state state' : PruneState}

/-- **One known reference.**  It is put into effect when it resolves, in a record
that may lose it; otherwise it is skipped. -/
theorem pruneReference_spec (hs : input.snapshot = .ok snapshot)
    (h : pruneReference input snapshot state reference = .ok state') :
    (¬ Resolves snapshot reference ∧ state' = state) ∨
      (Resolves snapshot reference ∧ ∃ record ∈ input.records, record.id = reference.id ∧
        validRange record.text reference.range = true ∧ Prunable record reference.range ∧
        state' = state.push record reference) := by
  unfold pruneReference at h
  split at h
  · rename_i hnone
    cases h
    refine .inl ⟨?_, rfl⟩
    rintro ⟨index, frag, hres⟩
    obtain ⟨record, hrec, hid, -⟩ := resolve_record hs hres
    exact recordOf_eq_none hnone record (mem_of_getElem? hrec) hid
  · rename_i record hsome
    obtain ⟨hmem, hid⟩ := mem_of_recordOf hsome
    have hiff := resolves_record_iff hs hmem hid.symm
    split at h
    · rename_i hempty
      cases h
      refine .inl ⟨?_, rfl⟩
      rw [hiff, hempty]
      rintro ⟨-, hvalid⟩
      obtain ⟨hlt, hslice⟩ := Bool.and_eq_true_iff.mp hvalid
      have hstop : reference.range.stop ≤ 0 := stop_le_of_slice hslice
      have hlt := of_decide_eq_true hlt
      omega
    · obtain ⟨current, hcur, h⟩ := bind_eq_ok.mp h
      rw [mapPlanError_eq_ok, reference_record hs hmem] at hcur
      have hhash : current.hash = record.fragment.hash := by
        split at hcur <;> cases hcur
        rfl
      split at h
      · rename_i hne
        cases h
        refine .inl ⟨?_, rfl⟩
        rw [hiff]
        exact fun hboth => hne (hhash.trans hboth.1.symm)
      · rename_i heq
        obtain ⟨checked, hchk, h⟩ := bind_eq_ok.mp h
        rw [mapPlanError_eq_ok, reference_record hs hmem] at hchk
        split at hchk
        · rename_i hvalid
          have hresolves : Resolves snapshot reference :=
            hiff.mpr ⟨(not_not.mp heq).symm.trans hhash, hvalid⟩
          cases hchk
          split at h
          · rename_i hne
            refine absurd ?_ hne
            rw [← hiff.mp hresolves |>.1, hid]
          · obtain ⟨hprot, h⟩ := ensure_bind_eq_ok.mp h
            obtain ⟨hdecl, h⟩ := ensure_bind_eq_ok.mp h
            cases h
            simp only [Bool.not_eq_true', Bool.or_eq_false_iff, any_eq_false,
              Option.isSome_eq_false_iff, Option.isNone_iff_eq_none] at hprot
            rw [Bool.and_eq_true_iff, decide_eq_true_eq] at hdecl
            refine .inr ⟨hresolves, record, hmem, hid, hvalid, ?_, rfl⟩
            exact ⟨hdecl.1, hdecl.2, hprot.1.2, fun p hp => by simpa using hprot.1.1 p hp⟩
        · cases hchk

/-! ## Pruning, the whole loop -/

theorem removedRanges_append (as bs : List SourceRef) (id : String) :
    removedRanges (as ++ bs) id = removedRanges as id ++ removedRanges bs id := by
  simp [removedRanges]

theorem mem_removedRanges_iff {applied : List SourceRef} {range : ByteRange} :
    range ∈ removedRanges applied id ↔
      ∃ reference ∈ applied, reference.id = id ∧ reference.range = range := by
  simp [removedRanges, and_assoc]

/-- Every reference is about text that a record may lose. -/
def AppliedTo (input : CandidateInput) (applied : List SourceRef) : Prop :=
  ∀ reference ∈ applied, ∃ record ∈ input.records, record.id = reference.id ∧
    validRange record.text reference.range = true ∧ Prunable record reference.range

/-- What the accumulators hold: for each record that loses text, its text and the
ranges in effect. -/
structure PruneInv (input : CandidateInput) (state : PruneState) : Prop where
  sorted : SortedMap.Sorted state.removals
  applied : AppliedTo input state.applied
  keys : ∀ entry ∈ state.removals, ∃ record ∈ input.records, record.id = entry.1
  removals : ∀ record ∈ input.records, SortedMap.get record.id state.removals =
    if removedRanges state.applied record.id = [] then none
    else some (record.text, removedRanges state.applied record.id)

theorem PruneInv.initial (input : CandidateInput) : PruneInv input {} where
  sorted := .nil
  applied := by simp [AppliedTo]
  keys := by simp
  removals := by simp [SortedMap.get, removedRanges]

variable (hs : input.snapshot = .ok snapshot)
include hs

theorem PruneInv.push (h : PruneInv input state) (hmem : record ∈ input.records)
    (hid : record.id = reference.id) (hvalid : validRange record.text reference.range = true)
    (hprun : Prunable record reference.range) : PruneInv input (state.push record reference) where
  sorted := h.sorted.insert _ _
  applied := by
    intro r hr
    rcases mem_append.mp hr with hr | hr
    · exact h.applied r hr
    · obtain rfl := mem_singleton.mp hr
      exact ⟨record, hmem, hid, hvalid, hprun⟩
  keys := by
    intro entry hentry
    rcases mem_of_mem_insert hentry with rfl | hentry
    · exact ⟨record, hmem, rfl⟩
    · exact h.keys entry hentry
  removals := by
    intro other hother
    have hold := h.removals other hother
    simp only [PruneState.push, pushRemoval, removedRanges_append]
    by_cases heq : other.id = record.id
    · obtain rfl := record_unique hs hother hmem heq
      have hnew : removedRanges [reference] other.id = [reference.range] := by
        simp [removedRanges, hid]
      have hlast : removedRanges state.applied other.id ++ [reference.range] ≠ [] := by simp
      rw [get_insert_self, hold, hnew, if_neg hlast]
      split
      · rename_i hnil
        rw [hnil]
        rfl
      · rfl
    · have hne : reference.id ≠ other.id := fun h => heq (h.symm.trans hid.symm)
      have hnone : removedRanges [reference] other.id = [] := by simp [removedRanges, hne]
      rw [get_insert_of_ne heq, hold, hnone, append_nil]

variable {known : List SourceRef}

/-- **The whole loop** puts into effect the references that resolve, in order. -/
theorem pruneReferences_spec (hinv : PruneInv input state)
    (h : pruneReferences input snapshot known state = .ok state') :
    PruneInv input state' ∧
      state'.applied = state.applied ++ known.filter fun r => decide (Resolves snapshot r) := by
  induction known generalizing state with
  | nil =>
    cases h
    exact ⟨hinv, by simp⟩
  | cons reference rest ih =>
    obtain ⟨next, hstep, hrest⟩ := bind_eq_ok.mp h
    rcases pruneReference_spec hs hstep with ⟨hno, rfl⟩ | ⟨hyes, record, hmem, hid, hvalid, hp, rfl⟩
    · obtain ⟨hinv', happ⟩ := ih hinv hrest
      exact ⟨hinv', by simpa [hno] using happ⟩
    · obtain ⟨hinv', happ⟩ := ih (hinv.push hs hmem hid hvalid hp) hrest
      exact ⟨hinv', by simpa [hyes, PruneState.push] using happ⟩

/-- The ranges in effect in a record are valid ranges of it, which it may lose. -/
theorem AppliedTo.of_mem {applied : List SourceRef} (h : AppliedTo input applied)
    (hmem : record ∈ input.records) {range : ByteRange}
    (hrange : range ∈ removedRanges applied record.id) :
    validRange record.text range = true ∧ Prunable record range := by
  obtain ⟨reference, href, hid, rfl⟩ := mem_removedRanges_iff.mp hrange
  obtain ⟨other, hother, hoid, hok⟩ := h reference href
  rwa [record_unique hs hother hmem (hoid.trans hid)] at hok

/-- What is left of a record is its text without the ranges in effect. -/
theorem PruneInv.retain (h : PruneInv input state) (hdisj : ∀ entry ∈ state.removals,
      adjacentOverlap (sortAscending entry.2.2) = false) :
    ∃ retained, state.removals.mapM retainText = .ok retained ∧
      List.Forall₂ (fun entry kept => kept.1 = entry.1 ∧ utf8Bytes kept.2.toList =
        keepOutside entry.2.2 (utf8Bytes entry.2.1.toList)) state.removals retained := by
  refine mapM_of_forall ?_
  rintro ⟨id, text, ranges⟩ hentry
  obtain ⟨record, hmem, rfl⟩ := h.keys _ hentry
  have hget := h.sorted.get_of_mem hentry
  rw [h.removals record hmem] at hget
  split at hget
  · cases hget
  · cases hget
    set ranges := removedRanges state.applied record.id
    have hvalid : ∀ range ∈ ranges, validRange record.text range = true :=
      fun range hrange => (h.applied.of_mem hs hmem hrange).1
    have hne : ∀ range ∈ ranges, range.start < range.stop := fun range hrange =>
      of_decide_eq_true (Bool.and_eq_true_iff.mp (hvalid range hrange)).1
    have hpw : (sortAscending ranges).Pairwise fun a b => overlaps a b = false :=
      pairwise_sortAscending hne (hdisj _ hentry)
    obtain ⟨out, hout, hbytes⟩ := removeRanges_sortDescending
      (fun r hr => (Bool.and_eq_true_iff.mp (hvalid r (mem_sortAscending.mp hr))).2)
      (fun r hr => hne r (mem_sortAscending.mp hr)) hpw
    refine ⟨(record.id, String.ofList out), ?_, rfl, ?_⟩
    · simp only [retainText, hout]
    · rw [String.toList_ofList, hbytes]
      exact keepOutside_congr_mem (fun r => mem_sortAscending) _

variable {pruning : InstructionPruning}

/-- **What pruning does.**  It puts into effect exactly the known references that
resolve, each in a record that may lose the range, and leaves of every record the
bytes outside these ranges, no two of which overlap. -/
theorem pruneKnownObsolete_spec (h : pruneKnownObsolete input known = .ok pruning) :
    pruning.applied = known.filter (fun r => decide (Resolves snapshot r)) ∧
      AppliedTo input pruning.applied ∧
      ∀ record ∈ input.records, utf8Bytes (pruning.retainedText record).toList =
          keepOutside (removedRanges pruning.applied record.id) (utf8Bytes record.text.toList) ∧
        (removedRanges pruning.applied record.id).Pairwise (fun a b => overlaps a b = false) ∧
        (removedRanges pruning.applied record.id ≠ [] →
          get record.id pruning.retainedHumanText = some (pruning.retainedText record)) := by
  obtain ⟨snap', hs', h⟩ := bind_eq_ok.mp h
  obtain rfl : snap' = snapshot := Except.ok.inj (hs'.symm.trans hs)
  obtain ⟨-, h⟩ := ensure_bind_eq_ok.mp h
  obtain ⟨state, hstate, h⟩ := bind_eq_ok.mp h
  obtain ⟨hdisj, h⟩ := ensure_bind_eq_ok.mp h
  obtain ⟨retained, hret, h⟩ := bind_eq_ok.mp h
  cases h
  obtain ⟨hinv, happ⟩ := pruneReferences_spec hs (PruneInv.initial input) hstate
  have hapart : ∀ entry ∈ state.removals, adjacentOverlap (sortAscending entry.2.2) = false := by
    simpa using hdisj
  obtain ⟨retained', hret', hkept⟩ := hinv.retain hs hapart
  obtain rfl : retained' = retained := Except.ok.inj (hret'.symm.trans hret)
  refine ⟨by simpa using happ, hinv.applied, ?_⟩
  intro record hmem
  have hrel := get_of_forall₂
    (R := fun (entry : String × List ByteRange) (text : String) => utf8Bytes text.toList =
      keepOutside entry.2 (utf8Bytes entry.1.toList)) hkept record.id
  have hget := hinv.removals record hmem
  rw [hget] at hrel
  simp only [InstructionPruning.retainedText]
  split at hrel
  · rename_i hnil
    rw [hnil, keepOutside_nil]
    generalize get record.id retained' = found at hrel ⊢
    cases hrel
    exact ⟨rfl, .nil, fun hne => absurd rfl hne⟩
  · rename_i hsome
    rw [if_neg hsome] at hget
    have hsort := pairwise_sortAscending
      (fun r hr => of_decide_eq_true (Bool.and_eq_true_iff.mp (hinv.applied.of_mem hs hmem hr).1).1)
      (hapart _ (mem_of_get_eq_some hget))
    have hdisj := ((perm_insertionSort _ _).pairwise_iff
      fun {a b} hab => by rwa [overlaps_comm]).mp hsort
    generalize get record.id retained' = found at hrel ⊢
    cases hrel with
    | some hbytes => exact ⟨hbytes, hdisj, fun _ => rfl⟩

end RenCrow
