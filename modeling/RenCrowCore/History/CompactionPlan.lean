import RenCrowCore.History.CompactionPlanBasic

/-!
# Deletion plans: main results

What a plan that passes validation can do to a conversation.

* `OperationOk` lists the checks an operation has passed, and
  `validateOperation_spec` / `validatePlanStructure_spec` say that validation
  enforces them for every operation and collects the accepted ones in order;
* `apply_safe`: the accepted passages, and nothing else, are deleted byte by byte;
  they are disjoint and on character boundaries; and no protected byte, no
  evidence, no context and no cited passage is touched.
-/

namespace RenCrow

open Fallible Text Operation CompactionSnapshot List

variable {snapshot : CompactionSnapshot} {fragment : SourceFragment} {accepted : List Nat}
  {operation : Operation} {operations : List Operation} {plan : CompactionPlan}
  {validated : ValidatedPlanStructure} {review : SemanticReview} {range : ByteRange}
  {planHash : String}
  {i : Nat}

theorem capture_eq_ok {binding : String} {fragments : List SourceFragment}
    (h : capture binding fragments = .ok snapshot) : snapshot.fragments = fragments := by
  unfold capture at h
  split at h <;> cases h
  rfl

/-! ## Resolution -/

/-- A resolved reference names a fragment of the snapshot at its position, with
the right hash and a valid range. -/
theorem resolve_eq_ok {ref : SourceRef} {index : Nat}
    (h : snapshot.resolve ref = .ok (index, fragment)) :
    snapshot.fragments[index]? = some fragment ∧ fragment.id = ref.id ∧
      validRange fragment.text ref.range = true := by
  unfold resolve at h
  split at h
  · cases h
  · rename_i frag' index' hfind
    split at h
    · cases h
    · split at h
      · cases h
      · rename_i hvalid
        cases h
        have hid := find?_some hfind
        have hmem := mem_of_find?_eq_some hfind
        refine ⟨?_, by simpa using hid, by simpa using hvalid⟩
        exact mem_zipIdx_iff_getElem?.mp hmem

theorem CompactionSnapshot.nodup_ids (snapshot : CompactionSnapshot) :
    (snapshot.fragments.map (·.id)).Nodup := by
  have h := (Bool.and_eq_true_iff.mp snapshot.valid).2
  simpa using h

/-- The id of a fragment determines its position. -/
theorem CompactionSnapshot.index_unique {i j : Nat} {a b : SourceFragment}
    (ha : snapshot.fragments[i]? = some a) (hb : snapshot.fragments[j]? = some b)
    (hid : a.id = b.id) :
    i = j := by
  obtain ⟨hi, -⟩ := List.getElem?_eq_some_iff.mp ha
  have hi : i < (snapshot.fragments.map (·.id)).length := by rwa [List.length_map]
  refine (List.getElem?_inj hi snapshot.nodup_ids).mp ?_
  rw [List.getElem?_map, List.getElem?_map, ha, hb]
  exact congrArg some hid

/-- A passage of a fragment, with the hash of the fragment, resolves to it. -/
theorem resolve_of_getElem? (h : snapshot.fragments[i]? = some fragment)
    (hrange : validRange fragment.text range = true) :
    snapshot.resolve ⟨fragment.id, fragment.hash, range⟩ = .ok (i, fragment) := by
  have hmem : (fragment, i) ∈ snapshot.fragments.zipIdx := mem_zipIdx_iff_getElem?.mpr h
  unfold resolve
  split
  · rename_i hnone
    exact absurd (find?_eq_none.mp hnone _ hmem) (by simp)
  · rename_i found j hfind
    have hid : found.id = fragment.id := by simpa using find?_some hfind
    have hj := mem_zipIdx_iff_getElem?.mp (mem_of_find?_eq_some hfind)
    obtain rfl : j = i := index_unique hj h hid
    obtain rfl : found = fragment := Option.some.inj (hj.symm.trans h)
    simp [hrange]

/-! ## What validation checks -/

/-- A passage that may be deleted: it belongs to an instruction and meets no
protected span. -/
def Removable (fragment : SourceFragment) (range : ByteRange) : Prop :=
  (fragment.kind = .userInstruction ∨ fragment.kind = .automationInstruction) ∧
    ∀ p ∈ fragment.protectedRanges, overlaps p range = false

/-- The checks an operation has passed. -/
def OperationOk (snapshot : CompactionSnapshot) : Operation → Prop
  | .keep source => ∃ i fragment, snapshot.resolve source = .ok (i, fragment)
  | .dropSuperseded source correction =>
    ∃ i fragment j correcting, snapshot.resolve source = .ok (i, fragment) ∧
      Removable fragment source.range ∧ snapshot.resolve correction = .ok (j, correcting) ∧
      (i < j ∨ (i = j ∧ source.range.stop ≤ correction.range.start)) ∧
      maySupersede correcting.kind fragment.kind = true ∧ correcting.scope = fragment.scope
  | .replaceCompleted source evidence result =>
    ∃ i fragment j proving, snapshot.resolve source = .ok (i, fragment) ∧
      Removable fragment source.range ∧ snapshot.resolve evidence = .ok (j, proving) ∧
      i < j ∧ proving.kind = .executionEvidence ∧ proving.scope = fragment.scope ∧
      isBlank result = false

/-- Only a user instruction supersedes one. -/
theorem eq_userInstruction_of_maySupersede {kind : SourceKind}
    (h : maySupersede kind .userInstruction = true) : kind = .userInstruction := by
  cases kind <;> first | rfl | cases h

/-- The operation is not `Keep`. -/
def Operation.deletes : Operation → Bool
  | .keep _ => false
  | _ => true

/-- The operations that take effect: accepted, and not `Keep`. -/
def appliedFrom (accepted : List Nat) : List Operation → Nat → List Operation
  | [], _ => []
  | operation :: rest, i =>
    if operation.deletes && accepted.contains i then operation :: appliedFrom accepted rest (i + 1)
    else appliedFrom accepted rest (i + 1)

theorem appliedFrom_cons (accepted : List Nat) (operation : Operation) (rest : List Operation)
    (i : Nat) : appliedFrom accepted (operation :: rest) i =
      appliedFrom accepted [operation] i ++ appliedFrom accepted rest (i + 1) := by
  simp only [appliedFrom]
  split <;> rfl

theorem appliedFrom_eq_filter (accepted : List Nat) (operations : List Operation) (i : Nat) :
    appliedFrom accepted operations i = ((operations.zipIdx i).filter fun numbered =>
      numbered.1.deletes && accepted.contains numbered.2).map Prod.fst := by
  induction operations generalizing i with
  | nil => rfl
  | cons operation rest ih =>
    rw [appliedFrom, zipIdx_cons, filter_cons, ih]
    split <;> rfl

theorem appliedFrom_sublist (accepted : List Nat) (operations : List Operation) (i : Nat) :
    (appliedFrom accepted operations i).Sublist operations := by
  rw [appliedFrom_eq_filter]
  simpa using (filter_sublist (l := operations.zipIdx i)).map Prod.fst

theorem deletes_of_mem_appliedFrom (h : operation ∈ appliedFrom accepted operations i) :
    operation.deletes = true := by
  rw [appliedFrom_eq_filter] at h
  obtain ⟨numbered, hmem, rfl⟩ := mem_map.mp h
  exact (Bool.and_eq_true_iff.mp (mem_filter.mp hmem).2).1

/-- What the witness check has established. -/
theorem validateWitness_spec {ev : Option SourceRef}
    (hsrc : snapshot.resolve operation.source = .ok (i, fragment))
    (hremovable : operation.deletes = true → Removable fragment operation.source.range)
    (h : validateWitness snapshot i fragment operation = .ok ev) :
    OperationOk snapshot operation ∧ ev = operation.witness := by
  cases operation with
  | keep source =>
    cases h
    exact ⟨⟨i, fragment, hsrc⟩, rfl⟩
  | dropSuperseded source corr =>
    simp only [validateWitness, bind_eq_ok, ite_error_eq_ok] at h
    obtain ⟨⟨j, correcting⟩, hres, hchecks, ⟨⟩⟩ := h
    push Not at hchecks
    obtain ⟨hle, hsame, hkind, hscope⟩ := hchecks
    refine ⟨⟨i, fragment, j, correcting, hsrc, hremovable rfl, hres, ?_, by simpa using hkind,
      hscope⟩, rfl⟩
    rcases Nat.lt_or_ge i j with hlt | hge
    · exact .inl hlt
    · have hij : j = i := by omega
      exact .inr ⟨hij.symm, hsame hij⟩
  | replaceCompleted source ev' result =>
    simp only [validateWitness, bind_eq_ok, ite_error_eq_ok] at h
    obtain ⟨⟨j, proving⟩, hres, hchecks, hresult, ⟨⟩⟩ := h
    push Not at hchecks
    obtain ⟨hlt, hkind, hscope⟩ := hchecks
    exact ⟨⟨i, fragment, j, proving, hsrc, hremovable rfl, hres, hlt, hkind, hscope,
      by simpa using hresult⟩, rfl⟩

/-- The state after one operation. -/
def PlanState.push (state : PlanState) (accepted : List Nat) (i : Nat) (operation : Operation) :
    PlanState where
  sources := state.sources ++ [operation.source]
  removed := state.removed ++ (appliedFrom accepted [operation] i).map Operation.source
  witnesses := state.witnesses ++ (appliedFrom accepted [operation] i).filterMap Operation.witness
  results := state.results ++ (appliedFrom accepted [operation] i).filterMap Operation.result?
  applied := state.applied ++ if operation.deletes && accepted.contains i then [i] else []
  unresolved := state.unresolved ++ if operation.deletes && !accepted.contains i then [i] else []

/-- **One iteration.**  The operation has passed its checks, its passage meets none
of those before it, and its effects are recorded. -/
theorem validateOperation_spec {state state' : PlanState}
    (h : validateOperation snapshot accepted state i operation = .ok state') :
    OperationOk snapshot operation ∧
      (∀ other ∈ state.sources, other.meets operation.source = false) ∧
      state' = state.push accepted i operation := by
  simp only [validateOperation, bind_eq_ok, ite_error_eq_ok] at h
  obtain ⟨⟨index, fragment⟩, hres, hmeets, h⟩ := h
  have hdisj : ∀ other ∈ state.sources, other.meets operation.source = false := by
    simpa using hmeets
  split at h
  · cases h
    exact ⟨⟨index, fragment, hres⟩, hdisj, by simp [PlanState.push, appliedFrom, deletes, source]⟩
  · rename_i hkeep
    have hdeletes : operation.deletes = true := by
      cases operation with
      | keep source => exact absurd rfl (hkeep source)
      | _ => rfl
    rw [ite_error_eq_ok, bind_eq_ok] at h
    obtain ⟨hprot, ev, hwit, h⟩ := h
    push Not at hprot
    have hremovable : Removable fragment operation.source.range := by
      refine ⟨or_iff_not_imp_left.mpr hprot.1, ?_⟩
      simpa using hprot.2
    obtain ⟨hok, rfl⟩ := validateWitness_spec hres (fun _ => hremovable) hwit
    refine ⟨hok, hdisj, ?_⟩
    split at h
    · rename_i hacc
      cases h
      have hno : i ∉ accepted := by simpa using hacc
      simp [PlanState.push, appliedFrom, hdeletes, hno]
    · rename_i hacc
      cases h
      have hyes : i ∈ accepted := by simpa using hacc
      cases hw : operation.witness <;> cases hr : operation.result? <;>
        simp [PlanState.push, appliedFrom, hdeletes, hyes, hw, hr]

/-- What a run of the loop has established and collected. -/
structure ValidatedRun (snapshot : CompactionSnapshot) (accepted : List Nat) (i : Nat)
    (operations : List Operation) (state state' : PlanState) : Prop where
  checked : ∀ operation ∈ operations, OperationOk snapshot operation
  apart : ∀ operation ∈ operations, ∀ other ∈ state.sources, other.meets operation.source = false
  pairwise : operations.Pairwise fun a b => a.source.meets b.source = false
  removed : state'.removed =
    state.removed ++ (appliedFrom accepted operations i).map Operation.source
  witnesses : state'.witnesses =
    state.witnesses ++ (appliedFrom accepted operations i).filterMap Operation.witness

/-- **The whole loop.** -/
theorem validateOperations_spec {state state' : PlanState}
    (h : validateOperations snapshot accepted operations i state = .ok state') :
    ValidatedRun snapshot accepted i operations state state' := by
  induction operations generalizing i state with
  | nil =>
    cases h
    exact ⟨by simp, by simp, .nil, by simp [appliedFrom], by simp [appliedFrom]⟩
  | cons operation rest ih =>
    obtain ⟨next, hstep, hrest⟩ := bind_eq_ok.mp h
    obtain ⟨hok, hmeets, rfl⟩ := validateOperation_spec hstep
    have run := ih hrest
    have hhead : ∀ later ∈ rest, operation.source.meets later.source = false :=
      fun later hlater => run.apart later hlater _ (by simp [PlanState.push])
    refine ⟨forall_mem_cons.mpr ⟨hok, run.checked⟩, forall_mem_cons.mpr ⟨hmeets, ?_⟩,
      pairwise_cons.mpr ⟨hhead, run.pairwise⟩, ?_, ?_⟩
    · intro later hlater other hother
      exact run.apart later hlater other (mem_append_left _ hother)
    · rw [run.removed, appliedFrom_cons, map_append, ← append_assoc]
      rfl
    · rw [run.witnesses, appliedFrom_cons, filterMap_append, ← append_assoc]
      rfl

/-- **What structural validation establishes.**  Every operation that takes effect passed
its checks, no two of them meet, and no witness of one meets a passage that one
deletes. -/
structure AppliedOk (snapshot : CompactionSnapshot) (applied : List Operation) : Prop where
  checked : ∀ operation ∈ applied, OperationOk snapshot operation
  deletes : ∀ operation ∈ applied, operation.deletes = true
  pairwise : applied.Pairwise fun a b => a.source.meets b.source = false
  witnessKept : ∀ a ∈ applied, ∀ witness ∈ a.witness, ∀ b ∈ applied,
    witness.meets b.source = false

theorem validatePlanStructure_spec
    (h : snapshot.validatePlanStructure plan accepted planHash = .ok validated) :
    AppliedOk snapshot (appliedFrom accepted plan.operations 0) ∧
      validated.removed = (appliedFrom accepted plan.operations 0).map source ∧
      validated.witnesses = (appliedFrom accepted plan.operations 0).filterMap witness := by
  simp only [validatePlanStructure, bind_eq_ok, ite_error_eq_ok] at h
  obtain ⟨state, hstate, hclash, ⟨⟩⟩ := h
  have run := validateOperations_spec hstate
  have hsub := appliedFrom_sublist accepted plan.operations 0
  have hrem : state.removed = (appliedFrom accepted plan.operations 0).map source := by
    simpa using run.removed
  have hwits : state.witnesses = (appliedFrom accepted plan.operations 0).filterMap witness := by
    simpa using run.witnesses
  refine ⟨⟨fun operation hop => run.checked operation (hsub.subset hop),
    fun _ => deletes_of_mem_appliedFrom, run.pairwise.sublist hsub, ?_⟩, hrem, hwits⟩
  intro a ha witness hwit b hb
  by_contra hne
  refine hclash (any_eq_true.mpr ⟨witness, ?_, any_eq_true.mpr ⟨b.source, ?_, ?_⟩⟩)
  · rw [hwits]
    exact mem_filterMap.mpr ⟨a, ha, hwit⟩
  · rw [hrem]
    exact mem_map_of_mem hb
  · simpa using hne

/-! ## The deleted bytes -/

/-- An operation that takes effect deletes a passage that is on character
boundaries of its fragment and may be deleted. -/
theorem OperationOk.removable (hok : OperationOk snapshot operation)
    (hdeletes : operation.deletes = true) (hfrag : fragment ∈ snapshot.fragments)
    (hid : operation.source.id = fragment.id) :
    validRange fragment.text operation.source.range = true ∧
      Removable fragment operation.source.range := by
  obtain ⟨k, hk⟩ := mem_iff_getElem?.mp hfrag
  have hsame : ∀ i found, snapshot.resolve operation.source = .ok (i, found) →
      found = fragment := by
    intro i found hres
    obtain ⟨hi, hfound, -⟩ := resolve_eq_ok hres
    have hik : i = k := index_unique hi hk (hfound.trans hid)
    rw [hik, hk] at hi
    exact (Option.some.inj hi).symm
  cases operation with
  | keep source => cases hdeletes
  | dropSuperseded source corr | replaceCompleted source ev result =>
    obtain ⟨i, found, -, -, hres, hremovable, -⟩ := hok
    rw [← hsame i found hres]
    exact ⟨(resolve_eq_ok hres).2.2, hremovable⟩

theorem mem_removedRanges {applied : List Operation} {id : String} :
    range ∈ removedRanges (applied.map source) id ↔
      ∃ operation ∈ applied, operation.source.id = id ∧ operation.source.range = range := by
  simp [removedRanges, and_assoc]

theorem pairwise_removedRanges {applied : List Operation} (id : String)
    (h : applied.Pairwise fun a b => a.source.meets b.source = false) :
    (removedRanges (applied.map source) id).Pairwise fun a b => overlaps a b = false := by
  refine pairwise_map.mpr ?_
  have hsrcs : (applied.map source).Pairwise fun a b => a.meets b = false := pairwise_map.mpr h
  refine (hsrcs.filter _).imp_of_mem ?_
  intro a b ha hb hmeets
  have haid : a.id = id := by simpa using (mem_filter.mp ha).2
  have hbid : b.id = id := by simpa using (mem_filter.mp hb).2
  simpa [SourceRef.meets, haid, hbid] using hmeets

/-- A fragment `kept` is `fragment` with exactly the passages of the operations
`applied` deleted, byte by byte. -/
def KeepsExactly (applied : List Operation) (fragment : SourceFragment)
    (kept : RetainedFragment) : Prop :=
  kept.id = fragment.id ∧ kept.kind = fragment.kind ∧
    utf8Bytes kept.text.toList =
      keepOutside (removedRanges (applied.map Operation.source) fragment.id)
        (utf8Bytes fragment.text.toList)

/-- **Deletion cannot fail** on operations that are valid together, and deletes
exactly their passages. -/
theorem AppliedOk.retainFragment {applied : List Operation} (h : AppliedOk snapshot applied)
    (hfrag : fragment ∈ snapshot.fragments) :
    ∃ kept, retainFragment (applied.map source) fragment = .ok kept ∧
      KeepsExactly applied fragment kept := by
  have hvalid : ∀ range ∈ removedRanges (applied.map source) fragment.id,
      validRange fragment.text range = true := by
    intro range hrange
    obtain ⟨operation, hop, hid, rfl⟩ := mem_removedRanges.mp hrange
    exact ((h.checked operation hop).removable (h.deletes operation hop) hfrag hid).1
  obtain ⟨out, hout, hbytes⟩ := removeRanges_sortDescending
    (fun range hrange => (Bool.and_eq_true_iff.mp (hvalid range hrange)).2)
    (fun range hrange => of_decide_eq_true (Bool.and_eq_true_iff.mp (hvalid range hrange)).1)
    (pairwise_removedRanges fragment.id h.pairwise)
  refine ⟨⟨fragment.id, fragment.kind, String.ofList out⟩, ?_, rfl, rfl, ?_⟩
  · rw [RenCrow.retainFragment, hout]
  · rw [String.toList_ofList, hbytes]

/-- What a deleted byte is not part of. -/
theorem AppliedOk.of_covered {applied : List Operation} (h : AppliedOk snapshot applied)
    (hfrag : fragment ∈ snapshot.fragments) {n : Nat}
    (hn : covered (removedRanges (applied.map source) fragment.id) n = true) :
    (fragment.kind = .userInstruction ∨ fragment.kind = .automationInstruction) ∧
      (∀ p ∈ fragment.protectedRanges, p.covers n = false) ∧
      ∀ operation ∈ applied, ∀ witness ∈ operation.witness, witness.id = fragment.id →
        witness.range.covers n = false := by
  obtain ⟨range, hrange, hcovers⟩ := any_eq_true.mp hn
  obtain ⟨operation, hop, hid, rfl⟩ := mem_removedRanges.mp hrange
  obtain ⟨-, hkind, hprot⟩ :=
    (h.checked operation hop).removable (h.deletes operation hop) hfrag hid
  refine ⟨hkind, fun p hp => covers_eq_false (hprot p hp) hcovers, ?_⟩
  intro other hother witness hwit hwid
  have hmeets := h.witnessKept other hother witness hwit operation hop
  exact covers_eq_false (by simpa [SourceRef.meets, hwid, hid] using hmeets) hcovers

/-! ## Application -/

/-- The operations of a plan that a review puts into effect. -/
def CompactionPlan.applied (plan : CompactionPlan) (review : SemanticReview) : List Operation :=
  appliedFrom review.acceptedOperations plan.operations 0

/-- A plan is applied after its validation, by the deletions validation has collected. -/
theorem apply_eq_ok {view : CompactionView} (h : snapshot.apply plan review = .ok view) :
    ∃ validated, snapshot.validatePlanStructure plan review.acceptedOperations review.planHash =
        .ok validated ∧
      snapshot.fragments.mapM (retainFragment validated.removed) = .ok view.retained := by
  simp only [CompactionSnapshot.apply, bind_eq_ok, ite_error_eq_ok] at h
  obtain ⟨planHash, -, hhash, -, validated, hval, retained, hret, ⟨⟩⟩ := h
  rw [not_not.mp hhash]
  exact ⟨validated, hval, hret⟩

/-- The deletions of a validated plan never reach the panic of `replace_range`. -/
theorem mapM_retainFragment
    (h : snapshot.validatePlanStructure plan review.acceptedOperations planHash = .ok validated) :
    AppliedOk snapshot (plan.applied review) ∧
      ∃ retained, snapshot.fragments.mapM (retainFragment validated.removed) = .ok retained ∧
        List.Forall₂ (KeepsExactly (plan.applied review)) snapshot.fragments retained := by
  obtain ⟨hok, hrem, -⟩ := validatePlanStructure_spec h
  rw [hrem]
  exact ⟨hok, mapM_of_forall fun fragment hfrag => hok.retainFragment hfrag⟩

/-- **Deletion-plan safety.**  When a plan is applied to a captured snapshot:

* each fragment keeps its bytes outside the passages of the operations put into
  effect, and only those;
* these passages are on character boundaries and pairwise disjoint;
* no deleted byte is in a protected span, in context or execution evidence, or in
  a passage that an operation put into effect cites;
* a superseded user instruction has a user instruction of its scope, strictly
  later, as correction;
* a completed instruction has execution evidence of its scope in a later
  fragment. -/
theorem apply_safe {binding : String} {fragments : List SourceFragment}
    {snapshot : CompactionSnapshot} {plan : CompactionPlan} {review : SemanticReview}
    {view : CompactionView} (hcapture : CompactionSnapshot.capture binding fragments = .ok snapshot)
    (h : snapshot.apply plan review = .ok view) :
    List.Forall₂ (KeepsExactly (plan.applied review)) fragments view.retained ∧
    (∀ fragment ∈ fragments,
      let deleted := removedRanges ((plan.applied review).map Operation.source) fragment.id
      (∀ range ∈ deleted, validRange fragment.text range = true) ∧
      deleted.Pairwise (fun a b => overlaps a b = false) ∧
      ∀ n, covered deleted n = true →
        (fragment.kind ≠ .context ∧ fragment.kind ≠ .executionEvidence) ∧
        (∀ p ∈ fragment.protectedRanges, p.covers n = false) ∧
        ∀ operation ∈ plan.applied review, ∀ witness ∈ operation.witness,
          witness.id = fragment.id → witness.range.covers n = false) ∧
    (∀ source correction, .dropSuperseded source correction ∈ plan.applied review →
      ∃ (i j : Nat) (fragment correcting : SourceFragment),
        fragments[i]? = some fragment ∧ fragment.id = source.id ∧
        fragments[j]? = some correcting ∧ correcting.id = correction.id ∧
        correcting.scope = fragment.scope ∧
        (fragment.kind = .userInstruction → correcting.kind = .userInstruction) ∧
        (i < j ∨ (i = j ∧ source.range.stop ≤ correction.range.start))) ∧
    (∀ source evidence result, .replaceCompleted source evidence result ∈ plan.applied review →
      ∃ (i j : Nat) (fragment proving : SourceFragment),
        fragments[i]? = some fragment ∧ fragment.id = source.id ∧
        fragments[j]? = some proving ∧ proving.id = evidence.id ∧
        proving.scope = fragment.scope ∧ proving.kind = .executionEvidence ∧ i < j) := by
  obtain rfl := capture_eq_ok hcapture
  obtain ⟨validated, hvalidated, hretained⟩ := apply_eq_ok h
  obtain ⟨hok, retained', hretained', hkept⟩ := mapM_retainFragment hvalidated
  obtain rfl := Except.ok.inj (hretained'.symm.trans hretained)
  refine ⟨hkept, ?_, ?_, ?_⟩
  · intro fragment hfragment
    refine ⟨?_, pairwise_removedRanges fragment.id hok.pairwise, ?_⟩
    · intro range hrange
      obtain ⟨operation, hop, hid, rfl⟩ := mem_removedRanges.mp hrange
      exact ((hok.checked operation hop).removable (hok.deletes operation hop) hfragment hid).1
    · intro n hn
      obtain ⟨hkind, hrest⟩ := hok.of_covered hfragment hn
      refine ⟨?_, hrest⟩
      rcases hkind with hkind | hkind <;> rw [hkind] <;> exact ⟨by decide, by decide⟩
  · intro source correction hop
    obtain ⟨i, fragment, j, correcting, hsource, -, hcorrection, hlater, hmay, hscope⟩ :=
      hok.checked _ hop
    obtain ⟨hi, hid, -⟩ := resolve_eq_ok hsource
    obtain ⟨hj, hjd, -⟩ := resolve_eq_ok hcorrection
    refine ⟨i, j, fragment, correcting, hi, hid, hj, hjd, hscope, ?_, hlater⟩
    intro hkind
    rw [hkind] at hmay
    exact eq_userInstruction_of_maySupersede hmay
  · intro source evidence result hop
    obtain ⟨i, fragment, j, proving, hsource, -, hevidence, hlater, hkind, hscope, -⟩ :=
      hok.checked _ hop
    obtain ⟨hi, hid, -⟩ := resolve_eq_ok hsource
    obtain ⟨hj, hjd, -⟩ := resolve_eq_ok hevidence
    exact ⟨i, j, fragment, proving, hi, hid, hj, hjd, hscope, hkind, hlater⟩

/-- A passage of a captured fragment, with the hash the snapshot knows. -/
def sampleRef (fragment : SourceFragment) (range : ByteRange) : SourceRef :=
  ⟨fragment.id, fragment.hash, range⟩

/-- An instruction, of which a part is protected. -/
def sampleInstruction : SourceFragment :=
  ⟨"1", "s", .userInstruction, "Use é. Be kind.", [⟨8, 16⟩]⟩

/-- The correction of it. -/
def sampleCorrection : SourceFragment := ⟨"2", "s", .userInstruction, "Use e.", []⟩

/-- Both of them. -/
def sampleFragments : List SourceFragment := [sampleInstruction, sampleCorrection]

/-- The snapshot of both. -/
def sampleSnapshot : CompactionSnapshot where
  binding := "b"
  fragments := sampleFragments
  hash := digest (.array [.string "b", .array (sampleFragments.map encodeFragment)])
  valid := by decide

/-- The first sentence is dropped for its correction. -/
def samplePlan : CompactionPlan where
  schemaVersion := 1
  snapshotHash := sampleSnapshot.hash
  operations := [.dropSuperseded (sampleRef sampleInstruction ⟨0, 7⟩)
    (sampleRef sampleCorrection ⟨0, 6⟩)]

/-- What the plan leaves. -/
def sampleView : CompactionView where
  snapshotHash := sampleSnapshot.hash
  planHash := samplePlan.hash
  retained := [⟨"1", .userInstruction, " Be kind."⟩, ⟨"2", .userInstruction, "Use e."⟩]
  results := []
  appliedOperations := [0]
  unresolvedOperations := []

theorem capture_sample : capture "b" sampleFragments = .ok sampleSnapshot := by
  rfl

theorem apply_sample : sampleSnapshot.apply samplePlan ⟨samplePlan.hash, [0]⟩ = .ok sampleView := by
  decide +kernel

/-- The sample plan deletes "Use é." and keeps the protected rest. -/
theorem apply_safe_sample :
    sampleSnapshot.apply samplePlan ⟨samplePlan.hash, [0]⟩ = .ok sampleView ∧
      List.Forall₂ (KeepsExactly (samplePlan.applied ⟨samplePlan.hash, [0]⟩)) sampleFragments
        sampleView.retained :=
  ⟨apply_sample, (apply_safe capture_sample apply_sample).1⟩
end RenCrow
