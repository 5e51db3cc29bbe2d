import RenCrowCore.ApplyPatch.Ideal
import RenCrowCore.ApplyPatch.Reparse

/-!
# What is approved and what is applied

Verification shows the changes of a patch for approval, each against the files as they
are; application parses the patch again and goes through its hunks one after another.

* `ChangesCarriedOut`: the approved changes happened and nothing else;
* `appliedAsApproved_iff`: when applying a verified patch does that;
* `apply_selfMove`: a file that is moved to its own path is gone.
-/

namespace RenCrow.ApplyPatch

open StoreOps Fallible ApplyPatchFileChange List

variable {U : Type} {changes : List (U × ApplyPatchFileChange U)}
    {entry : U × ApplyPatchFileChange U}
  {action : ApplyPatchAction U} {hunks : List Hunk}

/-! ## Approved changes -/

namespace ApplyPatchFileChange

/-- The path that a change writes, with its content. -/
def written (path : U) : ApplyPatchFileChange U → Option (U × List Char)
  | add content => some (path, content)
  | delete _ => none
  | update movePath newContent => some (movePath.getD path, newContent)

/-- The path that a change removes. -/
def removed (path : U) : ApplyPatchFileChange U → Option U
  | add _ | update none _ => none
  | delete _ | update (some _) _ => some path

/-- The change has happened. -/
def Holds (after : Files U) (path : U) : ApplyPatchFileChange U → Prop
  | add content => after path = some content
  | delete _ => after path = none
  | update none newContent => after path = some newContent
  | update (some movePath) newContent => after movePath = some newContent ∧ after path = none

/-- What a change does to the files. -/
def effect (path : U) (change : ApplyPatchFileChange U) : Effect U (List Char) :=
  { written := change.written path, removed := change.removed path }

variable {change : ApplyPatchFileChange U}

theorem holds_iff {after : Files U} {path : U} :
    change.Holds after path ↔ (∀ entry ∈ change.written path, after entry.1 = some entry.2) ∧
      ∀ key ∈ change.removed path, after key = none := by
  cases change with
  | add content | delete content => simp [Holds, written, removed]
  | update movePath newContent => cases movePath <;> simp [Holds, written, removed]

theorem notMem_paths {path key : U} : key ∉ change.paths path ↔
      (change.written path).map Prod.fst ≠ some key ∧ change.removed path ≠ some key := by
  cases change with
  | add content | delete content => simp [paths, written, removed, eq_comm]
  | update movePath newContent => cases movePath <;> simp [paths, written, removed, eq_comm]

end ApplyPatchFileChange

/-- The changes have happened, and every other path is as it was. -/
structure ChangesCarriedOut (files : Files U) (changes : List (U × ApplyPatchFileChange U))
    (after : Files U) : Prop where
  holds : ∀ entry ∈ changes, entry.2.Holds after entry.1
  others : ∀ path, (∀ entry ∈ changes, path ∉ entry.2.paths entry.1) → after path = files path

theorem changesCarriedOut_iff {files after : Files U} : ChangesCarriedOut files changes after ↔
      CarriedOut files (changes.map fun entry => entry.2.effect entry.1) after := by
  constructor
  · rintro ⟨hholds, hothers⟩
    refine ⟨forall_mem_map.mpr fun entry hentry => (holds_iff.mp (hholds entry hentry)).1,
      forall_mem_map.mpr fun entry hentry => (holds_iff.mp (hholds entry hentry)).2,
      fun key hkey => hothers key fun entry hentry => ?_⟩
    exact notMem_paths.mpr (forall_mem_map.mp hkey entry hentry)
  · rintro ⟨hwritten, hremoved, hothers⟩
    rw [forall_mem_map] at hwritten hremoved
    refine ⟨fun entry hentry => holds_iff.mpr ⟨hwritten entry hentry, hremoved entry hentry⟩,
      fun path hpath => hothers path (forall_mem_map.mpr fun entry hentry => ?_)⟩
    exact notMem_paths.mp (hpath entry hentry)

/-! ## From hunks to operations -/

variable [DecidableEq U] [PathUri U]

/-- An operation does to its paths what was approved, if its contents are right. -/
structure Planned (files : Files U) (op : Op U (List Char)) (entry : U × ApplyPatchFileChange U) :
    Prop where
  effect : Effect.Of op (entry.2.effect entry.1)
  source : op.source = entry.1
  present : ∀ key, op = .remove key → (files key).isSome

variable {files : Files U} {cwd : U} {mode : ApplyPatchFileUpdateMode}

omit [DecidableEq U] in
/-- A verified hunk that is parsed again. -/
theorem Verified.exists_op {hunk again : Hunk} (h : Verified files cwd mode hunk entry)
    (hagain : Reparsed hunk again) : ∃ op, again.op cwd mode = .ok op ∧ Planned files op entry := by
  cases h with
  | add hpath | update hpath hnew =>
    cases hagain
    exact ⟨_, bind_eq_ok.mpr ⟨_, hpath, rfl⟩, ⟨rfl, rfl⟩, rfl, by simp⟩
  | delete hpath hfile =>
    cases hagain
    refine ⟨_, bind_eq_ok.mpr ⟨_, hpath, rfl⟩, ⟨rfl, rfl⟩, rfl, ?_⟩
    rintro _ ⟨⟩
    rw [hfile]
    rfl
  | move hpath hdest hnew =>
    cases hagain
    exact ⟨_, bind_eq_ok.mpr ⟨_, hpath, bind_eq_ok.mpr ⟨_, hdest, rfl⟩⟩, ⟨rfl, rfl⟩, rfl, by simp⟩

omit [DecidableEq U] in
theorem exists_ops {again : List Hunk} (h : List.Forall₂ (Verified files cwd mode) hunks changes)
    (hagain : List.Forall₂ Reparsed hunks again) :
    ∃ ops, again.mapM (Hunk.op cwd mode) = .ok ops ∧ List.Forall₂ (Planned files) ops changes := by
  induction h generalizing again with
  | nil =>
    cases hagain
    exact ⟨[], rfl, .nil⟩
  | cons hhunk _ ih =>
    cases hagain with
    | cons hfirst hrest =>
      obtain ⟨op, hop, hplan⟩ := hhunk.exists_op hfirst
      obtain ⟨ops, hops, hall⟩ := ih hrest
      refine ⟨op :: ops, ?_, .cons hplan hall⟩
      rw [mapM_cons]
      exact bind_eq_ok.mpr ⟨op, hop, bind_eq_ok.mpr ⟨ops, hops, rfl⟩⟩

/-! ## Applying what was approved -/

/-- The operations of the patch that an action keeps, as they are applied. -/
def ApplyPatchAction.ops (action : ApplyPatchAction U) : Option (List (Op U (List Char))) := do
  let source ← (parsePatch action.patch).toOption
  (source.hunks.mapM (Hunk.op action.cwd action.updateFileMode)).toOption

/-- There is something to apply; no path that is written is removed, by another change or by
the same one; and every hunk, parsed again, can be applied to the text it finds at its path
(that of the last earlier hunk that writes there, or else of the file), where the last hunk
that writes a path leaves the content that was approved for it. -/
structure AppliesAsApproved (files : Files U) (action : ApplyPatchAction U) : Prop where
  nonempty : action.changes ≠ []
  separate : ∀ entry ∈ action.changes, ∀ other ∈ action.changes,
    ∀ written ∈ entry.2.written entry.1, other.2.removed other.1 ≠ some written.1
  contents : ∃ ops, action.ops = some ops ∧
    Fits files ops (action.changes.map fun entry => entry.2.effect entry.1)

omit [DecidableEq U] [PathUri U] in
theorem Planned.effects {ops : List (Op U (List Char))}
    (h : List.Forall₂ (Planned files) ops changes) :
    List.Forall₂ Effect.Of ops (changes.map fun entry => entry.2.effect entry.1) :=
  forall₂_map_right_iff.mpr (h.imp fun _ _ hop => hop.effect)

omit [DecidableEq U] [PathUri U] in
theorem Planned.sources {ops : List (Op U (List Char))}
    (h : List.Forall₂ (Planned files) ops changes) :
    ops.map Op.source = changes.map Prod.fst := by
  induction h with
  | nil => rfl
  | cons hop _ ih => rw [map_cons, map_cons, hop.source, ih]

omit [DecidableEq U] [PathUri U] in
theorem Planned.isSome_of_remove {ops : List (Op U (List Char))}
    (h : List.Forall₂ (Planned files) ops changes) {key : U} (hkey : .remove key ∈ ops) :
    (files key).isSome := by
  obtain ⟨entry, -, hplan⟩ := exists_of_mem_forall₂ h hkey
  exact hplan.present key rfl

/-- The condition, for the operations that are applied. -/
theorem appliesAsApproved_iff {ops : List (Op U (List Char))} (hops : action.ops = some ops)
    (hplan : List.Forall₂ (Planned files) ops action.changes) :
    AppliesAsApproved files action ↔ action.changes ≠ [] ∧ Separate ops ∧
      Fits files ops (action.changes.map fun entry => entry.2.effect entry.1) := by
  rw [separate_iff (Planned.effects hplan)]
  simp only [forall_mem_map]
  constructor
  · rintro ⟨hnonempty, hsep, found, hfound, hfits⟩
    cases hops.symm.trans hfound
    exact ⟨hnonempty, hsep, hfits⟩
  · rintro ⟨hnonempty, hsep, hfits⟩
    exact ⟨hnonempty, hsep, ops, hops, hfits⟩

/-- **What is approved is what is applied**, exactly for patches with something to apply whose
changes do not get in each other's way. -/
theorem appliedAsApproved_iff {text : List Char} {args : ApplyPatchArgs}
    {workdir : Option (List Char)} {action : ApplyPatchAction U} (follow : Bool)
    (hparse : parsePatch text = .ok args)
    (hverify : ((tryVerifyApplyPatchArgs { args with workdir } cwd mode).eval ideal files).1 =
      .ok action) :
    (∃ delta after, (applyPatchWithOptions action.patch ⟨mode, follow⟩ action.cwd).eval
        ideal files = (.ok delta, after) ∧ ChangesCarriedOut files action.changes after) ↔
      AppliesAsApproved files action := by
  obtain ⟨hpatch, rfl, hver, hnodup⟩ := tryVerifyApplyPatchArgs_ideal (Prod.ext hverify rfl)
  obtain ⟨again, hagain, hreparsed⟩ := parsePatch_patch hparse
  obtain ⟨ops, hmapM, hplan⟩ := exists_ops hver hreparsed
  have hsrc : parsePatch action.patch = .ok again := hpatch ▸ hagain
  have hops : action.ops = some ops := by
    simp [ApplyPatchAction.ops, hsrc, hmapM, Except.toOption]
  have hlen : again.hunks ≠ [] ↔ action.changes ≠ [] := by
    rw [← length_pos_iff, ← length_pos_iff, ← hreparsed.length_eq, ← hver.length_eq]
  have happly : applyPatchWithOptions action.patch ⟨action.updateFileMode, follow⟩ action.cwd =
      applyHunksWithOptions again.hunks ⟨action.updateFileMode, follow⟩ action.cwd := by
    rw [applyPatchWithOptions, hsrc]
  have happ := @applyHunksWithOptions_ideal U _ _ files action.cwd
    ⟨action.updateFileMode, follow⟩ again.hunks ops
  have hsrcs : (ops.map Op.source).Nodup := Planned.sources hplan ▸ hnodup
  have hcarry := carriedOut_iff (Planned.effects hplan) hsrcs
    (fun _ => Planned.isSome_of_remove hplan)
  rw [and_congr_right (putAll_iff_fits (Planned.effects hplan) hsrcs)] at hcarry
  rw [appliesAsApproved_iff hops hplan, happly, exists_comm, ← hcarry]
  constructor
  · rintro ⟨after, delta, heval, hcarried⟩
    obtain ⟨hne, hrun⟩ := (happ hmapM).mp ⟨delta, heval⟩
    exact ⟨hlen.mp hne, after, hrun, changesCarriedOut_iff.mp hcarried⟩
  · rintro ⟨hne, after, hrun, hcarried⟩
    obtain ⟨delta, heval⟩ := (happ hmapM).mpr ⟨hlen.mpr hne, hrun⟩
    exact ⟨after, delta, heval, changesCarriedOut_iff.mpr hcarried⟩

/-! ## Files that are moved -/

/-- The file `a` changed and moved. -/
def movePatch (dest : String) : List Char :=
  ("*** Begin Patch\n*** Update File: a\n*** Move to: " ++ dest ++
    "\n@@\n-x\n+y\n*** End Patch").toList

/-- What the parser reads in it. -/
def moveArgs (dest : String) : ApplyPatchArgs :=
  { patch := movePatch dest
    hunks := [moveHunk dest]
    workdir := none
    environmentId := none }

/-- What the verification of it returns. -/
def moveAction (dest : String) : ApplyPatchAction PosixPath :=
  { changes := [(⟨[['a']]⟩, .update (some ⟨[dest.toList]⟩) "y\n".toList)]
    updateFileMode := .normalizeToLf
    patch := movePatch dest
    cwd := ⟨[]⟩ }

theorem appliedAsApproved_move :
    ∃ delta after, (applyPatchWithOptions (movePatch "b") ⟨.normalizeToLf, true⟩ ⟨[]⟩).eval
      ideal singleFile = (.ok delta, after) ∧
        ChangesCarriedOut singleFile (moveAction "b").changes after := by
  have hparse : parsePatch (movePatch "b") = .ok (moveArgs "b") := by decide +kernel
  have hverify : ((tryVerifyApplyPatchArgs (moveArgs "b") ⟨[]⟩ .normalizeToLf).eval
      ideal singleFile).1 = .ok (moveAction "b") := by decide +kernel
  refine (appliedAsApproved_iff true hparse hverify).mpr ⟨by decide, ?_, ?_⟩
  · simp [moveAction, ApplyPatchFileChange.written, ApplyPatchFileChange.removed]
  · refine ⟨_, by rw [ApplyPatchAction.ops, moveAction, hparse]; rfl, ?_⟩
    intro before op later heq target htgt
    obtain ⟨rfl, hrest⟩ | ⟨rest, rfl, hrest⟩ := cons_eq_append_iff.mp heq
    · obtain ⟨rfl, rfl⟩ := List.cons.inj hrest
      cases htgt
      refine ⟨"y\n".toList, by decide +kernel, ?_⟩
      simp [moveAction, ApplyPatchFileChange.effect, ApplyPatchFileChange.written]
    · simp at hrest

/-- A file that is moved to its own path is **not** there afterwards: it is written first and
removed then, although verification has shown it with its new content. -/
theorem apply_selfMove :
    parsePatch (movePatch "a") = .ok (moveArgs "a") ∧
    ((tryVerifyApplyPatchArgs (moveArgs "a") ⟨[]⟩ .normalizeToLf).eval ideal singleFile).1 =
      .ok (moveAction "a") ∧
    ∃ delta after, (applyPatchWithOptions (movePatch "a") ⟨.normalizeToLf, true⟩ ⟨[]⟩).eval
      ideal singleFile = (.ok delta, after) ∧ after ⟨[['a']]⟩ = none ∧
        ¬ ChangesCarriedOut singleFile (moveAction "a").changes after := by
  refine ⟨by decide +kernel, by decide +kernel, ?_⟩
  have hok : ((applyPatchWithOptions (movePatch "a") ⟨.normalizeToLf, true⟩ ⟨[]⟩).eval
      ideal singleFile).1.isOk = true := by decide +kernel
  have hgone : ((applyPatchWithOptions (movePatch "a") ⟨.normalizeToLf, true⟩ ⟨[]⟩).eval
      ideal singleFile).2 ⟨[['a']]⟩ = none := by decide +kernel
  generalize (applyPatchWithOptions (movePatch "a") ⟨.normalizeToLf, true⟩ ⟨[]⟩).eval
    ideal singleFile = outcome at hok hgone
  obtain ⟨result, after⟩ := outcome
  cases result with
  | error failure => cases hok
  | ok delta =>
    refine ⟨delta, after, rfl, hgone, fun hcarried => ?_⟩
    have hwritten : after ⟨[['a']]⟩ = some "y\n".toList := (hcarried.holds _ mem_cons_self).1
    cases hgone.symm.trans hwritten

end RenCrow.ApplyPatch
