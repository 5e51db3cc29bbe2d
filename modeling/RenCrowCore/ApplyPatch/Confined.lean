import RenCrowCore.ApplyPatch.ApplyBasic
import RenCrowCore.ApplyPatch.Reparse

/-!
# What a patch can touch

Whatever the file system answers, applying a patch writes and removes only the paths that its
hunks name, and verifying it finds a change for each of them.

* `Hunk.Touches`: the paths of a hunk;
* `applyHunksWithOptions_touches`: the requests of an application stay within them;
* `tryVerifyApplyPatchArgs_covers`: the changes of a verified patch cover them.
-/

namespace RenCrow.ApplyPatch

open Interaction Fallible Recorded Program PathUri

variable {U : Type}

/-- The path that a request writes or removes. -/
def FsRequest.changed : FsRequest U → Option U
  | writeFile path .. | remove path .. => some path
  | getMetadata .. | readFileText .. | createDirectory .. | print .. => none

variable [PathUri U] {cwd : U}

/-- The paths that a hunk writes or removes: its own and the one it moves to. -/
inductive Hunk.Touches (cwd : U) : Hunk → U → Prop where
  | source {hunk : Hunk} {path : U} (h : hunk.resolvePath cwd = .ok path) : Touches cwd hunk path
  | dest {name dest : List Char} {chunks : List UpdateFileChunk} {path : U}
      (h : PathUri.join cwd dest = .ok path) :
        Touches cwd (.updateFile name (some dest) chunks) path

/-- Parsing a patch again changes no path. -/
theorem Hunk.Touches.of_reparsed {path : U} {hunk again : Hunk} (hagain : Reparsed hunk again)
    (h : again.Touches cwd path) : hunk.Touches cwd path := by
  cases hagain with
  | addFile lines =>
    cases h with
    | source h => exact .source h
  | deleteFile => exact h
  | updateFile =>
    cases h with
    | source h => exact .source h
    | dest h => exact .dest h

/-! ## Application -/

/-- The request changes only some paths. -/
def Within (paths : U → Prop) (request : FsRequest U) : Prop :=
  ∀ path, request.changed = some path → paths path

section Application

variable {paths : U → Prop} {path : U} {follow : Bool} {opts : ApplyPatchOptions}
  {request : FsRequest U}

omit [PathUri U]

/-- A request that changes nothing. -/
theorem uses_of_unchanged (h : request.changed = none) :
    (perform request : FsM U _).Uses (Within paths) :=
  uses_perform fun path hpath => by
    rw [h] at hpath
    cases hpath

theorem uses_of_changed (h : request.changed = some path) (hpath : paths path) :
    (perform request : FsM U _).Uses (Within paths) :=
  uses_perform fun _ hfound => Option.some.inj (h.symm.trans hfound) ▸ hpath

theorem noteExistingPathDeltaSupport_uses :
    Recorded.Uses (Within paths) (noteExistingPathDeltaSupport path follow) := by
  refine (uses_lift (uses_of_unchanged rfl)).bind fun answer => ?_
  cases answer with
  | ok metadata | error error =>
    dsimp only
    split
    · exact uses_pure _
    · exact uses_modify _

theorem readOptionalFileTextForDelta_uses :
    Recorded.Uses (Within paths) (readOptionalFileTextForDelta path follow) := by
  refine noteExistingPathDeltaSupport_uses.bind fun _ => ?_
  refine (uses_lift (uses_of_unchanged rfl)).bind fun answer => ?_
  cases answer with
  | ok content => exact uses_pure _
  | error error =>
    dsimp only
    split
    · exact uses_pure _
    · exact (uses_modify _).bind fun _ => uses_pure _

theorem tryWrite_uses (result : Except ApplicationError Unit) :
    Recorded.Uses (Within paths) (tryWrite (U := U) result) := by
  cases result with
  | ok => exact uses_pure _
  | error error => exact (uses_modify _).bind fun _ => uses_throw _

/-- A path that is touched can be removed. -/
theorem removeOriginal_uses [PathUri U] (hpath : paths path) (text : String)
    (expected : Option (List Char)) :
    Recorded.Uses (Within paths) (removeOriginal path text expected follow) := by
  have hdir : (ensureNotDirectory path follow).Uses (Within paths) := by
    refine (uses_of_unchanged rfl).bind fun answer => ?_
    cases answer with
    | error error => exact uses_pure _
    | ok metadata =>
      dsimp only
      split <;> exact uses_pure _
  have hread : (removeFailureWasSideEffectFree path expected follow).Uses (Within paths) := by
    cases expected with
    | none => exact uses_pure _
    | some content =>
      refine (uses_of_unchanged rfl).bind fun answer => ?_
      cases answer <;> exact uses_pure _
  refine (uses_lift hdir).bind fun checked => ?_
  refine (uses_ofExcept _).bind fun _ => ?_
  refine (uses_lift (uses_of_changed rfl hpath)).bind fun removed => ?_
  cases removed with
  | ok => exact uses_pure _
  | error error =>
    refine (uses_lift hread).bind fun unchanged => ?_
    exact (uses_modify _).bind fun _ => uses_throw _

variable [PathUri U]

theorem writeFileWithMissingParentRetry_uses (hpath : paths path) (contents : List Char) :
    (writeFileWithMissingParentRetry path contents follow).Uses (Within paths) := by
  have hwrite : (writeFile path contents follow).Uses (Within paths) := uses_of_changed rfl hpath
  refine hwrite.bind fun answer => ?_
  cases answer with
  | ok => exact uses_pure _
  | error error =>
    dsimp only
    split
    · have hagain := hwrite.bind fun written => uses_pure
        (withContext ("Failed to write file " ++ inferredNativePathString path) written)
      cases parent path with
      | none => exact hagain
      | some parent =>
        refine (uses_of_unchanged rfl).bind ?_
        rintro (error | ⟨⟩)
        · exact uses_pure _
        · exact hagain
    · exact uses_pure _

theorem deriveNewContentsFromChunks_uses (chunks : List UpdateFileChunk)
    (mode : ApplyPatchFileUpdateMode) :
    (deriveNewContentsFromChunks path chunks mode follow).Uses (Within paths) := by
  refine (uses_of_unchanged rfl).bind fun answer => ?_
  cases answer with
  | error error => exact uses_pure _
  | ok content =>
    dsimp only
    split <;> exact uses_pure _

theorem applyAddFile_uses (hpath : paths path) (contents : List Char) :
    Recorded.Uses (Within paths) (applyAddFile path contents opts) := by
  refine readOptionalFileTextForDelta_uses.bind fun overwritten => ?_
  refine (uses_lift (writeFileWithMissingParentRetry_uses hpath contents)).bind fun _ => ?_
  exact (tryWrite_uses _).bind fun _ => uses_modify _

theorem applyDeleteFile_uses (hpath : paths path) :
    Recorded.Uses (Within paths) (applyDeleteFile path opts) := by
  refine noteExistingPathDeltaSupport_uses.bind fun _ => ?_
  refine (uses_lift (uses_of_unchanged rfl)).bind fun content => ?_
  cases content with
  | error error =>
    exact (uses_modify _).bind fun _ => (removeOriginal_uses hpath _ _).bind fun _ => uses_pure _
  | ok content => exact (removeOriginal_uses hpath _ _).bind fun _ => uses_modify _

theorem applyMove_uses {dest : U} {applied : AppliedPatch} (hpath : paths path)
    (hdest : paths dest) :
    Recorded.Uses (Within paths) (applyMove path dest applied opts) := by
  refine readOptionalFileTextForDelta_uses.bind fun overwritten => ?_
  refine (uses_lift (writeFileWithMissingParentRetry_uses hdest _)).bind fun _ => ?_
  refine (tryWrite_uses _).bind fun _ => uses_get.bind fun _ => ?_
  refine (uses_modify _).bind fun _ => ?_
  exact (removeOriginal_uses hpath _ _).bind fun _ => uses_modify _

theorem applyUpdateFile_uses {movePath : Option (List Char)} (chunks : List UpdateFileChunk)
    (hpath : paths path)
    (hdest : ∀ name dest, movePath = some name → join cwd name = .ok dest → paths dest) :
    Recorded.Uses (Within paths) (applyUpdateFile cwd path movePath chunks opts) := by
  refine noteExistingPathDeltaSupport_uses.bind fun _ => ?_
  refine (uses_lift (deriveNewContentsFromChunks_uses _ _)).bind fun derived => ?_
  refine (uses_ofExcept _).bind fun applied => ?_
  cases movePath with
  | none =>
    refine (uses_lift (uses_of_changed rfl hpath)).bind fun written => ?_
    exact (tryWrite_uses _).bind fun _ => uses_modify _
  | some name =>
    exact uses_ofExcept_bind fun dest hjoin =>
      applyMove_uses hpath (hdest name dest rfl (mapError_eq_ok.mp hjoin))

end Application

/-- **A hunk** changes only the paths it touches. -/
theorem applyHunk_touches {opts : ApplyPatchOptions} (affected : AffectedPaths) (hunk : Hunk) :
    Recorded.Uses (Within (hunk.Touches cwd)) (applyHunk opts cwd affected hunk) := by
  refine uses_ofExcept_bind fun path hresolved => ?_
  have hpath : hunk.Touches cwd path := .source (mapError_eq_ok.mp hresolved)
  cases hunk with
  | addFile name contents =>
    exact (applyAddFile_uses hpath contents).bind fun _ => uses_pure _
  | deleteFile name => exact (applyDeleteFile_uses hpath).bind fun _ => uses_pure _
  | updateFile name movePath chunks =>
    refine (applyUpdateFile_uses chunks hpath ?_).bind fun _ => uses_pure _
    rintro moveName dest rfl hdest
    exact .dest hdest

omit [PathUri U] in
theorem reportOutcome_uses {paths : U → Prop} (outcome : Except ApplicationError AffectedPaths)
    (delta : AppliedPatchDelta U) : (reportOutcome outcome delta).Uses (Within paths) := by
  have hlines : ∀ stream lines, (printLines stream lines : FsM U _).Uses (Within paths) := by
    intro stream lines
    induction lines with
    | nil => exact uses_pure _
    | cons line lines ih =>
      refine (uses_of_unchanged rfl).bind fun answer => ?_
      cases answer with
      | ok => exact ih
      | error error => exact uses_pure _
  cases outcome with
  | ok affected =>
    refine (hlines _ _).bind fun answer => ?_
    cases answer <;> exact uses_pure _
  | error error =>
    refine (uses_of_unchanged rfl).bind fun answer => ?_
    cases answer with
    | error error => exact uses_pure _
    | ok =>
      dsimp only
      split <;> exact uses_pure _

/-- **Applying hunks** changes only the paths that they touch. -/
theorem applyHunksWithOptions_touches (hunks : List Hunk) (opts : ApplyPatchOptions) (cwd : U) :
    (applyHunksWithOptions hunks opts cwd).Uses
      (Within fun path => ∃ hunk ∈ hunks, hunk.Touches cwd path) := by
  have happly : Recorded.Uses (Within fun path => ∃ hunk ∈ hunks, hunk.Touches cwd path)
      (applyHunksToFiles hunks opts cwd) := by
    unfold applyHunksToFiles
    split
    · exact uses_throw _
    · refine Recorded.Uses.foldlM (fun affected hunk hhunk => ?_) _
      exact (applyHunk_touches affected hunk).mono fun request hrequest path hpath =>
        ⟨hunk, hhunk, hrequest path hpath⟩
  exact (happly {}).bind fun outcome => reportOutcome_uses outcome.1 outcome.2

/-! ## Verification -/

section Verification

variable {σ : Type} {step : σ → (request : FsRequest U) → request.Answer → σ → Prop} {state : σ}
  {mode : ApplyPatchFileUpdateMode} {changes : List (U × ApplyPatchFileChange U)}

omit [PathUri U] in
theorem mem_paths_self (path : U) (change : ApplyPatchFileChange U) : path ∈ change.paths path := by
  cases change with
  | add content | delete content => exact List.mem_cons_self
  | update movePath newContent => cases movePath <;> simp [ApplyPatchFileChange.paths]

/-- The change of a hunk is about every path that the hunk touches. -/
theorem verifiedChange_covers {hunk : Hunk} {path : U} (hpath : hunk.resolvePath cwd = .ok path) :
    Recorded.Ensures step (fun outcome after _ => ∀ change, outcome = .ok change →
      after = changes ∧ ∀ touched, hunk.Touches cwd touched → touched ∈ change.paths path)
      (verifiedChange cwd path mode hunk) changes state := by
  have hsrc : ∀ {touched}, hunk.resolvePath cwd = .ok touched →
      ∀ change : ApplyPatchFileChange U, touched ∈ change.paths path := fun htouched change => by
    cases hpath.symm.trans htouched
    exact mem_paths_self path change
  cases hunk with
  | addFile name contents =>
    rintro change ⟨⟩
    refine ⟨rfl, fun touched htouched => ?_⟩
    cases htouched with
    | source h => exact hsrc h _
  | deleteFile name =>
    refine ensures_bind.mpr (ensures_lift.mpr fun answer after _ => ?_)
    cases answer with
    | error error => exact fun change hchg => by cases hchg
    | ok content =>
      rintro change ⟨⟩
      refine ⟨rfl, fun touched htouched => ?_⟩
      cases htouched with
      | source h => exact hsrc h _
  | updateFile name movePath chunks =>
    refine ensures_bind.mpr (ensures_lift.mpr ?_)
    refine ensures_of_forall (fun derived _ => ?_) _ _
    refine ensures_bind.mpr ((ensures_ofExcept _).mpr ?_)
    cases derived with
    | error error => exact fun change hchg => by cases hchg
    | ok applied =>
      refine ensures_bind.mpr ((ensures_ofExcept _).mpr ?_)
      cases hjoin : movePath.mapM (join cwd) with
      | error error => exact fun change hchg => by cases hchg
      | ok moved =>
        rintro change ⟨⟩
        refine ⟨rfl, fun touched htouched => ?_⟩
        cases htouched with
        | source h => exact hsrc h _
        | dest h =>
          obtain ⟨dest, hdest, hmoved⟩ := bind_eq_ok.mp hjoin
          cases hmoved
          cases hdest.symm.trans h
          exact List.mem_cons_self

variable [DecidableEq U]

theorem verifyHunk_covers {hunk : Hunk} :
    Recorded.Ensures step (fun outcome after _ => outcome = .ok () → ∃ entry,
      after = changes ++ [entry] ∧ ∀ path, hunk.Touches cwd path → path ∈ entry.2.paths entry.1)
      (verifyHunk cwd mode hunk) changes state := by
  refine ensures_bind.mpr ((ensures_ofExcept _).mpr ?_)
  cases hpath : hunk.resolvePath cwd with
  | error error => exact fun hok => by cases hok
  | ok path =>
    refine ensures_bind.mpr (ensures_get.mpr ?_)
    dsimp only
    split
    · exact fun hok => by cases hok
    · refine (verifiedChange_covers hpath).bind ?_ (fun _ _ _ _ hok => by cases hok)
      intro change after state hchg
      obtain ⟨rfl, hcovers⟩ := hchg change rfl
      exact fun _ => ⟨(path, change), rfl, hcovers⟩

/-- **The changes of a verified patch** cover the paths of its hunks. -/
theorem forM_verifyHunk_covers {hunks : List Hunk} :
    Recorded.Ensures step (fun outcome after _ => outcome = .ok () → changes ⊆ after ∧
      ∀ hunk ∈ hunks, ∀ path, hunk.Touches cwd path → ∃ entry ∈ after, path ∈ entry.2.paths entry.1)
      (hunks.forM (verifyHunk cwd mode)) changes state := by
  induction hunks generalizing changes state with
  | nil => exact fun _ => ⟨List.Subset.refl _, by simp⟩
  | cons hunk hunks ih =>
    refine verifyHunk_covers.bind ?_ (fun _ _ _ _ hok => by cases hok)
    intro _ after state hhunk
    obtain ⟨entry, rfl, hentry⟩ := hhunk rfl
    refine ih.mono fun outcome final _ hrest hok => ?_
    obtain ⟨hkept, hcovers⟩ := hrest hok
    refine ⟨List.Subset.trans (List.subset_append_left _ _) hkept,
      List.forall_mem_cons.mpr ⟨?_, hcovers⟩⟩
    exact fun path htouched => ⟨entry, hkept (by simp), hentry path htouched⟩

theorem tryVerifyApplyPatchArgs_covers {args : ApplyPatchArgs}
    {action : ApplyPatchAction U} {after : σ}
    (hrun : Program.Runs step (tryVerifyApplyPatchArgs args cwd mode) state (.ok action) after) :
    action.patch = args.patch ∧ ∀ hunk ∈ args.hunks, ∀ path, hunk.Touches action.cwd path →
      ∃ entry ∈ action.changes, path ∈ entry.2.paths entry.1 := by
  have hensures : (tryVerifyApplyPatchArgs args cwd mode).Ensures step
      (fun result _ => ∀ action, result = .ok action → action.patch = args.patch ∧
        ∀ hunk ∈ args.hunks, ∀ path, hunk.Touches action.cwd path →
          ∃ entry ∈ action.changes, path ∈ entry.2.paths entry.1) state := by
    unfold tryVerifyApplyPatchArgs
    cases args.workdir.mapM (join cwd) with
    | error error => exact fun action hact => by cases hact
    | ok dir =>
      refine ensures_bind.mpr (Program.Ensures.mono forM_verifyHunk_covers ?_)
      rintro ⟨outcome, changes⟩ _ hcovers action hact
      cases outcome with
      | error error => cases hact
      | ok =>
        cases hact
        exact ⟨rfl, (hcovers rfl).2⟩
  exact hensures.of_runs hrun action rfl

end Verification

end RenCrow.ApplyPatch
