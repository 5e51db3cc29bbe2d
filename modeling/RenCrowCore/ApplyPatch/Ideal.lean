import RenCrowCore.ApplyPatch.ApplyBasic
import RenCrowCore.Lib.StoreOps

/-!
# Patches without failures

A file system of text files where nothing fails, and what verifying and applying a patch
do there.

* `ideal`: the file system;
* `Hunk.op`: a hunk as an operation on the files;
* `applyHunk_ideal`: applying a hunk runs its operation;
* `Verified`, `verifyHunk_ideal`: verifying a hunk predicts its effect.
-/

namespace RenCrow.ApplyPatch

open Interaction StoreOps Fallible PathUri Recorded

/-- The files by their paths. -/
abbrev Files (U : Type) : Type := Store U (List Char)

/-- The file does not exist. -/
def notFoundError : SystemError := ⟨.notFound, "No such file or directory (os error 2)"⟩

variable {U : Type} [DecidableEq U]

/-- Text files by their paths, without failures. -/
def ideal (files : Files U) : (request : FsRequest U) → request.Answer × Files U
  | .getMetadata path _ =>
    (match files path with
      | some _ => .ok { isDirectory := false, isFile := true, isSymlink := false }
      | none => .error notFoundError, files)
  | .readFileText path _ =>
    (match files path with
      | some content => .ok content
      | none => .error notFoundError, files)
  | .writeFile path contents _ => (.ok (), Function.update files path (some contents))
  | .createDirectory .. => (.ok (), files)
  | .remove path .. =>
    match files path with
    | some _ => (.ok (), Function.update files path none)
    | none => (.error notFoundError, files)
  | .print .. => (.ok (), files)

/-! ## Single steps -/

open Function (update)

section Steps

variable {files : Files U} {delta : AppliedPatchDelta U} {path : U} {follow : Bool}
  {content : List Char}

@[simp] theorem getMetadata_ideal : (getMetadata path follow).eval ideal files =
    ((files path).elim (.error notFoundError) fun _ => .ok ⟨false, true, false⟩, files) := by
  rw [getMetadata, Program.eval_perform]
  cases hfile : files path <;> simp [ideal, hfile]

@[simp] theorem readFileText_ideal : (readFileText path follow).eval ideal files =
    ((files path).elim (.error notFoundError) .ok, files) := by
  rw [readFileText, Program.eval_perform]
  cases hfile : files path <;> simp [ideal, hfile]

@[simp] theorem writeFile_ideal (contents : List Char) :
    (writeFile path contents follow).eval ideal files =
      (.ok (), update files path (some contents)) := rfl

@[simp] theorem remove_ideal_some (h : files path = some content) (recursive force : Bool) :
    (remove path recursive force follow).eval ideal files =
      (.ok (), update files path none) := by
  rw [remove, Program.eval_perform]
  simp only [ideal, h]

/-- Every path is a regular file or not there, so nothing makes the record inexact. -/
@[simp] theorem noteExistingPathDeltaSupport_ideal :
    eval ideal (noteExistingPathDeltaSupport path follow) delta files =
      ((.ok (), delta), files) := by
  rw [noteExistingPathDeltaSupport, eval_bind]
  cases hfile : files path <;> simp [hfile, notFoundError]

@[simp] theorem readOptionalFileTextForDelta_ideal :
    eval ideal (readOptionalFileTextForDelta path follow) delta files =
      ((.ok (files path), delta), files) := by
  rw [readOptionalFileTextForDelta, eval_bind, noteExistingPathDeltaSupport_ideal]
  dsimp only
  rw [eval_bind]
  cases hfile : files path <;> simp [hfile, notFoundError]

@[simp] theorem pushChange_ideal (change : AppliedPatchFileChange U) :
    eval ideal (pushChange path change) delta files =
      ((.ok (), { delta with changes := delta.changes ++ [⟨path, change⟩] }), files) := rfl

@[simp] theorem ensureNotDirectory_ideal_some (h : files path = some content) :
    (ensureNotDirectory path follow).eval ideal files = (.ok (), files) := by
  rw [ensureNotDirectory, Program.eval_bind]
  simp [h]

@[simp] theorem ensureNotDirectory_ideal_none (h : files path = none) :
    (ensureNotDirectory path follow).eval ideal files = (.error notFoundError, files) := by
  rw [ensureNotDirectory, Program.eval_bind]
  simp [h]

theorem removeOriginal_ideal_some (h : files path = some content) (text : String)
    (expected : Option (List Char)) :
    eval ideal (removeOriginal path text expected follow) delta files =
      ((.ok (), delta), update files path none) := by
  simp [removeOriginal, eval_bind, h, withContext, Except.mapError]

theorem removeOriginal_ideal_none (h : files path = none)
    (text : String) (expected : Option (List Char)) :
    eval ideal (removeOriginal path text expected follow) delta files =
      ((.error (.context text (.system notFoundError)), delta), files) := by
  simp [removeOriginal, eval_bind, h, withContext, Except.mapError]

variable [PathUri U]

@[simp] theorem writeFileWithMissingParentRetry_ideal (contents : List Char) :
    (writeFileWithMissingParentRetry path contents follow).eval ideal files =
      (.ok (), update files path (some contents)) := by
  rw [writeFileWithMissingParentRetry, Program.eval_bind]
  simp

/-! ## Hunks -/

variable {opts : ApplyPatchOptions}

theorem applyAddFile_ideal (contents : List Char) :
    eval ideal (applyAddFile path contents opts) delta files =
      ((.ok (), { delta with changes := delta.changes ++ [⟨path, .add contents (files path)⟩] }),
        update files path (some contents)) := by
  simp [applyAddFile, eval_bind, tryWrite]

theorem applyDeleteFile_ideal_some (h : files path = some content) :
    eval ideal (applyDeleteFile path opts) delta files =
      ((.ok (), { delta with changes := delta.changes ++ [⟨path, .delete content⟩] }),
        update files path none) := by
  simp [applyDeleteFile, eval_bind, h, Except.toOption, removeOriginal_ideal_some h]

theorem applyDeleteFile_ideal_none (h : files path = none) :
    ∃ error after, eval ideal (applyDeleteFile path opts) delta files =
      ((.error error, after), files) := by
  simp [applyDeleteFile, eval_bind, h, Except.toOption, noteInexact, removeOriginal_ideal_none h]

theorem applyMove_ideal {dest : U} {applied : AppliedPatch}
    (h : files path = some applied.originalContents) :
    eval ideal (applyMove path dest applied opts) delta files =
      ((.ok (), { delta with changes := delta.changes ++
          [⟨path, .update (some dest) applied.originalContents (files dest) applied.newContents⟩]
            }),
        update (update files dest (some applied.newContents)) path none) := by
  have hsrc : ∃ content, update files dest (some applied.newContents) path =
      some content := by
    by_cases hself : path = dest
    · exact ⟨_, by rw [hself, Function.update_self]⟩
    · exact ⟨_, by rw [Function.update_of_ne hself, h]⟩
  obtain ⟨content, hcont⟩ := hsrc
  simp [applyMove, eval_bind, tryWrite, removeOriginal_ideal_some hcont]

end Steps

/-! ## Operations -/

variable [PathUri U]

/-- What a hunk does to the text of the file it updates. -/
def updateText (path : U) (chunks : List UpdateFileChunk) (mode : ApplyPatchFileUpdateMode)
    (text : List Char) : Option (List Char) :=
  (newContents text (PathUri.inferredNativePathString path) chunks mode).toOption

omit [DecidableEq U] in
/-- A hunk as an operation on the files. -/
def Hunk.op (cwd : U) (mode : ApplyPatchFileUpdateMode) :
    Hunk → Except PathUriParseError (Op U (List Char))
  | addFile name contents => do
    let path ← PathUri.join cwd name
    .ok (.write path contents)
  | deleteFile name => do
    let path ← PathUri.join cwd name
    .ok (.remove path)
  | updateFile name none chunks => do
    let path ← PathUri.join cwd name
    .ok (.rewrite path (updateText path chunks mode))
  | updateFile name (some dest) chunks => do
    let path ← PathUri.join cwd name
    let destUri ← PathUri.join cwd dest
    .ok (.move path destUri (updateText path chunks mode))

variable {files : Files U} {delta : AppliedPatchDelta U} {cwd : U} {opts : ApplyPatchOptions}

/-- The evaluation ended as the operation did. -/
def EndsAs {α : Type} (outcome : (Except ApplicationError α × AppliedPatchDelta U) × Files U) :
    Option (Files U) → Prop
  | some after => outcome.1.1.isOk = true ∧ outcome.2 = after
  | none => outcome.1.1.isOk = false

variable {chunks : List UpdateFileChunk} {path : U} {mode : ApplyPatchFileUpdateMode}

/-- The new contents of a file that is there and can be updated. -/
theorem deriveNewContentsFromChunks_ideal (files : Files U) (path : U)
    (chunks : List UpdateFileChunk)
    (mode : ApplyPatchFileUpdateMode) (follow : Bool) :
    ∃ outcome, (deriveNewContentsFromChunks path chunks mode follow).eval ideal files =
        (outcome, files) ∧
      outcome.toOption.map AppliedPatch.newContents =
        (files path).bind (updateText path chunks mode) ∧
      ∀ applied, outcome = .ok applied → files path = some applied.originalContents := by
  rw [deriveNewContentsFromChunks, Program.eval_bind, readFileText_ideal]
  cases hfile : files path with
  | none => exact ⟨_, rfl, rfl, nofun⟩
  | some text =>
    dsimp only [Option.elim_some, Option.bind_some, updateText]
    cases newContents text (inferredNativePathString path) chunks mode with
    | error message => exact ⟨_, rfl, rfl, nofun⟩
    | ok contents =>
      refine ⟨_, rfl, rfl, ?_⟩
      rintro _ ⟨⟩
      rfl

/-- An update in place. -/
theorem applyUpdateFile_ideal :
    EndsAs (eval ideal (applyUpdateFile cwd path none chunks opts) delta files)
      ((Op.rewrite path (updateText path chunks opts.updateFileMode)).run files) := by
  obtain ⟨outcome, hder, hnew, -⟩ := deriveNewContentsFromChunks_ideal files path chunks
    opts.updateFileMode opts.followSymlinks
  rw [Op.run, ← hnew]
  cases outcome with
  | error error =>
    simp [applyUpdateFile, eval_bind, hder, EndsAs, Except.mapError, Except.isOk,
      Except.toBool, Except.toOption]
  | ok applied =>
    simp [applyUpdateFile, eval_bind, hder, EndsAs, Except.mapError, Except.isOk,
      Except.toBool, Except.toOption, withContext, tryWrite]

/-- An update with a move. -/
theorem applyUpdateFile_move_ideal {destUri : U} {dest : List Char}
    (hdest : join cwd dest = .ok destUri) :
    EndsAs (eval ideal (applyUpdateFile cwd path (some dest) chunks opts) delta files)
      ((Op.move path destUri (updateText path chunks opts.updateFileMode)).run files) := by
  obtain ⟨outcome, hder, hnew, hfile⟩ := deriveNewContentsFromChunks_ideal files path chunks
    opts.updateFileMode opts.followSymlinks
  rw [Op.run, ← hnew]
  cases outcome with
  | error error =>
    simp [applyUpdateFile, eval_bind, hder, EndsAs, Except.mapError, Except.isOk,
      Except.toBool, Except.toOption]
  | ok applied =>
    have hmove := @applyMove_ideal U _ files delta path _ opts destUri applied (hfile applied rfl)
    simp [applyUpdateFile, eval_bind, hder, hdest, hmove, EndsAs, Except.mapError,
      Except.isOk, Except.toBool, Except.toOption]

omit [PathUri U] in
/-- A result that is added at the end. -/
theorem EndsAs.bind_pure {α : Type} {x : ApplyM U Unit} {value : α} {end_ : Option (Files U)}
    (h : EndsAs (eval ideal x delta files) end_) :
    EndsAs (eval ideal (x >>= fun _ => pure value) delta files) end_ := by
  rw [eval_bind]
  generalize eval ideal x delta files = outcome at h
  obtain ⟨⟨result, after⟩, state⟩ := outcome
  cases result <;> cases end_ <;> exact h

/-- A path that can be resolved. -/
theorem eval_resolved {α : Type} {name : List Char} (h : join cwd name = .ok path)
    (next : U → ApplyM U α) :
    eval ideal (Recorded.ofExcept ((join cwd name).mapError .pathUri) >>= next)
      delta files = eval ideal (next path) delta files := by
  rw [h]
  exact eval_bind_ok (eval_ofExcept _)

variable {hunk : Hunk}

/-- **Applying a hunk runs its operation.** -/
theorem applyHunk_ideal {op : Op U (List Char)} (affected : AffectedPaths)
    (hop : hunk.op cwd opts.updateFileMode = .ok op) :
    EndsAs (eval ideal (applyHunk opts cwd affected hunk) delta files) (op.run files) := by
  cases hunk with
  | addFile name contents =>
    obtain ⟨path, hpath, hop⟩ := bind_eq_ok.mp hop
    cases hop
    rw [applyHunk, Hunk.resolvePath, eval_resolved hpath]
    refine EndsAs.bind_pure ?_
    rw [applyAddFile_ideal]
    exact ⟨rfl, rfl⟩
  | deleteFile name =>
    obtain ⟨path, hpath, hop⟩ := bind_eq_ok.mp hop
    cases hop
    rw [applyHunk, Hunk.resolvePath, eval_resolved hpath]
    refine EndsAs.bind_pure ?_
    rw [Op.run]
    cases hfile : files path with
    | none =>
      obtain ⟨error, after, hdel⟩ := @applyDeleteFile_ideal_none U _ files delta path _ opts hfile
      rw [hdel]
      rfl
    | some content =>
      rw [applyDeleteFile_ideal_some hfile]
      exact ⟨rfl, rfl⟩
  | updateFile name movePath chunks =>
    rw [applyHunk, Hunk.resolvePath]
    cases movePath with
    | none =>
      obtain ⟨path, hpath, hop⟩ := bind_eq_ok.mp hop
      cases hop
      rw [eval_resolved hpath]
      exact EndsAs.bind_pure applyUpdateFile_ideal
    | some dest =>
      obtain ⟨path, hpath, hop⟩ := bind_eq_ok.mp hop
      obtain ⟨destUri, hdest, hop⟩ := bind_eq_ok.mp hop
      cases hop
      rw [eval_resolved hpath]
      exact EndsAs.bind_pure (applyUpdateFile_move_ideal hdest)

variable {hunks : List Hunk} {ops : List (Op U (List Char))}

/-- **Applying hunks runs their operations.** -/
theorem foldlM_applyHunk_ideal (affected : AffectedPaths)
    (hops : hunks.mapM (Hunk.op cwd opts.updateFileMode) = .ok ops) :
    EndsAs (eval ideal (hunks.foldlM (applyHunk opts cwd) affected) delta files)
      (runAll files ops) := by
  induction hunks generalizing ops affected delta files with
  | nil =>
    cases hops
    exact ⟨rfl, rfl⟩
  | cons hunk hunks ih =>
    rw [List.mapM_cons] at hops
    obtain ⟨op, hop, hops⟩ := bind_eq_ok.mp hops
    obtain ⟨rest, hrest, hops⟩ := bind_eq_ok.mp hops
    cases hops
    have hhunk := @applyHunk_ideal U _ _ files delta cwd opts hunk op affected hop
    rw [List.foldlM_cons, eval_bind]
    generalize eval ideal (applyHunk opts cwd affected hunk) delta files = outcome at hhunk
    obtain ⟨⟨result, after⟩, state⟩ := outcome
    change EndsAs _ ((op.run files).bind fun next => runAll next rest)
    cases hrun : op.run files with
    | none =>
      rw [hrun] at hhunk
      cases result with
      | error e => rfl
      | ok affected => cases hhunk
    | some next =>
      rw [hrun] at hhunk
      obtain ⟨hok, rfl⟩ := hhunk
      cases result with
      | error e => cases hok
      | ok affected => exact ih affected hrest

/-! ## A whole patch -/

omit [PathUri U] in
theorem printLines_ideal (stream : Stream) (lines : List String) :
    (printLines stream lines).eval ideal files = (.ok (), files) := by
  induction lines with
  | nil => rfl
  | cons line lines ih =>
    exact ih

omit [PathUri U] in
theorem reportOutcome_ideal (outcome : Except ApplicationError AffectedPaths) :
    ∃ result, (reportOutcome outcome delta).eval ideal files = (result, files) ∧
      (outcome.isOk = true → result = .ok delta) ∧
        (outcome.isOk = false → result.isOk = false) := by
  cases outcome with
  | ok affected =>
    refine ⟨.ok delta, ?_, fun _ => rfl, fun hfail => by cases hfail⟩
    rw [reportOutcome, Program.eval_bind, printSummary, printLines_ideal]
    rfl
  | error error =>
    rw [reportOutcome, Program.eval_bind]
    cases error.systemError? with
    | some system =>
      refine ⟨.error ⟨streamError system, delta⟩, ?_, fun hok => (by cases hok), fun _ => rfl⟩
      simp [print, ideal]
    | none =>
      refine ⟨.error ⟨.ioError ⟨error.text, ⟨.other, error.text⟩⟩, delta⟩, ?_,
        fun hok => (by cases hok), fun _ => rfl⟩
      simp [print, ideal]

/-- **Applying a patch** succeeds exactly if its operations do, and leaves what they leave. -/
theorem applyHunksWithOptions_ideal {after : Files U}
    (hops : hunks.mapM (Hunk.op cwd opts.updateFileMode) = .ok ops) :
    (∃ delta, (applyHunksWithOptions hunks opts cwd).eval ideal files = (.ok delta, after)) ↔
      hunks ≠ [] ∧ runAll files ops = some after := by
  have hends : EndsAs (eval ideal (applyHunksToFiles hunks opts cwd) {} files)
      (if hunks = [] then none else runAll files ops) := by
    unfold applyHunksToFiles
    by_cases hnil : hunks = []
    · rw [if_pos hnil, if_pos (by simp [hnil])]
      rfl
    · rw [if_neg hnil, if_neg (by simpa using hnil)]
      exact foldlM_applyHunk_ideal {} hops
  have heval : (applyHunksWithOptions hunks opts cwd).eval ideal files =
      (fun outcome : (Except ApplicationError AffectedPaths × AppliedPatchDelta U) × Files U =>
        (reportOutcome outcome.1.1 outcome.1.2).eval ideal outcome.2)
        (eval ideal (applyHunksToFiles hunks opts cwd) {} files) := by
    rw [applyHunksWithOptions, Program.eval_bind]
    rfl
  rw [heval]
  generalize eval ideal (applyHunksToFiles hunks opts cwd) {} files = outcome at hends
  obtain ⟨⟨outcome, delta⟩, state⟩ := outcome
  obtain ⟨result, hres, hok, herror⟩ := @reportOutcome_ideal U _ state delta outcome
  dsimp only at hends ⊢
  rw [hres]
  have hend : (∃ delta, (result, state) = (.ok delta, after)) ↔
      (if hunks = [] then none else runAll files ops) = some after := by
    generalize (if hunks = [] then none else runAll files ops) = end_ at hends
    cases end_ with
    | none =>
      have hfail := herror hends
      cases result with
      | ok delta => cases hfail
      | error failure => simp
    | some ended =>
      obtain ⟨hsucceeded, rfl⟩ := hends
      rw [hok hsucceeded]
      simp
  rw [hend]
  split <;> simp_all

/-! ## Verification -/

/-- What verifying a hunk found out about the files. -/
inductive Verified (files : Files U) (cwd : U) (mode : ApplyPatchFileUpdateMode) :
    Hunk → U × ApplyPatchFileChange U → Prop where
  | add {name contents : List Char} {path : U} (hpath : PathUri.join cwd name = .ok path) :
      Verified files cwd mode (.addFile name contents) (path, .add contents)
  | delete {name content : List Char} {path : U} (hpath : PathUri.join cwd name = .ok path)
      (hfile : files path = some content) :
      Verified files cwd mode (.deleteFile name) (path, .delete content)
  | update {name contents : List Char} {path : U} {chunks : List UpdateFileChunk}
      (hpath : PathUri.join cwd name = .ok path)
      (hnew : (files path).bind (updateText path chunks mode) = some contents) :
      Verified files cwd mode (.updateFile name none chunks) (path, .update none contents)
  | move {name dest contents : List Char} {path destUri : U} {chunks : List UpdateFileChunk}
      (hpath : PathUri.join cwd name = .ok path) (hdest : PathUri.join cwd dest = .ok destUri)
      (hnew : (files path).bind (updateText path chunks mode) = some contents) :
      Verified files cwd mode (.updateFile name (some dest) chunks)
        (path, .update (some destUri) contents)

variable {changes after : List (U × ApplyPatchFileChange U)} {state : Files U}

/-- The change that was found for a hunk. -/
theorem verifiedChange_ideal {change : ApplyPatchFileChange U}
    (hpath : hunk.resolvePath cwd = .ok path)
    (h : eval ideal (verifiedChange cwd path mode hunk) changes files =
      ((.ok change, after), state)) :
    state = files ∧ after = changes ∧ Verified files cwd mode hunk (path, change) := by
  cases hunk with
  | addFile name contents =>
    cases h
    exact ⟨rfl, rfl, .add hpath⟩
  | deleteFile name =>
    obtain ⟨content, middle, between, hread, h⟩ := eval_bind_eq_ok h
    rw [eval_lift, readFileText_ideal] at hread
    cases hread
    cases hfile : files path with
    | none =>
      rw [hfile] at h
      cases h
    | some content =>
      rw [hfile] at h
      cases h
      exact ⟨rfl, rfl, .delete hpath hfile⟩
  | updateFile name movePath chunks =>
    obtain ⟨derived, middle, between, hder, h⟩ := eval_bind_eq_ok h
    obtain ⟨outcome, hoc, hnew, -⟩ := deriveNewContentsFromChunks_ideal files path chunks mode true
    rw [eval_lift, hoc] at hder
    cases hder
    cases outcome with
    | error error => cases h
    | ok applied =>
      rw [eval_bind_ok (eval_ofExcept _)] at h
      obtain ⟨dest, middle, between, hdest, hnoted⟩ := eval_bind_eq_ok h
      obtain ⟨⟨hresolved, rfl⟩, rfl⟩ : (_ = _ ∧ _ = _) ∧ _ = _ := by simpa using hdest
      cases hnoted
      have hjoin := mapError_eq_ok.mp hresolved
      cases movePath with
      | none =>
        cases hjoin
        exact ⟨rfl, rfl, .update hpath hnew.symm⟩
      | some name =>
        obtain ⟨destUri, hdestUri, hjoin⟩ := bind_eq_ok.mp hjoin
        cases hjoin
        exact ⟨rfl, rfl, .move hpath hdestUri hnew.symm⟩

/-- **Verifying a hunk** reads the files and notes its change, for a path that has none. -/
theorem verifyHunk_ideal
    (h : eval ideal (verifyHunk cwd mode hunk) changes files = ((.ok (), after), state)) :
    state = files ∧ ∃ change, after = changes ++ [change] ∧ Verified files cwd mode hunk change ∧
      change.1 ∉ changes.map Prod.fst := by
  obtain ⟨path, middle, between, hpath, h⟩ := eval_bind_eq_ok h
  obtain ⟨⟨hresolved, rfl⟩, rfl⟩ : (_ = _ ∧ _ = _) ∧ _ = _ := by simpa using hpath
  obtain ⟨known, middle, between, hknown, h⟩ := eval_bind_eq_ok h
  cases hknown
  split at h
  · cases h
  · rename_i hfresh
    obtain ⟨change, middle, between, hchg, hnoted⟩ := eval_bind_eq_ok h
    obtain ⟨rfl, rfl, hver⟩ := verifiedChange_ideal (mapError_eq_ok.mp hresolved) hchg
    cases hnoted
    refine ⟨rfl, (path, change), rfl, hver, ?_⟩
    simpa using hfresh

/-- **Verifying hunks** finds a change for each of them, with distinct paths. -/
theorem forM_verifyHunk_ideal (hnodup : (changes.map Prod.fst).Nodup)
    (h : eval ideal (hunks.forM (verifyHunk cwd mode)) changes files = ((.ok (), after), state)) :
    state = files ∧ ∃ found, after = changes ++ found ∧
      List.Forall₂ (Verified files cwd mode) hunks found ∧ (after.map Prod.fst).Nodup := by
  induction hunks generalizing changes files with
  | nil =>
    cases h
    exact ⟨rfl, [], by simp, .nil, hnodup⟩
  | cons hunk hunks ih =>
    obtain ⟨⟨⟩, middle, between, hhunk, hrest⟩ := eval_bind_eq_ok h
    obtain ⟨rfl, change, rfl, hver, hfresh⟩ := verifyHunk_ideal hhunk
    have hnodup' : ((changes ++ [change]).map Prod.fst).Nodup := by
      rw [List.map_append, List.map_singleton]
      exact List.nodup_append.mpr ⟨hnodup, List.nodup_singleton _, by
        rintro path hpath _ hother rfl
        exact hfresh (List.mem_singleton.mp hother ▸ hpath)⟩
    obtain ⟨rfl, found, rfl, hfound, hafter⟩ := ih hnodup' hrest
    exact ⟨rfl, change :: found, by simp, .cons hver hfound, hafter⟩

/-- **A verified patch**: the files are as they were, and every hunk has its change. -/
theorem tryVerifyApplyPatchArgs_ideal {args : ApplyPatchArgs} {action : ApplyPatchAction U}
    (h : (tryVerifyApplyPatchArgs args cwd mode).eval ideal files = (.ok action, state)) :
    action.patch = args.patch ∧ action.updateFileMode = mode ∧
      List.Forall₂ (Verified files action.cwd mode) args.hunks action.changes ∧
      (action.changes.map Prod.fst).Nodup := by
  unfold tryVerifyApplyPatchArgs at h
  cases hdir : args.workdir.mapM (join cwd) with
  | error error =>
    rw [hdir] at h
    cases h
  | ok dir =>
    rw [hdir] at h
    rw [Program.eval_bind] at h
    cases hverify : eval ideal (args.hunks.forM (verifyHunk (dir.getD cwd) mode)) [] files with
    | mk outcome between =>
      rw [eval] at hverify
      rw [hverify] at h
      obtain ⟨result, changes⟩ := outcome
      cases result with
      | error error => cases h
      | ok =>
        cases h
        obtain ⟨rfl, found, rfl, hfound, hnodup⟩ := forM_verifyHunk_ideal (by simp) hverify
        exact ⟨rfl, rfl, hfound, hnodup⟩

/-! ## A file that is moved -/

/-- The file `a` in the root directory. -/
def singleFile : Files PosixPath := fun path => if path = ⟨[['a']]⟩ then some "x\n".toList else none

/-- The file `a` is changed and moved. -/
def moveHunk (dest : String) : Hunk :=
  .updateFile ['a'] (some dest.toList)
    [{ changeContext := none, oldLines := [['x']], newLines := [['y']], contextLineIndices := []
       isEndOfFile := false }]

end RenCrow.ApplyPatch
