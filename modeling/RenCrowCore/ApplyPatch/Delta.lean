import RenCrowCore.ApplyPatch.Ideal
import RenCrowCore.Lib.Journal

/-!
# The record of an application

Applying a patch keeps a record of the changes it made, and says whether the record is exact.
Here requests can fail at any point: what is read is true or not read at all, and a write or
a removal that fails can leave anything in its own file.

* `Faulty`: the file system;
* `Exact`: a record that says it is exact can be replayed and taken back;
* `applyHunks_exact`: the record of a patch is, if no file is moved to its own path;
* `applyHunks_selfMove`: without that, it is not.
-/

namespace RenCrow.ApplyPatch

open Interaction Recorded Program AppliedPatchChange
open Function (update update_eq_self update_idem)

variable {U : Type} [DecidableEq U]

/-! ## A file system that fails -/

/-- A file that is not found is not there; nothing follows from other errors. -/
def FailsTruly (files : Files U) (path : U) (error : SystemError) : Prop :=
  error.kind = .notFound → files path = none

/-- What a file system of text files can do when requests can fail. -/
def Faulty (files : Files U) : (request : FsRequest U) → request.Answer → Files U → Prop
  | .getMetadata path _, .ok metadata, after => after = files ∧
      (metadata.isFile = true ↔ (files path).isSome) ∧ metadata.isSymlink = false ∧
        (metadata.isDirectory = true → files path = none)
  | .getMetadata path _, .error error, after => after = files ∧ FailsTruly files path error
  | .readFileText path _, .ok content, after => after = files ∧ files path = some content
  | .readFileText path _, .error error, after => after = files ∧ FailsTruly files path error
  | .writeFile path contents _, .ok (), after => after = Function.update files path (some contents)
  | .remove path .., .ok (), after => after = Function.update files path none
  | .writeFile path _ _, .error _, after | .remove path .., .error _, after =>
    ∃ content, after = Function.update files path content
  | .createDirectory .., _, after | .print .., _, after => after = files

/-- Nothing has to fail. -/
theorem faulty_ideal (files : Files U) (req : FsRequest U) :
    Faulty files req (ideal files req).1 (ideal files req).2 := by
  cases req with
  | getMetadata path follow | readFileText path follow =>
    cases hfile : files path with
    | none => simp [ideal, hfile, Faulty, FailsTruly]
    | some content => simp [ideal, hfile, Faulty]
  | writeFile path contents follow => rfl
  | createDirectory path recursive follow => rfl
  | remove path recursive force follow =>
    cases hfile : files path with
    | none =>
      simp only [ideal, hfile, Faulty]
      exact ⟨none, (Function.update_eq_self_iff.mpr hfile.symm).symm⟩
    | some content => simp [ideal, hfile, Faulty]
  | print stream line => rfl

variable {files : Files U} {path : U} {follow : Bool} {delta after : AppliedPatchDelta U}
  {opts : ApplyPatchOptions}

section Requests

variable {recursive : Bool} {post : Except SystemError Unit → Files U → Prop}

theorem getMetadata_faulty {post : Except SystemError FileMetadata → Files U → Prop}
    (h : ∀ answer, post answer files) : (getMetadata path follow).Ensures Faulty post files := by
  rintro (error | metadata) after hstep
  · exact hstep.1 ▸ h _
  · exact hstep.1 ▸ h _

theorem readFileText_faulty {post : Except SystemError (List Char) → Files U → Prop}
    (hok : ∀ content, files path = some content → post (.ok content) files)
    (herror : ∀ error, FailsTruly files path error → post (.error error) files) :
    (readFileText path follow).Ensures Faulty post files := by
  rintro (error | content) after hstep
  · exact hstep.1 ▸ herror error hstep.2
  · exact hstep.1 ▸ hok content hstep.2

theorem writeFile_faulty {contents : List Char}
    (hok : post (.ok ()) (update files path (some contents)))
    (herror : ∀ error content, post (.error error) (update files path content)) :
    (writeFile path contents follow).Ensures Faulty post files := by
  rintro (error | ⟨⟩) after hstep
  · obtain ⟨content, rfl⟩ := hstep
    exact herror error content
  · have hafter : after = update files path (some contents) := hstep
    exact hafter ▸ hok

theorem remove_faulty {force : Bool} (hok : post (.ok ()) (update files path none))
    (herror : ∀ error content, post (.error error) (update files path content)) :
    (remove path recursive force follow).Ensures Faulty post files := by
  rintro (error | ⟨⟩) after hstep
  · obtain ⟨content, rfl⟩ := hstep
    exact herror error content
  · have hafter : after = update files path none := hstep
    exact hafter ▸ hok

theorem createDirectory_faulty (h : ∀ answer, post answer files) :
    (createDirectory path recursive follow).Ensures Faulty post files := by
  rintro answer after hstep
  have hafter : after = files := hstep
  exact hafter ▸ h answer

theorem print_faulty {stream : Stream} {line : String} (h : ∀ answer, post answer files) :
    (print stream line).Ensures Faulty post files := by
  rintro answer after hstep
  have hafter : after = files := hstep
  exact hafter ▸ h answer

end Requests

/-! ## Exact records -/

namespace AppliedPatchChange

/-- The change is made again. -/
def redo (files : Files U) : AppliedPatchChange U → Files U
  | ⟨path, .add content _⟩ => Function.update files path (some content)
  | ⟨path, .delete _⟩ => Function.update files path none
  | ⟨path, .update none _ _ newContent⟩ => Function.update files path (some newContent)
  | ⟨path, .update (some movePath) _ _ newContent⟩ =>
    Function.update (Function.update files movePath (some newContent)) path none

/-- The change is taken back. -/
def undo (files : Files U) : AppliedPatchChange U → Files U
  | ⟨path, .add _ overwrittenContent⟩ => Function.update files path overwrittenContent
  | ⟨path, .delete content⟩ => Function.update files path (some content)
  | ⟨path, .update none oldContent _ _⟩ => Function.update files path (some oldContent)
  | ⟨path, .update (some movePath) oldContent overwrittenMoveContent _⟩ =>
    Function.update (Function.update files path (some oldContent)) movePath overwrittenMoveContent

end AppliedPatchChange

/-- A record that says it is exact leads from the old files to the new ones, and back. -/
def Exact (files : Files U) (delta : AppliedPatchDelta U) (now : Files U) : Prop :=
  delta.exact = true →
    Journal.Faithful AppliedPatchChange.redo AppliedPatchChange.undo files delta.changes now

/-- The record can have become inexact, but lists the same changes. -/
structure Weakened (delta after : AppliedPatchDelta U) : Prop where
  changes : after.changes = delta.changes
  exact : after.exact = true → delta.exact = true

namespace Weakened

variable {final : AppliedPatchDelta U}

omit [DecidableEq U]

theorem refl (delta : AppliedPatchDelta U) : Weakened delta delta := ⟨rfl, id⟩

theorem trans (h : Weakened delta after) (hafter : Weakened after final) : Weakened delta final :=
  ⟨hafter.changes.trans h.changes, fun hexact => h.exact (hafter.exact hexact)⟩

theorem inexact (delta : AppliedPatchDelta U) : Weakened delta { delta with exact := false } :=
  ⟨rfl, fun hexact => by cases hexact⟩

end Weakened

variable {start now : Files U}

theorem Exact.weaken (h : Exact start delta now) (hweak : Weakened delta after) :
    Exact start after now := fun hexact => hweak.changes ▸ h (hweak.exact hexact)

/-- One more change to files that the record is exact about. -/
theorem Exact.push {change : AppliedPatchChange U} (h : Exact start delta files)
    (hchg : delta.exact = true → change.redo files = now ∧ change.undo now = files) :
    Exact start { delta with changes := delta.changes ++ [change] } now := fun hexact =>
  (h hexact).concat (hchg hexact).1 (hchg hexact).2

theorem Exact.of_inexact (h : after.exact = false) : Exact start after now := fun hexact => by
  rw [h] at hexact
  cases hexact

/-! ## Single steps -/

section Steps

theorem noteExistingPathDeltaSupport_faulty :
    Recorded.Ensures Faulty (fun outcome after now => outcome = .ok () ∧ now = files ∧
      Weakened delta after) (noteExistingPathDeltaSupport path follow) delta files := by
  refine ensures_bind.mpr (ensures_lift.mpr (getMetadata_faulty fun answer => ?_))
  cases answer with
  | error error | ok metadata =>
    dsimp only
    split
    · exact ⟨rfl, rfl, .refl delta⟩
    · exact ⟨rfl, rfl, .inexact delta⟩

/-- What is read is what is there, unless the record is inexact. -/
theorem readOptionalFileTextForDelta_faulty :
    Recorded.Ensures Faulty (fun outcome after now => now = files ∧ Weakened delta after ∧
      ∃ content, outcome = .ok content ∧ (after.exact = true → files path = content))
      (readOptionalFileTextForDelta path follow) delta files := by
  refine noteExistingPathDeltaSupport_faulty.bind ?_ (by rintro _ _ _ ⟨⟨⟩, -⟩)
  rintro _ noted _ ⟨-, rfl, hnoted⟩
  refine ensures_bind.mpr (ensures_lift.mpr
    (readFileText_faulty (fun content hfile => ?_) fun error herror => ?_))
  · exact ⟨rfl, hnoted, some content, rfl, fun _ => hfile⟩
  · dsimp only
    split
    · rename_i hkind
      exact ⟨rfl, hnoted, none, rfl, fun _ => herror hkind⟩
    · exact ⟨rfl, hnoted.trans (.inexact noted), none, rfl, fun hexact => by cases hexact⟩

/-- After a removal that failed, a record that is still exact means that the file has the
expected content. -/
theorem removeOriginal_faulty (text : String) (expected : Option (List Char)) :
    Recorded.Ensures Faulty (fun outcome after now => match outcome with
      | .ok () => after = delta ∧ now = update files path none
      | .error _ => Weakened delta after ∧ (after.exact = true → now = files ∨
          ∃ content, expected = some content ∧ now = update files path (some content)))
      (removeOriginal path text expected follow) delta files := by
  have hdir : (ensureNotDirectory path follow).Ensures Faulty (fun _ now => now = files) files := by
    refine ensures_bind.mpr (getMetadata_faulty fun answer => ?_)
    cases answer with
    | error error => rfl
    | ok metadata =>
      dsimp only
      split <;> rfl
  refine ensures_bind.mpr (ensures_lift.mpr (hdir.mono ?_))
  rintro checked _ rfl
  refine ensures_bind.mpr ((ensures_ofExcept _).mpr ?_)
  cases checked with
  | error error => exact ⟨.refl delta, fun _ => .inl rfl⟩
  | ok =>
    refine ensures_bind.mpr (ensures_lift.mpr (remove_faulty ⟨rfl, rfl⟩ ?_))
    intro error content
    refine ensures_bind.mpr (ensures_lift.mpr ?_)
    cases expected with
    | none => exact ⟨⟨rfl, fun hexact => by simp at hexact⟩, fun hexact => by simp at hexact⟩
    | some expected =>
      refine ensures_bind.mpr (readFileText_faulty (fun found hfound => ?_) fun _ _ => ?_)
      · rw [Function.update_self] at hfound
        subst hfound
        refine ⟨⟨rfl, fun hexact => (Bool.and_eq_true_iff.mp hexact).1⟩, fun hexact => ?_⟩
        have hsame : found = expected := of_decide_eq_true (Bool.and_eq_true_iff.mp hexact).2
        exact .inr ⟨expected, rfl, hsame ▸ rfl⟩
      · exact ⟨⟨rfl, fun hexact => by simp at hexact⟩, fun hexact => by simp at hexact⟩

/-- Writing is recorded as inexact if it fails. -/
theorem tryWrite_faulty {contents : List Char} {result : Except ApplicationError Unit}
    (h : result = .ok () → now = update files path (some contents)) :
    Recorded.Ensures Faulty (fun outcome after final => match outcome with
      | .ok () => after = delta ∧ final = update files path (some contents)
      | .error _ => after.exact = false) (tryWrite result) delta now := by
  cases result with
  | ok => exact ⟨rfl, h rfl⟩
  | error error => rfl

variable [PathUri U]

/-- A write that succeeded, perhaps after a failure, has written the file. -/
theorem writeFileWithMissingParentRetry_faulty (contents : List Char) :
    (writeFileWithMissingParentRetry path contents follow).Ensures Faulty
      (fun result now => result = .ok () → now = update files path (some contents)) files := by
  refine ensures_bind.mpr (writeFile_faulty (fun _ => rfl) fun error content => ?_)
  dsimp only
  split
  · -- the parent directories are created, and the file is written again
    have hagain : Program.Ensures Faulty
        (fun result now => result = .ok () → now = update files path (some contents))
        (do
          let written ← writeFile path contents follow
          pure (withContext ("Failed to write file " ++ PathUri.inferredNativePathString path)
            written))
        (update files path content) := by
      refine ensures_bind.mpr (writeFile_faulty (fun _ => ?_) fun error content hok => ?_)
      · exact update_idem _ _ _
      · cases hok
    cases PathUri.parent path with
    | none => exact ensures_bind.mpr hagain
    | some parent =>
      refine ensures_bind.mpr (createDirectory_faulty ?_)
      rintro (error | ⟨⟩)
      · exact fun hok => by cases hok
      · exact hagain
  · exact fun hok => by cases hok

/-- What is derived is derived from the file. -/
theorem deriveNewContentsFromChunks_faulty (chunks : List UpdateFileChunk)
    (mode : ApplyPatchFileUpdateMode) :
    (deriveNewContentsFromChunks path chunks mode follow).Ensures Faulty
      (fun result now => now = files ∧ ∀ applied, result = .ok applied →
        files path = some applied.originalContents) files := by
  refine ensures_bind.mpr (readFileText_faulty (fun content hfile => ?_) fun error _ => ?_)
  · dsimp only
    split
    · exact ⟨rfl, fun applied happ => by cases happ⟩
    · refine ⟨rfl, fun applied happ => ?_⟩
      cases happ
      exact hfile
  · exact ⟨rfl, fun applied happ => by cases happ⟩

/-! ## Hunks -/

theorem applyAddFile_faulty (contents : List Char) (h : Exact start delta files) :
    Recorded.Ensures Faulty (fun _ => Exact start) (applyAddFile path contents opts)
      delta files := by
  refine readOptionalFileTextForDelta_faulty.bind ?_ (by rintro _ _ _ ⟨-, -, _, ⟨⟩, -⟩)
  rintro _ noted _ ⟨rfl, hnoted, overwritten, ⟨⟩, hread⟩
  refine ensures_bind.mpr (ensures_lift.mpr
    ((writeFileWithMissingParentRetry_faulty contents).mono fun result now hres => ?_))
  refine (tryWrite_faulty hres).bind ?_ fun _ _ _ hinexact => .of_inexact hinexact
  rintro _ _ _ ⟨rfl, rfl⟩
  refine (h.weaken hnoted).push fun hexact => ⟨rfl, ?_⟩
  rw [undo, update_idem, ← hread hexact, update_eq_self]

theorem applyDeleteFile_faulty (h : Exact start delta files) :
    Recorded.Ensures Faulty (fun _ => Exact start) (applyDeleteFile path opts) delta files := by
  refine noteExistingPathDeltaSupport_faulty.bind ?_ (by rintro _ _ _ ⟨⟨⟩, -⟩)
  rintro _ noted _ ⟨-, rfl, hnoted⟩
  have hexact := h.weaken hnoted
  refine ensures_bind.mpr (ensures_lift.mpr
    (readFileText_faulty (fun content hfile => ?_) fun error herror => ?_))
  · refine (removeOriginal_faulty _ _).bind ?_ ?_
    · rintro ⟨⟩ _ _ ⟨rfl, rfl⟩
      refine hexact.push fun _ => ⟨rfl, ?_⟩
      rw [undo, update_idem, ← hfile, update_eq_self]
    · rintro error removed now ⟨hrem, hsame⟩ hstill
      have hnow : now = _ := (hsame hstill).elim id fun ⟨expected, hexp, hnow⟩ => by
        cases hexp
        rw [hnow, ← hfile, update_eq_self]
      exact hnow ▸ hexact.weaken hrem hstill
  · -- the content is not known, and the record is inexact from here on
    refine ensures_bind.mpr ((ensures_modify _).mpr ?_)
    refine (removeOriginal_faulty _ _).bind ?_ ?_
    · rintro ⟨⟩ _ _ ⟨rfl, -⟩
      exact .of_inexact rfl
    · rintro error removed now ⟨hrem, -⟩ hstill
      cases hrem.exact hstill

/-- A move to another path. -/
theorem applyMove_faulty {dest : U} {applied : AppliedPatch} (hne : dest ≠ path)
    (hfile : files path = some applied.originalContents) (h : Exact start delta files) :
    Recorded.Ensures Faulty (fun _ => Exact start) (applyMove path dest applied opts)
      delta files := by
  refine readOptionalFileTextForDelta_faulty.bind ?_ (by rintro _ _ _ ⟨-, -, _, ⟨⟩, -⟩)
  rintro overwritten _ files ⟨rfl, hnoted, _, ⟨⟩, hread⟩
  refine ensures_bind.mpr (ensures_lift.mpr
    ((writeFileWithMissingParentRetry_faulty applied.newContents).mono fun result now hres => ?_))
  refine (tryWrite_faulty hres).bind ?_ fun _ _ _ hinexact => .of_inexact hinexact
  rintro _ noted _ ⟨rfl, rfl⟩
  have hexact := h.weaken hnoted
  refine ensures_bind.mpr (ensures_get.mpr ?_)
  refine ensures_bind.mpr ((ensures_modify _).mpr ?_)
  have hpushed : Exact start { noted with
      changes := noted.changes ++ [⟨dest, .add applied.newContents overwritten⟩] }
      (update files dest (some applied.newContents)) :=
    hexact.push fun hstill => ⟨rfl, by
      rw [undo, update_idem, ← hread hstill, update_eq_self]⟩
  have hsrc : update files dest (some applied.newContents) path =
      some applied.originalContents := by rw [Function.update_of_ne hne.symm, hfile]
  refine (removeOriginal_faulty _ _).bind ?_ ?_
  · rintro ⟨⟩ _ _ ⟨rfl, rfl⟩
    refine (ensures_modify _).mpr ?_
    have hset : ∀ first second : AppliedPatchChange U,
        (noted.changes ++ [first]).set noted.changes.length second = noted.changes ++ [second] := by
      simp
    rw [hset]
    refine hexact.push fun hstill => ⟨rfl, ?_⟩
    rw [undo, update_idem, ← hsrc, update_eq_self, update_idem, ← hread hstill, update_eq_self]
  · rintro error removed now ⟨hrem, hsame⟩ hstill
    have hnow : now = update files dest (some applied.newContents) :=
      (hsame hstill).elim id fun ⟨expected, hexp, hnow⟩ => by
        cases hexp
        rw [hnow, ← hsrc, update_eq_self]
    exact hnow ▸ hpushed.weaken hrem hstill

theorem applyUpdateFile_faulty {cwd : U} {movePath : Option (List Char)}
    (chunks : List UpdateFileChunk)
    (hmove : ∀ dest, movePath = some dest → PathUri.join cwd dest ≠ .ok path)
    (h : Exact start delta files) :
    Recorded.Ensures Faulty (fun _ => Exact start) (applyUpdateFile cwd path movePath chunks opts)
      delta files := by
  refine noteExistingPathDeltaSupport_faulty.bind ?_ (by rintro _ _ _ ⟨⟨⟩, -⟩)
  rintro _ noted _ ⟨-, rfl, hnoted⟩
  have hexact := h.weaken hnoted
  refine ensures_bind.mpr (ensures_lift.mpr
    ((deriveNewContentsFromChunks_faulty chunks opts.updateFileMode).mono ?_))
  rintro derived _ ⟨rfl, hderived⟩
  refine ensures_bind.mpr ((ensures_ofExcept _).mpr ?_)
  cases derived with
  | error error => exact hexact
  | ok applied =>
    have hfile := hderived applied rfl
    cases movePath with
    | none =>
      refine ensures_bind.mpr (ensures_lift.mpr
        (writeFile_faulty ?_ fun error content => .of_inexact rfl))
      refine hexact.push fun _ => ⟨rfl, ?_⟩
      rw [undo, update_idem, ← hfile, update_eq_self]
    | some dest =>
      refine ensures_bind.mpr ((ensures_ofExcept _).mpr ?_)
      cases hdest : PathUri.join cwd dest with
      | error error => exact hexact
      | ok destUri =>
        have hne : destUri ≠ path := fun heq => hmove dest rfl (heq ▸ hdest)
        exact applyMove_faulty hne hfile hexact

end Steps

/-! ## A whole patch -/

variable [PathUri U] {cwd : U}

/-- No hunk moves a file to its own path. -/
def NoSelfMove (cwd : U) (hunks : List Hunk) : Prop :=
  ∀ name dest chunks, .updateFile name (some dest) chunks ∈ hunks →
    ∀ path, PathUri.join cwd name = .ok path → PathUri.join cwd dest ≠ .ok path

/-- **A hunk** keeps the record exact, or says that it is not. -/
theorem applyHunk_faulty {hunk : Hunk} (affected : AffectedPaths) (hmoves : NoSelfMove cwd [hunk])
    (h : Exact start delta files) :
    Recorded.Ensures Faulty (fun _ => Exact start) (applyHunk opts cwd affected hunk)
      delta files := by
  refine ensures_bind.mpr ((ensures_ofExcept _).mpr ?_)
  cases hpath : hunk.resolvePath cwd with
  | error error => exact h
  | ok path =>
    cases hunk with
    | addFile name contents =>
      exact (applyAddFile_faulty contents h).bind (fun _ _ _ hexact => hexact) fun _ _ _ => id
    | deleteFile name =>
      exact (applyDeleteFile_faulty h).bind (fun _ _ _ hexact => hexact) fun _ _ _ => id
    | updateFile name movePath chunks =>
      have hmove : ∀ dest, movePath = some dest → PathUri.join cwd dest ≠ .ok path :=
        fun dest hdest => hmoves name dest chunks (by simp [hdest]) path hpath
      exact (applyUpdateFile_faulty chunks hmove h).bind (fun _ _ _ hexact => hexact)
        fun _ _ _ => id

/-- **A run over hunks** does too, wherever it ends. -/
theorem applyHunksToFiles_faulty {hunks : List Hunk} (hmoves : NoSelfMove cwd hunks)
    (h : Exact start delta files) :
    Recorded.Ensures Faulty (fun _ => Exact start) (applyHunksToFiles hunks opts cwd)
      delta files := by
  unfold applyHunksToFiles
  split
  · exact h
  · refine Recorded.Ensures.foldlM (fun affected hunk hhunk delta files hexact => ?_) _ h
    refine applyHunk_faulty affected (fun name dest chunks hmem => ?_) hexact
    exact hmoves name dest chunks (List.mem_singleton.mp hmem ▸ hhunk)

omit [PathUri U] in
theorem printLines_faulty (stream : Stream) (lines : List String) :
    (printLines stream lines).Ensures Faulty (fun _ now => now = files) files := by
  induction lines with
  | nil => rfl
  | cons line lines ih =>
    refine ensures_bind.mpr (print_faulty fun answer => ?_)
    cases answer with
    | error error => rfl
    | ok => exact ih

/-- The record that is returned, on success or with the failure. -/
def returnedDelta : Except (ApplyPatchFailure U) (AppliedPatchDelta U) → AppliedPatchDelta U
  | .ok delta => delta
  | .error failure => failure.delta

omit [PathUri U] in
/-- Messages change neither the files nor the record. -/
theorem reportOutcome_faulty (outcome : Except ApplicationError AffectedPaths) :
    (reportOutcome outcome delta).Ensures Faulty
      (fun result now => now = files ∧ returnedDelta result = delta) files := by
  cases outcome with
  | ok affected =>
    refine ensures_bind.mpr ((printLines_faulty _ _).mono ?_)
    rintro (error | ⟨⟩) _ rfl <;> exact ⟨rfl, rfl⟩
  | error error =>
    refine ensures_bind.mpr (print_faulty fun answer => ?_)
    cases answer with
    | error error => exact ⟨rfl, rfl⟩
    | ok =>
      dsimp only
      split <;> exact ⟨rfl, rfl⟩

/-- **An exact record is faithful.**  However requests fail, if no file is moved to its own
path and the record says that it is exact, the files are what the record leads to, and taking
it back leads to the files as they were. -/
theorem applyHunks_exact {hunks : List Hunk} {after : Files U}
    {result : Except (ApplyPatchFailure U) (AppliedPatchDelta U)} (hmoves : NoSelfMove cwd hunks)
    (hrun : Program.Runs Faulty (applyHunks hunks cwd) files result after)
    (hexact : (returnedDelta result).exact = true) :
    Journal.replay AppliedPatchChange.redo files (returnedDelta result).changes = after ∧
      Journal.revert AppliedPatchChange.undo after (returnedDelta result).changes = files := by
  have hensures : (applyHunks hunks cwd).Ensures Faulty
      (fun result now => Exact files (returnedDelta result) now) files := by
    have happly : Recorded.Ensures Faulty (fun _ => Exact files) (applyHunksToFiles hunks {} cwd) {}
        files := applyHunksToFiles_faulty hmoves fun _ => .nil files
    refine Program.ensures_bind.mpr (Program.Ensures.mono happly ?_)
    rintro ⟨outcome, delta⟩ now hnow
    refine (reportOutcome_faulty outcome).mono ?_
    rintro result _ ⟨rfl, rfl⟩
    exact hnow
  obtain ⟨hreplayed, hreverted⟩ := hensures.of_runs hrun hexact
  exact ⟨hreplayed, hreverted⟩

/-- A file system where removals fail and leave a given content. -/
def stuck (content : List Char) (files : Files U) :
    (request : FsRequest U) → request.Answer × Files U
  | .remove path .. => (.error ⟨.other, "Device or resource busy (os error 16)"⟩,
      Function.update files path (some content))
  | request => ideal files request

omit [PathUri U] in
theorem faulty_stuck (content : List Char) (files : Files U) (req : FsRequest U) :
    Faulty files req (stuck content files req).1 (stuck content files req).2 := by
  cases req with
  | remove path recursive force follow => exact ⟨some content, rfl⟩
  | getMetadata path follow => exact faulty_ideal files (.getMetadata path follow)
  | readFileText path follow => exact faulty_ideal files (.readFileText path follow)
  | writeFile path contents follow => rfl
  | createDirectory path recursive follow => rfl
  | print stream line => rfl

/-- A new file `c`, the file `a` changed and moved to `b`, and `c` deleted again. -/
def sampleHunks : List Hunk := [.addFile ['c'] "n\n".toList, moveHunk "b", .deleteFile ['c']]

/-- The record is faithful where all requests succeed, and where the removal of the moved file
fails without a side effect. -/
theorem applyHunks_exact_move :
    (let outcome := (applyHunks sampleHunks ⟨[]⟩).eval ideal singleFile;
      outcome.1.isOk = true ∧
      Journal.replay AppliedPatchChange.redo singleFile (returnedDelta outcome.1).changes =
        outcome.2 ∧
      Journal.revert AppliedPatchChange.undo outcome.2 (returnedDelta outcome.1).changes =
        singleFile) ∧
    (let outcome := (applyHunks sampleHunks ⟨[]⟩).eval (stuck "x\n".toList) singleFile;
      outcome.1.isOk = false ∧
      Journal.replay AppliedPatchChange.redo singleFile (returnedDelta outcome.1).changes =
        outcome.2 ∧
      Journal.revert AppliedPatchChange.undo outcome.2 (returnedDelta outcome.1).changes =
        singleFile) := by
  have hmoves : NoSelfMove (⟨[]⟩ : PosixPath) sampleHunks := by
    intro name dest chunks hmem path hpath
    simp only [sampleHunks, moveHunk, List.mem_cons, reduceCtorEq, List.not_mem_nil, or_false,
      false_or] at hmem
    cases hmem
    cases hpath
    decide
  refine ⟨⟨by decide +kernel, ?_⟩, by decide +kernel, ?_⟩
  · exact applyHunks_exact hmoves (Program.runs_eval faulty_ideal _ _) (by decide +kernel)
  · exact applyHunks_exact hmoves (Program.runs_eval (faulty_stuck "x\n".toList) _ _)
      (by decide +kernel)

/-- An exact record is **not** faithful for a file that is moved to its own path: whether a
failed removal has left the file alone is decided by its content before it was written. -/
theorem applyHunks_selfMove :
    ∃ result after, Program.Runs Faulty (applyHunks [moveHunk "a"] (⟨[]⟩ : PosixPath)) singleFile
        result after ∧ (returnedDelta result).exact = true ∧
      Journal.replay AppliedPatchChange.redo singleFile (returnedDelta result).changes ≠ after := by
  refine ⟨_, _, Program.runs_eval (faulty_stuck "x\n".toList) _ _, by decide +kernel, fun heq => ?_⟩
  exact absurd (congrFun heq ⟨[['a']]⟩) (by decide +kernel)

end RenCrow.ApplyPatch
