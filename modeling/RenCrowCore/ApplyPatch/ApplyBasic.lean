import RenCrowCore.ApplyPatch.FileUpdate
import RenCrowCore.Lib.Interaction
import RenCrowCore.Utils.PathUri

/-!
# Verifying and applying a patch

The two uses of a parsed patch: it is verified, and the changes it would make are shown for
approval (`apply-patch/src/invocation.rs`); and it is applied to the files
(`apply-patch/src/lib.rs`).  Both are programs that ask a file system.

* `FsRequest`: what is asked of the file system;
* `tryVerifyApplyPatchArgs`: the changes of a patch, hunk by hunk, against the files as they
  are;
* `applyHunksToFiles`: the hunks one after another, with a record of what was done;
* `applyHunks`, `applyPatchWithOptions`: with the messages around it.
-/

namespace RenCrow.ApplyPatch

open Interaction

/-! ## Errors -/

/-- The kinds of `std::io::ErrorKind` that the code tells apart. -/
inductive ErrorKind where
  | notFound
  | invalidInput
  | other
deriving DecidableEq, Repr

/-- An error of the file system. -/
structure SystemError where
  kind : ErrorKind
  message : String
deriving DecidableEq, Repr

/-- A system error with what was being done. -/
structure IoError where
  context : String
  source : SystemError
deriving DecidableEq, Repr

/-- The errors of a verification and of an application. -/
inductive ApplyPatchError where
  | parseError (error : ParseError)
  | ioError (error : IoError)
  | computeReplacements (message : String)
  | pathUri (error : PathUriParseError)
deriving DecidableEq, Repr

/-- The text that a parse error is shown as. -/
def ParseError.text : ParseError → String
  | invalidPatch message => "invalid patch: " ++ message
  | invalidHunk message lineNumber => "invalid hunk at line " ++ toString lineNumber ++
      ", " ++ message

/-- The text that an error is shown as. -/
def ApplyPatchError.text : ApplyPatchError → String
  | parseError error => error.text
  | ioError error => error.context ++ ": " ++ error.source.message
  | computeReplacements message => message
  | pathUri error => error.message

/-- The errors of an application, perhaps with a context around them. -/
inductive ApplicationError where
  | message (text : String)
  | patch (error : ApplyPatchError)
  | pathUri (error : PathUriParseError)
  | system (error : SystemError)
  | context (text : String) (source : ApplicationError)
deriving Repr

namespace ApplicationError

/-- The outermost text. -/
def text : ApplicationError → String
  | message text => text
  | patch error => error.text
  | pathUri error => error.message
  | system error => error.message
  | context text _ => text

/-- `downcast_ref::<std::io::Error>`. -/
def systemError? : ApplicationError → Option SystemError
  | system error => some error
  | context _ source => source.systemError?
  | _ => none

end ApplicationError

/-! ## The file system -/

/-- What the file system says about a path. -/
structure FileMetadata where
  isDirectory : Bool
  isFile : Bool
  isSymlink : Bool
deriving DecidableEq, Repr

/-- The streams that the outcome is printed to. -/
inductive Stream where
  | stdout
  | stderr
deriving DecidableEq, Repr

/-- The calls of `ExecutorFileSystem`, and the lines printed. -/
inductive FsRequest (U : Type) where
  | getMetadata (path : U) (followSymlinks : Bool)
  | readFileText (path : U) (followSymlinks : Bool)
  | writeFile (path : U) (contents : List Char) (followSymlinks : Bool)
  | createDirectory (path : U) (recursive followSymlinks : Bool)
  | remove (path : U) (recursive force followSymlinks : Bool)
  | print (stream : Stream) (line : String)
deriving DecidableEq, Repr

/-- What the environment returns for a request. -/
abbrev FsRequest.Answer {U : Type} : FsRequest U → Type
  | getMetadata .. => Except SystemError FileMetadata
  | readFileText .. => Except SystemError (List Char)
  | writeFile .. | createDirectory .. | remove .. | print .. => Except SystemError Unit

/-- A program over a file system. -/
abbrev FsM (U : Type) : Type → Type := Program (FsRequest U) FsRequest.Answer

section Requests

variable {U : Type}

/-- The metadata of a path. -/
def getMetadata (path : U) (followSymlinks : Bool) : FsM U (Except SystemError FileMetadata) :=
  Program.perform (FsRequest.getMetadata path followSymlinks)

/-- The text of a file. -/
def readFileText (path : U) (followSymlinks : Bool) : FsM U (Except SystemError (List Char)) :=
  Program.perform (FsRequest.readFileText path followSymlinks)

/-- Replaces the contents of a file. -/
def writeFile (path : U) (contents : List Char) (followSymlinks : Bool) :
    FsM U (Except SystemError Unit) :=
  Program.perform (FsRequest.writeFile path contents followSymlinks)

/-- Creates a directory, with its parents where asked. -/
def createDirectory (path : U) (recursive followSymlinks : Bool) :
    FsM U (Except SystemError Unit) :=
  Program.perform (FsRequest.createDirectory path recursive followSymlinks)

/-- Removes a file or a directory. -/
def remove (path : U) (recursive force followSymlinks : Bool) : FsM U (Except SystemError Unit) :=
  Program.perform (FsRequest.remove path recursive force followSymlinks)

/-- Writes a line to a stream. -/
def print (stream : Stream) (line : String) : FsM U (Except SystemError Unit) :=
  Program.perform (FsRequest.print stream line)

end Requests

variable {U : Type} [PathUri U]

/-! ## New contents of a file -/

/-- The text of a file before and after its chunks are applied. -/
structure AppliedPatch where
  originalContents : List Char
  newContents : List Char
deriving DecidableEq, Repr

/-- Reads a file and applies the chunks of a hunk to it. -/
def deriveNewContentsFromChunks (path : U) (chunks : List UpdateFileChunk)
    (mode : ApplyPatchFileUpdateMode) (followSymlinks : Bool) :
    FsM U (Except ApplyPatchError AppliedPatch) := do
  let pathText := PathUri.inferredNativePathString path
  match ← readFileText path followSymlinks with
  | .error source =>
    pure (.error (.ioError ⟨"Failed to read file to update " ++ pathText, source⟩))
  | .ok originalContents =>
    match newContents originalContents pathText chunks mode with
    | .error message => pure (.error (.computeReplacements message))
    | .ok newContents => pure (.ok { originalContents, newContents })

/-- The path a hunk names, in its working directory. -/
def Hunk.resolvePath (cwd : U) : Hunk → Except PathUriParseError U
  | addFile path _ | deleteFile path | updateFile path _ _ => PathUri.join cwd path

/-! ## Verification -/

/-- What a verified patch does to one file. -/
inductive ApplyPatchFileChange (U : Type) where
  | add (content : List Char)
  | delete (content : List Char)
  | update (movePath : Option U) (newContent : List Char)
deriving DecidableEq, Repr

/-- The paths that a change is about. -/
def ApplyPatchFileChange.paths (path : U) : ApplyPatchFileChange U → List U
  | add _ | delete _ | update none _ => [path]
  | update (some movePath) _ => [movePath, path]

/-- A patch that was verified, as it is shown for approval. -/
structure ApplyPatchAction (U : Type) where
  changes : List (U × ApplyPatchFileChange U)
  updateFileMode : ApplyPatchFileUpdateMode
  patch : List Char
  cwd : U
deriving DecidableEq, Repr

/-- The changes are kept by path, in the order of the hunks. -/
abbrev VerifyM (U : Type) : Type → Type :=
  Recorded (FsRequest U) FsRequest.Answer (List (U × ApplyPatchFileChange U)) ApplyPatchError

/-- The change of a hunk, from the files it reads. -/
def verifiedChange (effectiveCwd path : U) (mode : ApplyPatchFileUpdateMode) :
    Hunk → VerifyM U (ApplyPatchFileChange U)
  | .addFile _ contents => pure (.add contents)
  | .deleteFile _ => do
    match ← readFileText path true with
    | .ok content => pure (.delete content)
    | .error source =>
      throw (.ioError ⟨"Failed to read " ++ PathUri.inferredNativePathString path, source⟩)
  | .updateFile _ movePath chunks => do
    let applied ← Recorded.ofExcept (← deriveNewContentsFromChunks path chunks mode true)
    let movePath ← Recorded.ofExcept
      ((movePath.mapM (PathUri.join effectiveCwd)).mapError .pathUri)
    pure (.update movePath applied.newContents)

variable [DecidableEq U]

/-- Adds the change of one hunk; no two hunks may have one target. -/
def verifyHunk (effectiveCwd : U) (mode : ApplyPatchFileUpdateMode) (hunk : Hunk) :
    VerifyM U Unit := do
  let path ← Recorded.ofExcept ((hunk.resolvePath effectiveCwd).mapError .pathUri)
  if (← get).any fun change => change.1 = path then
    throw (.parseError (.invalidPatch
      ("multiple operations target " ++ PathUri.inferredNativePathString path)))
  else do
    let change ← verifiedChange effectiveCwd path mode hunk
    modify (· ++ [(path, change)])

/-- `try_verify_apply_patch_args`. -/
def tryVerifyApplyPatchArgs (args : ApplyPatchArgs) (cwd : U) (mode : ApplyPatchFileUpdateMode) :
    FsM U (Except ApplyPatchError (ApplyPatchAction U)) :=
  match args.workdir.mapM (PathUri.join cwd) with
  | .error error => pure (.error (.pathUri error))
  | .ok dir => do
    let effectiveCwd := dir.getD cwd
    let outcome ← Recorded.start (args.hunks.forM (verifyHunk effectiveCwd mode)) []
    pure (outcome.1.map fun _ =>
      { changes := outcome.2, updateFileMode := mode, patch := args.patch, cwd := effectiveCwd })

/-! ## The record of an application -/

/-- What was done to one file, with the contents that were lost. -/
inductive AppliedPatchFileChange (U : Type) where
  | add (content : List Char) (overwrittenContent : Option (List Char))
  | delete (content : List Char)
  | update (movePath : Option U) (oldContent : List Char)
      (overwrittenMoveContent : Option (List Char))
      (newContent : List Char)
deriving DecidableEq, Repr

/-- A change and the file it was made to. -/
structure AppliedPatchChange (U : Type) where
  path : U
  change : AppliedPatchFileChange U
deriving DecidableEq, Repr

/-- The record of an application: its changes, and whether they are all there is. -/
structure AppliedPatchDelta (U : Type) where
  changes : List (AppliedPatchChange U) := []
  exact : Bool := true
deriving DecidableEq, Repr

/-- How files are updated, and whether links are followed. -/
structure ApplyPatchOptions where
  updateFileMode : ApplyPatchFileUpdateMode := .normalizeToLf
  followSymlinks : Bool := true
deriving DecidableEq, Repr

/-- The paths of the summary, spelled as in the patch. -/
structure AffectedPaths where
  added : List (List Char) := []
  modified : List (List Char) := []
  deleted : List (List Char) := []
deriving DecidableEq, Repr

/-- An application: it can fail, and keeps its record either way. -/
abbrev ApplyM (U : Type) : Type → Type :=
  Recorded (FsRequest U) FsRequest.Answer (AppliedPatchDelta U) ApplicationError

section Application

omit [PathUri U] [DecidableEq U]

/-- The record is no longer exact. -/
def noteInexact : ApplyM U Unit := modify fun delta => { delta with exact := false }

/-- Adds a change to the record. -/
def pushChange (path : U) (change : AppliedPatchFileChange U) : ApplyM U Unit :=
  modify fun delta => { delta with changes := delta.changes ++ [⟨path, change⟩] }

/-- Only regular files that are no symlinks are recorded exactly. -/
def noteExistingPathDeltaSupport (path : U) (followSymlinks : Bool) : ApplyM U Unit := do
  match ← getMetadata path followSymlinks with
  | .ok metadata => if metadata.isFile && !metadata.isSymlink then pure () else noteInexact
  | .error source => if source.kind = .notFound then pure () else noteInexact

/-- The content that a write will replace, if there is one. -/
def readOptionalFileTextForDelta (path : U) (followSymlinks : Bool) :
    ApplyM U (Option (List Char)) := do
  noteExistingPathDeltaSupport path followSymlinks
  match ← readFileText path followSymlinks with
  | .ok content => pure (some content)
  | .error source =>
    if source.kind = .notFound then pure none
    else do
      noteInexact
      pure none

/-- A write that failed can have changed the file. -/
def tryWrite : Except ApplicationError Unit → ApplyM U Unit
  | .ok () => pure ()
  | .error error => do
    noteInexact
    throw error

/-- Refuses a path that is a directory. -/
def ensureNotDirectory (path : U) (followSymlinks : Bool) : FsM U (Except SystemError Unit) := do
  match ← getMetadata path followSymlinks with
  | .error error => pure (.error error)
  | .ok metadata =>
    if metadata.isDirectory then pure (.error ⟨.invalidInput, "path is a directory"⟩)
    else pure (.ok ())

/-- The file that could not be removed is still the same. -/
def removeFailureWasSideEffectFree (path : U) (expectedContent : Option (List Char))
    (followSymlinks : Bool) : FsM U Bool := do
  match expectedContent with
  | none => pure false
  | some expectedContent =>
    match ← readFileText path followSymlinks with
    | .ok content => pure (decide (content = expectedContent))
    | .error _ => pure false

end Application

/-- `with_context`. -/
def withContext (text : String) (result : Except SystemError Unit) :
    Except ApplicationError Unit :=
  result.mapError fun error => .context text (.system error)

omit [DecidableEq U]

/-- Writes a file; where its directory is missing, creates it and writes again. -/
def writeFileWithMissingParentRetry (path : U) (contents : List Char) (followSymlinks : Bool) :
    FsM U (Except ApplicationError Unit) := do
  let pathText := PathUri.inferredNativePathString path
  match ← writeFile path contents followSymlinks with
  | .ok () => pure (.ok ())
  | .error err =>
    if err.kind = .notFound then do
      let created ← match PathUri.parent path with
        | some parent => createDirectory parent true followSymlinks
        | none => pure (.ok ())
      match withContext ("Failed to create parent directories for " ++ pathText) created with
      | .error error => pure (.error error)
      | .ok () =>
        let written ← writeFile path contents followSymlinks
        pure (withContext ("Failed to write file " ++ pathText) written)
    else pure (withContext ("Failed to write file " ++ pathText) (.error err))

/-- A file is removed, unless it is a directory; if that fails, the record stays exact only
if the file is still there with the expected content. -/
def removeOriginal (path : U) (text : String) (expectedContent : Option (List Char))
    (followSymlinks : Bool) : ApplyM U Unit := do
  Recorded.ofExcept (withContext text (← ensureNotDirectory path followSymlinks))
  match withContext text (← remove path false false followSymlinks) with
  | .ok () => pure ()
  | .error error => do
    let unchanged ← removeFailureWasSideEffectFree path expectedContent followSymlinks
    modify fun delta => { delta with exact := delta.exact && unchanged }
    throw error

/-- `Hunk::AddFile`. -/
def applyAddFile (path : U) (contents : List Char) (options : ApplyPatchOptions) :
    ApplyM U Unit := do
  let overwrittenContent ← readOptionalFileTextForDelta path options.followSymlinks
  tryWrite (← writeFileWithMissingParentRetry path contents options.followSymlinks)
  pushChange path (.add contents overwrittenContent)

/-- `Hunk::DeleteFile`. -/
def applyDeleteFile (path : U) (options : ApplyPatchOptions) : ApplyM U Unit := do
  noteExistingPathDeltaSupport path options.followSymlinks
  let deletedContent := (← readFileText path options.followSymlinks).toOption
  if deletedContent.isNone then noteInexact
  removeOriginal path ("Failed to delete file " ++ PathUri.inferredNativePathString path)
    deletedContent options.followSymlinks
  match deletedContent with
  | some content => pushChange path (.delete content)
  | none => pure ()

/-- A file with new contents is moved: the destination is written first, and the record says
so until the source is removed. -/
def applyMove (path destUri : U) (applied : AppliedPatch) (options : ApplyPatchOptions) :
    ApplyM U Unit := do
  let overwrittenMoveContent ← readOptionalFileTextForDelta destUri options.followSymlinks
  tryWrite (← writeFileWithMissingParentRetry destUri applied.newContents options.followSymlinks)
  let destWriteChangeIndex := (← get).changes.length
  pushChange destUri (.add applied.newContents overwrittenMoveContent)
  removeOriginal path ("Failed to remove original " ++ PathUri.inferredNativePathString path)
    (some applied.originalContents) options.followSymlinks
  modify fun delta => { delta with
    changes := delta.changes.set destWriteChangeIndex
      ⟨path, .update (some destUri) applied.originalContents overwrittenMoveContent
        applied.newContents⟩ }

/-- `Hunk::UpdateFile`, with or without a move. -/
def applyUpdateFile (cwd path : U) (movePath : Option (List Char)) (chunks : List UpdateFileChunk)
    (options : ApplyPatchOptions) : ApplyM U Unit := do
  noteExistingPathDeltaSupport path options.followSymlinks
  let applied ← Recorded.ofExcept ((← deriveNewContentsFromChunks path chunks
    options.updateFileMode options.followSymlinks).mapError .patch)
  match movePath with
  | some dest =>
    let destUri ← Recorded.ofExcept ((PathUri.join cwd dest).mapError .pathUri)
    applyMove path destUri applied options
  | none =>
    tryWrite (withContext ("Failed to write file " ++ PathUri.inferredNativePathString path)
      (← writeFile path applied.newContents options.followSymlinks))
    pushChange path (.update none applied.originalContents none applied.newContents)

/-- Applies one hunk and notes the path it affects. -/
def applyHunk (options : ApplyPatchOptions) (cwd : U) (affected : AffectedPaths) (hunk : Hunk) :
    ApplyM U AffectedPaths := do
  let path ← Recorded.ofExcept ((hunk.resolvePath cwd).mapError .pathUri)
  match hunk with
  | .addFile name contents =>
    applyAddFile path contents options
    pure { affected with added := affected.added ++ [name] }
  | .deleteFile name =>
    applyDeleteFile path options
    pure { affected with deleted := affected.deleted ++ [name] }
  | .updateFile name movePath chunks =>
    applyUpdateFile cwd path movePath chunks options
    pure { affected with modified := affected.modified ++ [movePath.getD name] }

/-- `apply_hunks_to_files`. -/
def applyHunksToFiles (hunks : List Hunk) (options : ApplyPatchOptions) (cwd : U) :
    ApplyM U AffectedPaths :=
  if hunks.isEmpty then throw (.message "No files were modified.")
  else hunks.foldlM (applyHunk options cwd) {}

/-! ## With messages -/

/-- An error with what had been done before it. -/
structure ApplyPatchFailure (U : Type) where
  error : ApplyPatchError
  delta : AppliedPatchDelta U
deriving DecidableEq, Repr

/-- An error of a stream. -/
def streamError (error : SystemError) : ApplyPatchError := .ioError ⟨"I/O error", error⟩

section Messages

omit [PathUri U]

/-- Lines are printed until one fails. -/
def printLines (stream : Stream) : List String → FsM U (Except SystemError Unit)
  | [] => pure (.ok ())
  | line :: lines => do
    match ← print stream line with
    | .ok () => printLines stream lines
    | .error error => pure (.error error)

/-- The list of affected files, in the style of `git`. -/
def printSummary (affected : AffectedPaths) : FsM U (Except SystemError Unit) :=
  printLines .stdout ("Success. Updated the following files:" ::
    affected.added.map (fun path => "A " ++ String.ofList path) ++
    affected.modified.map (fun path => "M " ++ String.ofList path) ++
    affected.deleted.map (fun path => "D " ++ String.ofList path))

/-- The outcome is printed, and returned with the record. -/
def reportOutcome (outcome : Except ApplicationError AffectedPaths) (delta : AppliedPatchDelta U) :
    FsM U (Except (ApplyPatchFailure U) (AppliedPatchDelta U)) := do
  match outcome with
  | .ok affected =>
    match ← printSummary affected with
    | .ok () => pure (.ok delta)
    | .error error => pure (.error ⟨streamError error, delta⟩)
  | .error error =>
    match ← print .stderr error.text with
    | .error error => pure (.error ⟨streamError error, delta⟩)
    | .ok () =>
      match error.systemError? with
      | some system => pure (.error ⟨streamError system, delta⟩)
      | none => pure (.error ⟨.ioError ⟨error.text, ⟨.other, error.text⟩⟩, delta⟩)

end Messages

/-- `apply_hunks_with_options`. -/
def applyHunksWithOptions (hunks : List Hunk) (options : ApplyPatchOptions) (cwd : U) :
    FsM U (Except (ApplyPatchFailure U) (AppliedPatchDelta U)) := do
  let (outcome, delta) ← Recorded.start (applyHunksToFiles hunks options cwd) {}
  reportOutcome outcome delta

/-- `apply_hunks`. -/
def applyHunks (hunks : List Hunk) (cwd : U) :
    FsM U (Except (ApplyPatchFailure U) (AppliedPatchDelta U)) :=
  applyHunksWithOptions hunks {} cwd

/-- The line for a patch that cannot be parsed. -/
def parseErrorLine : ParseError → String
  | .invalidPatch message => "Invalid patch: " ++ message
  | .invalidHunk message lineNumber =>
    "Invalid patch hunk on line " ++ toString lineNumber ++ ": " ++ message

/-- `apply_patch_with_options`. -/
def applyPatchWithOptions (patch : List Char) (options : ApplyPatchOptions) (cwd : U) :
    FsM U (Except (ApplyPatchFailure U) (AppliedPatchDelta U)) :=
  match parsePatch patch with
  | .ok source => applyHunksWithOptions source.hunks options cwd
  | .error error => do
    match ← print .stderr (parseErrorLine error) with
    | .error error => pure (.error ⟨streamError error, {}⟩)
    | .ok () => pure (.error ⟨.parseError error, {}⟩)

end RenCrow.ApplyPatch
