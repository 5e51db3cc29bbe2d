import RenCrowCore.ApplyPatch.Confined
import RenCrowCore.ApplyPatch.Ideal
import RenCrowCore.Protocol.Permissions

/-!
# Patches that need no approval

Whether a verified patch is applied without asking (`core/src/safety.rs`), and what applying
it can do then.

* `assessPatchSafety`: the decision, from the changes that verification found;
* `autoApproved_canWritePath`: a patch that is approved automatically changes only paths that
  the policy lets it write, whatever the file system answers.
-/

namespace RenCrow.Safety

open ApplyPatch Interaction Permissions

/-! ## The decision -/

/-- What is done with a patch. -/
inductive SafetyCheck where
  | autoApprove
  | askUser
  | reject (reason : String)
deriving DecidableEq, Repr

/-- How commands are confined on Windows. -/
inductive WindowsSandboxLevel where
  | disabled
  | restrictedToken
  | elevated
deriving DecidableEq, Repr

/-- What confines the application of a patch. -/
inductive PatchSandboxRoute where
  | executorManaged
  | platform (windowsSandboxLevel : WindowsSandboxLevel)
deriving DecidableEq, Repr

/-- Which prompts are shown. -/
structure GranularApprovalConfig where
  sandboxApproval : Bool
  /-- Prompts of execution rules are shown. -/
  rules : Bool
deriving DecidableEq, Repr

/-- When the user is asked. -/
inductive AskForApproval where
  | unlessTrusted
  | onRequest
  | granular (config : GranularApprovalConfig)
  | never
deriving DecidableEq, Repr

/-- Who restricts the file system. -/
inductive PermissionProfile where
  | managed
  | disabled
  | external
deriving DecidableEq, Repr

/-- The platforms that the code tells apart. -/
inductive TargetOs where
  | macos
  | linux
  | windows
  | other
deriving DecidableEq, Repr

/-- The sandboxes of the platforms. -/
inductive SandboxType where
  | macosSeatbelt
  | linuxSeccomp
  | windowsRestrictedToken
deriving DecidableEq, Repr

/-- The sandbox of a platform, if it has one. -/
def getPlatformSandbox (targetOs : TargetOs) (windowsSandboxEnabled : Bool) : Option SandboxType :=
  match targetOs with
  | .macos => some .macosSeatbelt
  | .linux => some .linuxSeccomp
  | .windows => if windowsSandboxEnabled then some .windowsRestrictedToken else none
  | .other => none

/-- A request for an approval would be rejected. -/
def AskForApproval.rejectsSandboxApproval : AskForApproval → Bool
  | never => true
  | granular config => !config.sandboxApproval
  | unlessTrusted | onRequest => false

/-- The application of a patch can be confined. -/
def PatchSandboxRoute.sandboxAvailable (targetOs : TargetOs) : PatchSandboxRoute → Bool
  | executorManaged => true
  | platform level => (getPlatformSandbox targetOs (level ≠ .disabled)).isSome

/-- `PATCH_REJECTED_OUTSIDE_PROJECT_REASON`. -/
def patchRejectedOutsideProjectReason : String :=
  "writing outside of the project; rejected by user approval settings"

/-- `PATCH_REJECTED_READ_ONLY_REASON`. -/
def patchRejectedReadOnlyReason : String :=
  "writing is blocked by read-only sandbox; rejected by user approval settings"

variable {U : Type} [LexicalPath U] [DecidableEq U]

/-- Why a patch is rejected. -/
def patchRejectionReason (permissionProfile : PermissionProfile)
    (fileSystemSandboxPolicy : FileSystemSandboxPolicy U)
    (context : FileSystemSandboxPolicyContext U) :
    String :=
  let hasNoWritableRoots := !fileSystemSandboxPolicy.hasConfiguredWritableRoots context
  match permissionProfile with
  | .managed =>
    if !fileSystemSandboxPolicy.hasFullDiskWriteAccessWithContext context && hasNoWritableRoots then
      patchRejectedReadOnlyReason
    else patchRejectedOutsideProjectReason
  | .disabled | .external => patchRejectedOutsideProjectReason

/-- The paths of a change are all writable. -/
def isChangeWritable (isPathWritable : U → Bool) (path : U) : ApplyPatchFileChange U → Bool
  | .add _ | .delete _ => isPathWritable path
  | .update movePath _ =>
    if isPathWritable path then
      match movePath with
      | some dest => isPathWritable dest
      | none => true
    else false

/-- Every change of a patch is to paths that may be written. -/
def isWritePatchConstrainedToWritablePaths (action : ApplyPatchAction U)
    (fileSystemSandboxPolicy : FileSystemSandboxPolicy U)
    (context : FileSystemSandboxPolicyContext U) :
    Bool :=
  if fileSystemSandboxPolicy.hasFullDiskWriteAccessWithContext context then true
  else action.changes.all fun entry =>
    isChangeWritable (fun path => fileSystemSandboxPolicy.canWritePath path context) entry.1 entry.2

/-- `assess_patch_safety`. -/
def assessPatchSafety (targetOs : TargetOs) (action : ApplyPatchAction U) (policy : AskForApproval)
    (permissionProfile : PermissionProfile) (fileSystemSandboxPolicy : FileSystemSandboxPolicy U)
    (context : FileSystemSandboxPolicyContext U) (sandboxRoute : PatchSandboxRoute) : SafetyCheck :=
  if action.changes.isEmpty then .reject "empty patch"
  else if policy = .unlessTrusted then .askUser
  else if isWritePatchConstrainedToWritablePaths action fileSystemSandboxPolicy context &&
      (permissionProfile = .disabled || permissionProfile = .external ||
        sandboxRoute.sandboxAvailable targetOs) then
    .autoApprove
  else if policy.rejectsSandboxApproval then
    .reject (patchRejectionReason permissionProfile fileSystemSandboxPolicy context)
  else .askUser

/-- What is approved automatically was checked. -/
theorem constrained_of_autoApprove {targetOs : TargetOs} {action : ApplyPatchAction U}
    {policy : AskForApproval} {permissionProfile : PermissionProfile}
    {sandbox : FileSystemSandboxPolicy U} {ctx : FileSystemSandboxPolicyContext U}
    {sandboxRoute : PatchSandboxRoute}
    (h : assessPatchSafety targetOs action policy permissionProfile sandbox ctx
      sandboxRoute = .autoApprove) :
    isWritePatchConstrainedToWritablePaths action sandbox ctx = true := by
  unfold assessPatchSafety at h
  split at h
  · cases h
  split at h
  · cases h
  split at h
  · rename_i hconstrained
    exact (Bool.and_eq_true_iff.mp hconstrained).1
  · split at h <;> cases h

omit [LexicalPath U] [DecidableEq U] in
theorem isChangeWritable_eq_true {isPathWritable : U → Bool} {path : U}
    {change : ApplyPatchFileChange U}
    (h : isChangeWritable isPathWritable path change = true) :
    ∀ touched ∈ change.paths path, isPathWritable touched = true := by
  cases change with
  | add content | delete content => simpa [ApplyPatchFileChange.paths, isChangeWritable] using h
  | update movePath newContent =>
    cases movePath with
    | none => simpa [ApplyPatchFileChange.paths, isChangeWritable] using h
    | some dest => simpa [ApplyPatchFileChange.paths, isChangeWritable, and_comm] using h

/-- **Patches that are approved automatically stay inside the policy.**  A patch is parsed and
verified, in any environment; it is approved automatically under a policy without write access
to the whole disk; then every path that applying it writes or removes, whatever the file system
answers, may be written. -/
theorem autoApproved_canWritePath {targetOs : TargetOs} {action : ApplyPatchAction U}
    {policy : AskForApproval} {permissionProfile : PermissionProfile}
    {fileSystemSandboxPolicy : FileSystemSandboxPolicy U}
    {context : FileSystemSandboxPolicyContext U}
    {sandboxRoute : PatchSandboxRoute} {text : List Char} {args : ApplyPatchArgs}
    {workdir : Option (List Char)} {cwd : U} {mode : ApplyPatchFileUpdateMode} {σ : Type}
    {step : σ → (request : FsRequest U) → request.Answer → σ → Prop} {state after : σ}
    (hparse : parsePatch text = .ok args)
    (hverify : Program.Runs step (tryVerifyApplyPatchArgs { args with workdir } cwd mode) state
      (.ok action) after)
    (hrestricted : fileSystemSandboxPolicy.hasFullDiskWriteAccessWithContext context = false)
    (hsafe : assessPatchSafety targetOs action policy permissionProfile
      fileSystemSandboxPolicy context
      sandboxRoute = .autoApprove) (options : ApplyPatchOptions) {request : FsRequest U}
    (hmakes : (applyPatchWithOptions action.patch options action.cwd).Makes request) {path : U}
    (hpath : request.changed = some path) :
    fileSystemSandboxPolicy.canWritePath path context = true := by
  obtain ⟨hpatch, hcovers⟩ := tryVerifyApplyPatchArgs_covers hverify
  obtain ⟨again, hagain, hreparsed⟩ := parsePatch_patch hparse
  have hsrc : parsePatch action.patch = .ok again := hpatch ▸ hagain
  rw [applyPatchWithOptions, hsrc] at hmakes
  obtain ⟨hunkAgain, hmem, htouches⟩ :=
    (applyHunksWithOptions_touches again.hunks options action.cwd).of_makes hmakes path hpath
  -- the hunk that touches the path was verified, and its change is about the path
  obtain ⟨hunk, hhunk, hsame⟩ : ∃ hunk ∈ args.hunks, Reparsed hunk hunkAgain := by
    obtain ⟨i, hi, rfl⟩ := List.getElem_of_mem hmem
    have hlt : i < args.hunks.length := hreparsed.length_eq ▸ hi
    exact ⟨args.hunks[i], List.getElem_mem hlt, hreparsed.get hlt hi⟩
  obtain ⟨entry, hentry, hpaths⟩ := hcovers hunk hhunk path (htouches.of_reparsed hsame)
  have hconstrained := constrained_of_autoApprove hsafe
  rw [isWritePatchConstrainedToWritablePaths, hrestricted] at hconstrained
  have hwritable := List.all_eq_true.mp hconstrained entry hentry
  exact isChangeWritable_eq_true hwritable path hpaths

/-- A new file `c`, and the file `a` changed and moved to `b`. -/
def addPatch : List Char :=
  ("*** Begin Patch\n*** Add File: c\n+n\n*** Update File: a\n*** Move to: b\n@@\n-x\n+y\n" ++
    "*** End Patch").toList

/-- What the parser reads in it. -/
def addArgs : ApplyPatchArgs :=
  { patch := addPatch
    hunks := [.addFile ['c'] "n\n".toList, moveHunk "b"]
    workdir := none
    environmentId := none }

/-- Everything may be read, and the workspace may be written. -/
def workspaceWrite : FileSystemSandboxPolicy PosixPath :=
  { kind := .restricted
    entries := [⟨.special .root, .read⟩, ⟨.special (.projectRoots none), .write⟩] }

/-- A workspace `/w`. -/
def workspaceContext : FileSystemSandboxPolicyContext PosixPath :=
  { cwd := ⟨[['w']]⟩, workspaceRoots := [⟨[['w']]⟩], temporaryDirectories := none }

/-- The file `a` of the workspace. -/
def workspaceFiles : Files PosixPath :=
  fun path => if path = ⟨[['w'], ['a']]⟩ then some "x\n".toList else none

/-- What the verification of the patch returns. -/
def addAction : ApplyPatchAction PosixPath :=
  { changes := [(⟨[['w'], ['c']]⟩, .add "n\n".toList),
      (⟨[['w'], ['a']]⟩, .update (some ⟨[['w'], ['b']]⟩) "y\n".toList)]
    updateFileMode := .normalizeToLf
    patch := addPatch
    cwd := workspaceContext.cwd }

/-- The patch writes two files and removes one, and all three may be written. -/
theorem autoApproved_addPatch :
    let application := applyPatchWithOptions addPatch {} workspaceContext.cwd
    (application.Makes (.writeFile ⟨[['w'], ['c']]⟩ "n\n".toList true) ∧
      workspaceWrite.canWritePath ⟨[['w'], ['c']]⟩ workspaceContext = true) ∧
    (application.Makes (.writeFile ⟨[['w'], ['b']]⟩ "y\n".toList true) ∧
      workspaceWrite.canWritePath ⟨[['w'], ['b']]⟩ workspaceContext = true) ∧
    application.Makes (.remove ⟨[['w'], ['a']]⟩ false false true) ∧
      workspaceWrite.canWritePath ⟨[['w'], ['a']]⟩ workspaceContext = true := by
  intro application
  have hparse : parsePatch addPatch = .ok addArgs := by decide +kernel
  have hresult : ((tryVerifyApplyPatchArgs addArgs workspaceContext.cwd .normalizeToLf).eval ideal
      workspaceFiles).1 = .ok addAction := by decide +kernel
  have hverify := @Program.runs_eval _ _ _ _ (fun _ _ _ _ => True) ideal (fun _ _ => trivial)
    (tryVerifyApplyPatchArgs addArgs workspaceContext.cwd .normalizeToLf) workspaceFiles
  rw [hresult] at hverify
  have hwritten : ∀ request ∈ application.asked ideal workspaceFiles, ∀ path,
      request.changed = some path →
        application.Makes request ∧ workspaceWrite.canWritePath path workspaceContext = true := by
    intro request hasked path hpath
    have hmakes := Program.makes_of_mem_asked hasked
    exact ⟨hmakes, @autoApproved_canWritePath PosixPath _ _ .linux addAction .onRequest .managed
      workspaceWrite workspaceContext .executorManaged addPatch addArgs none _ _ _
      (fun _ _ _ _ => True) _ _ hparse hverify (by decide +kernel) (by decide +kernel) {} _ hmakes
      _ hpath⟩
  exact ⟨hwritten _ (by decide +kernel) _ rfl, hwritten _ (by decide +kernel) _ rfl,
    hwritten _ (by decide +kernel) _ rfl⟩

end RenCrow.Safety
