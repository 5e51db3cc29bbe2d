import RenCrowCore.Protocol.FullDisk

/-!
# Read-only agent roles

An agent role can narrow the sandbox that it inherits to reading
(`core/src/agent/rencrow_read_only.rs`).  Entries that let a path be written let it be read
instead, and the result goes through the runtime policy back into a profile.

* `readOnlyProfile`: the narrowed profile;
* `FileSystemSandboxPolicy.readDenied`: the matcher of read denials, prepared and asked;
* `resolveAccess_narrowed`: the most specific entry lets a path be read as before;
* `readOnlyProfile_narrows`: nothing can be written, and nothing else changes.
-/

namespace RenCrow.Permissions

open FileUri FileSystemSandboxPolicy FileSystemAccessMode List

/-! ## Read denials -/

/-- Globs as the library compiles them, and the text of a rejected directory. -/
structure GlobLibrary (M : Type) where
  buildGlobMatcher : List Char → PathConvention → Except String M
  isMatch : M → List Char → Bool
  directoryError : FileUri → PathConvention → String

/-- What becomes of a pattern that cannot be compiled. -/
inductive InvalidDenyReadGlobBehavior where
  | failClosed
  | returnError
deriving DecidableEq, Repr

/-- The paths that read denials are resolved with. -/
structure ReadDenyContext extends FileSystemSandboxPolicyContext FileUri where
  userHomeDir : Option FileUri

/-- The roots and patterns that may not be read. -/
structure PreparedReadDenyMatcher (M : Type) where
  deniedRoots : List FileUri
  denyReadMatchers : List M
  invalidPattern : Bool

variable {M : Type} (lib : GlobLibrary M)

section Matching

variable [UrlHost]

/-- The native text of a glob under the working directory or the home directory. -/
def denyReadGlob (context : ReadDenyContext) (pattern : List Char) : Except String (List Char) := do
  let windows := context.cwd.inferPathConvention = some .windows
  let homeRelative := Text.stripPrefix "~/".toList pattern <|>
    if windows then Text.stripPrefix "~\\".toList pattern else none
  let (root, pattern) ←
    match homeRelative, context.userHomeDir with
    | none, _ => .ok (context.cwd, pattern)
    | some suffix, some home =>
      .ok (home, suffix.dropWhile fun c => c = '/' || decide windows && c = '\\')
    | some _, none => .error ("unable to resolve deny-read glob pattern `" ++
        String.ofList pattern ++ "` without executor home")
  let convention := if windows then .windows else .posix
  if (fromAbsoluteNativePath pattern convention).isNone &&
      !root.validateGlobDirectory convention then
    .error (lib.directoryError root convention)
  else
    match root.join pattern with
    | .ok path => .ok path.nativePath
    | .error _ => .error ("unable to resolve deny-read glob pattern `" ++ String.ofList pattern ++
        "`")

/-- `build_glob_matcher` on the patterns in turn; a malformed one is noted or ends it. -/
def buildMatchers (behavior : InvalidDenyReadGlobBehavior) (convention : PathConvention) :
    List (List Char) → Except String (List M × Bool)
  | [] => .ok ([], false)
  | pattern :: rest =>
    match lib.buildGlobMatcher pattern convention, behavior with
    | .ok matcher, _ => do
      let (matchers, invalid) ← buildMatchers behavior convention rest
      return (matcher :: matchers, invalid)
    | .error _, .failClosed => do
      let (matchers, _) ← buildMatchers behavior convention rest
      return (matchers, true)
    | .error err, .returnError => .error ("invalid deny-read glob pattern `" ++
        String.ofList pattern ++ "`: " ++ err)

/-- A path may not be read. -/
def matchesPreparedReadDeny (path : FileUri) (context : ReadDenyContext)
    (prepared : PreparedReadDenyMatcher M) : Bool :=
  match context.cwd.inferPathConvention with
  | none => true
  | some convention =>
    if path.inferPathConvention ≠ some convention ∨ path.lexicalDepth.isNone = true ∨
        context.cwd.lexicalDepth.isNone = true ∨ prepared.invalidPattern = true then
      true
    else
      (prepared.deniedRoots.any fun root => path.startsWith root) ||
        prepared.denyReadMatchers.any fun matcher =>
          lib.isMatch matcher (path.nativePath.map fun c =>
            if convention = .windows && c = '\\' then '/' else c)

namespace FileSystemSandboxPolicy

variable (policy : FileSystemSandboxPolicy FileUri)

/-- The patterns that a policy denies, made absolute. -/
def denyReadGlobs (context : ReadDenyContext) : Except String (List (List Char)) :=
  ((policy.entries.filter fun entry => entry.access = .deny).filterMap fun entry =>
    match entry.path with
    | .globPattern pattern => some pattern
    | _ => none).mapM (denyReadGlob lib context)

/-- Denied directories but for the root, which other entries can open again. -/
def deniedRoots (context : ReadDenyContext) : List FileUri :=
  let denied := (policy.resolvedEntries context.toFileSystemSandboxPolicyContext).filter
    fun entry => entry.2 = .deny
  (denied.filter fun entry =>
    !(fileSystemRoot context.toFileSystemSandboxPolicyContext).any fun root =>
      entry.1.startsWith root && root.startsWith entry.1).map Prod.fst

/-- Compiles the patterns that a policy denies. -/
def prepareDenyReadMatcher (context : ReadDenyContext) (behavior : InvalidDenyReadGlobBehavior) :
    Except String (PreparedReadDenyMatcher M) :=
  match context.cwd.inferPathConvention with
  | none => .ok ⟨policy.deniedRoots context, [], true⟩
  | some convention =>
    match policy.denyReadGlobs lib context, behavior with
    | .error _, .failClosed => .ok ⟨policy.deniedRoots context, [], true⟩
    | .error err, .returnError => .error err
    | .ok patterns, _ => do
      let (matchers, invalid) ← buildMatchers lib behavior convention patterns
      return ⟨policy.deniedRoots context, matchers, invalid⟩

/-- The answer of the matcher, if it can be prepared. -/
def readDenied (path : FileUri) (context : ReadDenyContext)
    (behavior : InvalidDenyReadGlobBehavior) : Except String Bool := do
  let prepared ← policy.prepareDenyReadMatcher lib context behavior
  return matchesPreparedReadDeny lib path context prepared

/-- `include_platform_defaults`, for the convention of the host. -/
def includePlatformDefaults (native : PathConvention) : Bool :=
  !policy.hasFullDiskReadAccessForConvention (some native) && decide (policy.kind = .restricted) &&
    policy.entries.any fun entry => entry.path = .special .minimal && entry.access.canRead

end FileSystemSandboxPolicy

end Matching

/-! ## Profiles -/

/-- Whether the network may be used. -/
inductive NetworkSandboxPolicy where
  | restricted
  | enabled
deriving DecidableEq, Repr

/-- Who enforces a profile. -/
inductive SandboxEnforcement where
  | managed
  | disabled
  | external
deriving DecidableEq, Repr

/-- The file system permissions of a managed profile. -/
inductive ManagedFileSystemPermissions where
  | restricted (entries : List (FileSystemSandboxEntry FileUri))
      (globScanMaxDepth : Option {n : Nat // 0 < n})
  | unrestricted
deriving DecidableEq

/-- A permission profile. -/
inductive PermissionProfile where
  | managed (fileSystem : ManagedFileSystemPermissions) (network : NetworkSandboxPolicy)
  | disabled
  | external (network : NetworkSandboxPolicy)
deriving DecidableEq

/-- A policy with the depth that globs are scanned to. -/
structure RuntimePolicy extends FileSystemSandboxPolicy FileUri where
  globScanMaxDepth : Option Nat

/-- A restricted policy without a scan depth. -/
def RuntimePolicy.restricted (entries : List (FileSystemSandboxEntry FileUri)) : RuntimePolicy :=
  ⟨⟨.restricted, entries⟩, none⟩

/-- Everything may be read and nothing written. -/
def RuntimePolicy.readOnly : RuntimePolicy := .restricted [⟨.special .root, .read⟩]

/-- `to_sandbox_policy`. -/
def ManagedFileSystemPermissions.toSandboxPolicy : ManagedFileSystemPermissions → RuntimePolicy
  | restricted entries depth => ⟨⟨.restricted, entries⟩, depth.map Subtype.val⟩
  | unrestricted => ⟨⟨.unrestricted, []⟩, none⟩

namespace PermissionProfile

/-- Who enforces a profile. -/
def enforcement : PermissionProfile → SandboxEnforcement
  | managed .. => .managed
  | disabled => .disabled
  | external _ => .external

/-- The file system policy of a profile. -/
def fileSystemSandboxPolicy : PermissionProfile → RuntimePolicy
  | managed fileSystem _ => fileSystem.toSandboxPolicy
  | disabled => ⟨⟨.unrestricted, []⟩, none⟩
  | external _ => ⟨⟨.externalSandbox, []⟩, none⟩

/-- The network policy of a profile. -/
def networkSandboxPolicy : PermissionProfile → NetworkSandboxPolicy
  | managed _ network | external network => network
  | disabled => .enabled

/-- A depth of zero is no depth. -/
def nonZero (depth : Nat) : Option {n : Nat // 0 < n} :=
  if h : 0 < depth then some ⟨depth, h⟩ else none

/-- `from_sandbox_policy` is written out, as its external case cannot be reached from here. -/
def fromRuntimePermissionsWithEnforcement (enforcement : SandboxEnforcement)
    (fileSystem : RuntimePolicy) (network : NetworkSandboxPolicy) : PermissionProfile :=
  match fileSystem.kind with
  | .externalSandbox => external network
  | .unrestricted => if enforcement = .disabled then disabled else managed .unrestricted network
  | .restricted =>
    managed (.restricted fileSystem.entries (fileSystem.globScanMaxDepth.bind nonZero)) network

end PermissionProfile

/-- Writing becomes reading. -/
def FileSystemAccessMode.narrowed (access : FileSystemAccessMode) : FileSystemAccessMode :=
  if access = .write then .read else access

/-- A policy whose writes are reads. -/
def FileSystemSandboxPolicy.narrowed (policy : FileSystemSandboxPolicy FileUri) :
    FileSystemSandboxPolicy FileUri :=
  { policy with entries := policy.entries.map fun entry =>
      { entry with access := entry.access.narrowed } }

/-- `read_only_profile`. -/
def readOnlyProfile (profile : PermissionProfile) : Except String PermissionProfile :=
  match profile with
  | .disabled => .ok (.fromRuntimePermissionsWithEnforcement .managed .readOnly .restricted)
  | .external _ => .error "a read-only agent role cannot narrow an external sandbox"
  | .managed .. =>
    let fileSystem := profile.fileSystemSandboxPolicy
    let narrowed : Except String RuntimePolicy :=
      match fileSystem.kind with
      | .unrestricted => .ok .readOnly
      | .externalSandbox => .error "a read-only agent role cannot narrow an external sandbox"
      | .restricted => .ok { fileSystem with
          toFileSystemSandboxPolicy := fileSystem.toFileSystemSandboxPolicy.narrowed }
    narrowed.map fun fileSystem => .fromRuntimePermissionsWithEnforcement profile.enforcement
      fileSystem profile.networkSandboxPolicy

/-! ## Narrowed entries -/

section Access

variable (access : FileSystemAccessMode)

@[simp] theorem canRead_narrowed : access.narrowed.canRead = access.canRead := by
  cases access <;> rfl

@[simp] theorem canWrite_narrowed : access.narrowed.canWrite = false := by
  cases access <;> rfl

@[simp] theorem narrowed_eq_deny : access.narrowed = .deny ↔ access = .deny := by
  cases access <;> decide

@[simp] theorem narrowed_narrowed : access.narrowed.narrowed = access.narrowed := by
  cases access <;> rfl

end Access

/-- An entry whose write is a read. -/
def MeasuredEntry.narrowed {U : Type} (entry : MeasuredEntry U) : MeasuredEntry U :=
  { entry with access := entry.access.narrowed }

section Narrowed

variable [UrlHost] {context : FileSystemSandboxPolicyContext FileUri}
  (policy : FileSystemSandboxPolicy FileUri)

theorem resolvedEntries_narrowed : policy.narrowed.resolvedEntries context =
    (policy.resolvedEntries context).map fun entry => (entry.1, entry.2.narrowed) := by
  simp [resolvedEntries, FileSystemSandboxPolicy.narrowed, flatMap_map, map_flatMap,
    Function.comp_def]

theorem measuredEntries_narrowed (entries : List (FileUri × FileSystemAccessMode)) :
    measuredEntries (entries.map fun entry => (entry.1, entry.2.narrowed)) =
      (measuredEntries entries).map (List.map MeasuredEntry.narrowed) := by
  fun_induction measuredEntries entries with
  | case1 => rfl
  | case2 root access rest depth hdepth ih =>
    rw [map_cons, measuredEntries, ih, Option.map_map]
    simp only [hdepth, Option.map_map]
    rfl
  | case3 root access rest hdepth hopaque ih =>
    rw [map_cons, measuredEntries, hdepth]
    exact (if_pos hopaque).trans ih
  | case4 root access rest hdepth hopaque =>
    rw [map_cons, measuredEntries, hdepth]
    exact if_neg hopaque

omit [UrlHost] in
/-- Denials win over all other entries at their depth, before and after. -/
theorem mostSpecific_narrowed (entries : List (MeasuredEntry FileUri)) :
    let access := ((mostSpecific (entries.map MeasuredEntry.narrowed)).map
      MeasuredEntry.access).getD .deny
    access.canWrite = false ∧ access.canRead =
      (((mostSpecific entries).map MeasuredEntry.access).getD .deny).canRead := by
  by_cases hnil : entries = []
  · subst hnil
    exact ⟨rfl, rfl⟩
  have hnil' : entries.map MeasuredEntry.narrowed ≠ [] := mt map_eq_nil_iff.mp hnil
  obtain ⟨best, hbest, hmem, hbelow⟩ := exists_mostSpecific hnil
  obtain ⟨other, hother, hotherMem, hotherBelow⟩ := exists_mostSpecific hnil'
  obtain ⟨found, hfound, rfl⟩ := mem_map.mp hotherMem
  have hle := hbelow found hfound
  have hge := hotherBelow best.narrowed (mem_map_of_mem hmem)
  simp only [hbest, hother, Option.map_some, Option.getD_some]
  refine ⟨canWrite_narrowed _, (canRead_narrowed _).trans ?_⟩
  -- both are among the deepest, so one is a denial if the other is
  unfold MeasuredEntry.Below MeasuredEntry.narrowed at *
  cases hfirst : best.access <;> cases hsecond : found.access <;>
    simp [hfirst, hsecond, precedence, FileSystemAccessMode.narrowed, canRead] at hle hge ⊢ <;>
    omega

/-- **Narrowing keeps what can be read** and leaves nothing to be written. -/
theorem resolveAccess_narrowed (hkind : policy.kind = .restricted) (path : FileUri) :
    (policy.narrowed.resolveAccess path context).canWrite = false ∧
      (policy.narrowed.resolveAccess path context).canRead =
        (policy.resolveAccess path context).canRead := by
  have hnarrowed : policy.narrowed.kind = .restricted := hkind
  unfold resolveAccess
  rw [hkind, hnarrowed]
  dsimp only
  split
  · exact ⟨rfl, rfl⟩
  · split
    · exact ⟨rfl, rfl⟩
    · rw [resolvedEntries_narrowed, measuredEntries_narrowed]
      cases measuredEntries (policy.resolvedEntries context) with
      | none => exact ⟨rfl, rfl⟩
      | some measured =>
        dsimp only [Option.map_some]
        rw [filter_map]
        exact mostSpecific_narrowed _

theorem filter_resolvedEntries :
    ((policy.resolvedEntries context).filter fun entry => entry.2 = .deny) =
      (FileSystemSandboxPolicy.mk .restricted
        (policy.entries.filter fun entry => entry.access = .deny)).resolvedEntries context := by
  unfold resolvedEntries
  dsimp only
  induction policy.entries with
  | nil => rfl
  | cons entry entries ih =>
    rw [flatMap_cons, filter_append, ih]
    by_cases hdeny : entry.access = .deny
    · simp [hdeny, filter_map, Function.comp_def]
    · simp [hdeny, filter_map, Function.comp_def]

/-- Read denials depend on the denials among the entries alone. -/
theorem readDenied_congr {first second : FileSystemSandboxPolicy FileUri}
    (h : (first.entries.filter fun entry => entry.access = .deny) =
      second.entries.filter fun entry => entry.access = .deny)
    (path : FileUri) (context : ReadDenyContext) (behavior : InvalidDenyReadGlobBehavior) :
    first.readDenied lib path context behavior = second.readDenied lib path context behavior := by
  have hroots : first.deniedRoots context = second.deniedRoots context := by
    simp only [deniedRoots, filter_resolvedEntries, h]
  have hglobs : first.denyReadGlobs lib context = second.denyReadGlobs lib context := by
    rw [denyReadGlobs, h, ← denyReadGlobs]
  rw [readDenied, readDenied, prepareDenyReadMatcher, prepareDenyReadMatcher, hroots, hglobs]

omit [UrlHost] in
theorem filter_narrowed : (policy.narrowed.entries.filter fun entry => entry.access = .deny) =
    policy.entries.filter fun entry => entry.access = .deny := by
  unfold FileSystemSandboxPolicy.narrowed
  dsimp only
  induction policy.entries with
  | nil => rfl
  | cons entry entries ih =>
    obtain ⟨path, access⟩ := entry
    cases access <;> simpa [FileSystemAccessMode.narrowed] using ih

omit [UrlHost] in
theorem fullDiskRead_narrowed (convention : Option PathConvention) :
    policy.narrowed.hasFullDiskReadAccessForConvention convention =
      policy.hasFullDiskReadAccessForConvention convention := by
  obtain ⟨kind, entries⟩ := policy
  cases kind <;> simp [hasFullDiskReadAccessForConvention, hasRootAccess,
    hasDeniedReadRestrictionsForConvention, FileSystemSandboxPolicy.narrowed, Function.comp_def]

omit [UrlHost] in
theorem platformDefaults_narrowed (native : PathConvention) :
    policy.narrowed.includePlatformDefaults native = policy.includePlatformDefaults native := by
  unfold includePlatformDefaults
  rw [fullDiskRead_narrowed]
  simp only [FileSystemSandboxPolicy.narrowed, any_map, Function.comp_def, canRead_narrowed]
  rfl

end Narrowed

/-! ## Narrowed profiles -/

theorem readOnlyProfile_restricted (entries : List (FileSystemSandboxEntry FileUri))
    (depth : Option {n : Nat // 0 < n}) (network : NetworkSandboxPolicy) :
    readOnlyProfile (.managed (.restricted entries depth) network) =
      .ok (.managed (.restricted (FileSystemSandboxPolicy.narrowed ⟨.restricted, entries⟩).entries
        depth) network) := by
  have hdepth : (depth.map Subtype.val).bind PermissionProfile.nonZero = depth := by
    cases depth with
    | none => rfl
    | some depth => exact dif_pos depth.property
  simp only [readOnlyProfile, PermissionProfile.fileSystemSandboxPolicy, Except.map,
    ManagedFileSystemPermissions.toSandboxPolicy,
    PermissionProfile.fromRuntimePermissionsWithEnforcement, hdepth]
  rfl

/-- The root lets every path be read. -/
theorem resolveAccess_readOnly [UrlHost] {context : FileSystemSandboxPolicyContext FileUri}
    {path : FileUri}
    (hcwd : context.cwd.IsLexical) (hpath : path.IsLexical) :
    RuntimePolicy.readOnly.resolveAccess path context = .read := by
  have hmeas : Measurable (RuntimePolicy.readOnly.resolvedEntries context) := by
    intro resolved hmem
    obtain ⟨entry, hentry, hmem⟩ := mem_flatMap.mp hmem
    obtain ⟨hin, -⟩ := mem_resolved.mp hmem
    obtain ⟨ending, hroot⟩ := fileSystemRoot_eq hcwd
    rw [mem_singleton.mp hentry, FileSystemPath.resolved, hroot] at hin
    rw [mem_singleton.mp hin]
    exact .inl rfl
  have hroot : RuntimePolicy.readOnly.hasRootAccess canRead = true := rfl
  obtain ⟨best, -, hbest, -, entry, hentry, -, haccess⟩ :=
    exists_decidingEntry rfl hcwd hpath hmeas hroot
  rw [hbest, haccess, mem_singleton.mp hentry]

/-- **Narrowing to read-only** removes writing and nothing else. -/
theorem readOnlyProfile_narrows [UrlHost] {fileSystem : ManagedFileSystemPermissions}
    {network : NetworkSandboxPolicy} {narrowed : PermissionProfile} {context : ReadDenyContext}
    {path : FileUri} (h : readOnlyProfile (.managed fileSystem network) = .ok narrowed)
    (hcwd : context.cwd.IsLexical) (hpath : path.IsLexical) :
    let before := (PermissionProfile.managed fileSystem network).fileSystemSandboxPolicy
    let after := narrowed.fileSystemSandboxPolicy
    let lexical := context.toFileSystemSandboxPolicyContext
    after.canWritePath path lexical = false ∧
    (after.resolveAccess path lexical).canRead = (before.resolveAccess path lexical).canRead ∧
    (∀ behavior, after.readDenied lib path context behavior =
      before.readDenied lib path context behavior) ∧
    (∀ convention, after.hasFullDiskReadAccessForConvention convention =
      before.hasFullDiskReadAccessForConvention convention) ∧
    (∀ native, after.includePlatformDefaults native = before.includePlatformDefaults native) ∧
    narrowed.networkSandboxPolicy = network ∧
    readOnlyProfile narrowed = .ok narrowed := by
  cases fileSystem with
  | restricted entries depth =>
    rw [readOnlyProfile_restricted] at h
    cases h
    obtain ⟨hwrite, hread⟩ := @resolveAccess_narrowed _ context.toFileSystemSandboxPolicyContext
      ⟨.restricted, entries⟩ rfl path
    refine ⟨if_neg (Bool.eq_false_iff.mp hwrite), hread,
      fun behavior => readDenied_congr lib ?_ path context behavior,
      fullDiskRead_narrowed ⟨_, entries⟩, platformDefaults_narrowed ⟨_, entries⟩, rfl, ?_⟩
    · exact filter_narrowed ⟨.restricted, entries⟩
    · rw [readOnlyProfile_restricted]
      simp [FileSystemSandboxPolicy.narrowed, Function.comp_def]
  | unrestricted =>
    cases h
    have hread := resolveAccess_readOnly hcwd hpath
    refine ⟨if_neg ?_, ?_, fun behavior => readDenied_congr lib ?_ path context behavior,
      fun convention => rfl, fun native => rfl, rfl, rfl⟩
    · exact Bool.eq_false_iff.mp (congrArg canWrite hread)
    · exact (congrArg canRead hread :)
    · rfl

section Samples

open SampleHosts

/-- A file below `/v`, by its names. -/
def sampleFile (names : List UriName) : FileUri := file none (⟨['v'], by decide⟩ :: names) false

/-- Everything may be read, the working directory written, and its secrets neither. -/
def sampleProfile : PermissionProfile :=
  .managed (.restricted [⟨.special .root, .read⟩, ⟨.path (sampleFile []), .write⟩,
    ⟨.path (sampleFile [⟨['s'], by decide⟩]), .deny⟩, ⟨.globPattern "/v/*.env".toList, .deny⟩]
    none) .enabled

/-- The working directory is `/v`. -/
def sampleReadContext : ReadDenyContext := ⟨⟨sampleFile [], [sampleFile []], none⟩, none⟩

/-- A library whose matchers are the patterns, and which matches the same texts. -/
def sampleGlobs : GlobLibrary (List Char) :=
  ⟨fun pattern _ => .ok pattern, fun pattern path => pattern = path, fun _ _ => "no directory"⟩

/-- A role that could write the working directory can only read it, and no secret. -/
theorem readOnlyProfile_narrows_sample : ∃ narrowed,
    readOnlyProfile sampleProfile = .ok narrowed ∧ readOnlyProfile narrowed = .ok narrowed ∧
    (sampleProfile.fileSystemSandboxPolicy.canWritePath (sampleFile [⟨['a'], by decide⟩])
        sampleReadContext.toFileSystemSandboxPolicyContext = true ∧
      narrowed.fileSystemSandboxPolicy.canWritePath (sampleFile [⟨['a'], by decide⟩])
        sampleReadContext.toFileSystemSandboxPolicyContext = false) ∧
    (narrowed.fileSystemSandboxPolicy.resolveAccess (sampleFile [⟨['a'], by decide⟩])
        sampleReadContext.toFileSystemSandboxPolicyContext).canRead = true ∧
    (narrowed.fileSystemSandboxPolicy.resolveAccess (sampleFile [⟨['s'], by decide⟩])
        sampleReadContext.toFileSystemSandboxPolicyContext).canRead = false ∧
    narrowed.fileSystemSandboxPolicy.readDenied sampleGlobs
      (sampleFile [⟨"*.env".toList, by decide⟩])
        sampleReadContext .returnError = .ok true ∧
    narrowed.networkSandboxPolicy = .enabled := by
  have h := readOnlyProfile_restricted [⟨.special .root, .read⟩, ⟨.path (sampleFile []), .write⟩,
    ⟨.path (sampleFile [⟨['s'], by decide⟩]), .deny⟩, ⟨.globPattern "/v/*.env".toList, .deny⟩]
    none .enabled
  have hcwd : sampleReadContext.cwd.IsLexical := ⟨rfl, rfl⟩
  have hat (name : UriName) (hpath : (sampleFile [name]).IsLexical) :=
    readOnlyProfile_narrows sampleGlobs h hcwd hpath
  obtain ⟨hwrite, hread, -, -, -, hnetwork, hagain⟩ := hat ⟨['a'], by decide⟩ ⟨rfl, rfl⟩
  obtain ⟨-, hsecret, -⟩ := hat ⟨['s'], by decide⟩ ⟨rfl, rfl⟩
  obtain ⟨-, -, hglob, -⟩ := hat ⟨"*.env".toList, by decide⟩ ⟨rfl, rfl⟩
  refine ⟨_, h, hagain, ⟨by decide +kernel, hwrite⟩, hread.trans ?_, hsecret.trans ?_,
    (hglob .returnError).trans ?_, hnetwork⟩
  · decide +kernel
  · decide +kernel
  · decide +kernel

end Samples

end RenCrow.Permissions
