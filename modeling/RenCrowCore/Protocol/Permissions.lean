import RenCrowCore.Utils.PathUri

/-!
# File-system permissions

The part of `protocol/src/permissions.rs` that decides whether a path may be written: entries
with an access mode, of which the most specific one counts, and names under writable roots
that stay protected.

* `resolveAccess`: the access mode of a path;
* `hasFullDiskWriteAccessWithContext`: nothing narrows the root's write access;
* `metadataWriteDenial`: the protected name that a path is under;
* `canWritePath`: a path may be written.
-/

namespace RenCrow.Permissions

open PathUri LexicalPath

/-! ## Policies -/

/-- Later modes win over earlier ones on the same path. -/
inductive FileSystemAccessMode where
  | read
  | write
  | deny
deriving DecidableEq, Repr

namespace FileSystemAccessMode

/-- The mode permits writes. -/
def canWrite : FileSystemAccessMode → Bool
  | write => true
  | read | deny => false

/-- Which of two modes for one target wins. -/
def precedence : FileSystemAccessMode → Nat
  | read => 0
  | write => 1
  | deny => 2

end FileSystemAccessMode

/-- The paths that depend on the machine and the workspace. -/
inductive FileSystemSpecialPath where
  | root
  | minimal
  | projectRoots (subpath : Option (List Char))
  | tmpdir
  | slashTmp
  | unknown (path : List Char) (subpath : Option (List Char))
deriving DecidableEq, Repr

/-- What an entry is about. -/
inductive FileSystemPath (U : Type) where
  | path (uri : U)
  | globPattern (pattern : List Char)
  | special (value : FileSystemSpecialPath)
deriving DecidableEq, Repr

/-- An entry of a policy. -/
structure FileSystemSandboxEntry (U : Type) where
  path : FileSystemPath U
  access : FileSystemAccessMode
deriving DecidableEq, Repr

/-- Whether a policy restricts, does not, or leaves it to another sandbox. -/
inductive FileSystemSandboxKind where
  | restricted
  | unrestricted
  | externalSandbox
deriving DecidableEq, Repr

/-- A file system policy. -/
structure FileSystemSandboxPolicy (U : Type) where
  kind : FileSystemSandboxKind
  entries : List (FileSystemSandboxEntry U)
deriving DecidableEq, Repr

/-- The paths that the entries of a policy are read with. -/
structure FileSystemSandboxPolicyContext (U : Type) where
  cwd : U
  workspaceRoots : List U
  temporaryDirectories : Option (List U)
deriving DecidableEq, Repr

variable {U : Type} [LexicalPath U]

/-! ## Entries -/

/-- The root of the file system that the working directory is on. -/
def fileSystemRoot (context : FileSystemSandboxPolicyContext U) : Option U := do
  let _ ← lexicalDepth context.cwd
  (ancestors context.cwd).getLast?

/-- The paths that an entry stands for. -/
def FileSystemPath.resolved (context : FileSystemSandboxPolicyContext U) : FileSystemPath U → List U
  | path uri => [uri]
  | globPattern _ => []
  | special .root => (fileSystemRoot context).toList
  | special (.projectRoots subpath) => context.workspaceRoots.filterMap fun root =>
    match subpath with
    | some subpath => (join root subpath).toOption
    | none => some root
  | special .tmpdir => context.temporaryDirectories.getD []
  | special .slashTmp =>
    if inferPathConvention context.cwd = some .posix then
      (join context.cwd "/tmp".toList).toOption.toList
    else []
  | special .minimal | special (.unknown ..) => []

namespace FileSystemSandboxPolicy

/-- Paths of another convention than the working directory's are left out. -/
def resolvedEntries (policy : FileSystemSandboxPolicy U)
    (context : FileSystemSandboxPolicyContext U) :
    List (U × FileSystemAccessMode) :=
  policy.entries.flatMap fun entry =>
    ((entry.path.resolved context).filter fun path =>
      inferPathConvention path = inferPathConvention context.cwd).map fun path =>
        (path, entry.access)

/-- A restricted policy has an entry for the root with such a mode. -/
def hasRootAccess (policy : FileSystemSandboxPolicy U) (predicate : FileSystemAccessMode → Bool) :
    Bool :=
  policy.kind = .restricted && policy.entries.any fun entry =>
    match entry.path with
    | .special .root => predicate entry.access
    | _ => false

end FileSystemSandboxPolicy

/-! ## Write access to the whole disk -/

/-- Special paths are compared as they are written. -/
def specialPathsShareTarget (left right : FileSystemSpecialPath) : Bool := left = right

/-- A path that is a special one, by its text. -/
def specialPathMatchesPathUri (value : FileSystemSpecialPath) (path : U) : Bool :=
  match value with
  | .root => (lexicalDepth path).isSome && (parent path).isNone
  | .slashTmp => inferPathConvention path = some .posix && lexicalDepth path = some 1 &&
      basename path = some "tmp".toList
  | _ => false

variable [DecidableEq U]

/-- Two entries are about one target. -/
def fileSystemPathsShareTarget (left right : FileSystemPath U) (convention : PathConvention) :
    Bool :=
  match left, right with
  | .path left, .path right => left = right
  | .special left, .special right => specialPathsShareTarget left right
  | .path path, .special value | .special value, .path path =>
    inferPathConvention path = some convention && specialPathMatchesPathUri value path
  | .globPattern left, .globPattern right => left = right
  | .globPattern _, _ | _, .globPattern _ => false

namespace FileSystemSandboxPolicy

/-- An entry is outdone by one that permits writes to its target. -/
def hasSameTargetWriteOverride (policy : FileSystemSandboxPolicy U)
    (entry : FileSystemSandboxEntry U)
    (convention : PathConvention) : Bool :=
  policy.entries.any fun candidate =>
    candidate.access.canWrite && entry.access.precedence < candidate.access.precedence &&
      fileSystemPathsShareTarget candidate.path entry.path convention

/-- An entry reduces the write access of the root. -/
def hasWriteNarrowingEntries (policy : FileSystemSandboxPolicy U) (convention : PathConvention) :
    Bool :=
  policy.kind = .restricted && policy.entries.any fun entry =>
    if entry.access.canWrite then false
    else
      match entry.path with
      | .path _ => !policy.hasSameTargetWriteOverride entry convention
      | .globPattern _ => true
      | .special .root => entry.access = .deny
      | .special .slashTmp =>
        if convention = .windows then false
        else !policy.hasSameTargetWriteOverride entry convention
      | .special .minimal | .special (.unknown ..) => false
      | .special (.projectRoots _) | .special .tmpdir =>
        !policy.hasSameTargetWriteOverride entry convention

/-- `has_full_disk_write_access_for_convention`. -/
def hasFullDiskWriteAccessForConvention (policy : FileSystemSandboxPolicy U)
    (convention : Option PathConvention) : Bool :=
  match policy.kind with
  | .unrestricted | .externalSandbox => true
  | .restricted =>
    match convention with
    | none => false
    | some convention =>
      policy.hasRootAccess FileSystemAccessMode.canWrite &&
        !policy.hasWriteNarrowingEntries convention

/-- The same for the convention of the working directory. -/
def hasFullDiskWriteAccessWithContext (policy : FileSystemSandboxPolicy U)
    (context : FileSystemSandboxPolicyContext U) : Bool :=
  policy.hasFullDiskWriteAccessForConvention (inferPathConvention context.cwd)

end FileSystemSandboxPolicy

/-! ## Access to a path -/

/-- An entry whose path is known, with the depth of that path. -/
structure MeasuredEntry (U : Type) where
  root : U
  access : FileSystemAccessMode
  depth : Nat

omit [DecidableEq U] in
/-- The entries with their depths; opaque ones are skipped, and others without a depth make
the policy unusable. -/
def measuredEntries : List (U × FileSystemAccessMode) → Option (List (MeasuredEntry U))
  | [] => some []
  | (root, access) :: rest =>
    match lexicalDepth root with
    | some depth => (measuredEntries rest).map (⟨root, access, depth⟩ :: ·)
    | none => if isOpaque root then measuredEntries rest else none

/-- `max_by_key` on the depth and then the access mode. -/
def mostSpecific (entries : List (MeasuredEntry U)) : Option (MeasuredEntry U) :=
  entries.foldl (fun best entry =>
    match best with
    | none => some entry
    | some found =>
      if entry.depth < found.depth ∨
          entry.depth = found.depth ∧ entry.access.precedence < found.access.precedence then
        some found
      else some entry) none

/-- `PROTECTED_METADATA_PATH_NAMES`. -/
def protectedMetadataPathNames : List (List Char) :=
  [".git".toList, ".agents".toList, ".codex".toList]

namespace FileSystemSandboxPolicy

variable (policy : FileSystemSandboxPolicy U) (path : U)
    (context : FileSystemSandboxPolicyContext U)

omit [DecidableEq U] in
/-- The mode of the deepest entries above a path. -/
def resolveAccess : FileSystemAccessMode :=
  match policy.kind with
  | .unrestricted | .externalSandbox => .write
  | .restricted =>
    match inferPathConvention context.cwd with
    | none => .deny
    | some convention =>
      if inferPathConvention path ≠ some convention ∨ (lexicalDepth path).isNone = true ∨
          (lexicalDepth context.cwd).isNone = true then
        .deny
      else
        match measuredEntries (policy.resolvedEntries context) with
        | none => .deny
        | some entries =>
          ((mostSpecific (entries.filter fun entry => startsWith path entry.root)).map
            MeasuredEntry.access).getD .deny

omit [DecidableEq U] in
/-- The first protected name under a writable root that the path is under, unless a writable
root inside it covers the path. -/
def metadataWriteDenial : Option (List Char) :=
  if policy.kind ≠ .restricted then none
  else do
    let entries := policy.resolvedEntries context
    let (protectedPath, metadataName) ← (entries.filter fun entry => entry.2.canWrite).findSome?
      fun entry =>
      protectedMetadataPathNames.findSome? fun metadataName => do
        let protectedPath ← (joinDescendant entry.1 metadataName).toOption
        if startsWith path protectedPath then some (protectedPath, metadataName) else none
    if entries.any fun entry =>
        entry.2.canWrite && startsWith path entry.1 && startsWith entry.1 protectedPath then
      none
    else some metadataName

/-- A path may be written, and is not metadata that is kept from writes. -/
def canWritePath : Bool :=
  if (policy.resolveAccess path context).canWrite then
    policy.hasFullDiskWriteAccessWithContext context ||
      (policy.metadataWriteDenial path context).isNone
  else false

/-- `has_configured_writable_roots`. -/
def hasConfiguredWritableRoots : Bool :=
  !policy.hasFullDiskWriteAccessWithContext context &&
    (policy.resolvedEntries context).any fun entry =>
      entry.2.canWrite && policy.canWritePath entry.1 context

end FileSystemSandboxPolicy

end RenCrow.Permissions
