import RenCrowCore.Protocol.EntryOrder
import RenCrowCore.Utils.AbsolutePath
import RenCrowCore.Utils.FileUri

/-!
# Writable roots

What a sandbox is told of a policy: the roots that may be written, each with the paths
and the names below it that may not (`get_writable_roots_with_cwd`).  The host is a POSIX
one without symlinks, so normalizing a path changes nothing.

* `PosixHost`: what the policy reads of the host;
* `FileSystemSandboxPolicy.canWriteLocalPathWithCwd`: the policy's own decision on a path;
* `FileSystemSandboxPolicy.getWritableRootsWithCwd`: the roots;
* `WritableRoot.isPathWritable`: the decision of a root.
-/

namespace RenCrow

/-! ## Paths of the host -/

namespace AbsolutePathBuf

/-- `resolve_path_against_base`. -/
def resolvePathAgainstBase (env : ProcessEnv) (path : List Char) (base : AbsolutePathBuf) :
    AbsolutePathBuf :=
  let expanded := maybeExpandHomeDirectory env path
  ⟨normalizePath (if isAbsolute expanded then [] else base.segments) expanded⟩

/-- `AbsolutePathBuf::join`. -/
def join (env : ProcessEnv) (base : AbsolutePathBuf) (path : List Char) : AbsolutePathBuf :=
  resolvePathAgainstBase env path base

/-- `Path::starts_with`. -/
def startsWith (path base : AbsolutePathBuf) : Bool := base.segments.isPrefixOf path.segments

/-- `Path::parent`. -/
def parent (path : AbsolutePathBuf) : Option AbsolutePathBuf :=
  if path.segments.isEmpty then none else some ⟨path.segments.dropLast⟩

/-- `Path::strip_prefix`: the components that are left. -/
def componentsBelow (path base : AbsolutePathBuf) : Option (List String) :=
  if path.startsWith base then some (path.segments.drop base.segments.length) else none

/-- A path as it is written. -/
def text (path : AbsolutePathBuf) : List Char :=
  '/' :: ['/'].intercalate (path.segments.map String.toList)

end AbsolutePathBuf

namespace FileUri

/-- `PathUri::from_abs_path`. -/
def fromAbsPath (path : AbsolutePathBuf) : FileUri :=
  match path.segments.mapM fun segment => UriName.of? segment.toList with
  | some names =>
    if (file none names false).inferPathConvention = some .posix then file none names false
    else fallback path.text (some .posix)
  | none => fallback path.text (some .posix)

/-- `to_abs_path` on a POSIX host. -/
def toAbsPath (uri : FileUri) : Option AbsolutePathBuf :=
  if uri.inferPathConvention ≠ some .posix then none
  else
    let path : AbsolutePathBuf := ⟨normalizePath [] uri.nativePath⟩
    match uri with
    | fallback .. => if fromAbsPath path = uri then some path else none
    | file .. => some path

theorem inferPathConvention_fromAbsPath (path : AbsolutePathBuf) :
    (fromAbsPath path).inferPathConvention = some .posix := by
  unfold fromAbsPath
  split
  · split
    · assumption
    · rfl
  · rfl

variable {names : List UriName}

theorem segments_of_mapM {segs : List String}
    (h : segs.mapM (fun seg => UriName.of? seg.toList) = some names) :
    segs = names.map fun name => String.ofList name.text := by
  induction segs generalizing names with
  | nil =>
    cases h
    rfl
  | cons seg segs ih =>
    simp only [List.mapM_cons, Option.bind_eq_bind, Option.bind_eq_some_iff, Option.pure_def,
      Option.some.injEq] at h
    obtain ⟨name, hname, rest, hrest, rfl⟩ := h
    rw [List.map_cons, ← ih hrest, UriName.of?_eq_some hname, String.ofList_toList]

/-- The segments of a path whose URI is lexical are the names of the URI. -/
theorem segments_of_isLexical {path : AbsolutePathBuf} (h : IsLexical (fromAbsPath path)) :
    path.segments = (fromAbsPath path).names.map fun name => String.ofList name.text := by
  obtain ⟨names, trailing, hfile, -⟩ := h.eq_file
  rw [hfile]
  unfold fromAbsPath at hfile
  split at hfile
  · rename_i found hfound
    split at hfile
    · cases hfile
      exact segments_of_mapM hfound
    · cases hfile
  · cases hfile

/-- Such names are the segments of a path. -/
theorem fromAbsPath_of_posixNames (h : PosixNames names) :
    fromAbsPath ⟨names.map fun name => String.ofList name.text⟩ = file none names false := by
  have hmap : (names.map fun name => String.ofList name.text).mapM
      (fun seg => UriName.of? seg.toList) = some names := by
    clear h
    induction names with
    | nil => rfl
    | cons name names ih => simp [List.mapM_cons, ih, UriName.of?_text]
  unfold fromAbsPath
  rw [hmap]
  exact if_pos (h.inferPathConvention false)

theorem startsWith_fromAbsPath {path base : AbsolutePathBuf} (h : IsLexical (fromAbsPath path))
    (hbase : IsLexical (fromAbsPath base)) :
    (fromAbsPath path).startsWith (fromAbsPath base) = true ↔ path.startsWith base = true := by
  have hinj : Function.Injective fun name : UriName => String.ofList name.text := by
    intro first second hsame
    exact UriName.ext_text (String.ofList_inj.mp hsame)
  rw [h.startsWith_iff hbase, AbsolutePathBuf.startsWith, List.isPrefixOf_iff_prefix,
    segments_of_isLexical h, segments_of_isLexical hbase, List.prefix_map_iff_of_injective hinj]

end FileUri

namespace Permissions

/-- What is read of the host: its directories, the variable `TMPDIR` and the files. -/
structure PosixHost where
  env : ProcessEnv
  tmpdir : Option String
  isDir : AbsolutePathBuf → Bool
  isFile : AbsolutePathBuf → Bool
  pathExists : AbsolutePathBuf → Bool
  readToString : AbsolutePathBuf → Option (List Char)

namespace PosixHost

variable (host : PosixHost)

/-- The directory that `TMPDIR` names. -/
def tmpdirPath : Option AbsolutePathBuf := do
  let tmpdir ← host.tmpdir
  if tmpdir = "" then none else AbsolutePathBuf.fromAbsolutePath host.env tmpdir

/-- The directory `/tmp`. -/
def slashTmp : AbsolutePathBuf := ⟨["tmp"]⟩

/-- The directory that `TMPDIR` names. -/
def localTemporaryDirectories : List FileUri := (host.tmpdirPath.map FileUri.fromAbsPath).toList

/-- The context that `with_local_policy_context` builds. -/
def localPolicyContext (cwd : String) : Option (FileSystemSandboxPolicyContext FileUri) := do
  let cwd ← AbsolutePathBuf.fromAbsolutePath host.env cwd
  let uri := FileUri.fromAbsPath cwd
  return ⟨uri, [uri], some host.localTemporaryDirectories⟩

/-- `resolve_gitdir_from_file`. -/
def resolveGitdirFromFile (dotGit : AbsolutePathBuf) : Option AbsolutePathBuf := do
  let contents ← host.readToString dotGit
  let (key, gitdirRaw) ← Text.splitOnce [':'] (Text.trim contents)
  if Text.trim key ≠ "gitdir".toList then none
  else
    let gitdirRaw := Text.trim gitdirRaw
    if gitdirRaw.isEmpty then none
    else
      let base ← dotGit.parent
      let gitdir := AbsolutePathBuf.resolvePathAgainstBase host.env gitdirRaw base
      if host.pathExists gitdir then some gitdir else none

/-- `default_read_only_subpaths_for_writable_root`. -/
def defaultReadOnlySubpaths (writableRoot : AbsolutePathBuf) (protectMissingDotCodex : Bool) :
    List AbsolutePathBuf :=
  let topLevelGit := writableRoot.join host.env ".git".toList
  let topLevelAgents := writableRoot.join host.env ".agents".toList
  let topLevelCodex := writableRoot.join host.env ".codex".toList
  ((if host.isDir topLevelGit || host.isFile topLevelGit then
      (if host.isFile topLevelGit && topLevelGit.fileName = some ".git" then
        (host.resolveGitdirFromFile topLevelGit).toList
      else []) ++ [topLevelGit]
    else []) ++
    (if host.isDir topLevelAgents then [topLevelAgents] else []) ++
    (if protectMissingDotCodex || host.isDir topLevelCodex then [topLevelCodex] else [])).eraseDups

end PosixHost

/-! ## The entries of the projection -/

/-- An entry with the path it stands for. -/
structure ResolvedFileSystemEntry where
  path : AbsolutePathBuf
  access : FileSystemAccessMode
deriving DecidableEq

/-- `resolve_file_system_special_path`. -/
def resolveFileSystemSpecialPath (host : PosixHost) (cwd : Option AbsolutePathBuf) :
    FileSystemSpecialPath → Option AbsolutePathBuf
  | .root | .minimal | .unknown .. => none
  | .projectRoots subpath => do
    let cwd ← cwd
    match subpath with
    | some subpath => some (AbsolutePathBuf.resolvePathAgainstBase host.env subpath cwd)
    | none => some cwd
  | .tmpdir => host.tmpdirPath
  | .slashTmp => if host.isDir PosixHost.slashTmp then some PosixHost.slashTmp else none

/-- `resolve_entry_path`. -/
def resolveEntryPath (host : PosixHost) (cwd : Option AbsolutePathBuf) :
    FileSystemPath FileUri → Option AbsolutePathBuf
  | .path uri => uri.toAbsPath
  | .globPattern _ => none
  | .special .root => cwd.map fun _ => ⟨[]⟩
  | .special value => resolveFileSystemSpecialPath host cwd value

/-- `WritableRoot`: a root with what stays read-only below it. -/
structure WritableRoot where
  root : AbsolutePathBuf
  readOnlySubpaths : List AbsolutePathBuf
  protectedMetadataNames : List (List Char)
deriving DecidableEq

namespace WritableRoot

/-- The path goes through metadata right under the root. -/
def pathContainsProtectedMetadataName (root : WritableRoot) (path : AbsolutePathBuf) : Bool :=
  match path.componentsBelow root.root with
  | some (first :: _) => root.protectedMetadataNames.any fun name => first.toList = name
  | _ => false

/-- `WritableRoot::is_path_writable`. -/
def isPathWritable (root : WritableRoot) (path : AbsolutePathBuf) : Bool :=
  path.startsWith root.root && !(root.readOnlySubpaths.any path.startsWith) &&
    !root.pathContainsProtectedMetadataName path

end WritableRoot

/-- Without symlinks a path is its own effective path. -/
def resolveEffectivePath (path : AbsolutePathBuf) : AbsolutePathBuf := path

/-- The path that an entry takes out of a root, if it stands below it. -/
def carveoutPath (env : ProcessEnv) (root : AbsolutePathBuf)
    (rawWritableRoots : List AbsolutePathBuf)
    (entryPath : AbsolutePathBuf) : Option AbsolutePathBuf :=
  let effectivePath := resolveEffectivePath entryPath
  let rawCarveoutPath : Option AbsolutePathBuf :=
    if root.parent.isSome then
      if entryPath = root then none
      else if entryPath.startsWith root then some entryPath
      else rawWritableRoots.findSome? fun rawRoot => do
        let suffix ← entryPath.componentsBelow rawRoot
        if suffix.isEmpty then none
        else some (root.join env (['/'].intercalate (suffix.map String.toList)))
    else none
  rawCarveoutPath.or
    (if effectivePath = root || !effectivePath.startsWith root then none else some effectivePath)

namespace FileSystemSandboxPolicy

variable [UrlHost] (host : PosixHost) (policy : FileSystemSandboxPolicy FileUri) (cwd : String)

/-- `resolved_entries_with_cwd`. -/
def resolvedEntriesWithCwd : List ResolvedFileSystemEntry :=
  let cwd := AbsolutePathBuf.fromAbsolutePath host.env cwd
  policy.entries.filterMap fun entry =>
    (resolveEntryPath host cwd entry.path).map fun path => ⟨path, entry.access⟩

/-- `can_write_local_path_with_cwd` of an absolute path. -/
def canWriteLocalPathWithCwd (path : AbsolutePathBuf) : Bool :=
  ((host.localPolicyContext cwd).map fun context =>
    policy.canWritePath (FileUri.fromAbsPath path) context).getD false

/-- `protected_metadata_names_for_writable_root`. -/
def protectedMetadataNamesForWritableRoot (root : AbsolutePathBuf)
    (rawWritableRoots : List AbsolutePathBuf) : List (List Char) :=
  protectedMetadataPathNames.filter fun metadataName =>
    ((root :: rawWritableRoots).map fun raw => raw.join host.env metadataName).all
      fun metadataPath =>
      !policy.canWriteLocalPathWithCwd host cwd metadataPath

/-- The entries that the policy's decision on their own path bears out. -/
def effectiveEntries : List ResolvedFileSystemEntry :=
  (policy.resolvedEntriesWithCwd host cwd).filter fun entry =>
    entry.access.canWrite = policy.canWriteLocalPathWithCwd host cwd entry.path

/-- The root with its carve-outs. -/
def writableRootFor (root : AbsolutePathBuf) : WritableRoot :=
  let entries := policy.effectiveEntries host cwd
  let rawWritableRoots := (entries.filter fun entry =>
    entry.access.canWrite && resolveEffectivePath entry.path = root).map
      ResolvedFileSystemEntry.path
  let protectMissingDotCodex :=
    (AbsolutePathBuf.fromAbsolutePath host.env cwd).map resolveEffectivePath = some root
  let defaults := (host.defaultReadOnlySubpaths root protectMissingDotCodex).filter fun path =>
    !(policy.resolvedEntriesWithCwd host cwd).any fun entry => entry.path = path
  let carveouts := (entries.filter fun entry => !entry.access.canWrite).filterMap fun entry =>
    carveoutPath host.env root rawWritableRoots entry.path
  { root
    readOnlySubpaths := (defaults ++ carveouts).eraseDups
    protectedMetadataNames :=
      policy.protectedMetadataNamesForWritableRoot host cwd root rawWritableRoots }

end FileSystemSandboxPolicy

end Permissions

end RenCrow
