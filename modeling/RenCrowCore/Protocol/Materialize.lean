import RenCrowCore.Protocol.EntryOrder
import RenCrowCore.Utils.FileUriJoin

/-!
# Materialized workspace roots

Symbolic entries for workspace roots are replaced by entries for each root
(`materialize_project_roots_with_path_uris`).  Text that does not resolve below a root turns
into a denial of the root, or is dropped if it would let the path be written.

* `FileSystemSandboxPolicy.materialize`: the policy with concrete entries;
* `LosesDenial`: an entry that narrows the access to a path is not carried over;
* `resolveAccess_materialize`: without one no access is widened, and text that resolves below
  every root changes nothing;
* `resolveAccess_materialize_widened`: text with dots widens it.
-/

namespace RenCrow

open List

/-- `home_relative_suffix`. -/
def PathConvention.homeRelativeSuffix (convention : PathConvention) (path : List Char) :
    Option (List Char) :=
  match path with
  | '~' :: suffix =>
    if suffix.isEmpty || suffix.head? = some '/' ||
        decide (convention = .windows) && suffix.head? = some '\\' then
      some suffix
    else none
  | _ => none

namespace FileUri

/-- A path that a pattern would read as more than a path. -/
def containsGlobMetacharacter (path : List Char) : Bool :=
  path.any fun c => ['*', '?', '[', ']', '{', '}'].contains c

/-- The text of a segment behind a drive. -/
def withoutDrive (index : Nat) (segment : List Char) : List Char :=
  match index, segment with
  | 0, drive :: ':' :: rest => if drive.isAlpha then rest else segment
  | _, _ => segment

/-- `validate_config_path_text`. -/
def validateConfigPathText (input : List Char) (convention : PathConvention) : Bool :=
  let nativeInput := (normalizeWindowsDevicePath input).getD input
  let hasComponentColon := (convention.pathSegments nativeInput).zipIdx.any fun (segment, index) =>
    (withoutDrive index segment).contains ':'
  let mixedHomeSeparators := (convention.homeRelativeSuffix input).any fun suffix =>
    suffix.head? = some '/' && (suffix.dropWhile (· = '/')).head? = some '\\' ||
      suffix.head? = some '\\' && (suffix.dropWhile (· = '\\')).head? = some '/'
  !(input.contains '\x00' || decide (convention = .windows) &&
    (hasComponentColon || mixedHomeSeparators || isWindowsDrive nativeInput))

/-- `validate_glob_directory`: the directory can be put into a glob as it is. -/
def validateGlobDirectory (uri : FileUri) (convention : PathConvention) : Bool :=
  let path := uri.nativePath
  decide (uri.inferPathConvention = some convention) && uri.lexicalDepth.isSome &&
    (decide (convention = .posix) || !uri.names.isEmpty) &&
      validateConfigPathText path convention &&
    !(containsGlobMetacharacter path || decide (convention = .posix) && path.contains '\\')

/-- `resolve_scoped_workspace_path`: text that stays below the root. -/
def resolveScopedWorkspacePath [UrlHost] (root : FileUri) (subpath : List Char) :
    Option FileUri := do
  let convention ← root.inferPathConvention
  let segments := convention.pathSegments subpath
  if subpath.head? = some '/' ∨ convention = .windows ∧ subpath.head? = some '\\' ∨
      (segments.any fun segment => segment = ['.'] || segment = ['.', '.']) = true ∨
      convention = .windows ∧ (segments.any fun segment => segment.contains ':') = true then
    none
  else
    let path ← (root.join subpath).toOption
    if path.startsWith root then some path else none

end FileUri

namespace Permissions

open LexicalPath

/-- The mode permits reads. -/
def FileSystemAccessMode.canRead : FileSystemAccessMode → Bool
  | read | write => true
  | deny => false

/-- `PROJECT_ROOTS_GLOB_PATTERN_PREFIX`. -/
def projectRootsGlobPatternPrefix : List Char := "codex-project-roots://".toList

/-- The text of an entry for workspace roots, and whether it is a glob. -/
def FileSystemPath.projectRootsSubpath : FileSystemPath FileUri → Option (Option (List Char) × Bool)
  | .special (.projectRoots subpath) => some (subpath, false)
  | .globPattern pattern =>
    (Text.stripPrefix projectRootsGlobPatternPrefix pattern).map fun subpath => (some subpath, true)
  | _ => none

section Entry

variable [UrlHost]

/-- An entry of one root in the place of a symbolic one. -/
def materializedEntry (access : FileSystemAccessMode) (subpath : Option (List Char)) (isGlob : Bool)
    (root : FileUri) : Option (FileSystemSandboxEntry FileUri) :=
  let path :=
    if isGlob && root.inferPathConvention.all fun convention =>
      !root.validateGlobDirectory convention then
      none
    else
      match subpath with
      | none => some root
      | some subpath => root.resolveScopedWorkspacePath subpath
  match path with
  | some path => some ⟨if isGlob then .globPattern path.nativePath else .path path, access⟩
  | none => if access.canWrite then none else some ⟨.path root, .deny⟩

/-- A denial that older policies could expand outside the workspace. -/
def clearsGrants (roots : List FileUri) (access : FileSystemAccessMode)
    (subpath : Option (List Char)) :
    Bool :=
  decide (access = .deny) && subpath.any fun subpath => roots.any fun root =>
    root.inferPathConvention.any fun convention => (convention.homeRelativeSuffix subpath).isSome

/-- The entries in the place of one entry; none if all grants are to be cleared. -/
def FileSystemSandboxEntry.materialize (roots : List FileUri)
    (entry : FileSystemSandboxEntry FileUri) :
    Option (List (FileSystemSandboxEntry FileUri)) :=
  match entry.path.projectRootsSubpath with
  | none => some [entry]
  | some (subpath, isGlob) =>
    if clearsGrants roots entry.access subpath then none
    else some (roots.filterMap (materializedEntry entry.access subpath isGlob))

end Entry

namespace FileSystemSandboxPolicy

variable [UrlHost]

/-- `try_materialize_project_roots_with_path_uris`. -/
def tryMaterialize (policy : FileSystemSandboxPolicy FileUri) (roots : List FileUri) :
    Option (FileSystemSandboxPolicy FileUri) :=
  (policy.entries.mapM (FileSystemSandboxEntry.materialize roots)).map fun entries =>
    { policy with entries := entries.flatten }

/-- `materialize_project_roots_with_path_uris`. -/
def materialize (policy : FileSystemSandboxPolicy FileUri) (roots : List FileUri) :
    FileSystemSandboxPolicy FileUri :=
  (policy.tryMaterialize roots).getD ⟨.restricted, []⟩

end FileSystemSandboxPolicy

/-! ## Access to a path -/

section Access

variable {U : Type} [LexicalPath U] {policy : FileSystemSandboxPolicy U} {path : U}
  {context : FileSystemSandboxPolicyContext U}

variable (hkind : policy.kind = .restricted)
include hkind

/-- A policy whose entries above a path are those of another, but for some that are denials and
some that let it be written, grants no more than the other. -/
theorem resolveAccess_le {other : FileSystemSandboxPolicy U} (hother : other.kind = .restricted)
    (hmeas : Measurable (policy.resolvedEntries context) →
      Measurable (other.resolvedEntries context))
    (hkept : ∀ entry ∈ entriesAbove policy context path, entry.access ≠ .deny →
      entry ∈ entriesAbove other context path) (hlost : ∀ entry ∈ entriesAbove other context path,
      entry ∈ entriesAbove policy context path ∨ entry.access.canWrite = true) :
    ((policy.resolveAccess path context).canRead = true →
      (other.resolveAccess path context).canRead = true) ∧
      ((policy.resolveAccess path context).canWrite = true →
        (other.resolveAccess path context).canWrite = true) := by
  have hall : policy.resolveAccess path context ≠ .deny →
      other.resolveAccess path context = policy.resolveAccess path context ∨
        other.resolveAccess path context = .write := by
    intro hgranted
    obtain ⟨hpath, hpol⟩ := comparable_of_ne_deny hkind hgranted
    obtain ⟨winner, hwinner, haccess, hbelow⟩ := exists_winner hkind hgranted
    have hmem := hkept winner hwinner (by rwa [haccess])
    obtain ⟨best, hbestMem, hbest, hbestBelow⟩ := exists_decider hother hpath (hmeas hpol) hmem
    rw [hbest, ← haccess]
    rcases hlost best hbestMem with hboth | hwrite
    · exact .inl ((hbelow best hboth).access_eq (hbestBelow winner hmem))
    · right
      cases haccess : best.access <;> rw [haccess] at hwrite <;> first | rfl | cases hwrite
  generalize policy.resolveAccess path context = granted at hall ⊢
  cases granted with
  | deny => exact ⟨nofun, nofun⟩
  | read | write => rcases hall nofun with hsame | hwrite <;>
      simp [*, FileSystemAccessMode.canRead, FileSystemAccessMode.canWrite]

end Access

/-! ## Entries in the place of symbolic ones -/

open FileSystemSandboxEntry

section Entries

variable [UrlHost] {policy : FileSystemSandboxPolicy FileUri}
    {context : FileSystemSandboxPolicyContext FileUri}
  {path : FileUri} {found : FileUri × FileSystemAccessMode} {entry : FileSystemSandboxEntry FileUri}

/-- The paths that an entry stands for, with its access. -/
def FileSystemSandboxEntry.resolved (context : FileSystemSandboxPolicyContext FileUri)
    (entry : FileSystemSandboxEntry FileUri) : List (FileUri × FileSystemAccessMode) :=
  ((entry.path.resolved context).filter fun path =>
    inferPathConvention path = inferPathConvention context.cwd).map fun path => (path, entry.access)

theorem mem_resolved :
    found ∈ entry.resolved context ↔ found.1 ∈ entry.path.resolved context ∧
      inferPathConvention found.1 = inferPathConvention context.cwd ∧ found.2 = entry.access := by
  obtain ⟨uri, access⟩ := found
  simp only [resolved, mem_map, mem_filter, decide_eq_true_eq, Prod.mk.injEq]
  constructor
  · rintro ⟨other, hother, rfl, rfl⟩
    exact ⟨hother.1, hother.2, rfl⟩
  · rintro ⟨hmem, hconv, rfl⟩
    exact ⟨uri, ⟨hmem, hconv⟩, rfl, rfl⟩

omit [UrlHost] in
theorem flatten_of_mapM {α β : Type} {f : α → Option (List β)} {xs : List α} {ys : List (List β)}
    (h : xs.mapM f = some ys) : ys.flatten = xs.flatMap fun x => (f x).getD [] := by
  induction xs generalizing ys with
  | nil =>
    cases h
    rfl
  | cons x xs ih =>
    simp only [mapM_cons, Option.bind_eq_bind, Option.bind_eq_some_iff, Option.pure_def,
      Option.some.injEq] at h
    obtain ⟨first, hfirst, rest, hrest, rfl⟩ := h
    rw [flatten_cons, ih hrest, flatMap_cons, hfirst, Option.getD_some]

omit [UrlHost] in
theorem exists_mapM_iff {α β : Type} {f : α → Option β} {xs : List α} :
    (∃ ys, xs.mapM f = some ys) ↔ ∀ x ∈ xs, (f x).isSome = true := by
  induction xs with
  | nil => simp
  | cons x xs ih =>
    rw [forall_mem_cons, ← ih, Option.isSome_iff_exists]
    simp [mapM_cons, Option.bind_eq_some_iff]

/-- The entries that take the place of one. -/
def FileSystemSandboxEntry.replacements (context : FileSystemSandboxPolicyContext FileUri)
    (entry : FileSystemSandboxEntry FileUri) : List (FileUri × FileSystemAccessMode) :=
  ((entry.materialize context.workspaceRoots).getD []).flatMap
    (FileSystemSandboxEntry.resolved context)

theorem resolvedEntries_tryMaterialize {other : FileSystemSandboxPolicy FileUri}
    (h : policy.tryMaterialize context.workspaceRoots = some other) :
    other.kind = policy.kind ∧
      other.resolvedEntries context = policy.entries.flatMap (replacements context) := by
  obtain ⟨entries, hents, rfl⟩ := Option.map_eq_some_iff.mp h
  refine ⟨rfl, ?_⟩
  change entries.flatten.flatMap (resolved context) = _
  rw [flatten_of_mapM hents, flatMap_assoc]
  rfl

theorem resolveScopedWorkspacePath_eq_some {root uri : FileUri} {subpath : List Char}
    (h : root.resolveScopedWorkspacePath subpath = some uri) : root.join subpath = .ok uri := by
  obtain ⟨conv, -, h⟩ := Option.bind_eq_some_iff.mp h
  dsimp only at h
  split at h
  · cases h
  · obtain ⟨joined, hjoined, h⟩ := Option.bind_eq_some_iff.mp h
    split at h
    · cases h
      exact Fallible.toOption_eq_some.mp hjoined
    · cases h

/-- An entry for workspace roots is the special path with its text, or a glob. -/
theorem path_of_projectRootsSubpath (context) {entryPath : FileSystemPath FileUri}
    {subpath : Option (List Char)}
    {isGlob : Bool} (h : entryPath.projectRootsSubpath = some (subpath, isGlob)) :
    (entryPath = .special (.projectRoots subpath) ∧ isGlob = false) ∨
      entryPath.resolved context = [] ∧ isGlob = true ∧ subpath.isSome := by
  unfold FileSystemPath.projectRootsSubpath at h
  split at h
  · cases h
    exact .inl ⟨rfl, rfl⟩
  · obtain ⟨_, -, hglob⟩ := Option.map_eq_some_iff.mp h
    cases hglob
    exact .inr ⟨rfl, rfl, rfl⟩
  · cases h

/-- The entries in the place of one for workspace roots. -/
theorem materialize_symbolic {roots : List FileUri} {subpath : Option (List Char)} {isGlob : Bool}
    (h : entry.path.projectRootsSubpath = some (subpath, isGlob)) :
    entry.materialize roots = if clearsGrants roots entry.access subpath then none
      else some (roots.filterMap (materializedEntry entry.access subpath isGlob)) := by
  rw [materialize, h]

/-- What a replacement grants, its entry grants. -/
theorem mem_resolved_of_replacement (h : found ∈ entry.replacements context)
    (hgrants : found.2 ≠ .deny)
    : found ∈ entry.resolved context := by
  obtain ⟨repl, hrepl, hfound⟩ := mem_flatMap.mp h
  cases hsubpath : entry.path.projectRootsSubpath with
  | none =>
    rw [materialize, hsubpath, Option.getD_some, mem_singleton] at hrepl
    rwa [hrepl] at hfound
  | some symbolic =>
    obtain ⟨subpath, isGlob⟩ := symbolic
    rw [materialize_symbolic hsubpath] at hrepl
    split at hrepl
    · cases hrepl
    obtain ⟨root, hroot, hmat⟩ := mem_filterMap.mp hrepl
    obtain ⟨hmem, hconv, haccess⟩ := mem_resolved.mp hfound
    unfold materializedEntry at hmat
    dsimp only at hmat
    split at hmat
    · rename_i uri huri
      cases hmat
      obtain ⟨hpath, rfl⟩ | ⟨-, rfl, -⟩ := path_of_projectRootsSubpath context hsubpath
      · simp only [Bool.false_and, Bool.false_eq_true, if_false, FileSystemPath.resolved,
          mem_singleton] at huri hmem
        refine mem_resolved.mpr ⟨?_, hconv, haccess⟩
        rw [hpath]
        refine mem_filterMap.mpr ⟨root, hroot, ?_⟩
        cases subpath with
        | none =>
          cases huri
          exact congrArg some hmem.symm
        | some subpath =>
          have hjoin := resolveScopedWorkspacePath_eq_some huri
          change (root.join subpath).toOption = _
          rw [hjoin, hmem]
          rfl
      · simp [FileSystemPath.resolved] at hmem
    · split at hmat <;> cases hmat
      exact absurd haccess hgrants

/-- The text of an entry resolves against a root, and the result is not carried over. -/
structure LosesPath (context : FileSystemSandboxPolicyContext FileUri)
    (entry : FileSystemSandboxEntry FileUri) (uri : FileUri) (root : FileUri)
    (subpath : List Char) :
    Prop where
  symbolic : entry.path = .special (.projectRoots (some subpath))
  isRoot : root ∈ context.workspaceRoots
  joined : root.join subpath = .ok uri
  rejected : root.resolveScopedWorkspacePath subpath = none

/-- What an entry stands for has a replacement or is lost. -/
theorem replacement_or_loses (hsome : (entry.materialize context.workspaceRoots).isSome = true)
    (h : found ∈ entry.resolved context) :
    found ∈ entry.replacements context ∨ ∃ root subpath,
      LosesPath context entry found.1 root subpath := by
  obtain ⟨hmem, hconv, haccess⟩ := mem_resolved.mp h
  obtain ⟨entryPath, access⟩ := entry
  cases hsubpath : entryPath.projectRootsSubpath with
  | none =>
    refine .inl (mem_flatMap.mpr ⟨⟨entryPath, access⟩, ?_, h⟩)
    simp [materialize, hsubpath]
  | some found' =>
    obtain ⟨subpath, isGlob⟩ := found'
    have hmat : materialize context.workspaceRoots ⟨entryPath, access⟩ = _ :=
      materialize_symbolic hsubpath
    rw [hmat] at hsome
    split at hsome
    · cases hsome
    rename_i hclears
    rw [if_neg hclears] at hmat
    obtain ⟨rfl, rfl⟩ | ⟨hnone, -⟩ := path_of_projectRootsSubpath context hsubpath
    swap
    · rw [hnone] at hmem
      cases hmem
    obtain ⟨root, hroot, huri⟩ := mem_filterMap.mp hmem
    -- an entry of this root with the same path
    have hkept : materializedEntry access subpath false root = some ⟨.path found.1, access⟩ →
        found ∈ replacements context ⟨.special (.projectRoots subpath), access⟩ := by
      intro hentry
      refine mem_flatMap.mpr ⟨⟨.path found.1, access⟩, ?_, ?_⟩
      · rw [hmat]
        exact mem_filterMap.mpr ⟨root, hroot, hentry⟩
      · exact mem_resolved.mpr ⟨mem_singleton_self _, hconv, haccess⟩
    cases subpath with
    | none =>
      cases huri
      exact .inl (hkept rfl)
    | some subpath =>
      have hjoined : root.join subpath = .ok found.1 := Fallible.toOption_eq_some.mp huri
      cases hscoped : root.resolveScopedWorkspacePath subpath with
      | none => exact .inr ⟨root, subpath, rfl, hroot, hjoined, hscoped⟩
      | some uri =>
        have hsame : uri = found.1 :=
          Except.ok.inj ((resolveScopedWorkspacePath_eq_some hscoped).symm.trans hjoined)
        refine .inl (hkept ?_)
        simp [materializedEntry, hscoped, hsame]

end Entries

/-! ## Narrowing and agreement -/

/-- The roots have a depth and the convention of the working directory. -/
def RootsComparable [UrlHost] (context : FileSystemSandboxPolicyContext FileUri) : Prop :=
  ∀ root ∈ context.workspaceRoots, root.lexicalDepth.isSome = true ∧
    root.inferPathConvention.isSome = true ∧
    root.inferPathConvention = inferPathConvention context.cwd

/-- An entry without write access that the path is under is not carried over: its text
resolves against a root, but not as text that stays below the root. -/
def LosesDenial [UrlHost] (policy : FileSystemSandboxPolicy FileUri)
    (context : FileSystemSandboxPolicyContext FileUri) (path : FileUri) : Prop :=
  ∃ entry ∈ policy.entries, entry.access.canWrite = false ∧ ∃ uri root subpath,
    LosesPath context entry uri root subpath ∧ startsWith path uri = true

/-- Every text of an entry for workspace roots is a plain one for every root, and its root can
stand in a glob if it is one. -/
def PlainEntries (policy : FileSystemSandboxPolicy FileUri) (roots : List FileUri) : Prop :=
  ∀ entry ∈ policy.entries, ∀ subpath isGlob,
    entry.path.projectRootsSubpath = some (some subpath, isGlob) →
      ∀ root ∈ roots, ∀ convention ∈ root.inferPathConvention,
        FileUri.PlainSubpath root convention subpath ∧
          convention.homeRelativeSuffix subpath = none ∧
          (isGlob = true → root.validateGlobDirectory convention = true)

section Materialize

variable [UrlHost] {policy other : FileSystemSandboxPolicy FileUri}
  {context : FileSystemSandboxPolicyContext FileUri} {path : FileUri}

/-- A resolved entry of a policy has a replacement or is lost. -/
theorem mem_or_loses (h : policy.tryMaterialize context.workspaceRoots = some other)
    {found : FileUri × FileSystemAccessMode} (hfound : found ∈ policy.resolvedEntries context) :
    found ∈ other.resolvedEntries context ∨ ∃ entry ∈ policy.entries, found.2 = entry.access ∧
      ∃ root subpath, LosesPath context entry found.1 root subpath := by
  obtain ⟨entries, hents, -⟩ := Option.map_eq_some_iff.mp h
  obtain ⟨entry, hentry, hresolved⟩ := mem_flatMap.mp hfound
  rcases replacement_or_loses (exists_mapM_iff.mp ⟨entries, hents⟩ entry hentry)
    hresolved with hkept | hlost
  · left
    rw [(resolvedEntries_tryMaterialize h).2]
    exact mem_flatMap.mpr ⟨entry, hentry, hkept⟩
  · exact .inr ⟨entry, hentry, (mem_resolved.mp hresolved).2.2, hlost⟩

/-- The entries of the symbolic policy can be compared if those of the concrete one can. -/
theorem measurable_of_materialized (hroots : RootsComparable context)
    (h : policy.tryMaterialize context.workspaceRoots = some other)
    (hmeas : Measurable (other.resolvedEntries context)) :
    Measurable (policy.resolvedEntries context) := by
  intro found hfound
  rcases mem_or_loses h hfound with hkept | ⟨entry, -, -, root, subpath, hlost⟩
  · exact hmeas found hkept
  · obtain ⟨hdepth, hsome, hcwd⟩ := hroots root hlost.isRoot
    obtain ⟨convention, hconv⟩ := Option.isSome_iff_exists.mp hsome
    have hsame : found.1.inferPathConvention = some convention := by
      obtain ⟨_, _, hresolved⟩ := mem_flatMap.mp hfound
      exact (mem_resolved.mp hresolved).2.1.trans (hcwd.symm.trans hconv)
    exact FileUri.join_measured hdepth hconv hlost.joined hsame

/-- A policy that loses no denial above a path grants no more there when it is materialized. -/
theorem resolveAccess_tryMaterialize_le (hkind : policy.kind = .restricted)
    (hroots : RootsComparable context) (hloses : ¬ LosesDenial policy context path)
    (h : policy.tryMaterialize context.workspaceRoots = some other) :
    ((other.resolveAccess path context).canRead = true →
      (policy.resolveAccess path context).canRead = true) ∧
      ((other.resolveAccess path context).canWrite = true →
        (policy.resolveAccess path context).canWrite = true) := by
  obtain ⟨hotherKind, hresolved⟩ := resolvedEntries_tryMaterialize h
  refine resolveAccess_le (hotherKind.trans hkind) hkind (measurable_of_materialized hroots h) ?_ ?_
  · intro entry hentry hgrants
    obtain ⟨hmem, hdepth, hunder⟩ := mem_entriesAbove.mp hentry
    refine mem_entriesAbove.mpr ⟨?_, hdepth, hunder⟩
    rw [hresolved] at hmem
    obtain ⟨source, hsrc, hrepl⟩ := mem_flatMap.mp hmem
    exact mem_flatMap.mpr ⟨source, hsrc, mem_resolved_of_replacement hrepl hgrants⟩
  · intro entry hentry
    obtain ⟨hmem, hdepth, hunder⟩ := mem_entriesAbove.mp hentry
    rcases mem_or_loses h hmem with hkept | ⟨source, hsrc, haccess, root, subpath, hlost⟩
    · exact .inl (mem_entriesAbove.mpr ⟨hkept, hdepth, hunder⟩)
    · right
      by_contra hnarrows
      refine hloses ⟨source, hsrc, ?_, entry.root, root, subpath, hlost, hunder⟩
      rw [← haccess]
      exact Bool.not_eq_true _ ▸ hnarrows

/-- Plain text resolves below a root. -/
theorem resolveScoped_plain {root : FileUri} {conv : PathConvention} {subpath : List Char}
    (hdepth : root.lexicalDepth.isSome = true) (hconv : root.inferPathConvention = some conv)
    (h : FileUri.PlainSubpath root conv subpath) :
    ∃ uri, root.join subpath = .ok uri ∧ root.resolveScopedWorkspacePath subpath = some uri := by
  obtain ⟨uri, hjoin, hstarts⟩ := FileUri.join_plain hdepth hconv h
  refine ⟨uri, hjoin, ?_⟩
  unfold FileUri.resolveScopedWorkspacePath
  rw [hconv]
  dsimp only [Option.bind_eq_bind, Option.bind_some]
  rw [if_neg]
  · simp [hjoin, Except.toOption, hstarts]
  · rintro (hrooted | ⟨hwindows, hrooted⟩ | hsome | ⟨hwindows, hsome⟩)
    · exact h.relative hrooted
    · exact (h.windows hwindows).1 hrooted
    · obtain ⟨seg, hseg, hdots⟩ := any_eq_true.mp hsome
      simp [h.dots seg hseg] at hdots
    · obtain ⟨seg, hseg, hcolon⟩ := any_eq_true.mp hsome
      subst hwindows
      exact (h.windows rfl).2 (Text.mem_of_mem_splitOnP hseg ':' (contains_iff_mem.mp hcolon)).1

/-- Entries for paths, root by root. -/
theorem flatMap_resolved_filterMap {access : FileSystemAccessMode} {roots : List FileUri}
    {entryOf : FileUri → Option (FileSystemSandboxEntry FileUri)} {uriOf : FileUri → Option FileUri}
    (h : ∀ root ∈ roots, ∃ uri, entryOf root = some ⟨.path uri, access⟩ ∧ uriOf root = some uri) :
    (roots.filterMap entryOf).flatMap (resolved context) =
      ((roots.filterMap uriOf).filter fun path =>
        inferPathConvention path = inferPathConvention context.cwd).map fun path =>
          (path, access) := by
  induction roots with
  | nil => rfl
  | cons root roots ih =>
    rw [forall_mem_cons] at h
    obtain ⟨⟨uri, hentry, huri⟩, hrest⟩ := h
    rw [filterMap_cons_some hentry, filterMap_cons_some huri, flatMap_cons, ih hrest, filter_cons]
    by_cases hsame : inferPathConvention uri = inferPathConvention context.cwd <;>
      simp [resolved, FileSystemPath.resolved, hsame]

/-- Plain entries are replaced by entries for the same paths. -/
theorem replacements_eq_resolved (hroots : RootsComparable context)
    (hplain : PlainEntries policy context.workspaceRoots) {entry : FileSystemSandboxEntry FileUri}
    (hentry : entry ∈ policy.entries) :
    (entry.materialize context.workspaceRoots).isSome = true ∧
      entry.replacements context = entry.resolved context := by
  obtain ⟨entryPath, access⟩ := entry
  cases hsubpath : entryPath.projectRootsSubpath with
  | none => simp [replacements, materialize, hsubpath]
  | some found =>
    obtain ⟨subpath, isGlob⟩ := found
    have hclears : clearsGrants context.workspaceRoots access subpath = false := by
      cases subpath with
      | none => simp [clearsGrants]
      | some subpath =>
        refine Bool.and_eq_false_iff.mpr (.inr ?_)
        rw [Option.any_some, any_eq_false]
        intro root hroot hsome
        obtain ⟨conv, hconv, hhome⟩ := (Option.any_eq_true _ _).mp hsome
        rw [(hplain _ hentry subpath isGlob hsubpath root hroot conv hconv).2.1] at hhome
        cases hhome
    have hmat : materialize context.workspaceRoots ⟨entryPath, access⟩ =
        some (context.workspaceRoots.filterMap (materializedEntry access subpath isGlob)) := by
      rw [materialize_symbolic hsubpath, hclears, if_neg Bool.false_ne_true]
    refine ⟨by simp [hmat], ?_⟩
    have hscoped : ∀ root ∈ context.workspaceRoots, ∀ text, subpath = some text → ∃ uri,
        root.join text = .ok uri ∧ root.resolveScopedWorkspacePath text = some uri := by
      rintro root hroot text rfl
      obtain ⟨hdepth, hsome, -⟩ := hroots root hroot
      obtain ⟨conv, hconv⟩ := Option.isSome_iff_exists.mp hsome
      exact resolveScoped_plain hdepth hconv
        (hplain _ hentry text isGlob hsubpath root hroot conv hconv).1
    unfold replacements
    rw [hmat, Option.getD_some]
    obtain ⟨rfl, rfl⟩ | ⟨hnone, rfl, htext⟩ := path_of_projectRootsSubpath context hsubpath
    · refine flatMap_resolved_filterMap fun root hroot => ?_
      cases subpath with
      | none => exact ⟨root, rfl, rfl⟩
      | some text =>
        obtain ⟨uri, hjoin, hpath⟩ := hscoped root hroot text rfl
        refine ⟨uri, by simp [materializedEntry, hpath], ?_⟩
        change (root.join text).toOption = some uri
        rw [hjoin]
        rfl
    · -- globs stand for no paths
      obtain ⟨text, rfl⟩ := Option.isSome_iff_exists.mp htext
      rw [show resolved context ⟨entryPath, access⟩ = [] by simp [resolved, hnone],
        flatMap_eq_nil_iff]
      intro repl hrepl
      obtain ⟨root, hroot, hmaterialized⟩ := mem_filterMap.mp hrepl
      obtain ⟨uri, -, hpath⟩ := hscoped root hroot text rfl
      obtain ⟨-, hsome, -⟩ := hroots root hroot
      obtain ⟨conv, hconv⟩ := Option.isSome_iff_exists.mp hsome
      have hvalid := (hplain _ hentry text true hsubpath root hroot conv hconv).2.2 rfl
      simp only [materializedEntry, hconv, hvalid, hpath, Option.all_some, Bool.not_true,
        Bool.and_false, Bool.false_eq_true, if_false, if_true, Option.some.injEq] at hmaterialized
      rw [← hmaterialized]
      rfl

/-- A policy with plain entries only resolves to the same entries when it is materialized. -/
theorem tryMaterialize_plain (hroots : RootsComparable context)
    (hplain : PlainEntries policy context.workspaceRoots) :
    ∃ other, policy.tryMaterialize context.workspaceRoots = some other ∧ other.kind = policy.kind ∧
      other.resolvedEntries context = policy.resolvedEntries context := by
  obtain ⟨entries, hents⟩ := exists_mapM_iff.mpr fun entry hentry =>
    (replacements_eq_resolved hroots hplain hentry).1
  have htry : policy.tryMaterialize context.workspaceRoots =
      some { policy with entries := entries.flatten } := by
    simp [FileSystemSandboxPolicy.tryMaterialize, hents]
  obtain ⟨hkind, hresolved⟩ := resolvedEntries_tryMaterialize htry
  refine ⟨_, htry, hkind, hresolved.trans ?_⟩
  refine flatMap_congr fun entry hentry => ?_
  exact (replacements_eq_resolved hroots hplain hentry).2

/-- Cleared grants deny every path. -/
theorem resolveAccess_cleared (path : FileUri) :
    (⟨.restricted, []⟩ : FileSystemSandboxPolicy FileUri).resolveAccess path context = .deny := by
  by_contra hgranted
  obtain ⟨winner, hwinner, -⟩ := exists_winner rfl hgranted
  cases hwinner

end Materialize

/-- **Materialized workspace roots.** Materializing a policy widens the access to no path unless a
narrowing entry above the path is lost, and changes no access if every text for workspace
roots is relative, without dots and home directories, and plain for every root. -/
theorem resolveAccess_materialize [UrlHost] (policy : FileSystemSandboxPolicy FileUri)
    (context : FileSystemSandboxPolicyContext FileUri) (hkind : policy.kind = .restricted)
    (hroots : RootsComparable context) :
    (∀ path, ¬ LosesDenial policy context path →
      (((policy.materialize context.workspaceRoots).resolveAccess path context).canRead = true →
        (policy.resolveAccess path context).canRead = true) ∧
      (((policy.materialize context.workspaceRoots).resolveAccess path context).canWrite = true →
        (policy.resolveAccess path context).canWrite = true)) ∧
      (PlainEntries policy context.workspaceRoots → ∀ path,
        (policy.materialize context.workspaceRoots).resolveAccess path context =
          policy.resolveAccess path context) := by
  unfold FileSystemSandboxPolicy.materialize
  constructor
  · intro path hloses
    cases htry : policy.tryMaterialize context.workspaceRoots with
    | none =>
      rw [Option.getD_none, resolveAccess_cleared]
      exact ⟨nofun, nofun⟩
    | some other => exact resolveAccess_tryMaterialize_le hkind hroots hloses htry
  · intro hplain path
    obtain ⟨other, htry, hotherKind, hresolved⟩ := tryMaterialize_plain hroots hplain
    rw [htry, Option.getD_some]
    unfold FileSystemSandboxPolicy.resolveAccess
    rw [hotherKind, hresolved]

section Samples

open SampleHosts

/-- The directory `/w`, with everything readable and a directory below it writable. -/
def sampleContext : FileSystemSandboxPolicyContext FileUri :=
  ⟨.file none [⟨['w'], by decide⟩] false, [.file none [⟨['w'], by decide⟩] false], none⟩

/-- Everything may be read, and a directory of the workspace written. -/
def samplePolicy : FileSystemSandboxPolicy FileUri :=
  ⟨.restricted, [⟨.special .root, .read⟩, ⟨.special (.projectRoots (some ['a'])), .write⟩]⟩

theorem resolveAccess_materialize_sample :
    (samplePolicy.materialize sampleContext.workspaceRoots).resolveAccess
        (.file none [⟨['w'], by decide⟩, ⟨['a'], by decide⟩] false) sampleContext = .write ∧
      samplePolicy.resolveAccess
        (.file none [⟨['w'], by decide⟩, ⟨['a'], by decide⟩] false) sampleContext = .write := by
  have hroots : RootsComparable sampleContext := by
    unfold RootsComparable
    decide +kernel
  have hplain : PlainEntries samplePolicy sampleContext.workspaceRoots := by
    intro entry hentry subpath isGlob hsubpath root hroot convention hconv
    simp only [samplePolicy, sampleContext, mem_cons, not_mem_nil, or_false] at hentry hroot
    subst hroot
    cases hconv
    rcases hentry with rfl | rfl
    · cases hsubpath
    · cases hsubpath
      refine ⟨⟨by decide, by decide, by decide +kernel, by decide, ?_⟩, rfl, by decide⟩
      intro _ hnames
      cases hnames
  have hsame := (resolveAccess_materialize samplePolicy sampleContext rfl hroots).2 hplain
  have hwrite : samplePolicy.resolveAccess
      (.file none [⟨['w'], by decide⟩, ⟨['a'], by decide⟩] false) sampleContext = .write := by
    decide +kernel
  exact ⟨(hsame _).trans hwrite, hwrite⟩

/-- A directory beside the root that may only be read. -/
def siblingPolicy : FileSystemSandboxPolicy FileUri :=
  ⟨.restricted, [⟨.special .root, .write⟩,
    ⟨.special (.projectRoots (some ['.', '.', '/', 'x'])), .read⟩]⟩

/-- A Windows directory with a file whose name has a colon in it. -/
def streamPolicy : FileSystemSandboxPolicy FileUri :=
  ⟨.restricted, [⟨.special (.projectRoots none), .write⟩,
    ⟨.special (.projectRoots (some ['a', 'b', ':', 'c'])), .read⟩]⟩

/-- A workspace on Windows. -/
def windowsContext : FileSystemSandboxPolicyContext FileUri :=
  ⟨.file none [⟨['C', ':'], by decide⟩, ⟨['w'], by decide⟩] false,
    [.file none [⟨['C', ':'], by decide⟩, ⟨['w'], by decide⟩] false], none⟩

/-- The directory beside the root may be written once the policy is materialized, and the colon
denies the whole Windows directory. -/
theorem resolveAccess_materialize_widened :
    (RootsComparable sampleContext ∧
      siblingPolicy.resolveAccess (.file none [⟨['x'], by decide⟩] false) sampleContext = .read ∧
      (siblingPolicy.materialize sampleContext.workspaceRoots).resolveAccess
        (.file none [⟨['x'], by decide⟩] false) sampleContext = .write) ∧
      RootsComparable windowsContext ∧
        streamPolicy.resolveAccess windowsContext.cwd windowsContext = .write ∧
        (streamPolicy.materialize windowsContext.workspaceRoots).resolveAccess windowsContext.cwd
          windowsContext = .deny := by
  unfold RootsComparable
  decide +kernel

end Samples

end Permissions

end RenCrow
