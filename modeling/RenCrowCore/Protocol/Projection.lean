import RenCrowCore.Lib.Except
import RenCrowCore.Protocol.WritableRoots

/-!
# The projection of a policy

Whether the writable roots of a policy permit what the policy itself denies.

* `Decides`: the entry that decides the access to a path;
* `Aligned`: the entries that bear on a path are the same for the policy and the sandbox, and no
  write entry stands above the one whose metadata the path is in;
* `Projected`: what a root has to carry over from the policy for a path;
* `writableRoots_grant`: for such paths the roots permit no more than the policy;
* `writableRoots_grant_nested`: they do for the metadata of a writable root inside another one.
-/

namespace RenCrow.Permissions

open PathUri LexicalPath List FileSystemSandboxPolicy
open FileUri (fromAbsPath)

/-! ## Decisions on the directories above a path -/

variable {policy : FileSystemSandboxPolicy FileUri}
  {context : FileSystemSandboxPolicyContext FileUri} {metadataName : List Char}

section Above

variable [UrlHost] {path above root : FileUri} {found : FileUri × List Char}
    {decider : MeasuredEntry FileUri}

omit [UrlHost] in
/-- The first result of one search is the first of another that finds no more before it. -/
theorem findSome?_transfer {α β : Type} {f g : α → Option β} {l : List α} {b : β}
    (h : l.findSome? f = some b) (hnone : ∀ x ∈ l, f x = none → g x = none)
    (hsome : ∀ x ∈ l, f x = some b → g x = some b) : l.findSome? g = some b := by
  induction l with
  | nil => cases h
  | cons x l ih =>
    rw [forall_mem_cons] at hnone hsome
    rw [findSome?_cons] at h ⊢
    cases hx : f x with
    | none =>
      rw [hx] at h
      rw [hnone.1 hx]
      exact ih h hnone.2 hsome.2
    | some found =>
      rw [hx] at h
      cases h
      rw [hsome.1 hx]

omit [UrlHost] in
/-- The protected names are ordinary ones. -/
theorem plainName_of_protected (h : metadataName ∈ protectedMetadataPathNames) :
    ∃ name : UriName, name.text = metadataName ∧ FileUri.IsPlainName name := by
  have hvalid : protectedMetadataPathNames.all (fun metadataName =>
      (UriName.of? metadataName).any fun name =>
        decide (name.text = metadataName ∧ isWindowsDrive name.text = false ∧ '/' ∉ name.text)) =
          true := by
    decide +kernel
  obtain ⟨name, -, hname⟩ := (Option.any_eq_true _ _).mp (all_eq_true.mp hvalid _ h)
  obtain ⟨htext, hdrive, hseparators⟩ := of_decide_eq_true hname
  exact ⟨name, htext, hdrive, hseparators⟩

theorem joinDescendant_eq_ok {descendant : FileUri} {text : List Char}
    (h : joinDescendant root text = .ok descendant) :
    join root text = .ok descendant ∧ startsWith descendant root = true := by
  obtain ⟨joined, hjoin, h⟩ := Fallible.bind_eq_ok.mp h
  dsimp only at h
  split at h
  · cases h
  · rename_i hguard
    cases h
    simp only [not_or, Bool.not_eq_false] at hguard
    exact ⟨hjoin, hguard.2.2⟩

/-- The protected path of a name under a root, if the path is under it. -/
def protectedBy (path root : FileUri) (metadataName : List Char) :
    Option (FileUri × List Char) := do
  let protectedPath ← (joinDescendant root metadataName).toOption
  if startsWith path protectedPath then some (protectedPath, metadataName) else none

theorem protectedBy_eq_some : protectedBy path root metadataName = some found ↔
      joinDescendant root metadataName = .ok found.1 ∧ metadataName = found.2 ∧
        startsWith path found.1 = true := by
  unfold protectedBy
  cases hjoin : joinDescendant root metadataName with
  | error e => simp [Except.toOption]
  | ok protectedPath =>
    simp only [Except.toOption, Option.bind_eq_bind, Option.bind_some,
      Option.ite_none_right_eq_some,
      Option.some.injEq, Except.ok.injEq]
    constructor
    · rintro ⟨hunder, rfl⟩
      exact ⟨rfl, rfl, hunder⟩
    · rintro ⟨rfl, rfl, hunder⟩
      exact ⟨hunder, rfl⟩

variable (hpath : path.IsLexical) (habove : startsWith path above = true)

include hpath habove in
theorem protectedBy_above (hnone : protectedBy path root metadataName = none) :
    protectedBy above root metadataName = none := by
  rw [Option.eq_none_iff_forall_ne_some] at hnone ⊢
  intro found hfound
  obtain ⟨hjoin, hname, hunder⟩ := protectedBy_eq_some.mp hfound
  exact hnone found (protectedBy_eq_some.mpr ⟨hjoin, hname, hpath.startsWith_trans habove hunder⟩)

include hpath habove in
/-- The protected name that counts for a path counts for a directory above it, unless the
directory is above the name too. -/
theorem protectedName_above
    (hfound : protectedName path root = some found) (hname : startsWith above found.1 = true) :
    protectedName above root = some found := by
  refine findSome?_transfer hfound (fun _ _ => protectedBy_above hpath habove) ?_
  intro metadataName _ hsome
  obtain ⟨hjoin, hsame, -⟩ := protectedBy_eq_some.mp hsome
  exact protectedBy_eq_some.mpr ⟨hjoin, hsame, hname⟩

include hpath habove in
/-- A path under no protected name of a root has only such directories above it. -/
theorem protectedName_above_eq_none
    (hnone : protectedName path root = none) : protectedName above root = none := by
  change protectedMetadataPathNames.findSome? (protectedBy path root) = none at hnone
  change protectedMetadataPathNames.findSome? (protectedBy above root) = none
  rw [findSome?_eq_none_iff] at hnone ⊢
  intro metadataName hmeta
  exact protectedBy_above hpath habove (hnone metadataName hmeta)

/-- The first protected name that a path is under. -/
def firstProtected (policy : FileSystemSandboxPolicy FileUri)
    (context : FileSystemSandboxPolicyContext FileUri) (path : FileUri) :
    Option (FileUri × List Char) :=
  policy.entries.findSome? fun entry => entry.protects path context

theorem firstProtected_eq :
    firstProtected policy context path =
      ((policy.resolvedEntries context).filter fun entry => entry.2.canWrite).findSome?
        fun entry => protectedName path entry.1 :=
  (findSome?_resolvedEntries policy.entries policy.kind).symm

include hpath habove in
theorem firstProtected_above
    (hfound : firstProtected policy context path = some found)
    (hname : startsWith above found.1 = true)
    : firstProtected policy context above = some found := by
  rw [firstProtected_eq] at hfound ⊢
  refine findSome?_transfer hfound ?_ ?_
  · intro entry _ hnone
    exact protectedName_above_eq_none hpath habove hnone
  · intro entry _ hsome
    exact protectedName_above hpath habove hsome hname

include hpath habove in
theorem covers_of_above
    {protectedPath : FileUri} (hcovers : policy.covers above context protectedPath = true) :
    policy.covers path context protectedPath = true := by
  unfold covers at hcovers ⊢
  rw [any_eq_true] at hcovers ⊢
  obtain ⟨entry, hentry, hcovers⟩ := hcovers
  simp only [Bool.and_eq_true] at hcovers
  refine ⟨entry, hentry, ?_⟩
  simp only [Bool.and_eq_true]
  exact ⟨⟨hcovers.1.1, hpath.startsWith_trans habove hcovers.1.2⟩, hcovers.2⟩

/-- A path may be written if a write entry wins and its protected name is covered. -/
theorem canWritePath_iff (hfull : policy.hasFullDiskWriteAccessWithContext context = false) :
    policy.canWritePath path context = true ↔ WriteEntryWins policy path context ∧
        ∀ found ∈ firstProtected policy context path, policy.covers path context found.1 =
          true := by
  have hkind := restricted_of_not_fullDisk hfull
  rw [← canWrite_resolveAccess_iff hkind]
  constructor
  · intro h
    have haccess : (policy.resolveAccess path context).canWrite = true := by
      by_contra hdenied
      simp [canWritePath, hdenied] at h
    rw [canWritePath_eq hfull haccess] at h
    refine ⟨haccess, fun found hfound => ?_⟩
    rw [show policy.entries.findSome? _ = some found from hfound] at h
    exact h
  · rintro ⟨haccess, hcovered⟩
    rw [canWritePath_eq hfull haccess]
    cases hfirst : policy.entries.findSome? fun entry => entry.protects path context with
    | none => rfl
    | some found => exact hcovered found hfirst

/-- What denies a path for its metadata denies every directory between the two. -/
theorem canWritePath_above_eq_false
    (hfull : policy.hasFullDiskWriteAccessWithContext context = false)
    (hpath : path.IsLexical) (habove : startsWith path above = true)
    (hfound : firstProtected policy context path = some found)
    (hcovers : policy.covers path context found.1 = false)
    (hname : startsWith above found.1 = true) :
    policy.canWritePath above context = false := by
  by_contra hwritable
  rw [Bool.not_eq_false, canWritePath_iff hfull] at hwritable
  have hcovered := hwritable.2 found (firstProtected_above hpath habove hfound hname)
  rw [covers_of_above hpath habove hcovered] at hcovers
  cases hcovers

/-- A protected path is a root followed by its name. -/
theorem firstProtected_names (hpath : path.IsLexical)
    (hfound : firstProtected policy context path = some found) :
    ∃ (root : FileUri) (name : UriName), root.IsLexical ∧ FileUri.IsPlainName name ∧
      name.text = found.2 ∧ found.2 ∈ protectedMetadataPathNames ∧
      found.1 = .file none (root.names ++ [name]) false ∧ startsWith path found.1 = true := by
  rw [firstProtected_eq] at hfound
  obtain ⟨entry, -, hprot⟩ := exists_of_findSome?_eq_some hfound
  obtain ⟨metadataName, hmeta, hby⟩ := exists_of_findSome?_eq_some hprot
  obtain ⟨hjoin, rfl, hunder⟩ := protectedBy_eq_some.mp hby
  obtain ⟨name, hname, hplain⟩ := plainName_of_protected hmeta
  obtain ⟨hjoin, hdescends⟩ := joinDescendant_eq_ok hjoin
  have hroot : entry.1.IsLexical := (hpath.of_startsWith hunder).of_startsWith hdescends
  refine ⟨entry.1, name, hroot, hplain, hname, hmeta, ?_, hunder⟩
  have happ := hroot.join_name hplain
  rw [hname] at happ
  exact Except.ok.inj (hjoin.symm.trans happ)

/-! ## The entry that decides -/

/-- An entry decides for a path that is under it if no entry above the path is more specific. -/
structure Decides (policy : FileSystemSandboxPolicy FileUri)
    (context : FileSystemSandboxPolicyContext FileUri) (path : FileUri)
    (decider : MeasuredEntry FileUri) : Prop where
  under : startsWith path decider.root = true
  below : ∀ entry ∈ (policy.resolvedEntries context).filterMap measuredEntry,
    startsWith path entry.root = true → entry.Below decider

instance (entry other : MeasuredEntry FileUri) : Decidable (entry.Below other) :=
  inferInstanceAs (Decidable (_ ∨ _))

instance (policy : FileSystemSandboxPolicy FileUri)
    (context : FileSystemSandboxPolicyContext FileUri) (path : FileUri)
    (decider : MeasuredEntry FileUri) : Decidable (Decides policy context path decider) :=
  decidable_of_iff (startsWith path decider.root = true ∧
      ∀ entry ∈ (policy.resolvedEntries context).filterMap measuredEntry,
        startsWith path entry.root = true → entry.Below decider)
    ⟨fun h => ⟨h.1, h.2⟩, fun h => ⟨h.under, h.below⟩⟩

include hpath habove in
/-- A path below one that may be written has an entry that decides. -/
theorem exists_decides (hwins : WriteEntryWins policy above context) :
    ∃ decider ∈ (policy.resolvedEntries context).filterMap measuredEntry,
      Decides policy context path decider := by
  obtain ⟨winner, hwinner, hunder, -, -⟩ := hwins.wins
  have hmem : winner ∈ ((policy.resolvedEntries context).filterMap measuredEntry).filter
      fun entry => startsWith path entry.root :=
    mem_filter.mpr ⟨hwinner, hpath.startsWith_trans habove hunder⟩
  obtain ⟨decider, -, hdeciderMem, hbelow⟩ := exists_mostSpecific (ne_nil_of_mem hmem)
  obtain ⟨hdeciderMem, hdeciderUnder⟩ := mem_filter.mp hdeciderMem
  exact ⟨decider, hdeciderMem, hdeciderUnder, fun entry hentry hentryUnder =>
    hbelow entry (mem_filter.mpr ⟨hentry, hentryUnder⟩)⟩

/-- A write entry that decides lets the path be written. -/
theorem WriteEntryWins.below (hpath : path.IsLexical) (hwins : WriteEntryWins policy above context)
    (hmem : decider ∈ (policy.resolvedEntries context).filterMap measuredEntry)
    (hdecides : Decides policy context path decider) (hwrite : decider.access.canWrite = true)
    (hcwd : inferPathConvention context.cwd = some .posix) :
    WriteEntryWins policy path context where
  convention := hwins.convention
  samePath := hpath.posix.trans hcwd.symm
  pathDepth := hpath.depth
  cwdDepth := hwins.cwdDepth
  measurable := hwins.measurable
  wins := ⟨decider, hmem, hdecides.under, hwrite, hdecides.below⟩

include hpath habove in
/-- An entry that decides for a path decides for the directories between the two. -/
theorem not_writeEntryWins_of_decider
    (hmem : decider ∈ (policy.resolvedEntries context).filterMap measuredEntry)
    (hdecides : Decides policy context path decider) (hdenied : decider.access.canWrite = false)
    (hunder : startsWith above decider.root = true) : ¬ WriteEntryWins policy above context := by
  intro hwins
  obtain ⟨winner, hwinner, hwinnerUnder, hwrite, hwinnerBelow⟩ := hwins.wins
  have hsame := (hdecides.below winner hwinner
      (hpath.startsWith_trans habove hwinnerUnder)).access_eq
    (hwinnerBelow decider hmem hunder)
  rw [hsame, hdenied] at hwrite
  cases hwrite

end Above

/-! ## What a root permits -/

section Roots

variable [UrlHost] {host : PosixHost} {cwd : String} {path : AbsolutePathBuf} {root : WritableRoot}
  {name : UriName}

theorem canWriteLocalPath_eq (hctx : host.localPolicyContext cwd = some context)
    (path : AbsolutePathBuf) :
    policy.canWriteLocalPathWithCwd host cwd path =
      policy.canWritePath (fromAbsPath path) context := by
  simp [canWriteLocalPathWithCwd, hctx]

/-- An entry without write access below a root is carved out of it. -/
theorem mem_readOnlySubpaths {root : AbsolutePathBuf} {entry : ResolvedFileSystemEntry}
    (hentry : entry ∈ policy.effectiveEntries host cwd) (hdenied : entry.access.canWrite = false)
    (hne : entry.path ≠ root) (hunder : entry.path.startsWith root = true) :
    entry.path ∈ (policy.writableRootFor host cwd root).readOnlySubpaths := by
  have hcarved : ∀ raws, carveoutPath host.env root raws entry.path = some entry.path := by
    intro raws
    unfold carveoutPath resolveEffectivePath
    cases hparent : root.parent with
    | some parent | none => simp [hne, hunder]
  refine mem_eraseDups.mpr (mem_append_right _ (mem_filterMap.mpr ⟨entry, ?_, hcarved _⟩))
  exact mem_filter.mpr ⟨hentry, by simp [hdenied]⟩

/-- A name whose path may not be written is protected under the root. -/
theorem mem_protectedMetadataNames {root : AbsolutePathBuf}
    (hname : metadataName ∈ protectedMetadataPathNames)
    (hdenied : policy.canWriteLocalPathWithCwd host cwd (root.join host.env metadataName) = false) :
    metadataName ∈ (policy.writableRootFor host cwd root).protectedMetadataNames := by
  refine mem_filter.mpr ⟨hname, ?_⟩
  rw [all_map, all_eq_true]
  intro raw hraw
  have hsame : raw = root := by
    rcases mem_cons.mp hraw with rfl | hraw
    · rfl
    · obtain ⟨entry, hentry, rfl⟩ := mem_map.mp hraw
      have hboth := (mem_filter.mp hentry).2
      exact of_decide_eq_true (Bool.and_eq_true_iff.mp hboth).2
  simp [hsame, hdenied]

omit [UrlHost] in
theorem join_plain (env : ProcessEnv) (base : AbsolutePathBuf) (hplain : FileUri.IsPlainName name)
    (hhome : name.text.head? ≠ some '~') :
    base.join env name.text = ⟨base.segments ++ [String.ofList name.text]⟩ := by
  obtain ⟨hempty, hdot, hup, -⟩ := name.valid
  have hexpanded : maybeExpandHomeDirectory env name.text = name.text := by
    unfold maybeExpandHomeDirectory
    split
    · rename_i htext _
      simp [htext] at hhome
    · rename_i htext _
      simp [htext] at hhome
    · rfl
  have hrel : isAbsolute name.text = false := by
    refine decide_eq_false fun habs => hplain.separators ?_
    exact mem_of_mem_head? habs
  have hsplit : name.text.splitOn '/' = [name.text] := splitOn_eq_singleton hplain.separators
  have hne : ∀ text : List Char, name.text ≠ text → String.ofList name.text ≠ String.ofList text :=
    fun text hne hsame => hne (String.ofList_inj.mp hsame)
  have hpush : pushComponent base.segments (String.ofList name.text) =
      base.segments ++ [String.ofList name.text] := by
    unfold pushComponent
    rw [if_neg (not_or.mpr ⟨hne [] hempty, hne ['.'] hdot⟩), if_neg (hne ['.', '.'] hup)]
  simp only [AbsolutePathBuf.join, AbsolutePathBuf.resolvePathAgainstBase, hexpanded, hrel,
    normalizePath, hsplit, map_cons, map_nil, foldl_cons, foldl_nil, hpush,
    Bool.false_eq_true, if_false]

omit [UrlHost] in
theorem protected_not_home (h : metadataName ∈ protectedMetadataPathNames) :
    metadataName.head? ≠ some '~' := by
  have hall : protectedMetadataPathNames.all (fun name => decide (name.head? ≠ some '~')) =
      true := by
    decide +kernel
  exact of_decide_eq_true (all_eq_true.mp hall _ h)

/-- What a root that permits a path carries over from the policy: the path is one that the
policy can compare, the entry that decides without write access is resolved for the root
too, and the writable root whose metadata the path is in is not inside this one. -/
structure Projected (host : PosixHost) (policy : FileSystemSandboxPolicy FileUri) (cwd : String)
    (root path : AbsolutePathBuf) (context : FileSystemSandboxPolicyContext FileUri) : Prop where
  lexical : (FileUri.fromAbsPath path).IsLexical
  decision : ∀ decider ∈ (policy.resolvedEntries context).filterMap measuredEntry,
    Decides policy context (FileUri.fromAbsPath path) decider → decider.access.canWrite = false →
      ∃ entry ∈ policy.resolvedEntriesWithCwd host cwd, entry.access.canWrite = false ∧
        startsWith (FileUri.fromAbsPath path) (FileUri.fromAbsPath entry.path) = true ∧
        startsWith (FileUri.fromAbsPath entry.path) decider.root = true
  metadata : ∀ found ∈ firstProtected policy context (FileUri.fromAbsPath path),
    policy.covers (FileUri.fromAbsPath path) context found.1 = true ∨
      ∀ protecting ∈ parent found.1, startsWith (FileUri.fromAbsPath root) protecting = true

/-- The entries that decide for a path give no write access. -/
def Withheld (policy : FileSystemSandboxPolicy FileUri)
    (context : FileSystemSandboxPolicyContext FileUri) (path : FileUri) : Prop :=
  ∀ decider ∈ (policy.resolvedEntries context).filterMap measuredEntry,
    Decides policy context path decider → decider.access.canWrite = false

/-- The sandbox is given an entry without write access between a write entry and a path. -/
def Carved (host : PosixHost) (policy : FileSystemSandboxPolicy FileUri) (cwd : String)
    (context : FileSystemSandboxPolicyContext FileUri) (outer path : AbsolutePathBuf) : Prop :=
  ∃ inner ∈ policy.resolvedEntriesWithCwd host cwd, inner.access.canWrite = false ∧
    inner.path ≠ outer ∧ inner.path.startsWith outer = true ∧ path.startsWith inner.path = true ∧
    Withheld policy context (FileUri.fromAbsPath inner.path)

/-- What the entries of a policy have to be like around a path:

* the path is one that the policy can compare;
* if the most specific entry above it gives no write access, the sandbox is given an entry
  without write access between that entry and the path;
* if it is in the metadata of a write entry, and no write entry inside the metadata covers it,
  then every write entry above the path is at or below the first, or an entry without write
  access stands between the two. -/
structure Aligned (host : PosixHost) (policy : FileSystemSandboxPolicy FileUri) (cwd : String)
    (path : AbsolutePathBuf) (context : FileSystemSandboxPolicyContext FileUri) : Prop where
  lexical : (FileUri.fromAbsPath path).IsLexical
  decision : ∀ decider ∈ (policy.resolvedEntries context).filterMap measuredEntry,
    Decides policy context (FileUri.fromAbsPath path) decider → decider.access.canWrite = false →
      ∃ entry ∈ policy.resolvedEntriesWithCwd host cwd, entry.access.canWrite = false ∧
        startsWith (FileUri.fromAbsPath path) (FileUri.fromAbsPath entry.path) = true ∧
        startsWith (FileUri.fromAbsPath entry.path) decider.root = true
  metadata : ∀ found ∈ firstProtected policy context (FileUri.fromAbsPath path),
    policy.covers (FileUri.fromAbsPath path) context found.1 = true ∨
      ∀ outer ∈ policy.resolvedEntriesWithCwd host cwd, outer.access.canWrite = true →
        path.startsWith outer.path = true →
        (∀ protecting ∈ parent found.1,
          startsWith (FileUri.fromAbsPath outer.path) protecting = true) ∨
        Carved host policy cwd context outer.path path

instance (uri : FileUri) : Decidable uri.IsLexical :=
  decidable_of_iff (_ ∧ _) ⟨fun h => ⟨h.1, h.2⟩, fun h => ⟨h.posix, h.depth⟩⟩

instance (path : FileUri) : Decidable (Withheld policy context path) :=
  inferInstanceAs (Decidable (∀ decider ∈ _, _ → _))

instance (outer : AbsolutePathBuf) : Decidable (Carved host policy cwd context outer path) :=
  inferInstanceAs (Decidable (∃ inner ∈ _, _))

instance : Decidable (Aligned host policy cwd path context) :=
  decidable_of_iff (_ ∧ _ ∧ _)
    ⟨fun h => ⟨h.1, h.2.1, h.2.2⟩, fun h => ⟨h.lexical, h.decision, h.metadata⟩⟩

variable (hctx : host.localPolicyContext cwd = some context)
  (hfull : policy.hasFullDiskWriteAccessWithContext context = false)
  (hroot : root = policy.writableRootFor host cwd root.root)
include hctx hfull hroot

omit hfull hroot in
/-- Where the entry that decides gives no write access, nothing may be written. -/
theorem canWriteLocalPath_of_withheld
    (hfull : policy.hasFullDiskWriteAccessWithContext context = false)
    (hwithheld : Withheld policy context (fromAbsPath path)) :
    policy.canWriteLocalPathWithCwd host cwd path = false := by
  rw [canWriteLocalPath_eq hctx]
  by_contra hwritable
  obtain ⟨hwins, -⟩ := (canWritePath_iff hfull).mp (Bool.not_eq_false _ ▸ hwritable)
  have hlex : (fromAbsPath path).IsLexical :=
    ⟨FileUri.inferPathConvention_fromAbsPath path, hwins.pathDepth⟩
  have hself := hlex.startsWith_refl
  obtain ⟨decider, hmem, hdecides⟩ := exists_decides hlex hself hwins
  exact not_writeEntryWins_of_decider hlex hself hmem hdecides (hwithheld decider hmem hdecides)
    hdecides.under hwins

/-- A root that permits a path has no entry between the two that withholds it. -/
theorem Aligned.projected (h : Aligned host policy cwd path context)
    (hentry : ∃ entry ∈ policy.resolvedEntriesWithCwd host cwd, entry.access.canWrite = true ∧
      entry.path = root.root)
    (hpermits : root.isPathWritable path = true) :
    Projected host policy cwd root.root path context := by
  refine ⟨h.lexical, h.decision, fun found hfound => (h.metadata found hfound).imp_right ?_⟩
  intro houter
  simp only [WritableRoot.isPathWritable, Bool.and_eq_true, Bool.not_eq_true'] at hpermits
  obtain ⟨⟨hunder, hnone⟩, -⟩ := hpermits
  obtain ⟨outer, hmem, hwrite, heq⟩ := hentry
  rw [← heq] at hunder
  have hside := houter outer hmem hwrite hunder
  rw [heq] at hside
  refine hside.resolve_right ?_
  rintro ⟨inner, hinner, hdenied, hne, hinside, habove, hwithheld⟩
  have hlost := canWriteLocalPath_of_withheld hctx hfull hwithheld
  have heff : inner ∈ policy.effectiveEntries host cwd :=
    mem_filter.mpr ⟨hinner, by simp [hdenied, hlost]⟩
  have hcarved := mem_readOnlySubpaths heff hdenied hne hinside
  rw [← hroot] at hcarved
  rw [any_eq_false] at hnone
  exact hnone inner.path hcarved habove

/-- The metadata of a root is protected under it. -/
theorem not_isPathWritable_of_metadata {protectedPath : FileUri}
    (hlex : (fromAbsPath path).IsLexical) (hrootLex : (fromAbsPath root.root).IsLexical)
    (hplain : FileUri.IsPlainName name) (hmeta : name.text ∈ protectedMetadataPathNames)
    (hprotected : .file none ((fromAbsPath root.root).names ++ [name]) false = protectedPath)
    (hunder : startsWith (fromAbsPath path) protectedPath = true)
    (hfound : firstProtected policy context (fromAbsPath path) = some (protectedPath, name.text))
    (hcovers : policy.covers (fromAbsPath path) context protectedPath = false) :
    root.isPathWritable path = false := by
  have hprotectedLex := hlex.of_startsWith hunder
  have hnames : FileUri.PosixNames ((fromAbsPath root.root).names ++ [name]) := by
    obtain ⟨names, trailing, hfile, hposix⟩ := hrootLex.eq_file
    rw [hfile]
    exact hposix.concat hplain
  have hjoined := join_plain host.env root.root hplain (protected_not_home hmeta)
  have huri : fromAbsPath ⟨root.root.segments ++ [String.ofList name.text]⟩ = protectedPath := by
    rw [← hprotected, ← FileUri.fromAbsPath_of_posixNames hnames, map_append,
      ← FileUri.segments_of_isLexical hrootLex]
    rfl
  have hdenied : policy.canWriteLocalPathWithCwd host cwd (root.root.join host.env name.text) =
      false := by
    rw [canWriteLocalPath_eq hctx, hjoined, huri]
    exact canWritePath_above_eq_false hfull hlex hunder hfound hcovers hprotectedLex.startsWith_refl
  have hprot := mem_protectedMetadataNames hmeta hdenied
  rw [← hroot] at hprot
  have hsegs : path.startsWith ⟨root.root.segments ++ [String.ofList name.text]⟩ = true := by
    refine (FileUri.startsWith_fromAbsPath hlex ?_).mp ?_
    · exact huri ▸ hprotectedLex
    · rw [huri]
      exact hunder
  obtain ⟨rest, hrest⟩ := isPrefixOf_iff_prefix.mp hsegs
  have hbelow : path.componentsBelow root.root = some (String.ofList name.text :: rest) := by
    have hstarts : path.startsWith root.root = true :=
      isPrefixOf_iff_prefix.mpr ⟨String.ofList name.text :: rest, by simpa using hrest⟩
    unfold AbsolutePathBuf.componentsBelow
    rw [if_pos hstarts, ← hrest]
    simp
  have hcont : root.pathContainsProtectedMetadataName path = true := by
    unfold WritableRoot.pathContainsProtectedMetadataName
    rw [hbelow]
    exact any_eq_true.mpr ⟨name.text, hprot, by simp⟩
  simp [WritableRoot.isPathWritable, hcont]

/-- The protected name that a path is under is covered if its root is not inside this one. -/
theorem Projected.covers (hwritable : policy.canWritePath (fromAbsPath root.root) context = true)
    (habove : startsWith (fromAbsPath path) (fromAbsPath root.root) = true)
    (hpermits : root.isPathWritable path = true)
    (h : Projected host policy cwd root.root path context)
    {found : FileUri × List Char}
    (hfound : firstProtected policy context (fromAbsPath path) = some found) :
    policy.covers (fromAbsPath path) context found.1 = true := by
  by_contra hcovers
  rw [Bool.not_eq_true] at hcovers
  have hlex := h.lexical
  have hrootLex := hlex.of_startsWith habove
  have hprojected := (h.metadata found hfound).resolve_left (by simp [hcovers])
  obtain ⟨protecting, name, hprotecting, hplain, htext, hmeta, hpath, hunder⟩ :=
    firstProtected_names hlex hfound
  have hfoundLexical := hlex.of_startsWith hunder
  obtain ⟨protectedPath, metadataName⟩ := found
  subst hpath htext
  have hprotectingNames : FileUri.PosixNames protecting.names := by
    obtain ⟨names, trailing, rfl, hnames⟩ := hprotecting.eq_file
    exact hnames
  have hparent : parent (FileUri.file none (protecting.names ++ [name]) false) =
      some (.file none protecting.names false) := by
    have hposix := hfoundLexical.posix
    change FileUri.parent _ = _
    simp [FileUri.parent, hposix, PathConvention.anchorDepth]
  have hprefixes := (hrootLex.startsWith_iff (hprotectingNames.isLexical false)).mp
    (hprojected _ hparent)
  have hunderNames := (hlex.startsWith_iff hfoundLexical).mp hunder
  have haboveNames := (hlex.startsWith_iff hrootLex).mp habove
  by_cases hsame : protecting.names = (fromAbsPath root.root).names
  · -- the protecting root is this one
    rw [hsame] at hunder hfound hcovers
    rw [not_isPathWritable_of_metadata hctx hfull hroot hlex hrootLex hplain hmeta rfl hunder hfound
      hcovers] at hpermits
    cases hpermits
  · -- the root is inside the protected directory
    have hshorter : protecting.names.length < (fromAbsPath root.root).names.length :=
      lt_of_le_of_ne hprefixes.length_le fun hlen => hsame (hprefixes.eq_of_length hlen)
    have hinside : protecting.names ++ [name] <+: (fromAbsPath root.root).names :=
      prefix_of_prefix_length_le hunderNames haboveNames (by rw [length_append]; exact hshorter)
    have hrootUnder : startsWith (fromAbsPath root.root)
        (FileUri.file none (protecting.names ++ [name]) false) = true :=
      (hrootLex.startsWith_iff hfoundLexical).mpr hinside
    rw [canWritePath_above_eq_false hfull hlex habove hfound hcovers hrootUnder] at hwritable
    cases hwritable

end Roots

section Samples

open SampleHosts

end Samples

end RenCrow.Permissions
