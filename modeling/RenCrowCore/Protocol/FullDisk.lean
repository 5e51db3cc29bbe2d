import RenCrowCore.Protocol.Materialize

/-!
# Access to the whole disk

A policy that lets the root be read or written and narrows that nowhere answers for all paths
at once (`has_full_disk_read_access_for_convention`,
`has_full_disk_write_access_for_convention`), without looking at the entries.

* `resolved_of_sharesTarget`: entries with the same target stand for the same directory;
* `fullDisk_sound`: the answer is the one that the entries give for every path, exactly if all
  of them can be measured;
* `fullDisk_unmeasured`: an entry that cannot be measured denies everything.
-/

namespace RenCrow.Permissions

open FileUri FileSystemSandboxPolicy FileSystemAccessMode List

/-! ## Reading the whole disk -/

namespace FileSystemSandboxPolicy

variable {U : Type} [LexicalPath U]

/-- An entry denies something that exists under the convention. -/
def hasDeniedReadRestrictionsForConvention (policy : FileSystemSandboxPolicy U)
    (convention : Option PathConvention) : Bool :=
  policy.kind = .restricted && policy.entries.any fun entry =>
    entry.access = .deny && !(entry.path matches .special .slashTmp && convention = some .windows)

/-- `has_full_disk_read_access_for_convention`. -/
def hasFullDiskReadAccessForConvention (policy : FileSystemSandboxPolicy U)
    (convention : Option PathConvention) : Bool :=
  match policy.kind with
  | .unrestricted | .externalSandbox => true
  | .restricted => policy.hasRootAccess FileSystemAccessMode.canRead &&
      !policy.hasDeniedReadRestrictionsForConvention convention

end FileSystemSandboxPolicy

section Posix

variable [UrlHost] {context : FileSystemSandboxPolicyContext FileUri} {path root uri : FileUri}
  {policy : FileSystemSandboxPolicy FileUri} {entry : FileSystemSandboxEntry FileUri}
  {access : FileSystemAccessMode}

/-! ## Targets -/

/-- The URIs are lexical and name the same directory. -/
structure SameDirectory (first second : FileUri) : Prop where
  left : first.IsLexical
  right : second.IsLexical
  names : first.names = second.names

omit [UrlHost] in
theorem SameDirectory.lexicalDepth_eq (h : SameDirectory root uri) :
    root.lexicalDepth = uri.lexicalDepth := by
  obtain ⟨names, trailing, rfl, hnames⟩ := h.left.eq_file
  obtain ⟨others, ending, rfl, hothers⟩ := h.right.eq_file
  obtain rfl : names = others := h.names
  simp [FileUri.lexicalDepth, hnames.inferPathConvention]

omit [UrlHost] in
theorem SameDirectory.startsWith (h : SameDirectory root uri) (hpath : path.IsLexical)
    (hstarts : path.startsWith uri = true) : path.startsWith root = true := by
  rw [hpath.startsWith_iff h.left, h.names]
  exact (hpath.startsWith_iff h.right).mp hstarts

theorem getLast?_ancestorsWithin {names : List UriName} (h : PosixNames names) (trailing : Bool) :
    ∃ ending, (LexicalPath.ancestorsWithin names.length (file none names trailing)).getLast? =
      some (file none [] ending) := by
  induction names using List.reverseRecOn generalizing trailing with
  | nil => exact ⟨trailing, rfl⟩
  | append_singleton names last ih =>
    have hnames : PosixNames names := by
      refine ⟨fun name hname => h.drive name ?_, fun name hname =>
        h.separators name (by simp [hname])⟩
      rw [head?_append, hname]
      rfl
    have hparent : PathUri.parent (file none (names ++ [last]) trailing) =
        some (file none names false) := by
      change FileUri.parent _ = _
      simp [FileUri.parent, h.inferPathConvention, PathConvention.anchorDepth]
    obtain ⟨ending, hlast⟩ := ih hnames false
    refine ⟨ending, ?_⟩
    rw [length_append, length_singleton, LexicalPath.ancestorsWithin, hparent, Option.elim_some,
      getLast?_cons, hlast]
    rfl

/-- The root of a POSIX path has no names. -/
theorem fileSystemRoot_eq (hcwd : context.cwd.IsLexical) :
    ∃ ending, fileSystemRoot context = some (file none [] ending) := by
  obtain ⟨names, trailing, hfile, hnames⟩ := hcwd.eq_file
  have hdepth : LexicalPath.lexicalDepth context.cwd = some names.length := by
    change FileUri.lexicalDepth _ = _
    simp [hfile, FileUri.lexicalDepth, hnames.inferPathConvention, hnames.containmentNames]
  obtain ⟨ending, hlast⟩ := getLast?_ancestorsWithin hnames trailing
  refine ⟨ending, ?_⟩
  rw [fileSystemRoot, LexicalPath.ancestors, hdepth, Option.getD_some, hfile, hlast]
  rfl

/-- `/tmp`. -/
def slashTmpUri : FileUri := file none [⟨"tmp".toList, by decide⟩] false

theorem join_slashTmp (hcwd : context.cwd.IsLexical) :
    FileUri.join context.cwd "/tmp".toList = .ok slashTmpUri := by
  rw [FileUri.join, if_neg (by decide), if_neg (by decide), hcwd.posix]
  rfl

/-- A special path that matches a URI stands for its directory. -/
theorem resolved_of_matches {value : FileSystemSpecialPath} (hcwd : context.cwd.IsLexical)
    (hposix : uri.inferPathConvention = some .posix)
    (h : specialPathMatchesPathUri value uri = true) :
    ∃ root, (FileSystemPath.special value).resolved context = [root] ∧ SameDirectory root uri := by
  cases value with
  | root =>
    obtain ⟨hdepth, hparent⟩ := Bool.and_eq_true_iff.mp h
    obtain ⟨ending, hroot⟩ := fileSystemRoot_eq hcwd
    have huri : uri.IsLexical := ⟨hposix, hdepth⟩
    refine ⟨file none [] ending, by rw [FileSystemPath.resolved, hroot]; rfl, ⟨rfl, rfl⟩, huri, ?_⟩
    obtain ⟨names, trailing, rfl, hnames⟩ := huri.eq_file
    change (FileUri.parent _).isNone = true at hparent
    cases names with
    | nil => rfl
    | cons name names =>
      simp [FileUri.parent, hnames.inferPathConvention, PathConvention.anchorDepth] at hparent
  | slashTmp =>
    simp only [specialPathMatchesPathUri, Bool.and_eq_true, decide_eq_true_eq] at h
    obtain ⟨⟨-, hdepth⟩, hbase⟩ := h
    change FileUri.lexicalDepth uri = some 1 at hdepth
    have huri : uri.IsLexical := ⟨hposix, by rw [hdepth]; rfl⟩
    refine ⟨slashTmpUri, ?_, ⟨rfl, rfl⟩, huri, ?_⟩
    · rw [FileSystemPath.resolved,
        if_pos (show LexicalPath.inferPathConvention context.cwd = some .posix from hcwd.posix)]
      exact congrArg (fun joined => joined.toOption.toList) (join_slashTmp hcwd)
    · obtain ⟨names, trailing, rfl, hnames⟩ := huri.eq_file
      have hlen : names.length = 1 := by
        simpa [FileUri.lexicalDepth, hnames.inferPathConvention, hnames.containmentNames]
          using hdepth
      obtain ⟨name, rfl⟩ := length_eq_one_iff.mp hlen
      have htext : name.text = "tmp".toList := Option.some.inj hbase
      exact congrArg (fun first => [first]) (UriName.ext_text htext.symm)
  | _ => cases h

/-- **Entries with the same target** stand for the same directories. -/
theorem resolved_of_sharesTarget {target other : FileSystemPath FileUri}
    (hcwd : context.cwd.IsLexical) (h : fileSystemPathsShareTarget target other .posix = true)
    (hmem : root ∈ other.resolved context) :
    ∃ uri ∈ target.resolved context, uri = root ∨ SameDirectory uri root := by
  cases target with
  | globPattern pattern =>
    cases other with
    | globPattern other => cases hmem
    | _ => cases h
  | path uri =>
    cases other with
    | globPattern other => cases h
    | path other =>
      obtain rfl := of_decide_eq_true h
      exact ⟨root, hmem, .inl rfl⟩
    | special value =>
      obtain ⟨hposix, hmatches⟩ := Bool.and_eq_true_iff.mp h
      obtain ⟨found, hfound, hsame⟩ := resolved_of_matches hcwd (of_decide_eq_true hposix) hmatches
      rw [hfound, mem_singleton] at hmem
      exact ⟨uri, mem_singleton_self _, .inr (hmem ▸ ⟨hsame.right, hsame.left, hsame.names.symm⟩)⟩
  | special value =>
    cases other with
    | globPattern other => cases h
    | path other =>
      obtain ⟨hposix, hmatches⟩ := Bool.and_eq_true_iff.mp h
      obtain ⟨found, hfound, hsame⟩ := resolved_of_matches hcwd (of_decide_eq_true hposix) hmatches
      obtain rfl := mem_singleton.mp hmem
      exact ⟨found, by rw [hfound]; exact mem_singleton_self _, .inr hsame⟩
    | special other =>
      obtain rfl := of_decide_eq_true h
      exact ⟨root, hmem, .inl rfl⟩

/-! ## The answer for all paths -/

omit [UrlHost] in
theorem eq_write_of_canWrite (h : access.canWrite = true) : access = .write := by
  cases access with
  | write => rfl
  | _ => cases h

section Restricted

variable (hkind : policy.kind = .restricted) {predicate : FileSystemAccessMode → Bool}
include hkind

omit [UrlHost] in
theorem exists_rootEntry (h : policy.hasRootAccess predicate = true) :
    ∃ entry ∈ policy.entries, entry.path = .special .root ∧ predicate entry.access = true := by
  rw [hasRootAccess, decide_eq_true hkind, Bool.true_and] at h
  obtain ⟨entry, hentry, h⟩ := any_eq_true.mp h
  split at h
  · rename_i hroot
    exact ⟨entry, hentry, hroot, h⟩
  · cases h

/-- A policy with an entry for the root has an entry that decides on a path. -/
theorem exists_decidingEntry
    (hcwd : context.cwd.IsLexical) (hpath : path.IsLexical)
    (hmeas : Measurable (policy.resolvedEntries context))
    (hroot : policy.hasRootAccess predicate = true) :
    ∃ best ∈ entriesAbove policy context path, policy.resolveAccess path context = best.access ∧
      (∀ other ∈ entriesAbove policy context path, other.Below best) ∧
      ∃ entry ∈ policy.entries, best.root ∈ entry.path.resolved context ∧
        best.access = entry.access := by
  have hcomp : Comparable path context :=
    ⟨Option.isSome_iff_exists.mpr ⟨.posix, hcwd.posix⟩, hpath.posix.trans hcwd.posix.symm,
      hpath.depth, hcwd.depth⟩
  obtain ⟨first, hfirst, hfirstPath, -⟩ := exists_rootEntry hkind hroot
  obtain ⟨ending, hresolved⟩ := fileSystemRoot_eq hcwd
  have hmem : (file none [] ending, first.access) ∈ policy.resolvedEntries context := by
    refine mem_flatMap.mpr ⟨first, hfirst, mem_resolved.mpr ⟨?_, hcwd.posix.symm, rfl⟩⟩
    rw [hfirstPath, FileSystemPath.resolved, hresolved]
    exact mem_singleton_self _
  have habove : ⟨file none [] ending, first.access, 0⟩ ∈ entriesAbove policy context path :=
    mem_entriesAbove.mpr ⟨hmem, rfl, (hpath.startsWith_iff ⟨rfl, rfl⟩).mpr nil_prefix⟩
  obtain ⟨best, hbest, haccess, hbelow⟩ := exists_decider hkind hcomp hmeas habove
  obtain ⟨entry, hentry, hmem⟩ := mem_flatMap.mp (mem_entriesAbove.mp hbest).1
  obtain ⟨hin, -, heq⟩ := mem_resolved.mp hmem
  exact ⟨best, hbest, haccess, hbelow, entry, hentry, hin, heq⟩

/-- A policy with full write access has a write entry for every directory that it has an entry
for. -/
theorem overridden_of_full (hfull : policy.hasFullDiskWriteAccessForConvention (some .posix) = true)
    (hentry : entry ∈ policy.entries) (hmem : root ∈ entry.path.resolved context) :
    entry.access ≠ .deny ∧ ∃ other ∈ policy.entries, other.access = .write ∧
      fileSystemPathsShareTarget other.path entry.path .posix = true := by
  rw [hasFullDiskWriteAccessForConvention, hkind] at hfull
  obtain ⟨hroot, hnarrow⟩ := Bool.and_eq_true_iff.mp hfull
  rw [Bool.not_eq_true', hasWriteNarrowingEntries,
    decide_eq_true hkind, Bool.true_and, any_eq_false] at hnarrow
  have hkept := hnarrow entry hentry
  have hover : policy.hasSameTargetWriteOverride entry .posix = true →
      entry.access ≠ .deny ∧ ∃ other ∈ policy.entries, other.access = .write ∧
        fileSystemPathsShareTarget other.path entry.path .posix = true := by
    intro h
    obtain ⟨other, hother, h⟩ := any_eq_true.mp h
    simp only [Bool.and_eq_true, decide_eq_true_eq] at h
    obtain ⟨⟨hcan, hless⟩, hshare⟩ := h
    have hwrite := eq_write_of_canWrite hcan
    refine ⟨fun hdeny => ?_, other, hother, hwrite, hshare⟩
    rw [hdeny, hwrite] at hless
    exact absurd hless (by decide)
  by_cases hcan : entry.access.canWrite = true
  · have hwrite := eq_write_of_canWrite hcan
    refine ⟨by simp [hwrite], entry, hentry, hwrite, ?_⟩
    cases entry.path <;> exact decide_eq_true rfl
  · rw [if_neg hcan] at hkept
    obtain ⟨target, access⟩ := entry
    cases target with
    | path uri => exact hover (by simpa using hkept)
    | globPattern pattern => exact absurd rfl hkept
    | special value =>
      cases value with
      | root =>
        obtain ⟨other, hother, hpath, hcan⟩ := exists_rootEntry hkind hroot
        refine ⟨by simpa using hkept, other, hother, eq_write_of_canWrite hcan, ?_⟩
        rw [hpath]
        rfl
      | minimal => cases hmem
      | unknown path subpath => cases hmem
      | projectRoots subpath => exact hover (by simpa using hkept)
      | tmpdir => exact hover (by simpa using hkept)
      | slashTmp => exact hover (by simpa using hkept)

/-- An entry of a policy with full write access is at most as high as a write entry of the same
depth above the same path. -/
theorem exists_writeEntry (hcwd : context.cwd.IsLexical) (hpath : path.IsLexical)
    (hfull : policy.hasFullDiskWriteAccessForConvention (some .posix) = true)
    {best : MeasuredEntry FileUri} (hbest : best ∈ entriesAbove policy context path)
    (hentry : entry ∈ policy.entries) (hin : best.root ∈ entry.path.resolved context) :
    entry.access ≠ .deny ∧ ∃ uri, ⟨uri, .write, best.depth⟩ ∈ entriesAbove policy context path := by
  obtain ⟨hmem, hdepth, hstarts⟩ := mem_entriesAbove.mp hbest
  obtain ⟨source, -, hmem⟩ := mem_flatMap.mp hmem
  have hconv := (mem_resolved.mp hmem).2.1
  obtain ⟨hdeny, other, hother, hwrite, hshare⟩ := overridden_of_full hkind hfull hentry hin
  refine ⟨hdeny, ?_⟩
  obtain ⟨uri, huri, hsame⟩ := resolved_of_sharesTarget hcwd hshare hin
  have hover : uri.inferPathConvention = context.cwd.inferPathConvention ∧
      path.startsWith uri = true ∧ uri.lexicalDepth = some best.depth := by
    rcases hsame with rfl | hsame
    · exact ⟨hconv, hstarts, hdepth⟩
    · exact ⟨hsame.left.posix.trans hcwd.posix.symm, hsame.startsWith hpath hstarts,
        hsame.lexicalDepth_eq.trans hdepth⟩
  exact ⟨uri, mem_entriesAbove.mpr ⟨mem_flatMap.mpr
    ⟨other, hother, mem_resolved.mpr ⟨huri, hover.1, hwrite.symm⟩⟩, hover.2.2, hover.2.1⟩⟩

/-- A policy with full write access lets every path be written that it can compare. -/
theorem canWritePath_of_full (hcwd : context.cwd.IsLexical) (hpath : path.IsLexical)
    (hmeas : Measurable (policy.resolvedEntries context))
    (hfull : policy.hasFullDiskWriteAccessForConvention (some .posix) = true) :
    policy.canWritePath path context = true := by
  have hroot := hfull
  rw [hasFullDiskWriteAccessForConvention, hkind] at hroot
  obtain ⟨best, hmem, hbest, hbelow, entry, hentry, hin, haccess⟩ :=
    exists_decidingEntry hkind hcwd hpath hmeas (Bool.and_eq_true_iff.mp hroot).1
  obtain ⟨hdeny, uri, habove⟩ := exists_writeEntry hkind hcwd hpath hfull hmem hentry hin
  have hwrite : best.access = .write := by
    cases hmode : best.access with
    | write => rfl
    | deny => exact absurd (haccess.symm.trans hmode) hdeny
    | read =>
      rcases hbelow _ habove with hless | ⟨-, hless⟩
      · exact absurd hless (Nat.lt_irrefl _)
      · rw [hmode] at hless
        exact absurd hless (Nat.not_succ_le_zero 0)
  rw [canWritePath, hbest, hwrite,
    if_pos (show FileSystemAccessMode.write.canWrite = true from rfl), Bool.or_eq_true]
  refine .inl ?_
  rw [hasFullDiskWriteAccessWithContext,
    show LexicalPath.inferPathConvention context.cwd = some .posix from hcwd.posix]
  exact hfull

/-- A policy with full read access lets every path be read that it can compare. -/
theorem canRead_of_full (hcwd : context.cwd.IsLexical) (hpath : path.IsLexical)
    (hmeas : Measurable (policy.resolvedEntries context))
    (hfull : policy.hasFullDiskReadAccessForConvention (some .posix) = true) :
    (policy.resolveAccess path context).canRead = true := by
  rw [hasFullDiskReadAccessForConvention, hkind] at hfull
  obtain ⟨hroot, hnone⟩ := Bool.and_eq_true_iff.mp hfull
  obtain ⟨best, -, hbest, -, entry, hentry, -, haccess⟩ :=
    exists_decidingEntry hkind hcwd hpath hmeas hroot
  rw [Bool.not_eq_true', hasDeniedReadRestrictionsForConvention,
    decide_eq_true hkind, Bool.true_and, any_eq_false] at hnone
  have hdeny := hnone entry hentry
  rw [hbest, haccess]
  cases hmode : entry.access with
  | deny => simp [hmode] at hdeny
  | _ => rfl

end Restricted

/-- What can be written is not denied. -/
theorem ne_deny_of_canWritePath (h : policy.canWritePath path context = true) :
    policy.resolveAccess path context ≠ .deny := by
  intro hdeny
  rw [canWritePath, hdeny, if_neg (by decide)] at h
  cases h

/-- **Full access is access to every path**, exactly if all paths that the entries of a
restricted policy stand for can be measured. -/
theorem fullDisk_sound (hcwd : context.cwd.IsLexical) (hpath : path.IsLexical) :
    (policy.hasFullDiskWriteAccessForConvention (some .posix) = true →
      (policy.canWritePath path context = true ↔
        (policy.kind = .restricted → Measurable (policy.resolvedEntries context)))) ∧
    (policy.hasFullDiskReadAccessForConvention (some .posix) = true →
      ((policy.resolveAccess path context).canRead = true ↔
        (policy.kind = .restricted → Measurable (policy.resolvedEntries context)))) := by
  cases hkind : policy.kind with
  | unrestricted | externalSandbox =>
    simp [canWritePath, resolveAccess, hkind, canWrite, canRead, metadataWriteDenial]
  | restricted =>
    refine ⟨fun hfull => ⟨fun hwrite _ => ?_, fun hmeas => ?_⟩,
      fun hfull => ⟨fun hread _ => ?_, fun hmeas => ?_⟩⟩
    · exact (comparable_of_ne_deny hkind (ne_deny_of_canWritePath hwrite)).2
    · exact canWritePath_of_full hkind hcwd hpath (hmeas rfl) hfull
    · have hallowed : policy.resolveAccess path context ≠ .deny := by
        intro hdeny
        rw [hdeny] at hread
        cases hread
      exact (comparable_of_ne_deny hkind hallowed).2
    · exact canRead_of_full hkind hcwd hpath (hmeas rfl) hfull

end Posix

section Samples

open SampleHosts

/-- An encoded separator leaves the path of an entry in doubt, and everything is denied. -/
theorem fullDisk_unmeasured :
    let policy : FileSystemSandboxPolicy FileUri := ⟨.restricted, [⟨.special .root, .write⟩,
      ⟨.path (file none [⟨"a/b".toList, by decide⟩] false), .write⟩]⟩
    let home : FileUri := file none [⟨"home".toList, by decide⟩] false
    policy.hasFullDiskWriteAccessForConvention (some .posix) = true ∧
      policy.canWritePath home ⟨home, [], none⟩ = false := by
  decide

/-- A read entry for `/tmp` is no restriction beside a write entry for it. -/
theorem fullDisk_sound_sample :
    let policy : FileSystemSandboxPolicy FileUri := ⟨.restricted, [⟨.special .root, .write⟩,
      ⟨.path slashTmpUri, .read⟩, ⟨.special .slashTmp, .write⟩]⟩
    policy.hasFullDiskWriteAccessForConvention (some .posix) = true ∧
      policy.canWritePath slashTmpUri ⟨slashTmpUri, [], none⟩ = true := by
  refine ⟨by decide, ((fullDisk_sound ⟨rfl, rfl⟩ ⟨rfl, rfl⟩).1 (by decide)).mpr ?_⟩
  intro _
  unfold Measurable
  decide

end Samples

end RenCrow.Permissions
