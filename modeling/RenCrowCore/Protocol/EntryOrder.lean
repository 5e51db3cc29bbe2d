import Mathlib.Data.List.Induction
import RenCrowCore.Protocol.Permissions

/-!
# The order of permission entries

Which access a path has is decided by the most specific entry, wherever it stands.  Which
protected name it is under is decided by the first writable root that has one.

* `resolveAccess_perm`: the access mode does not depend on the order;
* `canWrite_resolveAccess_iff`: it is a write access if a write entry wins over all others;
* `MetadataAgrees`: all writable roots that protect a path agree whether it is covered;
* `orderIndependent_iff`: write permission depends on the order unless they do;
* `canWritePath_reversed`: it does for a writable root inside protected metadata.
-/

namespace RenCrow.Permissions

open LexicalPath FileSystemSandboxPolicy FileSystemAccessMode List

/-! ## The most specific entry -/

theorem FileSystemAccessMode.precedence_injective : Function.Injective precedence := by
  intro first second h
  cases first <;> cases second <;> first | rfl | cases h

section MostSpecific

variable {U : Type} {entries other : List (MeasuredEntry U)} {found entry : MeasuredEntry U}

/-- The entry is at most as specific as the other, or loses to it on the same path. -/
def MeasuredEntry.Below (entry other : MeasuredEntry U) : Prop :=
  entry.depth < other.depth ∨
    entry.depth = other.depth ∧ entry.access.precedence ≤ other.access.precedence

theorem MeasuredEntry.Below.trans {first second third : MeasuredEntry U} (h : first.Below second)
    (hnext : second.Below third) : first.Below third := by
  unfold Below at *
  omega

theorem MeasuredEntry.Below.access_eq (h : entry.Below found) (hback : found.Below entry) :
    entry.access = found.access := by
  unfold Below at h hback
  exact precedence_injective (by omega)

theorem MeasuredEntry.Below.refl (entry : MeasuredEntry U) : entry.Below entry :=
  .inr ⟨rfl, Nat.le_refl _⟩

theorem mostSpecific_concat (entries : List (MeasuredEntry U)) (last : MeasuredEntry U) :
    mostSpecific (entries ++ [last]) =
      match mostSpecific entries with
      | none => some last
      | some found =>
        if last.depth < found.depth ∨
            last.depth = found.depth ∧ last.access.precedence < found.access.precedence then
          some found
        else some last := by
  rw [mostSpecific, foldl_append]
  rfl

/-- **The most specific entry** is one that all others are below. -/
theorem exists_mostSpecific (hne : entries ≠ []) : ∃ best, mostSpecific entries = some best ∧
    best ∈ entries ∧ ∀ entry ∈ entries, entry.Below best := by
  induction entries using List.reverseRecOn with
  | nil => exact absurd rfl hne
  | append_singleton entries last ih =>
    rw [mostSpecific_concat]
    simp only [mem_append, mem_singleton, or_imp, forall_and, forall_eq]
    by_cases hnil : entries = []
    · subst hnil
      exact ⟨last, rfl, .inr rfl, by simp, .refl last⟩
    · obtain ⟨best, hbest, hmem, hbelow⟩ := ih hnil
      rw [hbest]
      dsimp only
      split
      · have hlast : last.Below best := by
          unfold MeasuredEntry.Below
          omega
        exact ⟨best, rfl, .inl hmem, hbelow, hlast⟩
      · have hold : best.Below last := by
          unfold MeasuredEntry.Below
          omega
        exact ⟨last, rfl, .inr rfl, fun entry hentry =>
          (hbelow entry hentry).trans hold, .refl last⟩

/-- Its access does not depend on the order. -/
theorem mostSpecific_perm (h : entries.Perm other) :
    (mostSpecific entries).map MeasuredEntry.access =
      (mostSpecific other).map MeasuredEntry.access := by
  by_cases hnil : entries = []
  · subst hnil
    rw [h.nil_eq]
  · have hother : other ≠ [] := fun hnone => hnil (hnone ▸ h).eq_nil
    obtain ⟨first, hfirst, hfirstMem, hfirstBelow⟩ := exists_mostSpecific hnil
    obtain ⟨second, hsnd, hsndMem, hsndBelow⟩ := exists_mostSpecific hother
    have hsame : first.access = second.access :=
      (hsndBelow first (h.mem_iff.mp hfirstMem)).access_eq
        (hfirstBelow second (h.mem_iff.mpr hsndMem))
    rw [hfirst, hsnd, Option.map_some, Option.map_some, hsame]

end MostSpecific

/-! ## The order of entries -/

variable {U : Type} [LexicalPath U]

/-- The measured entry of a root, if it has a depth. -/
def measuredEntry (entry : U × FileSystemAccessMode) : Option (MeasuredEntry U) :=
  (lexicalDepth entry.1).map fun depth => ⟨entry.1, entry.2, depth⟩

/-- Every root has a depth or is skipped. -/
def Measurable (entries : List (U × FileSystemAccessMode)) : Prop :=
  ∀ entry ∈ entries, (lexicalDepth entry.1).isSome = true ∨ isOpaque entry.1 = true

variable {entries : List (U × FileSystemAccessMode)}

theorem measuredEntries_eq_some (h : Measurable entries) :
    measuredEntries entries = some (entries.filterMap measuredEntry) := by
  induction entries with
  | nil => rfl
  | cons entry entries ih =>
    obtain ⟨root, access⟩ := entry
    obtain ⟨hroot, hrest⟩ := forall_mem_cons.mp h
    unfold measuredEntries
    cases hdepth : lexicalDepth root with
    | some depth => simp [ih hrest, measuredEntry, hdepth]
    | none =>
      have hskipped : isOpaque root = true := by simpa [hdepth] using hroot
      simp [ih hrest, measuredEntry, hdepth, hskipped]

theorem measuredEntries_eq_none (h : ¬ Measurable entries) : measuredEntries entries = none := by
  induction entries with
  | nil => exact absurd (by simp [Measurable]) h
  | cons entry entries ih =>
    obtain ⟨root, access⟩ := entry
    unfold measuredEntries
    cases hdepth : lexicalDepth root with
    | some depth =>
      have hrest : ¬ Measurable entries := fun hrest =>
        h (forall_mem_cons.mpr ⟨.inl (by simp [hdepth]), hrest⟩)
      simp [ih hrest]
    | none =>
      by_cases hskipped : isOpaque root = true
      · have hrest : ¬ Measurable entries := fun hrest =>
          h (forall_mem_cons.mpr ⟨.inr hskipped, hrest⟩)
        simp [ih hrest]
      · simp [hskipped]

variable {policy other : FileSystemSandboxPolicy U} {path : U}
  {context : FileSystemSandboxPolicyContext U}

theorem resolvedEntries_perm (h : other.entries.Perm policy.entries) :
    (other.resolvedEntries context).Perm (policy.resolvedEntries context) := h.flatMap_right _

theorem measurable_congr {first second : List (U × FileSystemAccessMode)} (h : first.Perm second) :
    Measurable first ↔ Measurable second :=
  forall_congr' fun _ => imp_congr_left h.mem_iff

/-- **The access mode of a path** does not depend on the order of the entries. -/
theorem resolveAccess_perm (hkind : other.kind = policy.kind)
    (h : other.entries.Perm policy.entries) :
    other.resolveAccess path context = policy.resolveAccess path context := by
  have hents := @resolvedEntries_perm U _ policy other context h
  unfold resolveAccess
  rw [hkind]
  by_cases hmeas : Measurable (policy.resolvedEntries context)
  · have hboth := (measurable_congr hents).mpr hmeas
    have hspec := mostSpecific_perm
      ((hents.filterMap measuredEntry).filter fun entry => startsWith path entry.root)
    rw [measuredEntries_eq_some hmeas, measuredEntries_eq_some hboth]
    dsimp only
    rw [hspec]
  · have hboth := fun hother => hmeas ((measurable_congr hents).mp hother)
    rw [measuredEntries_eq_none hmeas, measuredEntries_eq_none hboth]

/-- The path can be compared with entries of the context. -/
structure Comparable (path : U) (context : FileSystemSandboxPolicyContext U) : Prop where
  convention : (inferPathConvention context.cwd).isSome = true
  samePath : inferPathConvention path = inferPathConvention context.cwd
  pathDepth : (lexicalDepth path).isSome = true
  cwdDepth : (lexicalDepth context.cwd).isSome = true

/-- The entries of a policy that a path is under. -/
def entriesAbove (policy : FileSystemSandboxPolicy U) (context : FileSystemSandboxPolicyContext U)
    (path : U) : List (MeasuredEntry U) :=
  ((policy.resolvedEntries context).filterMap measuredEntry).filter
    fun entry => startsWith path entry.root

theorem mem_entriesAbove {entry : MeasuredEntry U} : entry ∈ entriesAbove policy context path ↔
      (entry.root, entry.access) ∈ policy.resolvedEntries context ∧
        lexicalDepth entry.root = some entry.depth ∧ startsWith path entry.root = true := by
  unfold entriesAbove
  rw [mem_filter, mem_filterMap]
  constructor
  · rintro ⟨⟨⟨uri, access⟩, hmem, hmeas⟩, hunder⟩
    obtain ⟨depth, hdepth, rfl⟩ := Option.map_eq_some_iff.mp hmeas
    exact ⟨hmem, hdepth, hunder⟩
  · rintro ⟨hmem, hdepth, hunder⟩
    exact ⟨⟨_, hmem, Option.map_eq_some_iff.mpr ⟨entry.depth, hdepth, rfl⟩⟩, hunder⟩

section Access

variable (hkind : policy.kind = .restricted)
include hkind

theorem resolveAccess_eq (hpath : Comparable path context)
    (hmeas : Measurable (policy.resolvedEntries context)) :
    policy.resolveAccess path context =
      ((mostSpecific (entriesAbove policy context path)).map MeasuredEntry.access).getD .deny := by
  obtain ⟨conv, hcwd⟩ := Option.isSome_iff_exists.mp hpath.convention
  unfold resolveAccess
  rw [hkind, hcwd]
  dsimp only
  rw [if_neg (by
    simp [hpath.samePath, hcwd, ← Option.isSome_iff_ne_none, hpath.pathDepth, hpath.cwdDepth]),
    measuredEntries_eq_some hmeas]
  rfl

/-- Where there are entries above a path, one that all others are below decides. -/
theorem exists_decider {entry : MeasuredEntry U} (hpath : Comparable path context)
    (hmeas : Measurable (policy.resolvedEntries context))
    (hmem : entry ∈ entriesAbove policy context path) :
    ∃ best ∈ entriesAbove policy context path, policy.resolveAccess path context = best.access ∧
      ∀ other ∈ entriesAbove policy context path, other.Below best := by
  obtain ⟨best, hbest, hbestMem, hbelow⟩ := exists_mostSpecific (ne_nil_of_mem hmem)
  exact ⟨best, hbestMem, by rw [resolveAccess_eq hkind hpath hmeas, hbest]; rfl, hbelow⟩

/-- Paths and entries that cannot be compared are denied. -/
theorem comparable_of_ne_deny (h : policy.resolveAccess path context ≠ .deny) :
    Comparable path context ∧ Measurable (policy.resolvedEntries context) := by
  unfold resolveAccess at h
  rw [hkind] at h
  cases hcwd : inferPathConvention context.cwd with
  | none => simp [hcwd] at h
  | some conv =>
    rw [hcwd] at h
    dsimp only at h
    split at h
    · exact absurd rfl h
    · rename_i hguard
      simp only [not_or, not_not, Option.isNone_iff_eq_none, ← Option.isSome_iff_ne_none] at hguard
      obtain ⟨hpath, hpathDepth, hcwdDepth⟩ := hguard
      refine ⟨⟨by simp [hcwd], hpath.trans hcwd.symm, hpathDepth, hcwdDepth⟩, ?_⟩
      by_contra hmeas
      rw [measuredEntries_eq_none hmeas] at h
      exact h rfl

/-- **Access that is not denied** is that of an entry that all others above the path are below. -/
theorem exists_winner (h : policy.resolveAccess path context ≠ .deny) :
    ∃ winner ∈ entriesAbove policy context path, winner.access = policy.resolveAccess path context ∧
        ∀ entry ∈ entriesAbove policy context path, entry.Below winner := by
  obtain ⟨hpath, hmeas⟩ := comparable_of_ne_deny hkind h
  rw [resolveAccess_eq hkind hpath hmeas] at h ⊢
  by_cases hnil : entriesAbove policy context path = []
  · rw [hnil] at h
    exact absurd rfl h
  · obtain ⟨winner, hbest, hmem, hbelow⟩ := exists_mostSpecific hnil
    exact ⟨winner, hmem, by rw [hbest]; rfl, hbelow⟩

end Access

/-- Among the entries that the path is under, one with write access is the most specific. -/
structure WriteEntryWins (policy : FileSystemSandboxPolicy U) (path : U)
    (context : FileSystemSandboxPolicyContext U) : Prop where
  convention : (inferPathConvention context.cwd).isSome = true
  samePath : inferPathConvention path = inferPathConvention context.cwd
  pathDepth : (lexicalDepth path).isSome = true
  cwdDepth : (lexicalDepth context.cwd).isSome = true
  measurable : Measurable (policy.resolvedEntries context)
  wins : ∃ winner ∈ (policy.resolvedEntries context).filterMap measuredEntry,
    startsWith path winner.root = true ∧ winner.access.canWrite = true ∧
      ∀ entry ∈ (policy.resolvedEntries context).filterMap measuredEntry,
        startsWith path entry.root = true → entry.Below winner

theorem canWrite_resolveAccess_iff (hkind : policy.kind = .restricted) :
    (policy.resolveAccess path context).canWrite = true ↔ WriteEntryWins policy path context := by
  constructor
  · intro h
    have hgranted : policy.resolveAccess path context ≠ .deny := by
      intro hdeny
      rw [hdeny] at h
      cases h
    obtain ⟨hpath, hmeas⟩ := comparable_of_ne_deny hkind hgranted
    obtain ⟨winner, hmem, haccess, hbelow⟩ := exists_winner hkind hgranted
    obtain ⟨hmem, hunder⟩ := mem_filter.mp hmem
    exact ⟨hpath.convention, hpath.samePath, hpath.pathDepth, hpath.cwdDepth, hmeas, winner, hmem,
      hunder, haccess ▸ h, fun entry hentry hentryUnder =>
        hbelow entry (mem_filter.mpr ⟨hentry, hentryUnder⟩)⟩
  · rintro ⟨hcwd, hpath, hpathDepth, hcwdDepth, hmeas, winner, hmem, hunder, hwrite, hbelow⟩
    have hmem : winner ∈ entriesAbove policy context path := mem_filter.mpr ⟨hmem, hunder⟩
    obtain ⟨best, hbestMem, hbest, hbestBelow⟩ :=
      exists_decider hkind ⟨hcwd, hpath, hpathDepth, hcwdDepth⟩ hmeas hmem
    obtain ⟨hbestMem, hbestUnder⟩ := mem_filter.mp hbestMem
    have hsame := (hbelow best hbestMem hbestUnder).access_eq (hbestBelow winner hmem)
    rw [hbest, hsame, hwrite]

/-! ## Protected names -/

/-- The protected name under a root that the path is under. -/
def protectedName (path root : U) : Option (U × List Char) :=
  protectedMetadataPathNames.findSome? fun metadataName => do
    let protectedPath ← (joinDescendant root metadataName).toOption
    if startsWith path protectedPath then some (protectedPath, metadataName) else none

/-- The first protected name under the roots of a writable entry that the path is under. -/
def FileSystemSandboxEntry.protects (entry : FileSystemSandboxEntry U) (path : U)
    (context : FileSystemSandboxPolicyContext U) : Option (U × List Char) :=
  if entry.access.canWrite then
    ((entry.path.resolved context).filter fun root =>
      inferPathConvention root = inferPathConvention context.cwd).findSome? (protectedName path)
  else none

/-- A writable root inside the protected directory covers the path. -/
def FileSystemSandboxPolicy.covers (policy : FileSystemSandboxPolicy U) (path : U)
    (context : FileSystemSandboxPolicyContext U) (protectedPath : U) : Bool :=
  (policy.resolvedEntries context).any fun entry =>
    entry.2.canWrite && startsWith path entry.1 && startsWith entry.1 protectedPath

/-- The first writable root in the resolved entries that protects the path stands in the first
entry that does. -/
theorem findSome?_resolvedEntries (entries : List (FileSystemSandboxEntry U))
    (kind : FileSystemSandboxKind) :
    (((⟨kind, entries⟩ : FileSystemSandboxPolicy U).resolvedEntries context).filter
        fun entry => entry.2.canWrite).findSome? (fun entry => protectedName path entry.1) =
      entries.findSome? fun entry => entry.protects path context := by
  unfold resolvedEntries
  induction entries with
  | nil => rfl
  | cons entry entries ih =>
    rw [flatMap_cons, filter_append, findSome?_append, ih, findSome?_cons]
    have hfirst : ((((entry.path.resolved context).filter fun root =>
          inferPathConvention root = inferPathConvention context.cwd).map
            fun root => (root, entry.access)).filter fun entry => entry.2.canWrite).findSome?
              (fun entry => protectedName path entry.1) = entry.protects path context := by
      unfold FileSystemSandboxEntry.protects
      cases hwrite : entry.access.canWrite with
      | true =>
        rw [filter_eq_self.mpr (by simp +contextual [← hwrite]), findSome?_map]
        rfl
      | false =>
        rw [filter_eq_nil_iff.mpr (by simp +contextual [← hwrite])]
        rfl
    rw [hfirst]
    cases entry.protects path context <;> rfl

theorem metadataWriteDenial_eq (hkind : policy.kind = .restricted) :
    policy.metadataWriteDenial path context =
      (policy.entries.findSome? fun entry => entry.protects path context).bind fun found =>
        if policy.covers path context found.1 then none else some found.2 := by
  rw [← findSome?_resolvedEntries policy.entries policy.kind]
  unfold metadataWriteDenial
  rw [if_neg (by simpa using hkind)]
  rfl

theorem covers_perm (h : other.entries.Perm policy.entries) (protectedPath : U) :
    other.covers path context protectedPath = policy.covers path context protectedPath :=
  (resolvedEntries_perm h).any_eq

variable [DecidableEq U]

/-! ## Write permission -/

theorem hasFullDiskWriteAccess_perm (hkind : other.kind = policy.kind)
    (h : other.entries.Perm policy.entries) :
    other.hasFullDiskWriteAccessWithContext context =
      policy.hasFullDiskWriteAccessWithContext context := by
  have hoverride : ∀ entry convention, other.hasSameTargetWriteOverride entry convention =
      policy.hasSameTargetWriteOverride entry convention := fun _ _ => h.any_eq
  have hnarrowing : ∀ convention, other.hasWriteNarrowingEntries convention =
      policy.hasWriteNarrowingEntries convention := fun convention => by
    unfold hasWriteNarrowingEntries
    simp only [hkind, hoverride, h.any_eq]
  have hroot : ∀ predicate, other.hasRootAccess predicate = policy.hasRootAccess predicate :=
    fun predicate => by
      unfold hasRootAccess
      simp only [hkind, h.any_eq]
  unfold hasFullDiskWriteAccessWithContext hasFullDiskWriteAccessForConvention
  simp only [hkind, hroot, hnarrowing]

/-- Entries that protect the path agree whether it is covered. -/
def MetadataAgrees (policy : FileSystemSandboxPolicy U) (path : U)
    (context : FileSystemSandboxPolicyContext U) : Prop :=
  ∀ entry ∈ policy.entries, ∀ other ∈ policy.entries,
    ∀ found ∈ entry.protects path context, ∀ second ∈ other.protects path context,
      policy.covers path context found.1 = policy.covers path context second.1

theorem restricted_of_not_fullDisk
    (hfull : policy.hasFullDiskWriteAccessWithContext context = false) :
    policy.kind = .restricted := by
  unfold hasFullDiskWriteAccessWithContext hasFullDiskWriteAccessForConvention at hfull
  cases hkind : policy.kind with
  | restricted => rfl
  | unrestricted | externalSandbox => simp [hkind] at hfull

/-- Write permission where it depends on protected names. -/
theorem canWritePath_eq (hfull : policy.hasFullDiskWriteAccessWithContext context = false)
    (haccess : (policy.resolveAccess path context).canWrite = true) :
    policy.canWritePath path context =
      ((policy.entries.findSome? fun entry => entry.protects path context).all fun found =>
        policy.covers path context found.1) := by
  unfold canWritePath
  rw [if_pos haccess, hfull, Bool.false_or,
    metadataWriteDenial_eq (restricted_of_not_fullDisk hfull)]
  cases policy.entries.findSome? fun entry => entry.protects path context with
  | none => rfl
  | some found => cases hcovers : policy.covers path context found.1 <;> simp [hcovers]

omit [DecidableEq U] in
/-- If the entries agree, what the first one says does not depend on which one is first. -/
theorem all_covers_perm (hagrees : MetadataAgrees policy path context)
    (hperm : other.entries.Perm policy.entries) :
    ((other.entries.findSome? fun entry => entry.protects path context).all fun found =>
        other.covers path context found.1) =
      ((policy.entries.findSome? fun entry => entry.protects path context).all fun found =>
        policy.covers path context found.1) := by
  cases hfirst : policy.entries.findSome? fun entry => entry.protects path context with
  | none =>
    rw [findSome?_eq_none_iff.mpr fun entry hentry =>
      findSome?_eq_none_iff.mp hfirst entry (hperm.mem_iff.mp hentry)]
    rfl
  | some found =>
    obtain ⟨entry, hentry, hfound⟩ := exists_of_findSome?_eq_some hfirst
    have hsome : (other.entries.findSome? fun entry => entry.protects path context).isSome := by
      rw [findSome?_isSome_iff]
      exact ⟨entry, hperm.mem_iff.mpr hentry, by rw [hfound]; rfl⟩
    obtain ⟨second, hsnd⟩ := Option.isSome_iff_exists.mp hsome
    obtain ⟨entry', hentry', hfound'⟩ := exists_of_findSome?_eq_some hsnd
    rw [hsnd, Option.all_some, Option.all_some, covers_perm hperm]
    exact hagrees entry' (hperm.mem_iff.mp hentry') entry hentry second hfound' found hfound

/-- **Order of entries.** Reordering the entries of a policy changes none of its decisions on a
path exactly when the entries that protect the path agree whether it is covered, or no write
entry wins on the path, or nothing narrows write access to the disk. -/
theorem orderIndependent_iff (policy : FileSystemSandboxPolicy U) (path : U)
    (context : FileSystemSandboxPolicyContext U) :
    (∀ other : FileSystemSandboxPolicy U, other.kind = policy.kind →
      other.entries.Perm policy.entries →
        other.resolveAccess path context = policy.resolveAccess path context ∧
        other.canWritePath path context = policy.canWritePath path context ∧
        other.hasFullDiskWriteAccessWithContext context =
          policy.hasFullDiskWriteAccessWithContext context) ↔
      (policy.hasFullDiskWriteAccessWithContext context = false →
        WriteEntryWins policy path context → MetadataAgrees policy path context) := by
  constructor
  · intro h hfull hwins entry hentry second hsnd found hfound found' hfound'
    have haccess := (canWrite_resolveAccess_iff (restricted_of_not_fullDisk hfull)).mpr hwins
    -- the same entries with one that protects the path put first
    have hfirst : ∀ entry ∈ policy.entries, ∀ found ∈ entry.protects path context,
        policy.covers path context found.1 = policy.canWritePath path context := by
      intro entry hentry found hfound
      let front : FileSystemSandboxPolicy U := ⟨policy.kind, entry :: policy.entries.erase entry⟩
      have hperm : front.entries.Perm policy.entries := (perm_cons_erase hentry).symm
      obtain ⟨haccess', hwrite, hfull'⟩ := h front rfl hperm
      rw [← hwrite, canWritePath_eq (hfull'.trans hfull) (by rw [haccess', haccess]),
        findSome?_cons, hfound, Option.all_some, covers_perm hperm]
    rw [hfirst entry hentry found hfound, hfirst second hsnd found' hfound']
  · intro hagrees other hkind hperm
    have haccess' : other.resolveAccess path context = policy.resolveAccess path context :=
      resolveAccess_perm hkind hperm
    have hfull' : other.hasFullDiskWriteAccessWithContext context =
        policy.hasFullDiskWriteAccessWithContext context := hasFullDiskWriteAccess_perm hkind hperm
    refine ⟨haccess', ?_, hfull'⟩
    cases haccess : (policy.resolveAccess path context).canWrite with
    | false => simp [FileSystemSandboxPolicy.canWritePath, haccess', haccess]
    | true =>
      cases hfull : policy.hasFullDiskWriteAccessWithContext context with
      | true => simp [FileSystemSandboxPolicy.canWritePath, haccess', haccess, hfull', hfull]
      | false =>
        have hwins := (canWrite_resolveAccess_iff (restricted_of_not_fullDisk hfull)).mp haccess
        rw [canWritePath_eq hfull haccess,
          canWritePath_eq (hfull'.trans hfull) (by rw [haccess', haccess])]
        exact all_covers_perm (hagrees hfull hwins) hperm

/-- Two writable roots, the second one inside the metadata of the first. -/
def nestedRoots : List (FileSystemSandboxEntry PosixPath) :=
  [⟨.path ⟨["a".toList]⟩, .write⟩, ⟨.path ⟨["a".toList, ".git".toList, "b".toList]⟩, .write⟩]

/-- The metadata of the second root may be written if the first one stands in front of it, and
not if it stands behind. -/
theorem canWritePath_reversed :
    let context : FileSystemSandboxPolicyContext PosixPath := ⟨⟨["a".toList]⟩, [], none⟩
    let path : PosixPath := ⟨["a".toList, ".git".toList, "b".toList, ".git".toList, "x".toList]⟩
    (⟨.restricted, nestedRoots⟩ : FileSystemSandboxPolicy PosixPath).canWritePath path context =
      true ∧
      (⟨.restricted, nestedRoots.reverse⟩ : FileSystemSandboxPolicy PosixPath).canWritePath path
        context = false := by
  decide +kernel

end RenCrow.Permissions
