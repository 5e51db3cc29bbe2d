import RenCrowCore.Lib.Except
import RenCrowCore.Lib.Lines
import RenCrowCore.Utils.FileUri

/-!
# Joining text to file URIs

What becomes of native path text that is joined to a URI.

* `FileUri.join_measured`: the result can be compared segment by segment, or is kept as it is;
* `FileUri.join_plain`: relative text without dots is appended.
-/

namespace RenCrow.FileUri

open Text PathConvention List

/-! ## Segments without separators -/

/-- No segment holds a separator. -/
def CleanNames (convention : PathConvention) (names : List UriName) : Prop :=
  ∀ name ∈ names, ∀ c ∈ name.text, convention.separates c = false

variable {convention : PathConvention} {names : List UriName} {auth : Option (List Char)}
  {text : List Char}

theorem containmentNames_eq_some (h : CleanNames convention names) :
    containmentNames convention names = some names := by
  simpa [containmentNames, CleanNames] using h

theorem cleanNames_of_isSome (h : (containmentNames convention names).isSome = true) :
    CleanNames convention names := by
  simpa [containmentNames, CleanNames] using h

variable {depth : Nat}

theorem pushName_clean (h : CleanNames convention names)
    (htext : ∀ c ∈ text, convention.separates c = false) :
    CleanNames convention (pushName depth names text) := by
  unfold pushName
  split
  · split
    · exact fun name hname => h name (dropLast_subset _ hname)
    · exact h
  · refine forall_mem_append.mpr ⟨h, fun name hname => ?_⟩
    rw [Option.mem_toList] at hname
    rw [UriName.of?_eq_some hname]
    exact htext

theorem foldl_pushName_clean {components : List (List Char)} (h : CleanNames convention names)
    (hcomps : ∀ component ∈ components, ∀ c ∈ component, convention.separates c = false) :
    CleanNames convention (components.foldl (pushName depth) names) := by
  induction components generalizing names with
  | nil => exact h
  | cons component components ih =>
    rw [forall_mem_cons] at hcomps
    exact ih (pushName_clean h hcomps.1) hcomps.2

/-- What a lower-case letter is in upper case. -/
theorem upper_letter {c : Char} (h : 'a' ≤ c ∧ c ≤ 'z') :
    convention.separates (Char.ofNat (c.toNat - 32)) = false ∧
      toAsciiLower (Char.ofNat (c.toNat - 32)) = toAsciiLower c ∧
      (Char.ofNat (c.toNat - 32)).isAlpha = true := by
  have hall : ∀ i ∈ List.range 26, convention.separates (Char.ofNat (65 + i)) = false ∧
      toAsciiLower (Char.ofNat (65 + i)) = toAsciiLower (Char.ofNat (97 + i)) ∧
      (Char.ofNat (65 + i)).isAlpha = true := by
    cases convention <;> decide
  have hnat : 97 ≤ c.toNat ∧ c.toNat ≤ 122 := h
  have hc := hall (c.toNat - 97) (mem_range.mpr (by omega))
  rwa [show 65 + (c.toNat - 97) = c.toNat - 32 by omega,
    show 97 + (c.toNat - 97) = c.toNat by omega, Char.ofNat_toNat] at hc

/-- Writing a drive in upper case leaves it without separators. -/
theorem upperDrive_clean {name : UriName} (h : ∀ c ∈ name.text, convention.separates c = false) :
    ∀ c ∈ (upperDrive name).text, convention.separates c = false := by
  unfold upperDrive
  split
  · rename_i upper hupper
    rw [UriName.of?_eq_some hupper]
    intro c hc
    obtain ⟨d, hd, rfl⟩ := mem_map.mp hc
    by_cases hlower : 'a' ≤ d ∧ d ≤ 'z'
    · rw [if_pos hlower]
      exact (upper_letter hlower).1
    · rw [if_neg hlower]
      exact h d hd
  · exact h

/-- The letter of a drive stays the same but for its case. -/
theorem lower_upperDrive (name : UriName) :
    (upperDrive name).text.map toAsciiLower = name.text.map toAsciiLower := by
  unfold upperDrive
  split
  · rename_i upper hupper
    rw [UriName.of?_eq_some hupper, map_map]
    refine map_congr_left fun c _ => ?_
    rw [Function.comp_apply]
    split
    · rename_i hlower
      exact (@upper_letter .windows _ hlower).2.1
    · rfl
  · rfl

theorem namesStartWith_upperDrive (first : UriName) (rest base : List UriName) :
    namesStartWith .windows (upperDrive first :: rest) base =
      namesStartWith .windows (first :: rest) base := by
  cases base with
  | nil => rfl
  | cons name base =>
    simp only [namesStartWith, length_cons, zip_cons_cons, all_cons, sameName,
      Text.eqIgnoreAsciiCase, lower_upperDrive]

/-- A drive in upper case is one. -/
theorem isWindowsDrive_upperDrive {name : UriName} (h : isWindowsDrive name.text = true) :
    isWindowsDrive (upperDrive name).text = true := by
  unfold upperDrive
  split
  · rename_i upper hupper
    rw [UriName.of?_eq_some hupper]
    unfold isWindowsDrive at h
    split at h
    · rename_i drive htext
      rw [htext, map_cons, map_cons, map_nil]
      by_cases hlower : 'a' ≤ drive ∧ drive ≤ 'z'
      · rw [if_pos hlower, if_neg (by decide)]
        exact (@upper_letter .windows _ hlower).2.2
      · rw [if_neg hlower, if_neg (by decide)]
        exact h
    · cases h
  · exact h

/-- The names of such a URI are the given ones, but for the case of a drive. -/
theorem exists_ofNames (convention : PathConvention) (auth : Option (List Char))
    (names : List UriName) (trailing : Bool) :
    ∃ found, ofNames auth names trailing = file auth found trailing ∧
      (CleanNames convention names → CleanNames convention found) ∧
      (file auth found trailing).inferPathConvention =
        (file auth names trailing).inferPathConvention ∧
      ∀ base, (file auth names trailing).inferPathConvention = some convention →
        namesStartWith convention names base = true →
          namesStartWith convention found base = true := by
  cases auth with
  | some host => exact ⟨names, rfl, id, rfl, fun _ _ => id⟩
  | none =>
    cases names with
    | nil => exact ⟨[], rfl, id, rfl, fun _ _ => id⟩
    | cons first rest =>
      cases hdrive : isWindowsDrive first.text with
      | false => exact ⟨first :: rest, if_neg (by simp [hdrive]), id, rfl, fun _ _ => id⟩
      | true =>
        refine ⟨upperDrive first :: rest, if_pos hdrive, fun h => ?_, ?_, fun base hconv h => ?_⟩
        · have hparts := forall_mem_cons.mp h
          exact forall_mem_cons.mpr ⟨upperDrive_clean hparts.1, hparts.2⟩
        · simp [inferPathConvention, hdrive, isWindowsDrive_upperDrive hdrive]
        · obtain rfl : convention = .windows := by
            simpa [inferPathConvention, hdrive, eq_comm] using hconv
          rwa [namesStartWith_upperDrive]

/-- A URI whose segments hold no separator, or a native path that is kept. -/
def HasCleanNames (convention : PathConvention) : FileUri → Prop
  | fallback .. => True
  | file _ names _ => CleanNames convention names

theorem hasCleanNames_ofNames {trailing : Bool} (h : CleanNames convention names) :
    HasCleanNames convention (ofNames auth names trailing) := by
  obtain ⟨found, heq, hclean, -⟩ := exists_ofNames convention auth names trailing
  rw [heq]
  exact hclean h

theorem hasCleanNames_fromSegments {components : List (List Char)}
    (h : ∀ component ∈ components, ∀ c ∈ component, convention.separates c = false) :
    HasCleanNames convention (fromSegments convention auth components) :=
  hasCleanNames_ofNames (foldl_pushName_clean (by simp [CleanNames]) h)

theorem hasCleanNames_windowsOpaquePathUri (path : List Char) :
    HasCleanNames convention (windowsOpaquePathUri path) := by
  unfold windowsOpaquePathUri
  split <;> trivial

variable {uri : FileUri} {path rest : List Char}

theorem hasCleanNames_parseUncPath [UrlHost] (h : parseUncPath path rest = some uri) :
    HasCleanNames .windows uri := by
  unfold parseUncPath at h
  split at h
  · rename_i host share components hsplit
    have hclean : ∀ component ∈ share :: components, ∀ c ∈ component, windows.separates c = false :=
      fun component hcomp => eq_false_of_mem_splitOnP (hsplit ▸ mem_cons_of_mem _ hcomp)
    repeat' split at h
    all_goals cases h
    · exact hasCleanNames_windowsOpaquePathUri path
    · exact hasCleanNames_fromSegments hclean
    · exact hasCleanNames_windowsOpaquePathUri path
  · cases h

/-- A letter and a colon hold no separator. -/
theorem drive_clean (h : isWindowsDriveAbsolutePath path = true) :
    ∀ c ∈ path.take 2, windows.separates c = false := by
  unfold isWindowsDriveAbsolutePath at h
  split at h
  · rename_i drive separator tail
    rw [Bool.and_eq_true] at h
    have hslash : drive ≠ '/' := by
      rintro rfl
      exact absurd h.1 (by decide)
    have hback : drive ≠ '\\' := by
      rintro rfl
      exact absurd h.1 (by decide)
    simp [separates, isWindowsSeparatorChar, hslash, hback]
  · cases h

theorem hasCleanNames_parseUnnormalizedWindowsPath [UrlHost]
    (h : parseUnnormalizedWindowsPath path = some uri) :
    HasCleanNames .windows uri := by
  unfold parseUnnormalizedWindowsPath at h
  split at h
  · cases h
    exact hasCleanNames_windowsOpaquePathUri path
  split at h
  · rename_i hdrive
    cases h
    exact hasCleanNames_fromSegments (forall_mem_cons.mpr
      ⟨drive_clean hdrive, fun _ => eq_false_of_mem_splitOnP⟩)
  split at h
  · split at h
    · exact hasCleanNames_parseUncPath h
    · cases h
  · cases h

theorem hasCleanNames_parseWindowsPath [UrlHost] (h : parseWindowsPath path = some uri) :
    HasCleanNames .windows uri := by
  unfold parseWindowsPath at h
  split at h
  · rename_i normalized hnorm
    dsimp only at h
    split at h
    · cases h
      exact hasCleanNames_windowsOpaquePathUri path
    · cases h
      cases hparsed :
        (parseUnnormalizedWindowsPath normalized).filter (isParsedWindows normalized) with
      | none => exact hasCleanNames_windowsOpaquePathUri path
      | some parsed =>
        exact hasCleanNames_parseUnnormalizedWindowsPath (Option.filter_eq_some_iff.mp hparsed).1
  · exact hasCleanNames_parseUnnormalizedWindowsPath h

theorem hasCleanNames_fromAbsoluteNativePath [UrlHost]
    (h : fromAbsoluteNativePath text convention = some uri) :
    HasCleanNames convention uri := by
  unfold fromAbsoluteNativePath at h
  cases convention with
  | posix =>
    dsimp only at h
    split at h
    · rename_i rest
      cases h
      split
      · exact hasCleanNames_fromSegments fun _ => eq_false_of_mem_splitOnP
      · trivial
    · cases h
  | windows =>
    obtain ⟨parsed, hparsed, rfl⟩ := Option.map_eq_some_iff.mp h
    split
    · exact hasCleanNames_parseWindowsPath hparsed
    · exact hasCleanNames_windowsOpaquePathUri text

variable {root : FileUri}

/-- Text joined to a URI without separators in its segments adds none. -/
theorem hasCleanNames_join [UrlHost] (hroot : HasCleanNames convention root)
    (hconv : root.inferPathConvention = some convention) (h : root.join text = .ok uri) :
    HasCleanNames convention uri := by
  unfold join at h
  split at h
  · cases h
  · split at h
    · cases h
      exact hroot
    · rw [hconv] at h
      dsimp only at h
      split at h
      · rename_i absolute habs
        cases h
        exact hasCleanNames_fromAbsoluteNativePath habs
      · cases h
      · rename_i auth names trailing _
        cases convention with
        | posix =>
          cases h
          exact hasCleanNames_ofNames (foldl_pushName_clean hroot fun _ => eq_false_of_mem_splitOnP)
        | windows =>
          obtain ⟨path, -, h⟩ := Fallible.bind_eq_ok.mp h
          cases h
          refine hasCleanNames_ofNames (foldl_pushName_clean ?_ fun _ => eq_false_of_mem_splitOnP)
          split
          · exact fun name hname => hroot name (mem_of_mem_take hname)
          · exact hroot

variable (hdepth : root.lexicalDepth.isSome = true)
  (hconv : root.inferPathConvention = some convention)

include hdepth hconv in
theorem hasCleanNames_of_lexicalDepth : HasCleanNames convention root := by
  cases root with
  | fallback path stored => trivial
  | file auth names trailing =>
    refine cleanNames_of_isSome ?_
    simpa [lexicalDepth, hconv] using hdepth

include hdepth hconv in
/-- **Joined URIs** of the root's convention have a depth or are kept as they are. -/
theorem join_measured [UrlHost] (h : root.join text = .ok uri)
    (huri : uri.inferPathConvention = some convention) :
    uri.lexicalDepth.isSome = true ∨ LexicalPath.isOpaque uri = true := by
  have hclean := hasCleanNames_join (hasCleanNames_of_lexicalDepth hdepth hconv) hconv h
  cases uri with
  | fallback path stored => exact .inr rfl
  | file auth names trailing =>
    refine .inl ?_
    simp [lexicalDepth, huri, containmentNames_eq_some hclean]

/-! ## Relative text -/

/-- Relative text without dots, of a kind that a root takes as names below it. -/
structure PlainSubpath (root : FileUri) (convention : PathConvention) (text : List Char) :
    Prop where
  nul : '\x00' ∉ text
  relative : text.head? ≠ some '/'
  dots : ∀ segment ∈ convention.pathSegments text, segment ≠ ['.'] ∧ segment ≠ ['.', '.']
  windows : convention = .windows → text.head? ≠ some '\\' ∧ ':' ∉ text
  drive : convention = .posix → root.names = [] →
    ∀ first ∈ ((convention.pathSegments text).filterMap UriName.of?).head?,
      isWindowsDrive first.text = false

theorem pathSegments_windows (text : List Char) :
    windows.pathSegments text = text.splitOnP isWindowsSeparatorChar := by
  congr 1

/-- Without dots every component that is a name is appended. -/
theorem foldl_pushName {components : List (List Char)}
    (h : ∀ component ∈ components, component ≠ ['.', '.']) :
    components.foldl (pushName depth) names = names ++ components.filterMap UriName.of? := by
  induction components generalizing names with
  | nil => simp
  | cons component components ih =>
    rw [forall_mem_cons] at h
    rw [foldl_cons, ih h.2, pushName, if_neg h.1, append_assoc]
    cases hname : UriName.of? component <;> simp [hname]

section Relative

variable {trailing : Bool}

theorem PlainSubpath.head_separates (h : PlainSubpath root .windows text) :
    ∀ first ∈ text.head?, isWindowsSeparatorChar first = false := by
  intro first hfirst
  have hslash : first ≠ '/' := fun heq => h.relative (heq ▸ hfirst)
  have hback : first ≠ '\\' := fun heq => (h.windows rfl).1 (heq ▸ hfirst)
  simp [isWindowsSeparatorChar, hslash, hback]

theorem parseWindowsPath_eq_none [UrlHost] (h : PlainSubpath root .windows text) :
    parseWindowsPath text = none := by
  have hstrip : ∀ lead : List Char, lead.head? = some '\\' → stripPrefix lead text = none := by
    intro lead hlead
    refine if_neg fun hstarts => ?_
    obtain ⟨rest, rfl⟩ := isPrefixOf_iff_prefix.mp hstarts
    refine (h.windows rfl).1 ?_
    rw [head?_append, hlead, Option.some_or]
  have hdevice : normalizeWindowsDevicePath text = none := by
    unfold normalizeWindowsDevicePath
    rw [hstrip _ (by decide +kernel), hstrip _ (by decide +kernel), hstrip _ (by decide +kernel),
      hstrip _ (by decide +kernel)]
    rfl
  unfold parseWindowsPath
  rw [hdevice]
  dsimp only
  have hnamespace : usesNamespace text = false := by
    unfold usesNamespace
    split
    · rw [h.head_separates _ rfl]
      rfl
    · rfl
  have hdrive : isWindowsDriveAbsolutePath text = false := by
    unfold isWindowsDriveAbsolutePath
    split
    · exact absurd (by simp) (h.windows rfl).2
    · rfl
  unfold parseUnnormalizedWindowsPath
  rw [if_neg (by simp [hnamespace, h.nul]), if_neg (by simp [hdrive])]
  split
  · rw [h.head_separates _ rfl]
    rfl
  · rfl

theorem fromAbsoluteNativePath_eq_none [UrlHost] (h : PlainSubpath root convention text) :
    fromAbsoluteNativePath text convention = none := by
  unfold fromAbsoluteNativePath
  cases convention with
  | posix =>
    dsimp only
    split
    · exact absurd rfl h.relative
    · rfl
  | windows =>
    rw [parseWindowsPath_eq_none h]
    rfl

/-- The names of such text follow the names of the root. -/
theorem joinRelative_plain (h : PlainSubpath (file auth names trailing) convention text) :
    joinRelative auth names convention text = .ok (ofNames auth
        (names ++ (convention.pathSegments text).filterMap UriName.of?) false) := by
  have hdots : ∀ seg ∈ convention.pathSegments text, seg ≠ ['.', '.'] :=
    fun seg hseg => (h.dots seg hseg).2
  cases convention with
  | posix =>
    have hfold := @foldl_pushName names 0 _ hdots
    exact congrArg (fun found => Except.ok (ofNames auth found false)) hfold
  | windows =>
    have hstrip : stripSameDrive names text = .ok text := by
      unfold stripSameDrive
      split
      · exact absurd (by simp) (h.windows rfl).2
      · rfl
    have hroot : isRootRelative text = false := by
      unfold isRootRelative
      split
      · rename_i first rest
        rw [h.head_separates first rfl, Bool.false_and]
      · rfl
    have hfold := @foldl_pushName names 1 _ hdots
    rw [pathSegments_windows] at hfold ⊢
    refine Fallible.bind_eq_ok.mpr ⟨text, hstrip, ?_⟩
    dsimp only
    rw [hroot, if_neg Bool.false_ne_true, hfold]
    rfl

theorem sameName_refl (name : UriName) : convention.sameName name name = true := by
  cases convention with
  | posix | windows => exact decide_eq_true rfl

theorem namesStartWith_append (names extra : List UriName) :
    namesStartWith convention (names ++ extra) names = true := by
  induction names with
  | nil => simp [namesStartWith]
  | cons name names ih =>
    simp only [namesStartWith, Bool.and_eq_true, decide_eq_true_eq, cons_append,
      length_cons, zip_cons_cons, all_cons, Nat.add_le_add_iff_right] at ih ⊢
    exact ⟨ih.1, sameName_refl name, ih.2⟩

/-- More names below a root of a convention make a URI of it that starts with the root. -/
theorem startsWith_ofNames {extra : List UriName}
    (hconv : (file auth names trailing).inferPathConvention = some convention)
    (hclean : CleanNames convention (names ++ extra))
    (hdrive : convention = .posix → names = [] → ∀ first ∈ extra.head?, isWindowsDrive first.text =
      false) :
    (ofNames auth (names ++ extra) false).startsWith (file auth names trailing) = true := by
  have hroot : CleanNames convention names :=
    fun name hname => hclean name (mem_append_left _ hname)
  have hall : (file auth (names ++ extra) false).inferPathConvention = some convention := by
    cases names with
    | cons first rest => simpa [inferPathConvention] using hconv
    | nil =>
      cases auth with
      | some host => simpa [inferPathConvention] using hconv
      | none =>
        have hposix : convention = .posix := by
          simpa [inferPathConvention, eq_comm] using hconv
        cases extra with
        | nil => exact hconv
        | cons first rest => simp [inferPathConvention, hdrive hposix rfl first rfl, hposix]
  obtain ⟨found, heq, hfound, hinfer, hstarts⟩ :=
    exists_ofNames convention auth (names ++ extra) false
  have hnames := hstarts names hall (namesStartWith_append names extra)
  rw [heq]
  simp [startsWith, hinfer, hall, hconv, containmentNames_eq_some (hfound hclean),
    containmentNames_eq_some hroot, hnames]

include hdepth hconv in
/-- **Relative text without dots** joined to a root stays below it. -/
theorem join_plain [UrlHost] (h : PlainSubpath root convention text) :
    ∃ uri, root.join text = .ok uri ∧ uri.startsWith root = true := by
  have hclean := hasCleanNames_of_lexicalDepth hdepth hconv
  unfold join
  rw [if_neg h.nul]
  split
  · exact ⟨root, rfl, by simp [startsWith]⟩
  · rw [hconv]
    dsimp only
    rw [fromAbsoluteNativePath_eq_none h]
    cases root with
    | fallback path stored => cases hdepth
    | file auth names trailing =>
      dsimp only
      rw [joinRelative_plain h]
      refine ⟨_, rfl, startsWith_ofNames hconv ?_ (h.drive ·)⟩
      refine forall_mem_append.mpr ⟨hclean, fun name hname => ?_⟩
      obtain ⟨seg, hseg, hof⟩ := mem_filterMap.mp hname
      rw [UriName.of?_eq_some hof]
      cases convention with
      | posix | windows => exact eq_false_of_mem_splitOnP hseg

end Relative

end RenCrow.FileUri
