import RenCrowCore.Lib.Text
import RenCrowCore.Utils.PathUri

/-!
# File URIs

`file:` URIs of both path conventions, as `utils/path-uri/src/lib.rs` reads them: segments
are percent-decoded, an authority or a drive makes a URI a Windows one, and a native path
that no URI spells is kept as it is.  How a URL spells the host of a share is a parameter.

* `UrlHost`: that parameter;
* `FileUri`: an ordinary URI or such a fallback;
* `FileUri.join`: native path text against a URI;
* `FileUri.IsLexical.startsWith_iff`: containment is a matter of names.
-/

namespace RenCrow

open Text List

/-- A segment of a URI, percent-decoded: it is not empty and means itself. -/
structure UriName where
  text : List Char
  valid : text ≠ [] ∧ text ≠ ['.'] ∧ text ≠ ['.', '.'] ∧ '\x00' ∉ text
deriving DecidableEq

/-- A segment that is a name. -/
def UriName.of? (text : List Char) : Option UriName :=
  if h : text ≠ [] ∧ text ≠ ['.'] ∧ text ≠ ['.', '.'] ∧ '\x00' ∉ text then some ⟨text, h⟩ else none

/-- A URI with its authority, its segments that are not empty, and whether a separator ends
it; or the native path that a fallback URI stores, with the convention it shows. -/
inductive FileUri where
  | file (authority : Option (List Char)) (names : List UriName) (trailing : Bool)
  | fallback (path : List Char) (convention : Option PathConvention)
deriving DecidableEq

/-- `is_windows_drive_uri_segment`. -/
def isWindowsDrive : List Char → Bool
  | [drive, ':'] => drive.isAlpha
  | _ => false

/-- The separators of a Windows path. -/
def isWindowsSeparatorChar (c : Char) : Bool := c = '/' || c = '\\'

/-- The segments that may not be removed: a drive or a share. -/
def PathConvention.anchorDepth : PathConvention → Nat
  | posix => 0
  | windows => 1

/-- The bytes that separate segments in native paths. -/
def PathConvention.separates : PathConvention → Char → Bool
  | posix, c => c = '/'
  | windows, c => isWindowsSeparatorChar c

/-- Segments as the convention compares them. -/
def PathConvention.sameName (convention : PathConvention) (a b : UriName) : Bool :=
  match convention with
  | posix => a.text = b.text
  | windows => Text.eqIgnoreAsciiCase a.text b.text

/-- The host parser of URLs. -/
class UrlHost where
  /-- `Url::set_host` on a `file:` URL, and the host that the URL then has. -/
  setHost : List Char → Option (List Char)

namespace SampleHosts

/-- Hosts of ASCII letters and hyphens, in lower case. -/
scoped instance letterHost : UrlHost where
  setHost host :=
    if host.all fun c => c.isAlpha || c = '-' then some (host.map Text.toAsciiLower) else none

end SampleHosts

namespace FileUri

/-- How the path of a URI is written, as far as its form shows. -/
def inferPathConvention : FileUri → Option PathConvention
  | fallback _ convention => convention
  | file authority names _ =>
    if authority.isSome || names.head?.any fun name => isWindowsDrive name.text then some .windows
    else some .posix

/-- `containment_path_segments`: an encoded separator leaves the segments in doubt. -/
def containmentNames (convention : PathConvention) (names : List UriName) : Option (List UriName) :=
  if names.any fun name => name.text.any convention.separates then none else some names

/-- How many directories a path lies below the root. -/
def lexicalDepth : FileUri → Option Nat
  | fallback .. => none
  | file authority names trailing => do
    let convention ← (file authority names trailing).inferPathConvention
    (containmentNames convention names).map List.length

/-- `native_path_segments_start_with`. -/
def namesStartWith (convention : PathConvention) (names base : List UriName) : Bool :=
  base.length ≤ names.length && (names.zip base).all fun pair => convention.sameName pair.1 pair.2

/-- A path lies below another, or is it. -/
def startsWith (path base : FileUri) : Bool :=
  decide (path = base) ||
    match path, base with
    | file authority names trailing, file baseAuthority baseNames baseTrailing =>
      match (file authority names trailing).inferPathConvention with
      | none => false
      | some convention =>
        decide (authority = baseAuthority) &&
          decide ((file baseAuthority baseNames baseTrailing).inferPathConvention =
            some convention) &&
          (containmentNames convention names).isSome &&
          (containmentNames convention baseNames).isSome &&
          namesStartWith convention names baseNames
    | _, _ => false

/-- Removing the last segment leaves a drive or a share alone. -/
def parent : FileUri → Option FileUri
  | fallback .. => none
  | file authority names trailing => do
    let convention ← (file authority names trailing).inferPathConvention
    if names.length ≤ convention.anchorDepth then none
    else some (file authority names.dropLast false)

/-- The last name of a path. -/
def basename : FileUri → Option (List Char)
  | fallback .. => none
  | file _ names _ => names.getLast?.map UriName.text

/-! ## Joining -/

/-- Empty segments and `.` are ignored, and `..` removes a segment above the anchor. -/
def pushName (anchorDepth : Nat) (names : List UriName) (component : List Char) : List UriName :=
  if component = ['.', '.'] then
    if anchorDepth < names.length then names.dropLast else names
  else names ++ (UriName.of? component).toList

/-- `with_normalized_windows_drive_letter`. -/
def upperDrive (name : UriName) : UriName :=
  match UriName.of? (name.text.map fun c =>
      if 'a' ≤ c ∧ c ≤ 'z' then Char.ofNat (c.toNat - 32) else c) with
  | some upper => upper
  | none => name

/-- `PathUri::try_from` of a URL that is known to be valid. -/
def ofNames (authority : Option (List Char)) (names : List UriName) (trailing : Bool) : FileUri :=
  match authority, names with
  | none, first :: rest =>
    if isWindowsDrive first.text then file none (upperDrive first :: rest) trailing
    else file none (first :: rest) trailing
  | authority, names => file authority names trailing

/-- `path_uri_from_segments`. -/
def fromSegments (convention : PathConvention) (authority : Option (List Char))
    (components : List (List Char)) : FileUri :=
  let names := components.foldl (pushName convention.anchorDepth) []
  ofNames authority names (decide (components.getLast? = some []) ||
    decide (convention = .windows) && authority.isNone &&
      decide (names.length = convention.anchorDepth))

/-- What a fallback URI with a Windows path shows: a leading slash reads as POSIX. -/
def windowsOpaquePathUri (path : List Char) : FileUri :=
  match path with
  | '/' :: _ => fallback path (some .posix)
  | '\\' :: '\\' :: _ => fallback path (some .windows)
  | drive :: ':' :: _ => fallback path (if drive.isAlpha then some .windows else none)
  | _ => fallback path none

/-- `is_windows_drive_absolute_path`. -/
def isWindowsDriveAbsolutePath : List Char → Bool
  | drive :: ':' :: separator :: _ => drive.isAlpha && isWindowsSeparatorChar separator
  | _ => false

/-- `normalize_windows_device_path`. -/
def normalizeWindowsDevicePath (path : List Char) : Option (List Char) :=
  let unc := (stripPrefix "\\\\?\\UNC\\".toList path).or
    (stripPrefix "\\\\.\\UNC\\".toList path)
  let drive := ((stripPrefix "\\\\?\\".toList path).or
    (stripPrefix "\\\\.\\".toList path)).filter isWindowsDriveAbsolutePath
  (unc.map fun rest => '\\' :: '\\' :: rest).or drive

/-- Two separators, a dot or a question mark, and a separator: a device namespace. -/
def usesNamespace : List Char → Bool
  | first :: second :: namespaceMark :: separator :: _ =>
    isWindowsSeparatorChar first && isWindowsSeparatorChar second &&
      isWindowsSeparatorChar separator && (namespaceMark = '.' || namespaceMark = '?')
  | _ => false

section Hosts

variable [UrlHost]

/-- The path of a share, if its text names a host and a share; the URL has to keep the host as it
is, and has none for the local one. -/
def parseUncPath (path rest : List Char) : Option FileUri :=
  match rest.splitOnP isWindowsSeparatorChar with
  | host :: share :: components =>
    if host = [] ∨ share = [] then none
    else if [['.'], ['.', '.']].contains host || [['.'], ['.', '.']].contains share then
      some (windowsOpaquePathUri path)
    else
      match (UrlHost.setHost host).filter fun parsed =>
          decide (parsed ≠ "localhost".toList) && Text.eqIgnoreAsciiCase parsed host with
      | some parsed => some (fromSegments .windows (some parsed) (share :: components))
      | none => some (windowsOpaquePathUri path)
  | _ => none

/-- `parse_unnormalized_windows_path`. -/
def parseUnnormalizedWindowsPath (path : List Char) : Option FileUri :=
  if usesNamespace path = true ∨ '\x00' ∈ path then some (windowsOpaquePathUri path)
  else if isWindowsDriveAbsolutePath path then
    some (fromSegments .windows none
      (path.take 2 :: (path.drop 3).splitOnP isWindowsSeparatorChar))
  else
    match path with
    | first :: second :: rest =>
      if isWindowsSeparatorChar first && isWindowsSeparatorChar second then parseUncPath path rest
      else none
    | _ => none

/-- An ordinary Windows URI, with an authority if the path is one of a share. -/
def isParsedWindows (path : List Char) : FileUri → Bool
  | fallback .. => false
  | file authority names trailing =>
    decide ((file authority names trailing).inferPathConvention = some .windows) &&
      (!("\\\\".toList.isPrefixOf path) || authority.isSome)

/-- `parse_windows_path`. -/
def parseWindowsPath (path : List Char) : Option FileUri :=
  match normalizeWindowsDevicePath path with
  | some normalized =>
    let dotted (component : Option (List Char)) : Bool :=
      [none, some [], some ['.'], some ['.', '.']].contains component
    let components := (normalized.drop 2).splitOnP isWindowsSeparatorChar
    if "\\\\".toList.isPrefixOf normalized && (dotted components[0]? || dotted components[1]?) then
      some (windowsOpaquePathUri path)
    else
      some (((parseUnnormalizedWindowsPath normalized).filter (isParsedWindows normalized)).getD
        (windowsOpaquePathUri path))
  | none => parseUnnormalizedWindowsPath path

/-- `from_absolute_native_path`: a path that reads as one of another convention is kept. -/
def fromAbsoluteNativePath (path : List Char) (convention : PathConvention) : Option FileUri :=
  match convention with
  | .posix =>
    match path with
    | '/' :: rest =>
      let uri := fromSegments .posix none (rest.splitOn '/')
      some (if '\x00' ∉ rest ∧ uri.inferPathConvention = some .posix then uri
        else fallback path (some .posix))
    | _ => none
  | .windows => (parseWindowsPath path).map fun uri =>
    if uri.inferPathConvention = some .windows then uri else windowsOpaquePathUri path

/-- `InvalidFileUriPath`. -/
def invalidFileUriPath (path : List Char) : PathUriParseError :=
  ⟨"'" ++ String.ofList path ++ "' is invalid on 'linux'"⟩

/-- Text that is relative to its own drive, without the drive. -/
def stripSameDrive (names : List UriName) (path : List Char) :
    Except PathUriParseError (List Char) :=
  match path with
  | drive :: ':' :: rest =>
    if drive.isAlpha then
      if names.head?.any fun name => isWindowsDrive name.text &&
          (name.text.head?.map toAsciiLower) = some (toAsciiLower drive) then
        .ok rest
      else .error (invalidFileUriPath path)
    else .ok path
  | _ => .ok path

/-- Exactly one separator leads. -/
def isRootRelative : List Char → Bool
  | first :: rest => isWindowsSeparatorChar first && !(rest.head?.any isWindowsSeparatorChar)
  | [] => false

/-- Relative text appended to the segments of a URI. -/
def joinRelative (authority : Option (List Char)) (names : List UriName)
    (convention : PathConvention) (path : List Char) : Except PathUriParseError FileUri :=
  match convention with
  | .posix => .ok (ofNames authority ((path.splitOn '/').foldl (pushName 0) names) false)
  | .windows => do
    let path ← stripSameDrive names path
    let base := if isRootRelative path then names.take 1 else names
    return ofNames authority ((path.splitOnP isWindowsSeparatorChar).foldl (pushName 1) base) false

/-- `PathUri::join`. -/
def join (base : FileUri) (path : List Char) : Except PathUriParseError FileUri :=
  if '\x00' ∈ path then .error (invalidFileUriPath path)
  else if path.isEmpty then .ok base
  else
    match base.inferPathConvention with
    | none => .error (invalidFileUriPath path)
    | some convention =>
      match fromAbsoluteNativePath path convention, base with
      | some absolute, _ => .ok absolute
      | none, fallback .. => .error (invalidFileUriPath path)
      | none, file authority names _ => joinRelative authority names convention path

end Hosts

/-- The native path that a URI spells; a drive alone is spelled with a separator. -/
def nativePath : FileUri → List Char
  | fallback path _ => path
  | file authority names trailing =>
    let segments := names.map UriName.text ++ (if trailing then [[]] else [])
    match (file authority names trailing).inferPathConvention with
    | some .windows =>
      let rendered := (authority.elim [] fun host => '\\' :: '\\' :: host ++ ['\\']) ++
        ['\\'].intercalate segments
      if isWindowsDrive rendered then rendered ++ ['\\'] else rendered
    | _ => '/' :: ['/'].intercalate segments

instance [UrlHost] : LexicalPath FileUri where
  join := join
  parent := parent
  inferredNativePathString path := String.ofList path.nativePath
  inferPathConvention := inferPathConvention
  lexicalDepth := lexicalDepth
  startsWith := startsWith
  isOpaque
    | fallback .. => true
    | file .. => false
  basename := basename

/-! ## Containment of POSIX paths -/

theorem UriName.ext_text {a b : UriName} (h : a.text = b.text) : a = b := by
  cases a
  cases b
  cases h
  rfl

theorem namesStartWith_posix {names base : List UriName} :
    namesStartWith .posix names base = true ↔ base <+: names := by
  induction base generalizing names with
  | nil => simp [namesStartWith]
  | cons name base ih =>
    cases names with
    | nil => simp [namesStartWith]
    | cons first names =>
      have hrest := @ih names
      simp only [namesStartWith, PathConvention.sameName, Bool.and_eq_true, decide_eq_true_eq,
        length_cons, zip_cons_cons, all_cons, Nat.add_le_add_iff_right,
        cons_prefix_cons] at hrest ⊢
      rw [← hrest]
      constructor
      · rintro ⟨hlen, hfirst, hall⟩
        exact ⟨(UriName.ext_text hfirst).symm, hlen, hall⟩
      · rintro ⟨rfl, hlen, hall⟩
        exact ⟨hlen, rfl, hall⟩

/-- The segments that are not empty. -/
def names : FileUri → List UriName
  | file _ names _ => names
  | fallback .. => []

/-- A POSIX URI whose segments are not in doubt. -/
structure IsLexical (uri : FileUri) : Prop where
  posix : uri.inferPathConvention = some .posix
  depth : uri.lexicalDepth.isSome = true

/-- The names of such a URI: none is in doubt and the first one is no drive. -/
structure PosixNames (names : List UriName) : Prop where
  drive : ∀ name ∈ names.head?, isWindowsDrive name.text = false
  separators : ∀ name ∈ names, '/' ∉ name.text

variable {names : List UriName}

theorem PosixNames.inferPathConvention (h : PosixNames names) (trailing : Bool) :
    (file none names trailing).inferPathConvention = some .posix := by
  have hdrive : (names.head?.any fun name => isWindowsDrive name.text) = false := by
    cases hfirst : names.head? with
    | none => rfl
    | some name => exact h.drive name hfirst
  simp [FileUri.inferPathConvention, hdrive]

theorem PosixNames.containmentNames (h : PosixNames names) :
    containmentNames .posix names = some names := by
  refine if_neg ?_
  simp only [any_eq_true, not_exists, not_and, PathConvention.separates, decide_eq_true_eq]
  rintro name hname c hc rfl
  exact h.separators name hname hc

theorem PosixNames.isLexical (h : PosixNames names) (trailing : Bool) :
    IsLexical (file none names trailing) :=
  ⟨h.inferPathConvention trailing, by
    simp [lexicalDepth, h.inferPathConvention, h.containmentNames]⟩

/-- **Lexical URIs** are the ordinary ones with such names. -/
theorem IsLexical.eq_file {uri : FileUri} (h : IsLexical uri) :
    ∃ names trailing, uri = file none names trailing ∧ PosixNames names := by
  obtain ⟨hposix, hdepth⟩ := h
  cases uri with
  | fallback path conv => cases hdepth
  | file auth names trailing =>
    have hauth : auth = none := by
      cases auth with
      | none => rfl
      | some host => simp [inferPathConvention] at hposix
    subst hauth
    refine ⟨names, trailing, rfl, ?_, ?_⟩
    · intro name hname
      by_contra hdrive
      simp [inferPathConvention, Option.mem_def.mp hname, hdrive] at hposix
    · intro name hname hseparator
      have hdoubt : containmentNames .posix names = none := by
        refine if_pos (any_eq_true.mpr ⟨name, hname, any_eq_true.mpr ⟨'/', hseparator, ?_⟩⟩)
        rfl
      simp [lexicalDepth, hposix, hdoubt] at hdepth

variable {path base : FileUri}

/-- Containment of lexical URIs is a matter of their names. -/
theorem IsLexical.startsWith_iff (h : IsLexical path) (hbase : IsLexical base) :
    path.startsWith base = true ↔ base.names <+: path.names := by
  obtain ⟨names, trailing, rfl, hnames⟩ := h.eq_file
  obtain ⟨baseNames, baseTrailing, rfl, hbaseNames⟩ := hbase.eq_file
  simp only [startsWith, hnames.inferPathConvention, hbaseNames.inferPathConvention,
    hnames.containmentNames, hbaseNames.containmentNames, decide_true, Option.isSome_some,
    Bool.true_and, Bool.or_eq_true, decide_eq_true_eq, namesStartWith_posix, FileUri.names]
  constructor
  · rintro (heq | hstarts)
    · cases heq
      exact prefix_refl _
    · exact hstarts
  · exact Or.inr

/-- What a lexical URI is below is lexical. -/
theorem IsLexical.of_startsWith (h : IsLexical path) (hstarts : path.startsWith base = true) :
    IsLexical base := by
  obtain ⟨names, trailing, rfl, hnames⟩ := h.eq_file
  cases base with
  | fallback path conv => simp [startsWith] at hstarts
  | file auth baseNames baseTrailing =>
    simp only [startsWith, hnames.inferPathConvention, Bool.or_eq_true, decide_eq_true_eq,
      Bool.and_eq_true] at hstarts
    rcases hstarts with heq | ⟨⟨⟨⟨_, hposix⟩, _⟩, hcontained⟩, _⟩
    · exact heq ▸ h
    · refine ⟨hposix, ?_⟩
      simpa [lexicalDepth, hposix] using hcontained

theorem IsLexical.startsWith_refl (h : IsLexical path) : path.startsWith path = true :=
  (h.startsWith_iff h).mpr (prefix_refl _)

theorem IsLexical.startsWith_trans {middle : FileUri} (h : IsLexical path)
    (hmid : path.startsWith middle = true) (hbase : middle.startsWith base = true) :
    path.startsWith base = true := by
  have hlex := h.of_startsWith hmid
  have hlexBase := hlex.of_startsWith hbase
  rw [h.startsWith_iff hlexBase]
  exact ((hlex.startsWith_iff hlexBase).mp hbase).trans ((h.startsWith_iff hlex).mp hmid)

/-- A name that a POSIX path may be followed by, wherever it stands. -/
structure IsPlainName (name : UriName) : Prop where
  drive : isWindowsDrive name.text = false
  separators : '/' ∉ name.text

variable {name : UriName}

theorem PosixNames.concat (h : PosixNames names) (hname : IsPlainName name) :
    PosixNames (names ++ [name]) := by
  refine ⟨?_, ?_⟩
  · cases names with
    | nil => simpa using hname.drive
    | cons first names => simpa using h.drive
  · simp only [mem_append, mem_singleton]
    rintro other (hother | rfl)
    · exact h.separators other hother
    · exact hname.separators

theorem UriName.of?_text (name : UriName) : UriName.of? name.text = some name := by
  unfold UriName.of?
  rw [dif_pos name.valid]

theorem UriName.of?_eq_some {text : List Char} (h : UriName.of? text = some name) :
    name.text = text := by
  unfold UriName.of? at h
  split at h
  · cases h
    rfl
  · cases h

/-- Joining such a name appends it. -/
theorem IsLexical.join_name [UrlHost] {uri : FileUri} (h : IsLexical uri)
    (hname : IsPlainName name) :
    uri.join name.text = .ok (file none (uri.names ++ [name]) false) := by
  obtain ⟨names, trailing, rfl, hnames⟩ := h.eq_file
  obtain ⟨hempty, -, hup, hnul⟩ := name.valid
  have hrel : fromAbsoluteNativePath name.text .posix = none := by
    unfold fromAbsoluteNativePath
    dsimp only
    split
    · rename_i rest hrest
      exact absurd (hrest ▸ mem_cons_self) hname.separators
    · rfl
  have hsplit : name.text.splitOn '/' = [name.text] := splitOn_eq_singleton hname.separators
  have hfirst : ofNames none (names ++ [name]) false = file none (names ++ [name]) false := by
    have hdrive := (hnames.concat hname).drive
    cases hall : names ++ [name] with
    | nil => simp at hall
    | cons first rest =>
      rw [hall] at hdrive
      exact if_neg (by simp [hdrive first rfl])
  simp only [join, if_neg hnul, List.isEmpty_iff, if_neg hempty, hnames.inferPathConvention,
    hrel, joinRelative, hsplit, List.foldl_cons, List.foldl_nil, pushName, if_neg hup,
    UriName.of?_text, Option.toList_some, hfirst, FileUri.names]

end FileUri

end RenCrow
