
/-!
# Path URIs

Absolute paths as the rest of the program sees them (`utils/path-uri/src/lib.rs`).  What is
proved about patches holds for any type of paths with these operations; POSIX paths that a
URI can spell are one.

* `PathUri`: paths that names are resolved against;
* `LexicalPath`: paths that can be compared segment by segment;
* `PosixPath`: the segments of a POSIX path.
-/

namespace RenCrow

/-- Why a path cannot be made a URI. -/
structure PathUriParseError where
  message : String
deriving DecidableEq, Repr

/-- What resolving names needs of path URIs. -/
class PathUri (U : Type) where
  join : U → List Char → Except PathUriParseError U
  parent : U → Option U
  inferredNativePathString : U → String

/-- How paths are written. -/
inductive PathConvention where
  | posix
  | windows
deriving DecidableEq, Repr

/-- Empty segments are kept. -/
def PathConvention.pathSegments : PathConvention → List Char → List (List Char)
  | posix, path => path.splitOnP (· == '/')
  | windows, path => path.splitOnP fun c => c == '/' || c == '\\'

/-- What containment needs of path URIs. -/
class LexicalPath (U : Type) extends PathUri U where
  inferPathConvention : U → Option PathConvention
  lexicalDepth : U → Option Nat
  startsWith : U → U → Bool
  isOpaque : U → Bool
  basename : U → Option (List Char)

namespace LexicalPath

open PathUri

variable {U : Type} [LexicalPath U]

/-- A path that leads out of its base. -/
def descendantError (path : List Char) : PathUriParseError :=
  ⟨"path `" ++ String.ofList path ++
    "` must resolve to a relative descendant when joining a path URI"⟩

/-- A relative path that stays at or below the base. -/
def joinDescendant (base : U) (path : List Char) : Except PathUriParseError U := do
  let descendant ← join base path
  let windows := inferPathConvention base = some .windows
  if path.head? = some '/' ∨ windows ∧ (path.head? = some '\\' ∨
      (PathConvention.windows.pathSegments path).any (·.contains ':') = true) ∨
      startsWith descendant base = false then
    .error (descendantError path)
  else .ok descendant

/-- The path and its parents; a parent is one segment shorter. -/
def ancestorsWithin : Nat → U → List U
  | 0, path => [path]
  | depth + 1, path => path :: (parent path).elim [] (ancestorsWithin depth)

/-- A path and the paths above it. -/
def ancestors (path : U) : List U := ancestorsWithin ((lexicalDepth path).getD 0) path

end LexicalPath

/-- The segments of a POSIX path; a trailing separator leaves an empty one at the end.  A path
whose first segment looks like a drive is a Windows path and is not meant here. -/
structure PosixPath where
  segments : List (List Char)
deriving DecidableEq, Repr

namespace PosixPath

/-- Empty segments and `.` are ignored, and `..` removes a segment. -/
def push (segments : List (List Char)) (component : List Char) : List (List Char) :=
  if component = [] ∨ component = ['.'] then segments
  else if component = ['.', '.'] then segments.dropLast
  else segments ++ [component]

/-- The segments that are not empty. -/
def components (path : PosixPath) : List (List Char) :=
  path.segments.filter fun segment => !segment.isEmpty

/-- A path that has a NUL. -/
def invalidPath (path : List Char) : PathUriParseError :=
  ⟨"'" ++ String.ofList path ++ "' is invalid on 'linux'"⟩

/-- `path_uri_from_segments`: the path that starts at the root. -/
def fromSegments (components : List (List Char)) : PosixPath :=
  let segments := components.foldl push []
  ⟨if components.getLast? = some [] then segments ++ [[]] else segments⟩

/-- An absolute path replaces the base, a relative one is appended to it. -/
def join (base : PosixPath) (path : List Char) : Except PathUriParseError PosixPath :=
  if '\x00' ∈ path then .error (invalidPath path)
  else if path.isEmpty then .ok base
  else
    match path with
    | '/' :: rest => .ok (fromSegments (rest.splitOn '/'))
    | _ => .ok ⟨(path.splitOn '/').foldl push base.components⟩

/-- The directory of a path. -/
def parent (path : PosixPath) : Option PosixPath :=
  if path.components = [] then none else some ⟨path.components.dropLast⟩

/-- A path as it is written. -/
def text (path : PosixPath) : List Char := '/' :: ['/'].intercalate path.segments

instance : LexicalPath PosixPath where
  join := join
  parent := parent
  inferredNativePathString path := String.ofList path.text
  inferPathConvention _ := some .posix
  lexicalDepth path := some path.components.length
  startsWith path base := base.components.isPrefixOf path.components
  isOpaque _ := false
  basename path := path.components.getLast?

end PosixPath

end RenCrow
