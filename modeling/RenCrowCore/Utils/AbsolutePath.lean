
/-!
# Absolute paths

`AbsolutePathBuf` on Unix: a path is made absolute against the home and the current
directory and normalized lexically.

* `normalizePath`: `.` is dropped, `..` goes up and stays at the root;
* `AbsolutePathBuf.fromAbsolutePath`: what `AbsolutePathBuf::try_from` computes.
-/

namespace RenCrow

/-- An absolute path without `.` and `..`, as its names from the root. -/
structure AbsolutePathBuf where
  segments : List String
deriving DecidableEq, Repr

/-- What a process knows of the directories around it. -/
structure ProcessEnv where
  homeDirectory : Option String
  /-- The current directory, if it can be looked up. -/
  currentDir : Option AbsolutePathBuf

/-- One component of a path after the names before it. -/
def pushComponent (normalized : List String) (component : String) : List String :=
  if component = "" ∨ component = "." then normalized
  else if component = ".." then normalized.dropLast
  else normalized ++ [component]

/-- The components of a path that stands in a directory. -/
def normalizePath (base : List String) (path : List Char) : List String :=
  ((path.splitOn '/').map String.ofList).foldl pushComponent base

/-- `Path::is_absolute`. -/
def isAbsolute (path : List Char) : Bool := path.head? = some '/'

/-- `Path::join`. -/
def joinPath (base path : List Char) : List Char :=
  if isAbsolute path then path
  else if base = [] ∨ base.getLast? = some '/' then base ++ path
  else base ++ '/' :: path

/-- `maybe_expand_home_directory`. -/
def maybeExpandHomeDirectory (env : ProcessEnv) (path : List Char) : List Char :=
  match path, env.homeDirectory with
  | ['~'], some home => home.toList
  | '~' :: '/' :: rest, some home =>
    joinPath home.toList (rest.dropWhile fun c => decide (c = '/'))
  | _, _ => path

namespace AbsolutePathBuf

/-- `AbsolutePathBuf::from_absolute_path`: fails only if the current directory is
needed and cannot be found. -/
def fromAbsolutePath (env : ProcessEnv) (path : String) : Option AbsolutePathBuf :=
  let expanded := maybeExpandHomeDirectory env path.toList
  if isAbsolute expanded then some ⟨normalizePath [] expanded⟩
  else env.currentDir.map fun base => ⟨normalizePath base.segments expanded⟩

/-- `Path::file_name`. -/
def fileName (path : AbsolutePathBuf) : Option String := path.segments.getLast?

end AbsolutePathBuf

end RenCrow
