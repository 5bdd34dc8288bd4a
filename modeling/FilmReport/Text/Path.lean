import FilmReport.Text.Pieces

/-!
Slash-separated paths. A path is resolved against a working directory by reading it as a list of
names, where `.` and empty names stand for nothing and `..` takes back the name before it.
-/

set_option autoImplicit false
set_option relaxedAutoImplicit false

namespace FilmReport.Path

/-- The names of a path between its slashes. -/
def segments (path : String) : List String :=
  Text.splitAt '/' path

/-- The names that a path leads through, from the root, latest name first. -/
def walk (visited : List String) : List String → List String
  | [] => visited
  | name :: rest =>
    if name = "" ∨ name = "." then walk visited rest
    else if name = ".." then walk visited.tail rest
    else walk (name :: visited) rest

/-- An absolute path through the given names. -/
def ofNames (names : List String) : String :=
  "/" ++ "/".intercalate names

def isAbsolute (path : String) : Bool :=
  path.toList.head? == some '/'

/-- The absolute path meant by `path` in the directory `base`. -/
def resolve (base path : String) : String :=
  let start := if isAbsolute path then [] else walk [] (segments base)
  ofNames (walk start (segments path)).reverse

/-- The path of `name` in the directory `directory`. -/
def join (directory name : String) : String :=
  resolve directory name

/-- The directory that holds an absolute path; the root holds itself. -/
def parent (path : String) : String :=
  ofNames (walk [] (segments path)).tail.reverse

/-- The part of a path before its last name; the working directory if there is no other. -/
def directoryPart (path : String) : String :=
  let above := ((path.toList.reverse.dropWhile (· = '/')).dropWhile (· ≠ '/')).drop 1
  if above.isEmpty then (if isAbsolute path then "/" else ".") else String.ofList above.reverse

/-- The absolute paths of the directories above an absolute path, nearest first. -/
def ancestors (path : String) : List String :=
  let names := walk [] (segments path)
  (List.range names.length).map fun k => ofNames (names.drop (k + 1)).reverse

end FilmReport.Path
