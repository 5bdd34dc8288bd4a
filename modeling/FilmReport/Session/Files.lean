import FilmReport.Text.Path
import FilmReport.Text.Order

/-!
Files by their absolute paths: directories, texts and databases. A directory is made with all those
above it that are missing, unless something stands in the way; a path is followed name by name.
-/

set_option autoImplicit false
set_option relaxedAutoImplicit false

namespace FilmReport

/-- What stands at a path; a database is known by its number. -/
inductive Entry where
  | directory
  | text (content : String)
  | database (number : Nat)
deriving DecidableEq, Repr

/-- The entries by path; the root is a directory and is not listed. -/
abbrev Files := List (String × Entry)

namespace Files

def get? (files : Files) (path : String) : Option Entry :=
  if path = "/" then some .directory else (files.find? fun entry => entry.1 = path).map Prod.snd

/-- Puts an entry at a path, in place of what stands there. -/
def put (path : String) (entry : Entry) : Files → Files
  | [] => [(path, entry)]
  | (p, e) :: rest => if p = path then (p, entry) :: rest else (p, e) :: put path entry rest

/-- A path holds the entry that was put there last. -/
theorem get?_put_self {path : String} (h : path ≠ "/") (entry : Entry) (files : Files) :
    (put path entry files).get? path = some entry := by
  rw [get?, if_neg h]
  induction files with
  | nil => simp [put]
  | cons first rest ih =>
    obtain ⟨p, e⟩ := first
    by_cases hp : p = path
    · simp [put, hp]
    · simpa [put, hp] using ih

/-- An entry put at one path leaves the others as they are. -/
theorem get?_put_of_ne {path other : String} (h : other ≠ path) (entry : Entry) (files : Files) :
    (put path entry files).get? other = files.get? other := by
  rw [get?, get?]
  split
  · rfl
  · congr 1
    induction files with
    | nil => simp [put, h.symm]
    | cons first rest ih =>
      obtain ⟨p, e⟩ := first
      by_cases hp : p = path
      · subst hp
        simp [put, h.symm]
      · rw [put, if_neg hp, List.find?_cons, List.find?_cons, ih]

def isDirectory (files : Files) (path : String) : Bool :=
  files.get? path == some .directory

/-- The most bytes that a name in a directory may have. -/
def longestName : Nat := 255

/-- The number of bytes from which on a path is too long. -/
def tooManyBytes : Nat := 4096

/--
The path to which names lead from the directory at `current`. Each name is looked up in a
directory that must be there, also a name that leads nowhere or back.
-/
def follow (files : Files) (current : String) : List String → Option String
  | [] => some current
  | name :: rest =>
    if !files.isDirectory current || longestName < name.utf8ByteSize then none
    else if name = "" ∨ name = "." then files.follow current rest
    else if name = ".." then files.follow (Path.parent current) rest
    else files.follow (Path.join current name) rest

/-- What a path leads to from a directory, if it leads to something. -/
def find? (files : Files) (directory path : String) : Option Entry :=
  if path = "" ∨ tooManyBytes ≤ path.utf8ByteSize then none
  else
    let start := if Path.isAbsolute path then "/" else directory
    (files.follow start (Path.segments path)).bind files.get?

/-- Whether the last name of a path is too long. -/
def isTooLong (path : String) : Bool :=
  (Path.segments path).getLast?.any fun name => longestName < name.utf8ByteSize

/-- Makes those of some directories, each in the one before it, that are missing. -/
def makeEach (files : Files) : List String → Except String Unit × Files
  | [] => (.ok (), files)
  | path :: rest =>
    if isTooLong path then (.error "ENAMETOOLONG: name too long", files)
    else
      match files.get? path with
      | some .directory => files.makeEach rest
      | some _ =>
        let reason :=
          if rest.isEmpty then "EEXIST: file already exists" else "ENOTDIR: not a directory"
        (.error reason, files)
      | none => Files.makeEach (files.put path .directory) rest

/-- Makes a directory and those above it; what stands in the way leaves those before it made. -/
def makeDirectory (path : String) (files : Files) : Except String Unit × Files :=
  let (result, after) :=
    if tooManyBytes ≤ path.utf8ByteSize then (.error "ENAMETOOLONG: name too long", files)
    else files.makeEach ((path :: Path.ancestors path).reverse.filter fun p => p ≠ "/")
  (result.mapError fun cause => cause ++ ", mkdir '" ++ path ++ "'", after)

/-- Writes a text to a file, which may not be a directory. -/
def write (path content : String) (files : Files) : Except String Files :=
  if tooManyBytes ≤ path.utf8ByteSize then
    .error ("ENAMETOOLONG: name too long, open '" ++ path ++ "'")
  else if files.isDirectory path then
    .error ("EISDIR: illegal operation on a directory, open '" ++ path ++ "'")
  else .ok (files.put path (.text content))

/-- The text of the file that a path leads to from a directory. -/
def read (files : Files) (directory path : String) : Except String String :=
  match files.find? directory path with
  | some (.text content) => .ok content
  | some (.directory) => .error "EISDIR: illegal operation on a directory, read"
  | some (.database _) => .error "The file is a database"
  | none => .error ("ENOENT: no such file or directory, open '" ++ path ++ "'")

/-- The names in a directory, in the order of their units. -/
def namesIn (files : Files) (directory : String) : List String :=
  let inside := files.filter fun entry => Path.parent entry.1 = directory
  (inside.filterMap fun entry => (Path.segments entry.1).getLast?).mergeSort
    fun a b => !Text.unitsBefore b a

/-- The paths under a directory, each directory with a slash at its end and before what it holds. -/
def listing (files : Files) : Nat → String → String → List String
  | 0, _, _ => []
  | depth + 1, directory, lead =>
    (files.namesIn directory).flatMap fun name =>
      let path := Path.join directory name
      if files.isDirectory path then
        (lead ++ name ++ "/") :: listing files depth path (lead ++ name ++ "/")
      else [lead ++ name]

/-- All paths under a directory; no path is deeper than there are entries. -/
def tree (files : Files) (directory : String) : List String :=
  files.listing (files.length + 1) directory ""

end Files
end FilmReport
