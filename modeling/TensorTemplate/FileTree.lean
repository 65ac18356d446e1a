import TensorTemplate.Path

/-!
A directory with files in it, seen from inside: the working directory and all
that is below it. What lies above it is known only to be a directory.
-/

namespace TensorTemplate

/-- Why a file cannot be read or written. -/
inductive FileFault where
  | notFound
  | notDirectory
  | isDirectory
  | nameTooLong
  | nulInName
  | notText
  /-- Any other refusal, in the words of the system. -/
  | other (text : String)
deriving DecidableEq, Repr

def FileFault.message : FileFault → String
  | notFound => "No such file or directory (os error 2)"
  | notDirectory => "Not a directory (os error 20)"
  | isDirectory => "Is a directory (os error 21)"
  | nameTooLong => "File name too long (os error 36)"
  | nulInName => "file name contained an unexpected NUL byte"
  | notText => "stream did not contain valid UTF-8"
  | other text => text

/-- What stands at a place. -/
inductive FileNode where
  | directory
  | file (content : ByteArray)

/-- A place that a path can lead to. -/
inductive Place where
  /-- Below the working directory, by the names on the way down. -/
  | inside (names : List String)
  /-- A directory above the working directory. -/
  | above
  /-- Below a directory that is above the working directory. -/
  | beside
deriving DecidableEq, Repr

namespace Place

/-- Where one piece of a path leads from here. -/
def child (p : Place) (piece : String) : Place :=
  if piece = "" ∨ piece = "." then p
  else if piece = ".." then
    match p with
    | inside [] => above
    | inside names => inside names.dropLast
    | above => above
    | beside => beside
  else
    match p with
    | inside names => inside (names ++ [piece])
    | _ => beside

end Place

/-- The files and directories below the working directory. -/
structure FileTree where
  entries : List (List String × FileNode) := []

namespace FileTree

instance : Inhabited FileTree := ⟨{}⟩

def node? (t : FileTree) : Place → Option FileNode
  | .inside [] => some .directory
  | .inside names => (t.entries.find? (fun entry => entry.1 = names)).map (·.2)
  | .above => some .directory
  | .beside => none

/-- The longest name that a directory can hold, in bytes. -/
def nameLimit : Nat := 255

/-- The longest path that leads anywhere, in bytes. -/
def pathLimit : Nat := 4095

/-- Follows the pieces of a path; every place that is left has to be a directory. -/
def walk (t : FileTree) : Place → List String → Except FileFault Place
  | p, [] => .ok p
  | p, piece :: rest =>
    match t.node? p with
    | none => .error .notFound
    | some (.file _) => .error .notDirectory
    | some .directory =>
      if piece.utf8ByteSize > nameLimit then .error .nameTooLong else walk t (p.child piece) rest

/-- Where a path starts. -/
def start (path : String) : Place :=
  if Path.isAbsolute path then .above else .inside []

def holdsNul (path : String) : Bool := path.toList.contains '\x00'

/-- The content of the file at the path, if there is a file. -/
def content? (t : FileTree) (path : String) : Option ByteArray :=
  if holdsNul path || path.utf8ByteSize > pathLimit then none
  else
    match t.walk (start path) (Path.pieces path) with
    | .error _ => none
    | .ok p =>
      match t.node? p with
      | some (.file content) => some content
      | _ => none

def isFile (t : FileTree) (path : String) : Bool := (t.content? path).isSome

/-- The text of a file that is there. -/
def readText (t : FileTree) (path : String) : Except FileFault String :=
  match t.content? path with
  | none => .error .notFound
  | some content =>
    match String.fromUTF8? content with
    | some text => .ok text
    | none => .error .notText

/-- The tree with `node` at the place with these names. -/
def put (t : FileTree) (names : List String) (node : FileNode) : FileTree :=
  ⟨t.entries.filter (fun entry => entry.1 ≠ names) ++ [(names, node)]⟩

/-- Where a file of this path would be written: below a directory that is there, and not where a
directory is. A slash at the end asks for a directory. -/
def target (t : FileTree) (path : String) : Except FileFault Place := do
  if holdsNul path then throw .nulInName
  if path.isEmpty then throw .notFound
  if path.utf8ByteSize > pathLimit then throw .nameTooLong
  let pieces := (Path.pieces path).filter (· ≠ "")
  match pieces.getLast? with
  | none => throw .isDirectory
  | some last =>
    let parent ← t.walk (start path) pieces.dropLast
    match t.node? parent with
    | none => throw .notFound
    | some (.file _) => throw .notDirectory
    | some .directory => pure ()
    if last = "." ∨ last = ".." ∨ path.toList.getLast? = some '/' then throw .isDirectory
    if last.utf8ByteSize > nameLimit then throw .nameTooLong
    match t.node? (parent.child last) with
    | some .directory => throw .isDirectory
    | _ => pure (parent.child last)

/-- Writes a text into the file at the path, in place of what it held. A file outside is not seen
again. -/
def write (t : FileTree) (path text : String) : Except FileFault FileTree := do
  match ← t.target path with
  | .inside names => pure (t.put names (.file text.toUTF8))
  | _ => pure t

/-- All ways down to the place, the shortest first, without the place itself. -/
def ancestors (names : List String) : List (List String) :=
  (List.range names.length).drop 1 |>.map names.take

/-- Adds a directory and those it lies in. -/
def addDirectory (t : FileTree) (path : String) : FileTree :=
  let names := Path.names path
  let missing := (ancestors names ++ [names]).filter fun way => (t.node? (.inside way)).isNone
  missing.foldl (fun t way => t.put way .directory) t

/-- Adds a file and the directories it lies in. -/
def addFile (t : FileTree) (path : String) (content : ByteArray) : FileTree :=
  let names := Path.names path
  let missing := (ancestors names).filter fun way => (t.node? (.inside way)).isNone
  (missing.foldl (fun t way => t.put way .directory) t).put names (.file content)

/-- The files, by path. -/
def files (t : FileTree) : List (String × ByteArray) :=
  let found := t.entries.filterMap fun entry =>
    match entry.2 with
    | .file content => some ("/".intercalate entry.1, content)
    | .directory => none
  found.mergeSort fun a b => a.1 ≤ b.1

/-- The files that `earlier` does not hold with the same content, by path. -/
def changedSince (t earlier : FileTree) : List (String × String) :=
  let old := earlier.files
  t.files.filterMap fun file =>
    if old.any (fun o => o.1 = file.1 && o.2.data = file.2.data) then none
    else some (file.1, (String.fromUTF8? file.2).getD "")

end FileTree

end TensorTemplate
