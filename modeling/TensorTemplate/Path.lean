/-!
Paths as texts: names with slashes between them. Slashes that follow each other
count as one, and a name that is a single point stands for the place itself.
-/

namespace TensorTemplate.Path

/-- The texts between the slashes. -/
def pieces (path : String) : List String :=
  (path.toList.splitOn '/').map String.ofList

def isAbsolute (path : String) : Bool := path.toList.head? == some '/'

/-- The path of `name` inside `dir`; an absolute name stands for itself. -/
def join (dir name : String) : String :=
  if isAbsolute name then name
  else if dir.isEmpty || dir.toList.getLast? == some '/' then dir ++ name
  else dir ++ "/" ++ name

/-- The pieces that name something: neither empty nor a single point. -/
def names (path : String) : List String :=
  (pieces path).filter fun piece => piece ≠ "" ∧ piece ≠ "."

/-- The last name, unless it steps up. -/
def fileName? (path : String) : Option String :=
  match (names path).getLast? with
  | some ".." => none
  | last => last

/-- A file name without its extension: what stands before the last point. A point at the head
starts no extension. -/
def stem (file : String) : String :=
  let cs := file.toList
  match (cs.reverse.dropWhile (· ≠ '.')).reverse with
  | [] => file
  | [_] => file
  | dotted => String.ofList dotted.dropLast

def fileStem? (path : String) : Option String := (fileName? path).map stem

end TensorTemplate.Path
