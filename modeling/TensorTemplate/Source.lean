import TensorTemplate.Error
import TensorTemplate.Table

/-!
Where templates come from: texts held in memory, or directories that are searched
in order.
-/

namespace TensorTemplate

inductive Source where
  | memory (texts : Table String)
  | directories (dirs : List String)

namespace Source

/-- The paths at which a template of this name may lie. -/
def candidates (dirs : List String) (name : String) : List String :=
  dirs.map (Path.join · name) ++ if Path.isAbsolute name then [name] else []

/-- The text of the template; in directories, that of the first file found. -/
def load (source : Source) (files : FileTree) (name : String) : Except Error String :=
  match source with
  | memory texts =>
    match texts.get? name with
    | some text => .ok text
    | none => .error (.templateNotFound name)
  | directories dirs =>
    match (candidates dirs name).find? files.isFile with
    | some path =>
      match files.readText path with
      | .ok text => .ok text
      | .error fault => .error (.file path fault)
    | none => .error (.templateNotFound name)

/-- How many templates there can be. -/
def size (source : Source) (files : FileTree) : Nat :=
  match source with
  | memory texts => texts.size
  | directories _ => files.entries.length

end Source

end TensorTemplate
