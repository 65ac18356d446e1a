import TensorTemplate.Error

/-!
Directives: the calls of rules that stand in a template line, with their index
labels and their arguments.
-/

namespace TensorTemplate

/-- A call of a rule. -/
structure Directive where
  name : String
  indices : List Index := []
  args : List String := []
deriving DecidableEq, Repr

namespace Directive

/-- The indices with these labels, each classified by its letter. -/
def indicesOf : List Char → Except Error (List Index)
  | [] => .ok []
  | label :: labels =>
    match Index.ofLabel? label with
    | none => .error (.invalidLabel label)
    | some i => return i :: (← indicesOf labels)

/-- The call of `name` with these labels and arguments. -/
def ofLabels (name : String) (labels : List Char) (args : List String) :
    Except Error Directive := do
  return { name, indices := ← indicesOf labels, args }

/-- The labels of the indices, in order. -/
def labels (d : Directive) : List Char := d.indices.map (·.label)

/-- The index labels in brackets. -/
def subscript (d : Directive) : String := "[" ++ String.ofList d.labels ++ "]"

/-- The call as it can stand in a line; arguments are written as they are. -/
def render (d : Directive) : String :=
  "$" ++ d.name ++ (if d.indices.isEmpty then "" else d.subscript) ++
    (if d.args.isEmpty then "" else "\x7b" ++ ", ".intercalate d.args ++ "\x7d")

end Directive

end TensorTemplate
