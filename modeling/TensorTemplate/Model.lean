import TensorTemplate.Expr
import TensorTemplate.Index
import TensorTemplate.Table
import TensorTemplate.Text.Replace

/-!
The model that templates are expanded against: names of fields and parameters,
and tensors whose components are expressions.
-/

namespace TensorTemplate

/-- A tensor: the class of each slot, and the component at given values, where there is one. -/
structure Tensor where
  slots : List IndexClass
  component : List Nat → Option Expr

namespace Tensor

/-- A tensor without slots. -/
def scalar (e : Option Expr) : Tensor := ⟨[], fun _ => e⟩

/-- A name with every number in braces replaced by the value at that place. -/
def numbered (values : List Nat) (name : String) : String :=
  (values.zipIdx).foldl
    (fun name vk => Text.replace name ("\x7b" ++ toString vk.2 ++ "\x7d") (toString vk.1)) name

/-- A tensor given by a table of components; elsewhere the component is `generic` with the index
values filled into its names. -/
def tabulated (slots : List IndexClass) (table : List (List Nat × Option Expr))
    (generic : Option Expr) : Tensor where
  slots
  component values :=
    match table.find? (fun entry => entry.1 = values) with
    | some entry => entry.2
    | none => generic.map (·.mapNames (numbered values))

end Tensor

/-- Fields, parameters and tensors under one name. -/
structure Model where
  name : String
  fields : List String := []
  parameters : List String := []
  tensors : Table Tensor := {}

namespace Model

def ranges (m : Model) : Ranges := ⟨m.fields.length, m.parameters.length⟩

/-- The variable of a phase-space coordinate: the fields first, then their momenta. -/
def coordinate? (m : Model) (i : Nat) : Option Expr :=
  if i < m.fields.length then m.fields[i]?.map .var
  else m.fields[i - m.fields.length]?.map fun f => .var ("__d" ++ f)

/-- The component of the tensor called `name`. -/
def component? (m : Model) (name : String) (values : List Nat) : Option Expr :=
  (m.tensors.get? name).bind (·.component values)

end Model

end TensorTemplate
