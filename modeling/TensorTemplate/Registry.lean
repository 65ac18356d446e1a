import TensorTemplate.Directive
import TensorTemplate.Model
import TensorTemplate.Script

/-!
Rules and the registry that a template's directives are looked up in.

A simple rule takes a fixed number of arguments. An index rule also takes a fixed
list of indices, each of a class that its slot accepts, and may forbid that its
line is repeated over index values.
-/

namespace TensorTemplate

/-- What a rule takes besides its arguments. -/
inductive Shape where
  | simple
  | indexed (slots : List IndexClass) (unroll : Bool)
deriving DecidableEq, Repr

/-- The classes of the index slots. -/
def Shape.slots : Shape → List IndexClass
  | simple => []
  | indexed slots _ => slots

/-- What a rule does. -/
inductive RuleBody where
  | tool
  | version
  | template
  | model
  | guard
  | numberFields
  | numberParams
  | fieldNames
  | paramNames
  | comment
  | fieldName
  | parameter
  | coordinate
  /-- Sets a boundary for the temporaries of the frame with this number. -/
  | setPool (frame : Nat)
  | tensor (t : Tensor)
  | tensorLambda (kind : String) (t : Tensor)
  | importTemplate
  | embedString
  | script (actions : Script)

structure Rule where
  arity : Nat
  shape : Shape
  body : RuleBody

namespace Rule

def simple (arity : Nat) (body : RuleBody) : Rule := ⟨arity, .simple, body⟩

def indexed (slots : List IndexClass) (body : RuleBody) : Rule := ⟨0, .indexed slots true, body⟩

end Rule

/-- Rules under their names. -/
abbrev Registry := Table Rule

namespace Registry

/-- The first slot that does not accept the index in it. -/
def mismatch? : List IndexClass → List Index → Option (IndexClass × Index)
  | slot :: slots, i :: is => if slot.accepts i.cls then mismatch? slots is else some (slot, i)
  | _, _ => none

/-- The rule that a directive calls, if the directive has the arguments and indices it takes. -/
def validate (r : Registry) (d : Directive) : Except Error Rule :=
  match r.get? d.name with
  | none => .error (.unknownRule d.name)
  | some rule =>
    if d.args.length ≠ rule.arity then
      .error (.argumentCount d.name rule.arity d.args.length)
    else if d.indices.length ≠ rule.shape.slots.length then
      .error (.indexCount d.name rule.shape.slots.length d.indices.length)
    else
      match mismatch? rule.shape.slots d.indices with
      | some (slot, i) => .error (.indexClass d.name i.label slot i.cls)
      | none => .ok rule

/-- Whether the name is that of a simple rule. -/
def isSimple (r : Registry) (name : String) : Bool :=
  match r.get? name with
  | some rule => rule.shape = .simple
  | none => false

end Registry

end TensorTemplate
