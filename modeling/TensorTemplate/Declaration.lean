import TensorTemplate.Diagnostics
import TensorTemplate.Error
import TensorTemplate.Text.Replace

/-!
Declarations of temporaries, and the patterns that they are written by. A pattern
shows the name where `$1` stands and the target where `$2` stands; a pattern that
lacks one of the two is written as it is, under a warning.
-/

namespace TensorTemplate

/-- A temporary and the text that it stands for. -/
structure Declaration where
  name : String
  target : String
deriving DecidableEq, Repr

namespace Declaration

/-- A pattern shows both the name and the target. -/
def check (pattern : String) : Except Error Unit :=
  if !Text.contains pattern "$1" then .error (.malformedDeclaration pattern "$1")
  else if !Text.contains pattern "$2" then .error (.malformedDeclaration pattern "$2")
  else .ok ()

/-- The pattern with name and target in the places of their marks. -/
def fill (name target : List Char) : List Char → List Char
  | '$' :: '1' :: cs => name ++ fill name target cs
  | '$' :: '2' :: cs => target ++ fill name target cs
  | c :: cs => c :: fill name target cs
  | [] => []

/-- The declaration as the pattern writes it. -/
def instantiate (d : Declaration) (pattern : String) : String :=
  match check pattern with
  | .ok () => String.ofList (fill d.name.toList d.target.toList pattern.toList)
  | .error _ => pattern

/-- Declarations by a pattern, one a line; a pattern without both marks gives a warning. -/
def renderAll (pattern : String) (ds : List Declaration) (diagnostics : Diagnostics) :
    String × Diagnostics :=
  let text := String.join (ds.map fun d => d.instantiate pattern ++ "\n")
  match check pattern with
  | .ok () => (text, diagnostics)
  | .error e => (text, diagnostics.warn e.message)

end Declaration

end TensorTemplate
