import TensorTemplate.LambdaCache
import TensorTemplate.Text.Replace

/-!
Scripts: what the rules and handlers of a package do, as lists of actions. An
action works on the run, most of all on the buffer of the template that is being
expanded, and may give a piece of text; the pieces of a script are joined.

Texts in a script may name the arguments of the call by their numbers in braces,
and its indices by numbers with an `i` before them.
-/

namespace TensorTemplate

/-- A change made to every line before it is decorated. -/
abbrev Filter := String → String

/-- How a nested template enters the buffer that asked for it: what is put around each line, and a
filter in place of the inherited one. -/
structure NestedOptions where
  delimiters : Option (String × String) := none
  filter : Option Filter := none

namespace NestedOptions

/-- Lines are taken as they are. -/
def verbatim : NestedOptions := {}

/-- Every line becomes a string literal of the target language. -/
def stringLiteral (b : Backend) : NestedOptions where
  delimiters := some b.stringDelimiters
  filter := some b.escape

end NestedOptions

/-- One step of a script. -/
inductive Action where
  | text (t : String)
  | writeEnd (t : String)
  | writeTag (t : String)
  | tagEnd
  | tagStart
  /-- Puts two texts around every line from here on. -/
  | decorate (opening closing : String)
  | undecorate
  | skipBlank (on : Bool)
  | setFilter (filter : Option Filter)
  /-- Expands a template into the buffer and gives the number of calls on its lines. -/
  | nested (template : String) (options : NestedOptions)
  /-- Gives a text with its directives expanded. -/
  | expand (t : String)
  | emit (e : Expr)
  | lambda (l : Lambda)
  | warn (t : String)
  | fail (t : String)
  | log (t : String)
  /-- Gives template, pass, depth and number of replacements. -/
  | frame

abbrev Script := List Action

/-- Something to do when a buffer is finished, and when a nested template starts on top of it. -/
inductive Handler where
  /-- Declares the temporaries of the frame with this number. -/
  | pool (frame : Nat)
  /-- Notes the event under a name. -/
  | note (name : String)
  | script (name : String) (onClose onSuspend : Script)

namespace Script

/-- A number in braces, with a mark before it. -/
def placeholder (mark : String) (k : Nat) : String := "\x7b" ++ mark ++ toString k ++ "\x7d"

/-- An index with its value, as a script shows it. -/
def renderIndex (i : Index) : String :=
  String.singleton i.label ++ "=" ++
    match i.value with
    | some v => toString v
    | none => "?"

/-- The text with each placeholder of the mark replaced by its item, the first item first. -/
def fillWith (mark : String) (items : List String) (t : String) : String :=
  items.zipIdx.foldl (fun t item => Text.replace t (placeholder mark item.2) item.1) t

/-- The text with arguments and indices filled in. -/
def fill (args : List String) (indices : List Index) (t : String) : String :=
  fillWith "i" (indices.map renderIndex) (fillWith "" args t)

end Script

end TensorTemplate
