import TensorTemplate.FileTree
import TensorTemplate.Index
import TensorTemplate.Version

/-!
What can go wrong while templates are expanded, and how it is said. An error met
on a line of a template is wrapped in the template's name and the line's number,
once for every template that is being expanded; `root` takes the wrappers off.
-/

namespace TensorTemplate

/-- What a rule needs around it. -/
inductive Context where
  | buffer
  | registry
deriving DecidableEq, Repr

def Context.render : Context → String
  | buffer => "output buffer"
  | registry => "macro registry"

inductive Error where
  | argumentCount (rule : String) (expected received : Nat)
  | indexCount (rule : String) (expected received : Nat)
  | indexClass (rule : String) (label : Char) (expected received : IndexClass)
  /-- An index without a value, in a rule that needs values. -/
  | unresolvedIndex (rule : String) (label : Char)
  | missingContext (what : Context)
  | malformedDeclaration (pattern placeholder : String)
  | versionTooLow (template backend : String) (required available : Version)
  | backendMismatch (template found expected : String)
  | unknownBackend (name : String)
  | malformedHeader (template line : String)
  | templateNotFound (name : String)
  | unknownRule (name : String)
  /-- The line ends inside the argument list of a directive. -/
  | unterminatedArguments (name : String)
  | invalidLabel (label : Char)
  /-- A failure that a package asks for, in its words. -/
  | refused (text : String)
  | missingComponent (tensor : String) (values : List Nat)
  | bufferClosed
  | noTag
  | file (path : String) (fault : FileFault)
  /-- Templates and texts are nested beyond the depth that the run allows. -/
  | nestedTooDeep
  | within (template : String) (line : Nat) (cause : Error)
deriving Repr

namespace Error

/-- A list of numbers in brackets. -/
def renderValues (values : List Nat) : String :=
  "[" ++ ", ".intercalate (values.map toString) ++ "]"

def message : Error → String
  | argumentCount rule expected received =>
    s!"macro {rule}: wrong number of arguments (expected {expected}, received {received})"
  | indexCount rule expected received =>
    s!"macro {rule}: wrong number of indices (expected {expected}, received {received})"
  | indexClass rule label expected received =>
    s!"macro {rule}: index '{label}' is {received.render}, but the rule expects a {expected.render} index"
  | unresolvedIndex rule label =>
    s!"macro {rule}: index '{label}' has no concrete value on this line"
  | missingContext what => s!"no {what.render} is active"
  | malformedDeclaration pattern placeholder =>
    s!"declaration template {Text.quoted pattern} is missing {placeholder}"
  | versionTooLow template backend required available =>
    s!"template {template} needs {backend} backend version {required.render}, " ++
      s!"but version {available.render} is running"
  | backendMismatch template found expected =>
    s!"template {template} targets backend {found}, " ++
      s!"but the translator is configured for {expected}"
  | unknownBackend name => s!"unknown backend {name}"
  | malformedHeader template line =>
    s!"template {template} has a malformed header {Text.quoted line}; " ++
      "expected `backend-name minimum-version`"
  | templateNotFound name => s!"template {name} not found"
  | unknownRule name => s!"unknown macro ${name}"
  | unterminatedArguments name => s!"unterminated argument list for ${name}"
  | invalidLabel label => s!"invalid index label '{label}'"
  | refused text => text
  | missingComponent tensor values =>
    s!"tensor {tensor} has no component at {renderValues values}"
  | bufferClosed => "write to a closed buffer"
  | noTag => "write to a buffer without a tag"
  | file path fault => s!"IO error: {path}: {fault.message}"
  | nestedTooDeep => "templates are nested too deeply"
  | within template line cause => s!"{template}:{line}: {cause.message}"

/-- The error without the places wrapped around it. -/
def root : Error → Error
  | within _ _ cause => cause.root
  | e => e

end Error

end TensorTemplate
