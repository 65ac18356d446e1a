import TensorTemplate.Expansion.Pool
import TensorTemplate.Expansion.Script

/-!
What the rules do when they are called.
-/

namespace TensorTemplate

/-- The name of this tool. -/
def toolName : String := "tensorgen"

/-- An include guard from the names of model and template file: ASCII letters and digits in
capitals, and underscores. -/
def includeGuard (model template : String) : String :=
  let stem := (Path.fileStem? template).getD ""
  let raw := "__" ++ model ++ "_" ++ stem ++ "_H"
  String.ofList ((raw.toList.filter fun c => c.isAlphanum || c == '_').map Char.toUpper)

/-- Names in double quotes, with commas between them. -/
def quotedNames (names : List String) : String :=
  ", ".intercalate (names.map fun n => "\"" ++ n ++ "\"")

namespace Tensor

/-- The components that there are, over all values of the indices. -/
def cases (t : Tensor) (ranges : Ranges) (indices : List Index) : List (List Nat × Expr) :=
  (ranges.assignments (indices.map Index.abstract)).filterMap fun assignment =>
    let values := assignment.map fun i => i.value.getD 0
    (t.component values).map fun e => (values, e)

/-- The tensor as a function value with these indices as parameters: its component, or zero, without
indices; else its components by cases. -/
def toLambda (t : Tensor) (kind : String) (ranges : Ranges) (indices : List Index) : Lambda where
  kind
  tags := indices.map Index.tag
  body :=
    if indices.isEmpty then .value ((t.component []).getD (.lit 0))
    else .cases (.mk fun _ => t.cases ranges indices)

end Tensor

namespace ExpandM

/-- The values of the indices, which the rule needs. -/
def valuesFor (rule : String) : List Index → Except Error (List Nat)
  | [] => .ok []
  | i :: is =>
    match i.value with
    | none => .error (.unresolvedIndex rule i.label)
    | some v => return v :: (← valuesFor rule is)

/-- The item at the first value, or an error that names the rule. -/
def pick {α : Type} (rule : String) (indices : List Index) (item? : Nat → Option α) :
    Except Error α := do
  let values ← valuesFor rule indices
  match values.head?.bind item? with
  | some item => pure item
  | none => throw (.missingComponent rule values)

/-- Calls a rule that has been registered under `name`. -/
def evaluate (setup : Setup) (re : Reentry) (name : String) (body : RuleBody)
    (args : List String) (indices : List Index) : ExpandM String :=
  let model := setup.model
  match body with
  | .tool => pure toolName
  | .version => pure setup.settings.version.render
  | .template => do pure (← topFrame).template
  | .model => pure model.name
  | .guard => do pure (includeGuard model.name (← topFrame).template)
  | .numberFields => pure (toString model.fields.length)
  | .numberParams => pure (toString model.parameters.length)
  | .fieldNames => pure (quotedNames model.fields)
  | .paramNames => pure (quotedNames model.parameters)
  | .comment => pure (setup.backend.comment (args.headD ""))
  | .fieldName => do
    let field ← ofExcept (pick name indices fun v => model.fields[v]?)
    pure ("\"" ++ field ++ "\"")
  | .parameter => ofExcept (pick name indices fun v => model.parameters[v]?)
  | .coordinate => do
    let e ← ofExcept (pick name indices model.coordinate?)
    pure (setup.backend.print e)
  | .setPool id => setBoundary setup.backend re id (args.headD "")
  | .tensor t => do
    let values ← ofExcept (valuesFor name indices)
    match t.component values with
    | some e => emit e
    | none => throw (.missingComponent name values)
  | .tensorLambda kind t => cacheLambda (t.toLambda kind model.ranges indices)
  | .importTemplate => do
    let _ ← re.nested (args.headD "") .verbatim
    pure ""
  | .embedString => do
    let _ ← re.nested (args.headD "") (.stringLiteral setup.backend)
    pure ""
  | .script actions => perform re args indices actions

/-! ### The rules of a frame -/

/-- Rules on the tool, the template and the model. -/
def fundamentalRules : List (String × Rule) := [
  ("TOOL", .simple 0 .tool),
  ("VERSION", .simple 0 .version),
  ("TEMPLATE", .simple 0 .template),
  ("MODEL", .simple 0 .model),
  ("GUARD", .simple 0 .guard),
  ("NUMBER_FIELDS", .simple 0 .numberFields),
  ("NUMBER_PARAMS", .simple 0 .numberParams),
  ("FIELD_NAMES", .simple 0 .fieldNames),
  ("PARAM_NAMES", .simple 0 .paramNames),
  ("COMMENT", .simple 1 .comment),
  ("FIELD_NAME", .indexed [.field] .fieldName),
  ("PARAMETER", .indexed [.parameter] .parameter),
  ("COORDINATE", .indexed [.full] .coordinate)]

/-- A rule for each tensor, that gives a component. -/
def tensorRules (model : Model) : List (String × Rule) :=
  model.tensors.entries.map fun (name, t) => (name, .indexed t.slots (.tensor t))

/-- A rule for each tensor, that gives all of it as a function value; its lines are not repeated. -/
def lambdaRules (model : Model) : List (String × Rule) :=
  model.tensors.entries.map fun (name, t) =>
    (name ++ "_LAMBDA", ⟨0, .indexed t.slots false, .tensorLambda name t⟩)

/-- Rules for templates inside templates. -/
def embedRules : List (String × Rule) := [
  ("IMPORT", .simple 1 .importTemplate),
  ("EMBED_STRING", .simple 1 .embedString)]

/-- The rules that every frame has, in the order of their registration. -/
def builtinRules (model : Model) (id : Nat) (pass : Pass) : List (String × Rule) :=
  fundamentalRules ++ [("TEMP_POOL", .simple 1 (.setPool id))] ++ tensorRules model ++
    (if pass = .implementation then lambdaRules model else []) ++ embedRules

/-- Enters rules into a registry, the first one first. -/
def addRules (r : Registry) (rules : List (String × Rule)) : Registry :=
  rules.foldl (fun r rule => r.insert rule.1 rule.2) r

/-- Installs a package: its rules go into the registry, its handlers onto the frame's buffer. -/
def installPackage (id : Nat) (pass : Pass) (r : Registry) (p : Package) : ExpandM Registry := do
  match p.only with
  | some only => if only ≠ pass then return r
  | none => pure ()
  match p.refusal with
  | some text => throw (.refused text)
  | none => pure ()
  p.handlers.forM fun h => onBuffer id fun b => pure (b.register h).2
  return addRules r p.rules

/-- The registry of a new frame. The pool's handler comes before those of the packages. -/
def buildRegistry (setup : Setup) (id : Nat) (pass : Pass) : ExpandM Registry := do
  bindPool setup.backend id
  setup.packages.foldlM (installPackage id pass) (addRules {} (builtinRules setup.model id pass))

end ExpandM

end TensorTemplate
