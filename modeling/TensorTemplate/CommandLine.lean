import TensorTemplate.CommandLine.Options
import TensorTemplate.Expansion
import TensorTemplate.Report

/-!
The command line: expands the templates one after the other into files, with one
set of caches for all of them, and reports at the end. The first error ends the
run.
-/

namespace TensorTemplate.CommandLine

/-- How much a line of the log matters. -/
inductive Level where
  | info
  | warn
  | error
deriving DecidableEq, Repr

def Level.render : Level → String
  | info => "[INFO ] "
  | warn => "[WARN ] "
  | error => "[ERROR] "

/-- A message in the log; its lines after the first are indented. -/
def logLine (level : Level) (message : String) : String :=
  level.render ++ Text.replace message "\n" "\n    " ++ "\n"

/-- Where the expansion of a template goes: a file of the same name, without the ending `.tpl`. -/
def outputPath (outputDir template : String) : String :=
  Path.join outputDir (Text.dropEnding ((Path.fileName? template).getD template) ".tpl")

namespace Options

/-- The directories that are searched for templates. -/
def searchPath (o : Options) : List String := o.includes ++ ["."]

/-- The setup of the run, with templates from `source`. -/
def setup (o : Options) (source : Source) : Except Error Setup :=
  Setup.new { backend := o.backend, skipBlank := o.skipBlank }
    { name := o.model, fields := o.fields, parameters := o.parameters } source []

end Options

/-- What a run leaves behind: the exit code, and what it said on the two streams. -/
structure Outcome where
  code : Nat
  out : String := ""
  err : String := ""
deriving DecidableEq, Repr

/-- How a template is expanded into the file at a path. -/
abbrev Expander (m : Type → Type) := String → String → State → m (EStateM.Result Error State Nat)

/-- Expands the templates in order, up to the first error. Gives the log, and the state at the end. -/
def expandAll {m : Type → Type} [Monad m] (expand : Expander m) (outputDir : String) :
    State → List String → m (String × EStateM.Result Error State Unit)
  | s, [] => pure ("", .ok () s)
  | s, template :: rest => do
    let path := outputPath outputDir template
    match ← expand template path s with
    | .error e s => pure (logLine .error e.message, .error e s)
    | .ok count s => do
      let wrote := "wrote " ++ path ++ " (" ++ toString count ++ " replacements)"
      let (log, result) ← expandAll expand outputDir s rest
      pure (logLine .info wrote ++ log, result)

/-- The log entry for the warnings of a run. -/
def warningLog (warnings : List String) : String :=
  if warnings.isEmpty then ""
  else
    logLine .warn (toString warnings.length ++ " warning(s) during translation:\n  " ++
      "\n  ".intercalate warnings)

/-- Expands all templates and reports, starting from the state `s`. -/
def runFrom {m : Type → Type} [Monad m] (o : Options) (expand : Expander m) (s : State) :
    m (Outcome × State) := do
  match ← expandAll expand o.outputDir s o.templates with
  | (log, .error _ s) => pure ({ code := 1, err := log }, s)
  | (log, .ok _ s) =>
    let report := Report.ofState s
    let out := if o.noMessages then "" else report.render ++ "\n"
    pure ({ code := 0, out, err := log ++ warningLog report.warnings }, s)

/-- A run that ends before the first template. -/
def refuse (code : Nat) (message : String) : Outcome :=
  { code, err := logLine .error message }

/-- Reads the arguments. Without templates there is nothing to do. -/
def readArgs (args : List String) : Except Outcome Options :=
  match Options.parse args with
  | .error e => .error (refuse 2 e.message)
  | .ok o => if o.templates.isEmpty then .error (refuse 1 "no templates given") else .ok o

/-- The whole command line on a tree of files. -/
def run (args : List String) (files : FileTree) : Outcome × FileTree :=
  match readArgs args with
  | .error outcome => (outcome, files)
  | .ok o =>
    match o.setup (.directories o.searchPath) with
    | .error e => (refuse 1 e.message, files)
    | .ok setup =>
      let expand : Expander Id := fun template path => setup.expandToFile template path o.pass
      let (outcome, s) := Id.run (runFrom o expand (.initial setup files))
      (outcome, s.files)

end TensorTemplate.CommandLine
