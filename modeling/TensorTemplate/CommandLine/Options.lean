import TensorTemplate.Stack

/-!
The arguments of the command line.

An option with a value takes it from its own argument (`--model=x`, `-ox`, `-o=x`)
or from the next one, which must not look like an option. Options and templates
may be mixed; after `--` all arguments are templates.
-/

namespace TensorTemplate.CommandLine

/-- What the arguments ask for. -/
structure Options where
  /-- Directories to search before the working directory. -/
  includes : List String := []
  backend : String := "cpp"
  outputDir : String := "."
  model : String := "model"
  fields : List String := []
  parameters : List String := []
  pass : Pass := .core
  skipBlank : Bool := false
  noMessages : Bool := false
  templates : List String := []
deriving DecidableEq, Repr

/-- The options by what they set. -/
inductive Flag where
  | includeDir
  | backend
  | outputDir
  | model
  | field
  | parameter
  | pass
  | skipBlank
  | noMessages
deriving DecidableEq, Repr

namespace Flag

/-- The long name, after two hyphens. -/
def name : Flag → String
  | includeDir => "include"
  | backend => "backend"
  | outputDir => "output-dir"
  | model => "model"
  | field => "field"
  | parameter => "parameter"
  | pass => "kind"
  | skipBlank => "skip-blank"
  | noMessages => "no-messages"

def all : List Flag :=
  [includeDir, backend, outputDir, model, field, parameter, pass, skipBlank, noMessages]

def ofName? (s : String) : Option Flag := all.find? fun f => f.name = s

/-- The option of a letter, after one hyphen. -/
def ofLetter? (c : Char) : Option Flag :=
  if c = 'I' then some includeDir else if c = 'o' then some outputDir else none

def takesValue (f : Flag) : Bool := f ≠ skipBlank && f ≠ noMessages

/-- Whether it may be given more than once. -/
def repeats (f : Flag) : Bool := f = includeDir || f = field || f = parameter

end Flag

/-- Why arguments are not understood. -/
inductive UsageError where
  | unknown (arg : String)
  | missingValue (flag : Flag)
  | unexpectedValue (flag : Flag)
  | badValue (flag : Flag) (value : String)
  | repeated (flag : Flag)
deriving DecidableEq, Repr

def UsageError.message : UsageError → String
  | unknown arg => "unexpected argument " ++ arg
  | missingValue flag => "a value is required for --" ++ flag.name
  | unexpectedValue flag => "no value is expected for --" ++ flag.name
  | badValue flag value => "invalid value " ++ value ++ " for --" ++ flag.name
  | repeated flag => "--" ++ flag.name ++ " is given more than once"

/-- One argument by its form. -/
inductive Word where
  | template (name : String)
  | endOfOptions
  | option (flag : Flag) (attached : Option String)
  | unknown (arg : String)
deriving DecidableEq, Repr

namespace Word

/-- Splits at the first equals sign. -/
def splitEquals (cs : List Char) : List Char × Option (List Char) :=
  match cs.dropWhile (· ≠ '=') with
  | [] => (cs, none)
  | _ :: value => (cs.takeWhile (· ≠ '='), some value)

/-- The value in the same argument as a letter; an equals sign before it is left out. -/
def afterLetter : List Char → Option String
  | [] => none
  | '=' :: value => some (String.ofList value)
  | value => some (String.ofList value)

/-- A lone hyphen is a template, two are the end of options. -/
def ofArg (arg : String) : Word :=
  match arg.toList with
  | ['-', '-'] => endOfOptions
  | '-' :: '-' :: cs =>
    let (name, value) := splitEquals cs
    match Flag.ofName? (String.ofList name) with
    | some flag => option flag (value.map String.ofList)
    | none => unknown arg
  | '-' :: c :: cs =>
    match Flag.ofLetter? c with
    | some flag => option flag (afterLetter cs)
    | none => unknown arg
  | _ => template arg

end Word

namespace Options

/-- Takes the value of an option; a directory must have a name. -/
def withValue (o : Options) (flag : Flag) (value : String) : Except UsageError Options :=
  match flag with
  | .includeDir =>
    if value.isEmpty then .error (.badValue flag value)
    else .ok { o with includes := o.includes ++ [value] }
  | .outputDir =>
    if value.isEmpty then .error (.badValue flag value) else .ok { o with outputDir := value }
  | .backend => .ok { o with backend := value }
  | .model => .ok { o with model := value }
  | .field => .ok { o with fields := o.fields ++ [value] }
  | .parameter => .ok { o with parameters := o.parameters ++ [value] }
  | .pass =>
    match Pass.ofName? value with
    | some pass => .ok { o with pass }
    | none => .error (.badValue flag value)
  | .skipBlank | .noMessages => .error (.unexpectedValue flag)

/-- Takes an option that has no value. -/
def withFlag (o : Options) (flag : Flag) : Except UsageError Options :=
  match flag with
  | .skipBlank => .ok { o with skipBlank := true }
  | .noMessages => .ok { o with noMessages := true }
  | flag => .error (.missingValue flag)

/-- Notes that an option is given, which may be the case once only. -/
def noteGiven (given : List Flag) (flag : Flag) : Except UsageError (List Flag) :=
  if given.contains flag && !flag.repeats then .error (.repeated flag) else .ok (flag :: given)

/-- Reads the rest of the arguments, after the options `given`. -/
def parseRest (o : Options) (given : List Flag) : List String → Except UsageError Options
  | [] => .ok o
  | arg :: rest =>
    match Word.ofArg arg with
    | .template name => parseRest { o with templates := o.templates ++ [name] } given rest
    | .endOfOptions => .ok { o with templates := o.templates ++ rest }
    | .unknown arg => .error (.unknown arg)
    | .option flag (some value) => do
      let given ← noteGiven given flag
      let o ← o.withValue flag value
      parseRest o given rest
    | .option flag none => do
      let given ← noteGiven given flag
      if flag.takesValue then
        match rest with
        | [] => .error (.missingValue flag)
        | value :: rest =>
          match Word.ofArg value with
          | .template value => do
            let o ← o.withValue flag value
            parseRest o given rest
          | _ => .error (.missingValue flag)
      else
        let o ← o.withFlag flag
        parseRest o given rest

/-- Reads the arguments. -/
def parse (args : List String) : Except UsageError Options := parseRest {} [] args

end Options

end TensorTemplate.CommandLine
