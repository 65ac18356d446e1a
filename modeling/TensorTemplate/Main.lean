import TensorTemplate.CommandLine

/-!
The command line on the files of the system.

Templates are read when they are asked for: an expansion that misses a template is
started again, from the state it began in, once the template has been read.
-/

namespace TensorTemplate.CommandLine

/-- What the system says of a file, with the number of the error. -/
def describe (code : UInt32) (details : String) : FileFault :=
  .other (details ++ " (os error " ++ toString code ++ ")")

/-- The fault that an error of the system stands for. -/
def faultOf : IO.Error → FileFault
  | .alreadyExists _ code details => describe code details
  | .otherError code details => describe code details
  | .resourceBusy code details => describe code details
  | .unsupportedOperation code details => describe code details
  | .hardwareFault code details => describe code details
  | .illegalOperation code details => describe code details
  | .noFileOrDirectory _ code details => describe code details
  | .invalidArgument _ code details => describe code details
  | .permissionDenied _ code details => describe code details
  | .resourceExhausted _ code details => describe code details
  | .inappropriateType _ code details => describe code details
  | e => .other (toString e)

/-- The content of a file, or nothing if there is none to read. -/
def readFile? (path : String) : IO (Option ByteArray) := do
  try
    pure (some (← IO.FS.readBinFile path))
  catch _ => pure none

/-- The text at the first path that has a file. -/
def readFirst : List String → IO (Option (Except Error String))
  | [] => pure none
  | path :: rest => do
    match ← readFile? path with
    | none => readFirst rest
    | some content =>
      match String.fromUTF8? content with
      | some text => pure (some (.ok text))
      | none => pure (some (.error (.file path .notText)))

/-- The error with another cause at its root. -/
def withRoot (cause : Error) : Error → Error
  | .within template line e => .within template line (withRoot cause e)
  | _ => cause

/-- Expands a template into a buffer, and reads the templates that are missing. -/
partial def expandReading (o : Options) (texts : IO.Ref (Table String)) (template : String)
    (s : State) : IO (EStateM.Result Error State (Buffer × Nat)) := do
  match o.setup (.memory (← texts.get)) with
  | .error e => pure (.error e s)
  | .ok setup =>
    match setup.expandToBuffer template setup.newBuffer o.pass s with
    | .ok result s => pure (.ok result s)
    | .error e failed =>
      match e.root with
      | .templateNotFound name =>
        match ← readFirst (Source.candidates o.searchPath name) with
        | none => pure (.error e failed)
        | some (.error cause) => pure (.error (withRoot cause e) failed)
        | some (.ok text) =>
          texts.modify (·.insert name text)
          expandReading o texts template s
      | _ => pure (.error e failed)

/-- Expands a template into a file of the system. -/
def expandIntoFile (o : Options) (texts : IO.Ref (Table String)) : Expander IO :=
  fun template path s => do
    match ← expandReading o texts template s with
    | .error e s => pure (.error e s)
    | .ok (buffer, count) s =>
      try
        IO.FS.writeFile path buffer.render
        pure (.ok count s)
      catch e => pure (.error (.file path (faultOf e)) s)

/-- Runs the command line. -/
def execute (args : List String) : IO Outcome := do
  match readArgs args with
  | .error outcome => pure outcome
  | .ok o =>
    match o.setup (.memory {}) with
    | .error e => pure (refuse 1 e.message)
    | .ok setup =>
      let texts ← IO.mkRef ({} : Table String)
      let (outcome, _) ← runFrom o (expandIntoFile o texts) (.initial setup {})
      pure outcome

end TensorTemplate.CommandLine

def main (args : List String) : IO UInt32 := do
  let outcome ← TensorTemplate.CommandLine.execute args
  (← IO.getStderr).putStr outcome.err
  (← IO.getStdout).putStr outcome.out
  pure (UInt32.ofNat outcome.code)
