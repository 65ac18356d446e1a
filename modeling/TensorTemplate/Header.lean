import TensorTemplate.Error

/-!
The first line of a template names the backend it is written for and the least
version that it needs. A template whose header does not fit is not expanded.
-/

namespace TensorTemplate

/-- What the first line of a template says. -/
structure Header where
  backend : String
  minVersion : Version
deriving DecidableEq, Repr

namespace Header

/-- The text before the first newline, and the text after it. -/
def splitFirst (text : String) : String × String :=
  let cs := text.toList
  (String.ofList (cs.takeWhile (· ≠ '\n')), String.ofList ((cs.dropWhile (· ≠ '\n')).drop 1))

/-- The header in a first line: two words, the second one a version. -/
def ofLine? (line : String) : Option Header :=
  match Text.words line with
  | [backend, version] =>
    match Version.parse version with
    | .ok minVersion => some { backend, minVersion }
    | .error _ => none
  | _ => none

/-- The header and the body of a template. -/
def split (template text : String) : Except Error (Header × String) :=
  let (line, body) := splitFirst text
  match ofLine? line with
  | some header => .ok (header, body)
  | none => .error (.malformedHeader template (Text.trimEnd line))

/-- The header asks for the backend in use, and for a version that is there. -/
def validate (h : Header) (template backend : String) (available : Version) :
    Except Error Unit :=
  if h.backend ≠ backend then .error (.backendMismatch template h.backend backend)
  else if h.minVersion.compare available = .gt then
    .error (.versionTooLow template h.backend h.minVersion available)
  else .ok ()

end Header

end TensorTemplate
