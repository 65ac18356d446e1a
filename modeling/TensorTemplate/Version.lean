import TensorTemplate.Text.Blank
import TensorTemplate.Text.Quoted

/-!
Versions: three numbers, written with points between them and compared from the
left. A written version may leave out the later numbers, which then are zero.
-/

namespace TensorTemplate

/-- A version number. -/
structure Version where
  major : Nat
  minor : Nat := 0
  patch : Nat := 0
deriving DecidableEq, Repr

namespace Version

/-- The version of this tool. -/
def current : Version := ⟨0, 1, 0⟩

def render (v : Version) : String :=
  toString v.major ++ "." ++ toString v.minor ++ "." ++ toString v.patch

/-- The numbers are compared from the left. -/
def compare (v w : Version) : Ordering :=
  (Ord.compare v.major w.major).then
    ((Ord.compare v.minor w.minor).then (Ord.compare v.patch w.patch))

/-- Why a text is no version. -/
inductive ParseError where
  /-- A part that is no number below 2^32. -/
  | component (part text : String)
  /-- More than three parts. -/
  | tooMany (text : String)
deriving DecidableEq, Repr

def ParseError.message : ParseError → String
  | component part text =>
    "invalid version component " ++ Text.quoted part ++ " in " ++ Text.quoted text
  | tooMany text => "too many components in version " ++ Text.quoted text

/-- The value of a run of decimal digits. -/
def digitsValue (ds : List Char) : Nat :=
  ds.foldl (fun n d => 10 * n + (d.toNat - '0'.toNat)) 0

/-- The part without a plus sign at its head. -/
def unsigned : List Char → List Char
  | '+' :: ds => ds
  | ds => ds

/-- A part: decimal digits, with or without a plus sign, of a value that fits in 32 bits. -/
def component? (part : List Char) : Option Nat :=
  let ds := unsigned part
  if ds ≠ [] ∧ ds.all Char.isDigit ∧ digitsValue ds < 4294967296 then some (digitsValue ds) else none

/-- Reads a version; blanks around it are ignored. The first part that is wrong decides the error,
and a fourth part is wrong whatever it holds. -/
def parse (text : String) : Except ParseError Version :=
  let number (part : List Char) : Except ParseError Nat :=
    match component? part with
    | some n => .ok n
    | none => .error (.component (String.ofList part) text)
  match (Text.trim text).toList.splitOn '.' with
  | [] => .error (.component "" text)
  | [a] => do return ⟨← number a, 0, 0⟩
  | [a, b] => do return ⟨← number a, ← number b, 0⟩
  | [a, b, c] => do return ⟨← number a, ← number b, ← number c⟩
  | a :: b :: c :: _ => do
    let _ ← number a
    let _ ← number b
    let _ ← number c
    throw (.tooMany text)

end Version

end TensorTemplate
