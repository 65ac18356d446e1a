/-!
The target languages and the fixed pieces of text that each of them needs:
comments, declarations, function values, string literals.
-/

namespace TensorTemplate

/-- A target language. -/
inductive Backend where
  | cpp
  | python
deriving DecidableEq, Repr

/-- One case of a function value by cases: the index values it applies to, and the printed value. -/
structure PrintedCase where
  values : List Nat
  value : String
deriving DecidableEq, Repr

namespace Backend

/-- The name by which templates and settings call the backend. -/
def name : Backend → String
  | cpp => "cpp"
  | python => "python"

def ofName? (s : String) : Option Backend :=
  if s = "cpp" then some cpp else if s = "python" then some python else none

/-- The text as a comment to the end of the line. -/
def comment : Backend → String → String
  | cpp, text => "// " ++ text
  | python, text => "# " ++ text

/-- The declaration pattern of a template that gives none. -/
def defaultDeclaration : Backend → String
  | cpp => "const auto $1 = $2;"
  | python => "$1 = $2"

/-- What stands before, between and after the name and the body of a declared function value. -/
def lambdaFragments : Backend → String × String × String
  | cpp => ("auto ", " = ", ";")
  | python => ("", " = ", "")

/-- The call of a function value. -/
def invocation (_ : Backend) (f : String) (args : List String) : String :=
  f ++ "(" ++ ", ".intercalate args ++ ")"

/-- The parameter list of a declared function value. -/
def parameters (params : List String) : String :=
  ", ".intercalate (params.map ("unsigned int " ++ ·))

/-- A function value that is one expression. -/
def atomicLambda : Backend → List String → String → String
  | cpp, params, value =>
    "[&](" ++ parameters params ++ ") -> double \x7b return " ++ value ++ "; \x7d"
  | python, [], value => "lambda: " ++ value
  | python, params, value => "lambda " ++ ", ".intercalate params ++ ": " ++ value

/-- One case of a function value that tests its parameters in turn. -/
def testedCase (params : List String) (c : PrintedCase) : String :=
  " if (" ++ " && ".intercalate ((params.zip c.values).map fun pv => pv.1 ++ " == " ++ toString pv.2) ++
    ") return " ++ c.value ++ ";"

/-- One entry of a function value that looks its parameters up. -/
def tableCase (c : PrintedCase) : String :=
  "(" ++ ", ".intercalate (c.values.map toString) ++ ",): " ++ c.value

/-- A function value given by cases. -/
def mapLambda : Backend → List String → List PrintedCase → String
  | cpp, params, cases =>
    "[&](" ++ parameters params ++ ") -> double \x7b" ++
      String.join (cases.map (testedCase params)) ++ " return 0.0; \x7d"
  | python, params, cases =>
    "lambda " ++ ", ".intercalate params ++ ": \x7b" ++ ", ".intercalate (cases.map tableCase) ++
      "\x7d[(" ++ ", ".intercalate params ++ ",)]"

/-- What is put around each line of an embedded string: both languages read it as a literal that
ends in a newline. -/
def stringDelimiters : Backend → String × String
  | cpp => ("\"", "\\n\"")
  | python => ("\"", "\\n\"")

/-- How one character stands inside a string literal. -/
def escapedChar : Char → List Char
  | '\\' => ['\\', '\\']
  | '"' => ['\\', '"']
  | '\t' => ['\\', 't']
  | c => [c]

/-- The line as it stands inside a string literal. -/
def escape (_ : Backend) (line : String) : String :=
  String.ofList (line.toList.flatMap escapedChar)

end Backend

end TensorTemplate
