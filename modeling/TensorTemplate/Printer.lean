import TensorTemplate.Backend
import TensorTemplate.Expr

/-!
Printing expressions in a target language.

A printed text carries its binding strength, and an operand gets parentheses when
it binds more weakly than its place asks for. While an expression is printed, any
operand of any operator in it may be replaced by a name: the printer asks about
each operand once, from left to right, and does not look below a replaced one. The
substitution may have effects, so a cache can record what was asked.
-/

namespace TensorTemplate

/-- Binding strength of a printed text, weakest first. -/
inductive Precedence where
  | sum
  | product
  | unary
  | power
  | atom
deriving DecidableEq, Repr

namespace Precedence

def rank : Precedence → Nat
  | sum => 0
  | product => 1
  | unary => 2
  | power => 3
  | atom => 4

def render : Precedence → String
  | sum => "sum"
  | product => "product"
  | unary => "unary"
  | power => "power"
  | atom => "atom"

def ofName? : String → Option Precedence
  | "sum" => some sum
  | "product" => some product
  | "unary" => some unary
  | "power" => some power
  | "atom" => some atom
  | _ => none

end Precedence

/-- A printed text and how strongly it binds. -/
structure Printed where
  text : String
  precedence : Precedence
deriving DecidableEq, Repr

namespace Printed

def atom (text : String) : Printed := ⟨text, .atom⟩

/-- The text in parentheses. -/
def wrapped (p : Printed) : String := "(" ++ p.text ++ ")"

/-- The text, in parentheses when it binds more weakly than `q`. -/
def atLeast (p : Printed) (q : Precedence) : String :=
  if p.precedence.rank < q.rank then p.wrapped else p.text

/-- A term after the first of a sum: a minus sign at its head takes the place of the plus. -/
def laterTerm (p : Printed) : String :=
  match (p.atLeast .sum).toList with
  | '-' :: rest => " - " ++ String.ofList rest
  | _ => " + " ++ p.atLeast .sum

/-- The terms of a sum. -/
def sumText : List Printed → String
  | [] => ""
  | p :: ps => p.atLeast .sum ++ String.join (ps.map laterTerm)

/-- A factor of a product; one with a sign is always in parentheses. -/
def factor (p : Printed) : String :=
  if p.precedence = .unary then p.wrapped else p.atLeast .product

/-- The first text of the list at the given strength, or nothing. -/
def firstAtLeast (q : Precedence) : List Printed → String
  | [] => ""
  | p :: _ => p.atLeast q

end Printed

namespace Backend

open Printed

/-- An integer literal; a negative one carries its sign. -/
def literal (n : Int) : Printed :=
  if n < 0 then ⟨toString n, .unary⟩ else .atom (toString n)

/-- A power: a function call in one language, an operator in the other. -/
def power : Backend → List Printed → Printed
  | cpp, ps => .atom ("std::pow(" ++ ", ".intercalate (ps.map (·.text)) ++ ")")
  | python, ps => ⟨firstAtLeast .atom ps ++ "**" ++ firstAtLeast .power (ps.drop 1), .power⟩

/-- A compound expression from its printed operands. -/
def node (b : Backend) : Op → List Printed → Printed
  | .add, ps => ⟨sumText ps, .sum⟩
  | .mul, ps => ⟨"*".intercalate (ps.map factor), .product⟩
  | .neg, ps => ⟨"-" ++ firstAtLeast .power ps, .unary⟩
  | .pow, ps => b.power ps
  | .call f, ps => .atom (f ++ "(" ++ ", ".intercalate (ps.map (·.text)) ++ ")")

mutual

/-- Prints an expression, asking `subst` about every operand before looking into it. -/
def printedM {m : Type → Type} [Monad m] (b : Backend) (subst : Expr → m (Option String)) :
    Expr → m Printed
  | .lit n => pure (literal n)
  | .var x => pure (.atom x)
  | .node op cs => do
    let ps ← operandsM b subst cs
    pure (b.node op ps)

/-- Prints operands from left to right, a replaced one as its name. -/
def operandsM {m : Type → Type} [Monad m] (b : Backend) (subst : Expr → m (Option String)) :
    List Expr → m (List Printed)
  | [] => pure []
  | c :: cs => do
    let p ← match ← subst c with
      | some name => pure (.atom name)
      | none => printedM b subst c
    let ps ← operandsM b subst cs
    pure (p :: ps)

end

/-- Prints an expression with some of its operands replaced by names. -/
def printedWith (b : Backend) (subst : Expr → Option String) (e : Expr) : Printed :=
  Id.run (b.printedM (fun c => pure (subst c)) e)

/-- Prints an expression as it is. -/
def print (b : Backend) (e : Expr) : String :=
  (b.printedWith (fun _ => none) e).text

/-- Prints an expression and lists the operands asked about, in order. -/
def printedAsking (b : Backend) (subst : Expr → Option String) (e : Expr) :
    Printed × List Expr :=
  let asking (c : Expr) : StateM (List Expr) (Option String) :=
    fun asked => (subst c, c :: asked)
  let (printed, asked) := (b.printedM asking e).run []
  (printed, asked.reverse)

end Backend

end TensorTemplate
