import TensorTemplate.Declaration
import TensorTemplate.Expr.Order
import TensorTemplate.NameGen
import TensorTemplate.Printer
import Std.Data.TreeMap
import Std.Data.TreeSet

/-!
Sharing of subexpressions.

Every compound subexpression that is parsed gets a symbol with a fresh name and a
target, its printed form in which parsed operands stand as names. The target is
the key of the symbol: expressions with one printed form share one symbol.
Printing an expression through the cache puts names for its parsed operands. A
symbol whose name has been put into a text is declared, after the symbols that its
own target names; the declarations stand in the order of their first use.

The generation in which names are made is shared with other caches, so it is
given from outside.
-/

namespace TensorTemplate

/-- A shared subexpression. -/
structure Symbol where
  name : String
  /-- The printed form, which is the key. -/
  target : String
  /-- How many symbols its cache had made before. -/
  number : Nat
  /-- The symbols that the printed form names, each once. -/
  deps : List Symbol
deriving Repr

def Symbol.declaration (s : Symbol) : Declaration := ⟨s.name, s.target⟩

structure ExprCache where
  backend : Backend
  names : NameGen
  /-- The symbols by their keys. -/
  symbols : Std.TreeMap String Symbol := {}
  /-- The symbol of every compound expression that has been parsed. -/
  parsed : Std.TreeMap Expr Symbol Expr.compare := {}
  /-- The symbols that are declared, the latest first. -/
  declared : List Symbol := []
  /-- The keys of the symbols that are declared. -/
  declaredKeys : Std.TreeSet String := {}
  hits : Nat := 0
  misses : Nat := 0
deriving Repr

namespace ExprCache

/-- A cache that knows nothing, with names of this kernel. -/
def new (backend : Backend) (kernel : String) : ExprCache := { backend, names := { kernel } }

/-! ### Looking up -/

/-- The number of symbols. -/
def size (c : ExprCache) : Nat := c.symbols.size

/-- The symbol with this key. -/
def symbol? (c : ExprCache) (key : String) : Option Symbol := c.symbols[key]?

/-- The symbol of an expression that has been parsed. -/
def lookup? (c : ExprCache) (e : Expr) : Option Symbol := c.parsed[e]?

/-- Whether the symbol with this key is declared. -/
def isDeclared (c : ExprCache) (key : String) : Bool := c.declaredKeys.contains key

/-- The declarations, in the order of first use. -/
def declarations (c : ExprCache) : List Declaration := c.declared.reverse.map Symbol.declaration

/-- The symbols by name. -/
def symbolsByName (c : ExprCache) : List Symbol :=
  c.symbols.values.mergeSort (fun s t => s.name ≤ t.name)

/-! ### Parsing -/

/-- The expression with names for its parsed operands. -/
def substituted (c : ExprCache) (e : Expr) : String :=
  (c.backend.printedWith (fun sub => (c.lookup? sub).map (·.name)) e).text

/-- Gives the expression the symbol of its printed form, a new one if there is none. -/
def enter (c : ExprCache) (generation : Nat) (e : Expr) (deps : List Symbol) :
    ExprCache × Symbol :=
  let target := c.substituted e
  match c.symbol? target with
  | some s => ({ c with parsed := c.parsed.insert e s, hits := c.hits + 1 }, s)
  | none =>
    let (name, names) := c.names.fresh generation
    let s : Symbol := { name, target, number := c.names.count, deps }
    let parsed := c.parsed.insert e s
    let symbols := c.symbols.insert target s
    ({ c with names, parsed, symbols, misses := c.misses + 1 }, s)

/-- The symbols with one more, unless one of its key is there. -/
def addSymbol (symbols : List Symbol) : Option Symbol → List Symbol
  | none => symbols
  | some s => if symbols.any (fun t => t.target = s.target) then symbols else symbols ++ [s]

mutual

/-- Enters every compound subexpression, operands first, and gives the expression's own symbol. -/
def parseNode (generation : Nat) (c : ExprCache) : Expr → ExprCache × Option Symbol
  | .lit _ => (c, none)
  | .var _ => (c, none)
  | .node op cs =>
    match c.lookup? (.node op cs) with
    | some s => ({ c with hits := c.hits + 1 }, some s)
    | none =>
      let (c, deps) := parseList generation c [] cs
      let (c, s) := c.enter generation (.node op cs) deps
      (c, some s)

/-- Enters the operands from left to right and collects their symbols, each once. -/
def parseList (generation : Nat) (c : ExprCache) (deps : List Symbol) :
    List Expr → ExprCache × List Symbol
  | [] => (c, deps)
  | e :: es =>
    let (c, s) := parseNode generation c e
    parseList generation c (addSymbol deps s) es

end

/-- Gives every compound subexpression a symbol. -/
def parse (c : ExprCache) (generation : Nat) (e : Expr) : ExprCache :=
  (parseNode generation c e).1

/-! ### Using -/

mutual

/-- Declares a symbol, after those it depends on. -/
def declare (c : ExprCache) : Symbol → ExprCache
  | ⟨name, target, number, deps⟩ =>
    if c.isDeclared target then c
    else
      let c := declareAll c deps
      { c with
        declared := ⟨name, target, number, deps⟩ :: c.declared
        declaredKeys := c.declaredKeys.insert target }

/-- Declares symbols, the first one first. -/
def declareAll (c : ExprCache) : List Symbol → ExprCache
  | [] => c
  | s :: rest => declareAll (declare c s) rest

end

/-- The name of a parsed operand; its symbol is noted, the latest first. -/
def noting (c : ExprCache) (e : Expr) : StateM (List Symbol) (Option String) :=
  fun used =>
    match c.lookup? e with
    | none => (none, used)
    | some s => (some s.name, s :: used)

/-- The expression with names for its parsed operands, and the symbols of these, in order. -/
def naming (c : ExprCache) (e : Expr) : String × List Symbol :=
  let (printed, used) := (c.backend.printedM c.noting e).run []
  (printed.text, used.reverse)

/-- The expression with names for its parsed operands, and the symbols of these, which get
declared. -/
def substituteAndDeclare (c : ExprCache) (e : Expr) : String × List Symbol × ExprCache :=
  let (text, used) := c.naming e
  (text, used, c.declareAll used)

/-- The declarations by a pattern, after some earlier ones. -/
def renderDeclarations (c : ExprCache) (pattern : String) (earlier : List Declaration)
    (diagnostics : Diagnostics) : String × Diagnostics :=
  Declaration.renderAll pattern (earlier ++ c.declarations) diagnostics

/-- Forgets all symbols; the generation has to move on with it. -/
def clear (c : ExprCache) : ExprCache :=
  { c with symbols := {}, parsed := {}, declared := [], declaredKeys := {} }

end ExprCache

end TensorTemplate
