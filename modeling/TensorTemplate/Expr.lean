/-!
Symbolic expressions: integer literals, named variables, and operators over a
list of operands. The tree fixes no arity, so every shape can be written down,
read as an s-expression, measured and compared.
-/

namespace TensorTemplate

/-- The operator at the head of a compound expression. -/
inductive Op where
  | add
  | mul
  | neg
  /-- Base, then exponent. -/
  | pow
  /-- A named function. -/
  | call (name : String)
deriving DecidableEq, Repr

namespace Op

/-- How the operator stands at the head of an s-expression. -/
def render : Op → String
  | add => "+"
  | mul => "*"
  | neg => "-"
  | pow => "^"
  | call name => name

/-- Place in the order of operators. -/
def rank : Op → Nat
  | add => 0
  | mul => 1
  | neg => 2
  | pow => 3
  | call _ => 4

def compare : Op → Op → Ordering
  | call f, call g => Ord.compare f g
  | a, b => Ord.compare a.rank b.rank

end Op

/-- A symbolic expression. -/
inductive Expr where
  | lit (value : Int)
  | var (name : String)
  | node (op : Op) (children : List Expr)
deriving Repr

namespace Expr

instance : Inhabited Expr := ⟨lit 0⟩

mutual

def decEq : (a b : Expr) → Decidable (a = b)
  | lit m, lit n => if h : m = n then isTrue (by rw [h]) else isFalse (fun e => h (by injection e))
  | var x, var y => if h : x = y then isTrue (by rw [h]) else isFalse (fun e => h (by injection e))
  | node o cs, node p ds =>
    if ho : o = p then
      match decEqList cs ds with
      | isTrue hc => isTrue (by rw [ho, hc])
      | isFalse hc => isFalse (fun e => hc (by injection e))
    else isFalse (fun e => ho (by injection e))
  | lit _, var _ => isFalse (fun e => by injection e)
  | lit _, node _ _ => isFalse (fun e => by injection e)
  | var _, lit _ => isFalse (fun e => by injection e)
  | var _, node _ _ => isFalse (fun e => by injection e)
  | node _ _, lit _ => isFalse (fun e => by injection e)
  | node _ _, var _ => isFalse (fun e => by injection e)

def decEqList : (as bs : List Expr) → Decidable (as = bs)
  | [], [] => isTrue rfl
  | a :: as, b :: bs =>
    match decEq a b with
    | isTrue h =>
      match decEqList as bs with
      | isTrue hs => isTrue (by rw [h, hs])
      | isFalse hs => isFalse (fun e => hs (by injection e))
    | isFalse h => isFalse (fun e => h (by injection e))
  | [], _ :: _ => isFalse (fun e => by injection e)
  | _ :: _, [] => isFalse (fun e => by injection e)

end

instance : DecidableEq Expr := decEq

/-! ### Building -/

def sum (children : List Expr) : Expr := node .add children

def product (children : List Expr) : Expr := node .mul children

def neg (e : Expr) : Expr := node .neg [e]

def pow (base exponent : Expr) : Expr := node .pow [base, exponent]

def call (name : String) (args : List Expr) : Expr := node (.call name) args

instance : Add Expr := ⟨fun a b => sum [a, b]⟩

instance : Neg Expr := ⟨neg⟩

/-- A difference is the sum with the negated subtrahend. -/
instance : Sub Expr := ⟨fun a b => sum [a, neg b]⟩

instance : Mul Expr := ⟨fun a b => product [a, b]⟩

/-! ### Reading -/

def isLeaf : Expr → Bool
  | node _ _ => false
  | _ => true

def children : Expr → List Expr
  | node _ cs => cs
  | _ => []

mutual

/-- The number of nodes, leaves included. -/
def size : Expr → Nat
  | lit _ => 1
  | var _ => 1
  | node _ cs => 1 + sizeList cs

def sizeList : List Expr → Nat
  | [] => 0
  | c :: cs => c.size + sizeList cs

end

mutual

/-- The number of nodes on a longest way down; a leaf has depth one. -/
def depth : Expr → Nat
  | lit _ => 1
  | var _ => 1
  | node _ cs => 1 + depthList cs

def depthList : List Expr → Nat
  | [] => 0
  | c :: cs => max c.depth (depthList cs)

end

mutual

/-- All subexpressions, each before its own parts. -/
def preorder : Expr → List Expr
  | lit n => [lit n]
  | var x => [var x]
  | node op cs => node op cs :: preorderList cs

def preorderList : List Expr → List Expr
  | [] => []
  | c :: cs => c.preorder ++ preorderList cs

end

mutual

/-- All subexpressions, each after its own parts. -/
def postorder : Expr → List Expr
  | lit n => [lit n]
  | var x => [var x]
  | node op cs => postorderList cs ++ [node op cs]

def postorderList : List Expr → List Expr
  | [] => []
  | c :: cs => c.postorder ++ postorderList cs

end

mutual

/-- The expression as an s-expression. -/
def render : Expr → String
  | lit n => toString n
  | var x => x
  | node op cs => "(" ++ op.render ++ renderList cs ++ ")"

def renderList : List Expr → String
  | [] => ""
  | c :: cs => " " ++ c.render ++ renderList cs

end

mutual

/-- Literals come first, by value; then variables, by name; then compound expressions, by operator
and then operand by operand. -/
def compare : Expr → Expr → Ordering
  | lit m, lit n => Ord.compare m n
  | lit _, _ => .lt
  | var _, lit _ => .gt
  | var x, var y => Ord.compare x y
  | var _, node _ _ => .lt
  | node o cs, node p ds => (o.compare p).then (compareList cs ds)
  | node _ _, _ => .gt

def compareList : List Expr → List Expr → Ordering
  | [], [] => .eq
  | [], _ :: _ => .lt
  | _ :: _, [] => .gt
  | a :: as, b :: bs => (a.compare b).then (compareList as bs)

end

mutual

/-- The expression with every variable and function name changed by `f`. -/
def mapNames (f : String → String) : Expr → Expr
  | lit n => lit n
  | var x => var (f x)
  | node (.call g) cs => node (.call (f g)) (mapNamesList f cs)
  | node op cs => node op (mapNamesList f cs)

def mapNamesList (f : String → String) : List Expr → List Expr
  | [] => []
  | c :: cs => c.mapNames f :: mapNamesList f cs

end

end Expr

end TensorTemplate
