import TensorTemplate.ExprCache
import TensorTemplate.LambdaCache

/-!
The two caches of a run and the generation that they share. Every clearing of
either cache starts a new generation, so a name is never made twice.
-/

namespace TensorTemplate

structure Temporaries where
  generation : Nat := 0
  exprs : ExprCache
  lambdas : LambdaCache

namespace Temporaries

def new (backend : Backend) (exprKernel lambdaKernel : String) : Temporaries where
  exprs := .new backend exprKernel
  lambdas := .new backend lambdaKernel

/-- Starts a new generation. -/
def advance (t : Temporaries) : Temporaries := { t with generation := t.generation + 1 }

/-- Gives the subexpressions of `e` symbols. -/
def parse (t : Temporaries) (e : Expr) : Temporaries :=
  { t with exprs := t.exprs.parse t.generation e }

/-- Prints `e` with names for its parsed operands, which get declared. -/
def substituteAndDeclare (t : Temporaries) (e : Expr) : String × Temporaries :=
  let (text, _, exprs) := t.exprs.substituteAndDeclare e
  (text, { t with exprs })

/-- Parses `e` and prints it. -/
def emit (t : Temporaries) (e : Expr) : String × Temporaries := (t.parse e).substituteAndDeclare e

/-- A call of the cached function value. -/
def cacheLambda (t : Temporaries) (l : Lambda) : String × Temporaries :=
  let (text, lambdas) := t.lambdas.cache t.generation l
  (text, { t with lambdas })

def clearExprs (t : Temporaries) : Temporaries := { t with exprs := t.exprs.clear }.advance

def clearLambdas (t : Temporaries) : Temporaries := { t with lambdas := t.lambdas.clear }.advance

/-- Forgets what waits for its declaration; an empty lambda cache is left as it is. -/
def clear (t : Temporaries) : Temporaries :=
  (if t.lambdas.isEmpty then t else t.clearLambdas).clearExprs

/-- Whether something waits for its declaration. -/
def isPending (t : Temporaries) : Bool :=
  !t.exprs.declared.isEmpty || !t.lambdas.isEmpty

end Temporaries

end TensorTemplate
