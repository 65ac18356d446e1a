import TensorTemplate.Proofs.Operand

/-!
The values of expressions, and of the texts that are read in a target language.

Calls and powers are whatever functions of integers one likes. A text is evaluated
in an environment that need not have a value for every name; if one is missing, the
text has no value. Operands that have their values in an environment make a term
that has the value which the operator makes of them.
-/

namespace TensorTemplate

/-- Integers for the variables, and functions for calls and powers. -/
structure Interpretation where
  var : String → Int
  call : String → List Int → Int
  pow : Int → Int → Int

/-- The value of a compound expression from those of its operands. -/
def Interpretation.apply (I : Interpretation) : Op → List Int → Int
  | .add, vs => vs.foldr (· + ·) 0
  | .mul, vs => vs.foldr (· * ·) 1
  | .neg, [v] => -v
  | .pow, [u, v] => I.pow u v
  | .call f, vs => I.call f vs
  | _, _ => 0

namespace Expr

mutual

def value (I : Interpretation) : Expr → Int
  | lit n => n
  | var x => I.var x
  | node op cs => I.apply op (valueList I cs)

def valueList (I : Interpretation) : List Expr → List Int
  | [] => []
  | c :: cs => c.value I :: valueList I cs

end

theorem valueList_eq_map (I : Interpretation) (cs : List Expr) :
    valueList I cs = cs.map (value I) := by
  induction cs with
  | nil => rfl
  | cons c cs ih => rw [valueList, ih, List.map_cons]

end Expr

/-- The values of the names that have one. -/
abbrev Environment := String → Option Int

namespace Grammar.Term

mutual

/-- The value of a term, if all its names have one. -/
def eval (I : Interpretation) (env : Environment) : Term → Option Int
  | num n => some n
  | name x => env x
  | neg t => (eval I env t).map (- ·)
  | add t u => (eval I env t).bind fun v => (eval I env u).map (v + ·)
  | sub t u => (eval I env t).bind fun v => (eval I env u).map (v - ·)
  | mul t u => (eval I env t).bind fun v => (eval I env u).map (v * ·)
  | pow t u => (eval I env t).bind fun v => (eval I env u).map (I.pow v ·)
  | call f ts => (evalList I env ts).map (I.call f)

def evalList (I : Interpretation) (env : Environment) : List Term → Option (List Int)
  | [] => some []
  | t :: ts => (eval I env t).bind fun v => (evalList I env ts).map (v :: ·)

end

end Grammar.Term

namespace Operand

open Grammar

variable {I : Interpretation} {env : Environment}

theorem eval_lit (I : Interpretation) (env : Environment) (n : Int) :
    (lit n).term.eval I env = some n := by
  by_cases hn : n < 0
  · rw [term, if_pos hn, Term.eval, Term.eval, Option.map_some]
    congr 1
    omega
  · rw [term, if_neg hn, Term.eval]
    congr 1
    omega

theorem eval_plus {t : Term} {o : Operand} {v w : Int} (ht : t.eval I env = some v)
    (ho : o.term.eval I env = some w) : (plus t o).eval I env = some (v + w) := by
  cases o with
  | name x =>
      rw [term, Term.eval] at ho
      simp [plus, Term.eval, ht, ho]
  | lit n =>
      rw [eval_lit] at ho
      rw [← Option.some.inj ho]
      by_cases hn : n < 0
      · rw [plus, if_pos hn, Term.eval, ht, Term.eval, Option.bind_some, Option.map_some]
        congr 1
        omega
      · rw [plus, if_neg hn, Term.eval, ht, Term.eval, Option.bind_some, Option.map_some]
        congr 1
        omega

theorem eval_foldl_plus {t : Term} {v : Int} (ht : t.eval I env = some v) {os : List Operand}
    {vs : List Int} (hos : List.Forall₂ (fun o w => o.term.eval I env = some w) os vs) :
    (os.foldl plus t).eval I env = some (v + vs.foldr (· + ·) 0) := by
  induction hos generalizing t v with
  | nil => simpa using ht
  | cons ho _ ih =>
      rw [List.foldl_cons, ih (eval_plus ht ho), List.foldr_cons, Int.add_assoc]

theorem eval_foldl_times {t : Term} {v : Int} (ht : t.eval I env = some v) {os : List Operand}
    {vs : List Int} (hos : List.Forall₂ (fun o w => o.term.eval I env = some w) os vs) :
    (os.foldl times t).eval I env = some (v * vs.foldr (· * ·) 1) := by
  induction hos generalizing t v with
  | nil => simpa using ht
  | @cons o w os vs ho _ ih =>
      have hstep : (times t o).eval I env = some (v * w) := by
        simp [times, Term.eval, ht, ho]
      rw [List.foldl_cons, ih hstep, List.foldr_cons, Int.mul_assoc]

theorem evalList_map_term {os : List Operand} {vs : List Int}
    (hos : List.Forall₂ (fun o w => o.term.eval I env = some w) os vs) :
    Term.evalList I env (os.map term) = some vs := by
  induction hos with
  | nil => rfl
  | cons ho _ ih => simp [Term.evalList, ho, ih]

/-- The term of operands with values has the value that the operator makes of them. -/
theorem NodeTerm.eval {op : Op} {os : List Operand} {t : Term} (h : NodeTerm op os t)
    {vs : List Int} (hos : List.Forall₂ (fun o w => o.term.eval I env = some w) os vs) :
    t.eval I env = some (I.apply op vs) := by
  cases h with
  | add o p os =>
      cases hos with
      | cons ho hos => exact eval_foldl_plus ho hos
  | mul o p os =>
      cases hos with
      | cons ho hos => exact eval_foldl_times ho hos
  | neg o =>
      cases hos with
      | cons ho hos =>
          cases hos
          simp [Term.eval, ho, Interpretation.apply]
  | pow o p =>
      cases hos with
      | cons ho hos =>
          cases hos with
          | cons hp hos =>
              cases hos
              simp [Term.eval, ho, hp, Interpretation.apply]
  | call f os => simp [Term.eval, evalList_map_term hos, Interpretation.apply]

end Operand

end TensorTemplate
