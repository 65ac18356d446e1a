import TensorTemplate.Proofs.ExprCache.Sharing
import TensorTemplate.Proofs.Semantics

/-!
Sharing keeps the meaning. The text that the cache gives for an expression has, after
the declarations as they stand then, the value of the expression. No target names a
temporary before its declaration, and each gives its name the value of the expression
that the symbol stands for.
-/

namespace TensorTemplate

open NameGen

open scoped Classical in
/-- Before any declaration, all names have values but those of temporaries. -/
noncomputable def Interpretation.initial (I : Interpretation) (kernel : String) : Environment :=
  fun x => if Minted kernel x then none else some (I.var x)

/-- Going through declarations in order. Each target is read and evaluated where it stands, and its
name, which had no value before, gets this one. -/
inductive Elaborates (b : Backend) (I : Interpretation) :
    List Declaration → Environment → Environment → Prop where
  | nil (env : Environment) : Elaborates b I [] env env
  | cons {d : Declaration} {ds : List Declaration} {env env' : Environment} {t : Grammar.Term}
      {v : Int} (hread : b.ReadsAs d.target t) (hvalue : t.eval I env = some v)
      (hnew : env d.name = none)
      (h : Elaborates b I ds (Function.update env d.name (some v)) env') :
      Elaborates b I (d :: ds) env env'

theorem Elaborates.concat {b : Backend} {I : Interpretation} {ds : List Declaration}
    {env env' : Environment} (h : Elaborates b I ds env env') {d : Declaration} {t : Grammar.Term}
    {v : Int} (hread : b.ReadsAs d.target t) (hvalue : t.eval I env' = some v)
    (hnew : env' d.name = none) :
    Elaborates b I (ds ++ [d]) env (Function.update env' d.name (some v)) := by
  induction h with
  | nil env => exact .cons hread hvalue hnew (.nil _)
  | cons hread' hvalue' hnew' _ ih => exact .cons hread' hvalue' hnew' (ih hvalue hnew)

namespace ExprCache

/-- Plain names and the declared symbols have their values, and nothing else has one. -/
structure Agrees (c : ExprCache) (I : Interpretation) (ds : List Symbol) (env : Environment) :
    Prop where
  plain : ∀ {x}, ¬Minted c.names.kernel x → env x = some (I.var x)
  declared : ∀ {e s}, c.lookup? e = some s → s ∈ ds → env s.name = some (e.value I)
  fresh : ∀ {x}, Minted c.names.kernel x → (∀ s ∈ ds, s.name ≠ x) → env x = none

theorem agrees_initial (c : ExprCache) (I : Interpretation) :
    c.Agrees I [] (I.initial c.names.kernel) where
  plain := fun hx => if_neg hx
  declared := fun _ hs => by cases hs
  fresh := fun hx _ => if_pos hx

section

variable {c : ExprCache} {I : Interpretation} {ds : List Symbol} {env : Environment}

/-- An operand has its value once its symbol is declared. -/
theorem Agrees.eval_operand (h : c.Agrees I ds env) (hc : c.Valid) {e : Expr}
    (he : e.WellFormed c.names.kernel) (hcovers : c.Covers [e])
    (hdeclared : ∀ s, c.lookup? e = some s → s ∈ ds) :
    (c.operand e).term.eval I env = some (e.value I) := by
  cases he with
  | lit n => exact Operand.eval_lit I env n
  | var hx => exact h.plain hx.2
  | node _ _ _ =>
      obtain ⟨s, hs⟩ := hcovers _ List.mem_cons_self rfl
      rw [operand_of_lookup? hc.leafFree hs]
      exact h.declared hs (hdeclared s hs)

/-- An expression that is printed through declared operands keeps its value. -/
theorem Agrees.eval_substituted (h : c.Agrees I ds env) (hc : c.Valid)
    (hkernel : isIdentifier c.names.kernel = true) {op : Op} {cs : List Expr}
    (he : (Expr.node op cs).WellFormed c.names.kernel) (hcs : c.Covers cs)
    (hdeclared : ∀ d ∈ cs, ∀ s, c.lookup? d = some s → s ∈ ds) :
    ∃ t, c.backend.ReadsAs (c.substituted (.node op cs)) t ∧
      t.eval I env = some ((Expr.node op cs).value I) := by
  obtain ⟨t, ht, hread⟩ := readsAs_substituted hc hkernel he hcs
  refine ⟨t, hread, ?_⟩
  cases he with
  | node _ _ hchildren =>
      rw [Expr.value, Expr.valueList_eq_map]
      apply ht.eval
      rw [List.forall₂_map_left_iff, List.forall₂_map_right_iff, List.forall₂_same]
      intro d hd
      exact h.eval_operand hc (hchildren d hd) (hcs.singleton hd) (hdeclared d hd)

/-- The declarations can be gone through, and give every declared symbol its value. -/
theorem Exact.elaborates (hc : c.Valid) (hx : c.Exact) (I : Interpretation) (hafter : AfterDeps ds)
    (hnodup : ds.Nodup) (hknown : ∀ s ∈ ds, c.Known s) :
    ∃ env,
      Elaborates c.backend I (ds.reverse.map Symbol.declaration) (I.initial c.names.kernel) env ∧
        c.Agrees I ds env := by
  induction ds with
  | nil => exact ⟨_, .nil _, agrees_initial c I⟩
  | cons s older ih =>
      obtain ⟨hdeps, hafter⟩ := hafter
      obtain ⟨hnotMem, hnodup⟩ := List.nodup_cons.1 hnodup
      have hs := hknown s List.mem_cons_self
      have holder : ∀ r ∈ older, c.Known r := fun r hr => hknown r (List.mem_cons_of_mem _ hr)
      obtain ⟨env, helab, hagrees⟩ := ih hafter hnodup holder
      obtain ⟨e, he⟩ := hc.parsed hs
      have hminted : Minted c.names.kernel s.name := by
        obtain ⟨generation, hname⟩ := hc.name_eq hs
        exact ⟨generation, s.number, hname⟩
      have hne : ∀ r ∈ older, r.name ≠ s.name := by
        intro r hr hname
        rw [hc.name_inj (holder r hr) hs hname] at hr
        exact hnotMem hr
      have hnew : env s.name = none := hagrees.fresh hminted hne
      obtain ⟨t, hread, hvalue⟩ : ∃ t, c.backend.ReadsAs s.target t ∧
          t.eval I env = some (e.value I) := by
        rw [← hc.substituted_eq he]
        have hcompound := hc.leafFree he
        cases e with
        | lit n => cases hcompound
        | var x => cases hcompound
        | node op cs =>
            refine hagrees.eval_substituted hc hx.isIdentifier_kernel (hx.wellFormed he)
              (hc.covers he) ?_
            intro d hd r hr
            exact hdeps r (hx.mem_deps he hd hr)
      refine ⟨Function.update env s.name (some (e.value I)), ?_, ?_, ?_, ?_⟩
      · rw [List.reverse_cons, List.map_append]
        exact helab.concat hread hvalue hnew
      · intro x hplain
        rw [Function.update_of_ne, hagrees.plain hplain]
        rintro rfl
        exact hplain hminted
      · intro d r hd hr
        rcases List.mem_cons.1 hr with rfl | hr
        · rw [Function.update_self, hx.inj hd he]
        · rw [Function.update_of_ne (hne r hr), hagrees.declared hd hr]
      · intro x hx hrest
        rw [Function.update_of_ne (hrest s List.mem_cons_self).symm,
          hagrees.fresh hx fun r hr => hrest r (List.mem_cons_of_mem _ hr)]

end

/-- Printed through the cache, an expression names declared symbols only and keeps its value. -/
theorem Agrees.eval_naming {c : ExprCache} {I : Interpretation} {ds : List Symbol}
    {env : Environment} (h : c.Agrees I ds env) (hc : c.Valid)
    (hkernel : isIdentifier c.names.kernel = true) {e : Expr} (he : e.WellFormed c.names.kernel)
    (hcovers : c.Covers e.children) (hdeclared : ∀ s ∈ (c.naming e).2, s ∈ ds) :
    ∃ t, c.backend.ReadsAs (c.naming e).1 t ∧ t.eval I env = some (e.value I) := by
  have hleaf : ∀ o : Operand, o.Fits → c.backend.ReadsAs o.printed.text o.term := fun o ho =>
    Backend.readsAs_of_reads (.ofProduct (.ofUnary (Operand.reads_printed ho)))
  cases he with
  | lit n => exact ⟨_, hleaf (.lit n) trivial, Operand.eval_lit I env n⟩
  | @var x hx => exact ⟨_, hleaf (.name x) hx.1, h.plain hx.2⟩
  | @node op cs harity hname hchildren =>
      have hcs : c.Covers cs := hcovers
      rw [naming_node hc.leafFree op hcs] at hdeclared ⊢
      refine h.eval_substituted hc hkernel (.node harity hname hchildren) hcs ?_
      intro d hd s hs
      exact hdeclared s (List.mem_filterMap.2 ⟨d, hd, hs⟩)

end ExprCache

namespace CacheCall

/-- After any calls, the text of an expression and the declarations as they then stand have the
value of the expression. -/
theorem emit_value (b : Backend) {kernel : String} (lambdaKernel : String)
    (hkernel : isIdentifier kernel = true) (calls : List CacheCall)
    (hlive : ∀ d ∈ live calls, d.WellFormed kernel) {e : Expr} (he : e.WellFormed kernel)
    (I : Interpretation) :
    let emitted := (runAll b kernel lambdaKernel calls).emit e
    ∃ env, Elaborates b I emitted.2.exprs.declarations (I.initial kernel) env ∧
      ∃ term, b.ReadsAs emitted.1 term ∧ term.eval I env = some (e.value I) := by
  set t := runAll b kernel lambdaKernel calls
  have htracks := (tracks_runAll b kernel lambdaKernel calls).parse t.generation e
  have hcovers := (ExprCache.parse_spec t.generation
    (tracks_runAll b kernel lambdaKernel calls).valid e).2
  have hexact := htracks.exact hkernel (by
    intro d hd
    rcases List.mem_append.1 hd with hd | hd
    · exact hlive d hd
    · exact List.mem_singleton.1 hd ▸ he)
  have hdeclaring := ExprCache.declaring_substituteAndDeclare htracks.valid htracks.listed e
  show ∃ env,
      Elaborates b I ((t.exprs.parse t.generation e).substituteAndDeclare e).2.2.declarations
        (I.initial kernel) env ∧
      ∃ term, b.ReadsAs ((t.exprs.parse t.generation e).naming e).1 term ∧
        term.eval I env = some (e.value I)
  set c := t.exprs.parse t.generation e
  have hlisted := hdeclaring.listed
  have hdeclared := hdeclaring.declared
  obtain ⟨new, keys, hframe, _⟩ := hdeclaring.frame
  obtain ⟨env, helab, hagrees⟩ := hexact.elaborates htracks.valid I hlisted.afterDeps hlisted.nodup
    (by
      intro s hs
      have hknown := hlisted.known hs
      rw [hframe] at hknown
      exact hknown)
  have hchildren : c.Covers e.children := by
    intro d hd
    exact hcovers d (Expr.mem_preorder_of_mem_children hd)
  rw [htracks.backend_eq, htracks.kernel_eq] at helab
  refine ⟨env, helab, ?_⟩
  have hmeans := hagrees.eval_naming htracks.valid hexact.isIdentifier_kernel
    (htracks.kernel_eq ▸ he) hchildren hdeclared
  rw [htracks.backend_eq] at hmeans
  exact hmeans

/-- The power of a negation, through the name of the negation, with `x` as three. -/
theorem emit_value_power :
    let I : Interpretation := ⟨fun _ => 3, fun _ _ => 0,
      fun u v => (List.replicate v.toNat u).foldr (· * ·) 1⟩
    let negation : Expr := .neg (.var "x")
    let emitted := (runAll .python "cse" "lambda" [.parse negation, .advance]).emit
      (.pow negation (.lit 2))
    ∃ env, Elaborates .python I emitted.2.exprs.declarations (I.initial "cse") env ∧
      ∃ term, Backend.python.ReadsAs emitted.1 term ∧ term.eval I env = some 9 := by
  intro I negation
  have hnegation : negation.WellFormed "cse" := by
    refine .node (by decide) (by simp) ?_
    intro c hc
    rw [List.mem_singleton.1 hc]
    exact .var ⟨by decide, not_minted_of_notMem (by decide)⟩
  have hpower : (Expr.pow negation (.lit 2)).WellFormed "cse" := by
    refine .node (by decide) (by simp) ?_
    intro c hc
    rcases List.mem_pair.1 hc with rfl | rfl
    · exact hnegation
    · exact .lit 2
  have hvalue : (Expr.pow negation (.lit 2)).value I = 9 := by
    simp [negation, I, Expr.pow, Expr.neg, Expr.value, Expr.valueList, Interpretation.apply]
  rw [← hvalue]
  exact emit_value .python "lambda" (by decide) [.parse negation, .advance]
    (by simpa [live, liveAfter] using hnegation) hpower I

end CacheCall

end TensorTemplate
