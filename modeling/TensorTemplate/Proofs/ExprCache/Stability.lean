import TensorTemplate.Proofs.ExprCache.History

/-!
Parsed expressions keep their printed form.

A key is made once, from the names that the operands have at that time. Until the
next clearing nothing that is parsed gets another name, so the key stays the text
that printing gives, whatever else is parsed, printed or declared meanwhile. To parse
an expression again is then no more than a look-up, and to print it again declares
nothing that is not declared already.
-/

namespace TensorTemplate

/-- The parts of a part are parts. -/
theorem Expr.mem_preorder_trans {d e a : Expr} (hd : d ∈ e.preorder) (he : e ∈ a.preorder) :
    d ∈ a.preorder := by
  induction a using induction_children with
  | lit n => simp_all [preorder]
  | var x => simp_all [preorder]
  | node op cs ih =>
      rw [preorder, List.mem_cons, mem_preorderList] at he
      rcases he with rfl | ⟨c, hc, he⟩
      · exact hd
      · exact List.mem_cons_of_mem _ (mem_preorderList.2 ⟨c, hc, ih c hc he⟩)

namespace ExprCache

/-! ### What is remembered -/

/-- The second cache knows all that the first one knows, whatever they have declared. -/
def Remembers (c c' : ExprCache) : Prop :=
  c.Extends { c' with declared := c.declared, declaredKeys := c.declaredKeys }

section

variable {c c' c'' : ExprCache}

theorem Remembers.refl (c : ExprCache) : c.Remembers c := Extends.refl c

theorem Remembers.trans (h : c.Remembers c') (h' : c'.Remembers c'') : c.Remembers c'' where
  backend := h'.backend.trans h.backend
  kernel := h'.kernel.trans h.kernel
  count := h.count.trans h'.count
  lookup := fun hs => h'.lookup (h.lookup hs)
  symbol := fun hs => h'.symbol (h.symbol hs)
  declared := rfl
  declaredKeys := rfl

theorem Extends.remembers (h : c.Extends c') : c.Remembers c' :=
  ⟨h.backend, h.kernel, h.count, h.lookup, h.symbol, rfl, rfl⟩

theorem Declaring.remembers {ss : List Symbol} (h : Declaring ss c c') : c.Remembers c' := by
  obtain ⟨new, keys, rfl, _⟩ := h.frame
  exact Extends.refl c

/-- The text of an expression is made from what is known of its operands. -/
theorem Remembers.substituted_eq (h : c.Remembers c') (hc : c.Valid) (hc' : c'.Valid) {e : Expr}
    (he : c.Covers e.preorder) : c'.substituted e = c.substituted e := by
  cases e with
  | lit n => rfl
  | var x => rfl
  | node op cs =>
      have hcs : c.Covers cs := fun d hd => he d (Expr.mem_preorder_of_mem_children hd)
      exact Extends.substituted h hc.leafFree (hc'.relist _ _).leafFree hcs

theorem Remembers.mentions_eq (h : c.Remembers c') (hc : c.Valid) (hc' : c'.Valid) {e : Expr}
    (he : c.Covers e.preorder) : c'.mentions e = c.mentions e := by
  cases e with
  | lit n => rfl
  | var x => rfl
  | node op cs =>
      have hcs : c.Covers cs := fun d hd => he d (Expr.mem_preorder_of_mem_children hd)
      have hcs' : c'.Covers cs := Extends.covers h hcs
      have hnaming := (c.naming_eq (.node op cs)).symm.trans (naming_node hc.leafFree op hcs)
      have hnaming' := (c'.naming_eq (.node op cs)).symm.trans (naming_node hc'.leafFree op hcs')
      rw [(Prod.mk.inj hnaming).2, (Prod.mk.inj hnaming').2]
      refine List.filterMap_congr fun d hd => ?_
      exact Extends.lookup?_eq h (hc'.relist _ _).leafFree (hcs d hd)

end

/-! ### Once more -/

/-- To parse what is parsed already is a look-up. -/
theorem parse_of_covers {c : ExprCache} (generation : Nat) {e : Expr} (he : c.Covers e.preorder) :
    c.parse generation e = { c with hits := c.hits + if e.isLeaf then 0 else 1 } := by
  cases e with
  | lit n => rfl
  | var x => rfl
  | node op cs =>
      obtain ⟨s, hs⟩ := he _ (Expr.mem_preorder_self _) rfl
      rw [parse, parseNode, hs]
      rfl

theorem declare_of_isDeclared {c : ExprCache} {s : Symbol} (h : c.isDeclared s.target = true) :
    c.declare s = c := by
  obtain ⟨name, target, number, deps⟩ := s
  rw [declare, if_pos h]

/-- To declare what is declared already does nothing. -/
theorem declareAll_of_isDeclared {c : ExprCache} {ss : List Symbol}
    (h : ∀ s ∈ ss, c.isDeclared s.target = true) : c.declareAll ss = c := by
  induction ss with
  | nil => rfl
  | cons s ss ih =>
      rw [declareAll, declare_of_isDeclared (h s List.mem_cons_self)]
      exact ih fun r hr => h r (List.mem_cons_of_mem _ hr)

theorem substituteAndDeclare_eq (c : ExprCache) (e : Expr) :
    c.substituteAndDeclare e = (c.substituted e, c.mentions e, c.declareAll (c.mentions e)) := by
  rw [substituteAndDeclare, naming_eq]

end ExprCache

namespace CacheCall

open ExprCache

/-! ### Histories -/

/-- Only a clearing makes a cache forget. -/
theorem Tracks.remembers_run {b : Backend} {kernel : String} {es : List Expr} {t : Temporaries}
    (h : Tracks b kernel es t.exprs) {call : CacheCall} (hcall : call ≠ clear) :
    t.exprs.Remembers (call.run t).exprs := by
  have hparse : ∀ e, t.exprs.Remembers (t.parse e).exprs := fun e =>
    (parse_spec t.generation h.valid e).1.grows.remembers
  cases call with
  | parse e => exact hparse e
  | emit e =>
      have hparsed := h.parse t.generation e
      exact (hparse e).trans
        (declaring_substituteAndDeclare hparsed.valid hparsed.listed e).remembers
  | substitute e => exact .refl _
  | substituteAndDeclare e => exact (declaring_substituteAndDeclare h.valid h.listed e).remembers
  | clear => exact absurd rfl hcall
  | advance => exact .refl _

section

variable (b : Backend) (kernel lambdaKernel : String)

theorem remembers_runAll {more : List CacheCall} (hmore : clear ∉ more) (calls : List CacheCall) :
    (runAll b kernel lambdaKernel calls).exprs.Remembers
      (runAll b kernel lambdaKernel (calls ++ more)).exprs := by
  induction more using List.reverseRecOn with
  | nil => rw [List.append_nil]; exact .refl _
  | append_singleton more call ih =>
      have hcall : call ≠ clear := by
        rintro rfl
        exact hmore (List.mem_append_right _ (List.mem_singleton_self _))
      rw [← List.append_assoc, runAll_concat]
      refine (ih fun hmem => hmore (List.mem_append_left _ hmem)).trans ?_
      exact (tracks_runAll b kernel lambdaKernel (calls ++ more)).remembers_run hcall

/-- All parts of what has been parsed since the last clearing are known. -/
theorem covers_runAll {calls : List CacheCall} {a e : Expr} (ha : a ∈ live calls)
    (he : e ∈ a.preorder) : (runAll b kernel lambdaKernel calls).exprs.Covers e.preorder := by
  intro d hd hcompound
  refine (tracks_runAll b kernel lambdaKernel calls).parsed_iff.2 (mem_compounds.2 ⟨?_, hcompound⟩)
  exact ⟨a, ha, Expr.mem_preorder_trans hd he⟩

/-- What an expression names has been declared since it was first emitted. -/
theorem isDeclared_of_emit (before : List CacheCall) (e : Expr) {after : List CacheCall}
    (hafter : clear ∉ after) :
    let cache := (runAll b kernel lambdaKernel (before ++ emit e :: after)).exprs
    ∀ s ∈ cache.mentions e, cache.isDeclared s.target = true := by
  intro cache s hs
  have htracks := tracks_runAll b kernel lambdaKernel (before ++ emit e :: after)
  have hbefore := tracks_runAll b kernel lambdaKernel before
  let parsed := ((runAll b kernel lambdaKernel before).parse e).exprs
  have hparsed : Tracks b kernel (live before ++ [e]) parsed := hbefore.parse _ e
  have hcovers : parsed.Covers e.preorder := (parse_spec _ hbefore.valid e).2
  have hemit : parsed.Remembers (runAll b kernel lambdaKernel (before ++ [emit e])).exprs := by
    rw [runAll_concat]
    exact (declaring_substituteAndDeclare hparsed.valid hparsed.listed e).remembers
  have hlater : parsed.Remembers cache := by
    refine hemit.trans ?_
    have hrest := remembers_runAll b kernel lambdaKernel hafter (before ++ [emit e])
    rwa [List.append_assoc] at hrest
  rw [hlater.mentions_eq hparsed.valid htracks.valid hcovers] at hs
  refine htracks.listed.isDeclared_iff.2 ⟨s, ?_, rfl⟩
  exact (mem_declared_iff b kernel lambdaKernel _ s).2
    ⟨s, ⟨before, emit e, after, rfl, hafter, hs⟩, .self s⟩

/-- After any calls, every parsed expression prints as its key, under which its symbol is found. A
part of an expression parsed since the last clearing prints, with or without declaring what is named,
as it did then, whatever calls come next, until the next clearing. To parse it again counts as a hit,
if it is compound, and changes nothing else. To emit it again adds declarations at most, and none
since it was first emitted. -/
theorem substituted_stable (calls : List CacheCall) :
    let c := (runAll b kernel lambdaKernel calls).exprs
    (∀ d s, c.lookup? d = some s → c.substituted d = s.target ∧ c.symbol? s.target = some s) ∧
    ∀ a ∈ live calls, ∀ e ∈ a.preorder, ∀ more, clear ∉ more →
      let t := runAll b kernel lambdaKernel (calls ++ more)
      t.exprs.substituted e = c.substituted e ∧
      (t.substituteAndDeclare e).1 = c.substituted e ∧
      t.parse e =
        { t with exprs := { t.exprs with hits := t.exprs.hits + if e.isLeaf then 0 else 1 } } ∧
      (t.emit e).1 = c.substituted e ∧
      (∃ new keys, (t.emit e).2 =
        { t with exprs := { (t.parse e).exprs with
            declared := new ++ t.exprs.declared, declaredKeys := keys } }) ∧
      ∀ before after, calls ++ more = before ++ emit e :: after → clear ∉ after →
        (t.emit e).2 = t.parse e := by
  intro c
  have htracks := tracks_runAll b kernel lambdaKernel calls
  refine ⟨fun d s hs => ⟨htracks.valid.substituted_eq hs, htracks.valid.known hs⟩, ?_⟩
  intro a ha e he more hmore t
  have hlater : Tracks b kernel (live (calls ++ more)) t.exprs := tracks_runAll b kernel _ _
  have hremembers : c.Remembers t.exprs := remembers_runAll b kernel lambdaKernel hmore calls
  have hcovers : c.Covers e.preorder := covers_runAll b kernel lambdaKernel ha he
  have htext : t.exprs.substituted e = c.substituted e :=
    hremembers.substituted_eq htracks.valid hlater.valid hcovers
  have hparse : t.exprs.parse t.generation e =
      { t.exprs with hits := t.exprs.hits + if e.isLeaf then 0 else 1 } :=
    parse_of_covers t.generation (Extends.covers hremembers hcovers)
  have hemit : t.emit e = (t.exprs.substituted e,
      { t with exprs := (t.parse e).exprs.declareAll (t.exprs.mentions e) }) := by
    rw [Temporaries.emit, Temporaries.substituteAndDeclare, substituteAndDeclare_eq,
      Temporaries.parse, hparse]
    rfl
  refine ⟨htext, ?_, ?_, ?_, ?_, ?_⟩
  · rw [Temporaries.substituteAndDeclare, substituteAndDeclare_eq]
    exact htext
  · rw [Temporaries.parse, hparse]
  · rw [hemit]
    exact htext
  · have hparsed := hlater.parse t.generation e
    have hdeclaring := declaring_substituteAndDeclare hparsed.valid hparsed.listed e
    obtain ⟨new, keys, hframe, _⟩ := hdeclaring.frame
    have hsame := (parse_spec t.generation hlater.valid e).1.grows.declared
    refine ⟨new, keys, ?_⟩
    show { t.parse e with exprs := ((t.exprs.parse t.generation e).substituteAndDeclare e).2.2 } = _
    rw [hframe, hsame]
    rfl
  · intro before after hcalls hafter
    have hdeclared := isDeclared_of_emit b kernel lambdaKernel before e hafter
    rw [← hcalls] at hdeclared
    rw [hemit, declareAll_of_isDeclared]
    · rfl
    · intro s hs
      rw [Temporaries.parse, hparse]
      exact hdeclared s hs

end

/-- The negation of a product keeps its text while an expression is parsed whose printed form is that
of the product, so that both share one symbol, and the second time it is emitted nothing is declared
that was not declared before. -/
theorem substituted_stable_alike :
    let product : Expr := .product [.var "x", .var "y"]
    let alike : Expr := .product [.var "x*y"]
    let calls := [CacheCall.clear, .parse (.neg product)]
    let more := [CacheCall.emit (.neg product), .emit (.neg alike), .substituteAndDeclare alike]
    let c := (runAll .cpp "cse" "lambda" calls).exprs
    let t := runAll .cpp "cse" "lambda" (calls ++ more)
    clear ∉ more ∧ c.substituted (.neg product) = "-cse_1_0" ∧
      (t.exprs.lookup? alike).map (·.name) = some "cse_1_0" ∧
      t.exprs.substituted (.neg product) = c.substituted (.neg product) ∧
      (t.emit (.neg product)).2 = t.parse (.neg product) := by
  intro product alike calls more c t
  have hmore : clear ∉ more := by simp [more]
  obtain ⟨_, hstable⟩ := substituted_stable .cpp "cse" "lambda" calls
  obtain ⟨htext, _, _, _, _, hagain⟩ :=
    hstable (.neg product) (by simp [live, liveAfter, calls]) _ (Expr.mem_preorder_self _) more hmore
  refine ⟨hmore, by decide +kernel, by decide +kernel, htext, ?_⟩
  exact hagain calls [.emit (.neg alike), .substituteAndDeclare alike] rfl (by simp)

end CacheCall

end TensorTemplate
