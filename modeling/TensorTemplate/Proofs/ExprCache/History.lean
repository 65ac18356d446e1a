import TensorTemplate.Proofs.ExprCache.Sharing

/-!
The declarations over a history of calls, on whatever expressions.

A text names the largest proper parts of its expression that have been parsed. What
is declared is, at any time, what the texts since the last clearing name and what
that depends on, each symbol once and after the symbols that its target was printed
with. Until the next clearing the list only gets longer at its end.
-/

namespace TensorTemplate

namespace Expr

mutual

/-- The largest proper parts that are `chosen`, from left to right. -/
def replaced (chosen : Expr → Bool) : Expr → List Expr
  | lit _ => []
  | var _ => []
  | node _ cs => replacedList chosen cs

def replacedList (chosen : Expr → Bool) : List Expr → List Expr
  | [] => []
  | c :: cs => (if chosen c then [c] else c.replaced chosen) ++ replacedList chosen cs

end

end Expr

namespace ExprCache

/-! ### What a text names -/

/-- The symbols of the largest parsed parts of the expression. -/
def mentions (c : ExprCache) (e : Expr) : List Symbol :=
  (e.replaced fun d => (c.lookup? d).isSome).filterMap c.lookup?

/-- The symbols of the largest parsed parts of the expressions, themselves included. -/
def mentionsList (c : ExprCache) (es : List Expr) : List Symbol :=
  (Expr.replacedList (fun d => (c.lookup? d).isSome) es).filterMap c.lookup?

section

variable (c : ExprCache)

theorem mentionsList_cons_of_some {d : Expr} {s : Symbol} (h : c.lookup? d = some s)
    (ds : List Expr) : c.mentionsList (d :: ds) = s :: c.mentionsList ds := by
  simp [mentionsList, Expr.replacedList, h]

theorem mentionsList_cons_of_none {d : Expr} (h : c.lookup? d = none) (ds : List Expr) :
    c.mentionsList (d :: ds) = c.mentions d ++ c.mentionsList ds := by
  simp [mentionsList, mentions, Expr.replacedList, h]

mutual

/-- Printing with notes gives the text without them, and notes the symbols that it names. -/
theorem printedM_noting : (e : Expr) → (used : List Symbol) →
    (c.backend.printedM c.noting e).run used =
      (c.backend.printedWith (fun d => (c.lookup? d).map (·.name)) e,
        (c.mentions e).reverse ++ used)
  | .lit _, _ => rfl
  | .var _, _ => rfl
  | .node op cs, used => by
      have hrun : (c.backend.printedM c.noting (.node op cs)).run used =
          (c.backend.node op ((c.backend.operandsM c.noting cs).run used).1,
            ((c.backend.operandsM c.noting cs).run used).2) := rfl
      rw [hrun, operandsM_noting_eq cs used]
      rfl

theorem operandsM_noting_eq : (cs : List Expr) → (used : List Symbol) →
    (c.backend.operandsM c.noting cs).run used =
      (Id.run (c.backend.operandsM (fun d => pure ((c.lookup? d).map (·.name))) cs),
        (c.mentionsList cs).reverse ++ used)
  | [], _ => rfl
  | d :: ds, used => by
      cases hd : c.lookup? d with
      | some s =>
          rw [operandsM_cons_of_some hd, operandsM_noting_eq ds, c.mentionsList_cons_of_some hd]
          simp [Backend.operandsM, hd]
      | none =>
          rw [operandsM_cons_of_none hd, printedM_noting d]
          dsimp only
          rw [operandsM_noting_eq ds, c.mentionsList_cons_of_none hd]
          simp [Backend.operandsM, Backend.printedWith, hd]

end

/-- The text with names for the parsed operands names the symbols of the largest parsed parts. -/
theorem naming_eq (e : Expr) : c.naming e = (c.substituted e, c.mentions e) := by
  rw [naming, printedM_noting]
  simp [substituted]

end

/-! ### Dependencies -/

/-- Every symbol depends on those of the operands of some expression that it stands for. -/
def Grounded (c : ExprCache) : Prop :=
  ∀ s, c.Known s →
    ∃ e, c.lookup? e = some s ∧ ∀ r, r ∈ s.deps ↔ ∃ d ∈ e.children, c.lookup? d = some r

theorem Grounded.enter {c : ExprCache} (hc : c.Valid) (hg : c.Grounded) (generation : Nat) {op : Op}
    {cs : List Expr} (hnew : c.lookup? (.node op cs) = none) (hcs : c.Covers cs) :
    (c.enter generation (.node op cs) (c.depsOf [] cs)).1.Grounded := by
  have hext := extends_enter generation (c.depsOf [] cs) hnew
  have hvalid := hc.enter generation hnew hcs
  intro s hs
  rcases hc.known_enter generation _ _ hs with hold | ⟨rfl, hcount⟩
  · obtain ⟨e, he, hdeps⟩ := hg s hold
    refine ⟨e, hext.lookup he, fun r => (hdeps r).trans ?_⟩
    refine exists_congr fun d => and_congr_right fun hd => ?_
    rw [hext.lookup?_eq hvalid.leafFree (hc.covers he d hd)]
  · have hentered : c.symbol? (c.substituted (.node op cs)) = none := by
      rw [enter_count] at hcount
      split at hcount
      · omega
      · rename_i hnone
        simpa using hnone
    refine ⟨.node op cs, ?_, fun r => ?_⟩
    · rw [lookup?_enter, if_pos rfl, entered, hentered]
      rfl
    · constructor
      · intro hr
        rcases mem_depsOf hr with hr | ⟨d, hd, hr⟩
        · cases hr
        · exact ⟨d, hd, hext.lookup hr⟩
      · rintro ⟨d, hd, hr⟩
        rw [hext.lookup?_eq hvalid.leafFree (hcs d hd)] at hr
        exact hc.mem_depsOf_of_lookup? hd hr (by simp)

theorem Entering.grounded {generation : Nat} {S : Expr → Prop} {c c' : ExprCache}
    (h : Entering generation S c c') (hc : c.Valid) (hg : c.Grounded) : c'.Grounded := by
  induction h with
  | refl => exact hg
  | hit _ ih => exact ih
  | enter hrun _ hnew hcs ih => exact Grounded.enter (hrun.valid hc) ih _ hnew hcs

theorem Declaring.grounded {ss : List Symbol} {c c' : ExprCache} (h : Declaring ss c c')
    (hg : c.Grounded) : c'.Grounded := by
  obtain ⟨new, keys, rfl, _⟩ := h.frame
  exact hg

/-! ### The list -/

/-- The declarations are those of the declared symbols, so a symbol is declared exactly if the pair
of its name and target is listed. -/
theorem Listed.isDeclared_iff_mem {c : ExprCache} (hc : c.Valid) (hl : c.Listed) {key : String}
    {s : Symbol} (hs : c.symbol? key = some s) :
    c.isDeclared key = true ↔ s.declaration ∈ c.declarations := by
  have hknown : c.Known s := by rw [Known, hc.target_eq hs, hs]
  rw [hl.isDeclared_iff, declarations, List.mem_map]
  constructor
  · rintro ⟨r, hr, htarget⟩
    have heq := (hl.known hr).eq_of_target hknown (htarget.trans (hc.target_eq hs).symm)
    exact ⟨s, List.mem_reverse.2 (heq ▸ hr), rfl⟩
  · rintro ⟨r, hr, hsame⟩
    have hr := List.mem_reverse.1 hr
    have hname : r.name = s.name := congrArg Declaration.name hsame
    rw [hc.name_inj (hl.known hr) hknown hname] at hr
    exact ⟨s, hr, hc.target_eq hs⟩

theorem Listed.names_nodup {c : ExprCache} (hc : c.Valid) (hl : c.Listed) :
    (c.declarations.map (·.name)).Nodup := by
  rw [declarations, List.map_map]
  refine List.Nodup.map_on ?_ (List.nodup_reverse.2 hl.nodup)
  intro s hs r hr hname
  exact hc.name_inj (hl.known (List.mem_reverse.1 hs)) (hl.known (List.mem_reverse.1 hr)) hname

/-- From first to last, each symbol stands behind all that it depends on. -/
theorem AfterDeps.mem_front {ss : List Symbol} (h : AfterDeps ss) {front rest : List Symbol}
    {s d : Symbol} (hss : ss.reverse = front ++ s :: rest) (hd : d ∈ s.deps) : d ∈ front := by
  have hsplit : ss = rest.reverse ++ s :: front.reverse := by
    rw [← List.reverse_reverse ss, hss]
    simp
  rw [hsplit] at h
  exact List.mem_reverse.1 (h.mem_of_mem_deps hd)

end ExprCache

/-! ### Histories -/

namespace CacheCall

/-- The symbols that are named by the text of a call which declares what it names. -/
def mentioned (t : Temporaries) : CacheCall → List Symbol
  | emit e => (t.parse e).exprs.mentions e
  | substituteAndDeclare e => t.exprs.mentions e
  | _ => []

/-- Some call since the last clearing named the symbol in its text and had it declared. -/
def Mentioned (b : Backend) (kernel lambdaKernel : String) (calls : List CacheCall) (s : Symbol) :
    Prop :=
  ∃ before call after, calls = before ++ call :: after ∧ clear ∉ after ∧
    s ∈ call.mentioned (runAll b kernel lambdaKernel before)

section

variable (b : Backend) (kernel lambdaKernel : String) (calls : List CacheCall)

theorem runAll_concat (call : CacheCall) :
    runAll b kernel lambdaKernel (calls ++ [call]) =
      call.run (runAll b kernel lambdaKernel calls) := by
  rw [runAll, List.foldl_append]
  rfl

theorem mentioned_concat_iff (call : CacheCall) (s : Symbol) :
    Mentioned b kernel lambdaKernel (calls ++ [call]) s ↔
      s ∈ call.mentioned (runAll b kernel lambdaKernel calls) ∨
        call ≠ clear ∧ Mentioned b kernel lambdaKernel calls s := by
  constructor
  · rintro ⟨before, call', after, hcalls, hclear, hs⟩
    cases after using List.reverseRecOn with
    | nil =>
        obtain ⟨rfl, hcall⟩ := List.append_inj' hcalls rfl
        cases hcall
        exact Or.inl hs
    | append_singleton after last =>
        have hsplit : calls ++ [call] = (before ++ call' :: after) ++ [last] := by
          rw [hcalls, List.append_assoc, List.cons_append]
        obtain ⟨rfl, hlast⟩ := List.append_inj' hsplit rfl
        cases hlast
        refine Or.inr ⟨?_, before, call', after, rfl, ?_, hs⟩
        · rintro rfl
          exact hclear (List.mem_append_right _ List.mem_cons_self)
        · exact fun hmem => hclear (List.mem_append_left _ hmem)
  · rintro (hs | ⟨hne, before, call', after, rfl, hclear, hs⟩)
    · exact ⟨calls, call, [], rfl, by simp, hs⟩
    · refine ⟨before, call', after ++ [call], by simp, ?_, hs⟩
      intro hmem
      rcases List.mem_append.1 hmem with hmem | hmem
      · exact hclear hmem
      · exact hne (List.mem_singleton.1 hmem).symm

end

/-- What one call that clears nothing does to the declared symbols: those that its text names, and
what they need, are put at the end unless they are declared already. -/
theorem declared_run {b : Backend} {kernel : String} {es : List Expr} {t : Temporaries}
    (h : Tracks b kernel es t.exprs) {call : CacheCall} (hcall : call ≠ clear) :
    ∃ new, (call.run t).exprs.declared = new ++ t.exprs.declared ∧
      (∀ r ∈ new, ∃ s ∈ call.mentioned t, s.Needs r) ∧
      ∀ s ∈ call.mentioned t, s ∈ (call.run t).exprs.declared := by
  have hsubstitute : ∀ {c : ExprCache} {es : List Expr}, Tracks b kernel es c → ∀ e, ∃ new,
      (c.substituteAndDeclare e).2.2.declared = new ++ c.declared ∧
        (∀ r ∈ new, ∃ s ∈ c.mentions e, s.Needs r) ∧
        ∀ s ∈ c.mentions e, s ∈ (c.substituteAndDeclare e).2.2.declared := by
    intro c es hc e
    have hdeclaring := ExprCache.declaring_substituteAndDeclare hc.valid hc.listed e
    obtain ⟨new, keys, heq, hneeds⟩ := hdeclaring.frame
    have hdeclared := hdeclaring.declared
    rw [c.naming_eq] at hneeds hdeclared
    exact ⟨new, by rw [heq], hneeds, hdeclared⟩
  cases call with
  | parse e =>
      have hrun := (ExprCache.parse_spec t.generation h.valid e).1
      exact ⟨[], hrun.grows.declared, by simp, by simp [mentioned]⟩
  | emit e =>
      have hrun := (ExprCache.parse_spec t.generation h.valid e).1
      obtain ⟨new, heq, hneeds, hdeclared⟩ := hsubstitute (h.parse t.generation e) e
      exact ⟨new, heq.trans (by rw [hrun.grows.declared]), hneeds, hdeclared⟩
  | substitute e => exact ⟨[], rfl, by simp, by simp [mentioned]⟩
  | substituteAndDeclare e => exact hsubstitute h e
  | clear => exact absurd rfl hcall
  | advance => exact ⟨[], rfl, by simp, by simp [mentioned]⟩

section

variable (b : Backend) (kernel lambdaKernel : String)

/-- After any calls, every symbol depends on those of the operands it was printed with. -/
theorem grounded_runAll (calls : List CacheCall) :
    (runAll b kernel lambdaKernel calls).exprs.Grounded := by
  have hempty : ∀ c : ExprCache, c.clear.Grounded := by
    intro c s hs
    simp [ExprCache.Known, ExprCache.symbol?_clear] at hs
  have hparse : ∀ {c : ExprCache} {es : List Expr}, Tracks b kernel es c → c.Grounded →
      ∀ generation e, (c.parse generation e).Grounded := by
    intro c es hc hg generation e
    exact (ExprCache.parse_spec generation hc.valid e).1.grounded hc.valid hg
  have hsubstitute : ∀ {c : ExprCache} {es : List Expr}, Tracks b kernel es c → c.Grounded →
      ∀ e, (c.substituteAndDeclare e).2.2.Grounded := by
    intro c es hc hg e
    exact (ExprCache.declaring_substituteAndDeclare hc.valid hc.listed e).grounded hg
  induction calls using List.reverseRecOn with
  | nil => exact hempty (.new b kernel)
  | append_singleton calls call ih =>
      have htracks := tracks_runAll b kernel lambdaKernel calls
      rw [runAll_concat]
      cases call with
      | parse e => exact hparse htracks ih _ e
      | emit e => exact hsubstitute (htracks.parse _ e) (hparse htracks ih _ e) e
      | substitute e => exact ih
      | substituteAndDeclare e => exact hsubstitute htracks ih e
      | clear => exact hempty _
      | advance => exact ih

/-- What is declared is what has been named since the last clearing, and what that needs. -/
theorem mem_declared_iff (calls : List CacheCall) (s : Symbol) :
    s ∈ (runAll b kernel lambdaKernel calls).exprs.declared ↔
      ∃ r, Mentioned b kernel lambdaKernel calls r ∧ r.Needs s := by
  induction calls using List.reverseRecOn with
  | nil =>
      refine ⟨fun hs => (nomatch hs), ?_⟩
      rintro ⟨r, ⟨before, call, after, hcalls, _⟩, _⟩
      simp at hcalls
  | append_singleton calls call ih =>
      have htracks := tracks_runAll b kernel lambdaKernel calls
      have hlisted := (tracks_runAll b kernel lambdaKernel (calls ++ [call])).listed
      simp only [mentioned_concat_iff]
      rw [runAll_concat] at hlisted ⊢
      by_cases hcall : call = clear
      · subst hcall
        have hdeclared : (clear.run (runAll b kernel lambdaKernel calls)).exprs.declared = [] := rfl
        simp [hdeclared, mentioned]
      · obtain ⟨new, heq, hneeds, hmentioned⟩ := declared_run htracks hcall
        constructor
        · intro hs
          rw [heq] at hs
          rcases List.mem_append.1 hs with hs | hs
          · obtain ⟨r, hr, hneed⟩ := hneeds s hs
            exact ⟨r, Or.inl hr, hneed⟩
          · obtain ⟨r, hr, hneed⟩ := ih.1 hs
            exact ⟨r, Or.inr ⟨hcall, hr⟩, hneed⟩
        · rintro ⟨r, hr | ⟨_, hr⟩, hneed⟩
          · exact hlisted.needs (hmentioned r hr) hneed
          · rw [heq]
            exact List.mem_append_right _ (ih.2 ⟨r, hr, hneed⟩)

/-- Until the next clearing, the declarations only grow at their end. -/
theorem declarations_prefix {more : List CacheCall} (hmore : clear ∉ more)
    (calls : List CacheCall) :
    (runAll b kernel lambdaKernel calls).exprs.declarations <+:
      (runAll b kernel lambdaKernel (calls ++ more)).exprs.declarations := by
  induction more using List.reverseRecOn with
  | nil => rw [List.append_nil]
  | append_singleton more call ih =>
      have hcall : call ≠ clear := by
        rintro rfl
        exact hmore (List.mem_append_right _ (List.mem_singleton_self _))
      refine (ih fun hmem => hmore (List.mem_append_left _ hmem)).trans ?_
      obtain ⟨new, heq, _⟩ :=
        declared_run (tracks_runAll b kernel lambdaKernel (calls ++ more)) hcall
      rw [← List.append_assoc, runAll_concat, ExprCache.declarations, ExprCache.declarations, heq]
      simp

/-- After any calls on any expressions: no name is declared twice; a symbol is declared exactly if
its name and target are listed; the listed symbols are symbols of the cache, each behind those it
depends on, which are the symbols of the operands of an expression that it stands for; they are what
the texts since the last clearing name, and what that needs; and until the next clearing the list
only grows at its end. -/
theorem declarations_history (calls : List CacheCall) :
    let cache := (runAll b kernel lambdaKernel calls).exprs
    (cache.declarations.map (·.name)).Nodup ∧
    (∀ key s, cache.symbol? key = some s →
      (cache.isDeclared key = true ↔ s.declaration ∈ cache.declarations)) ∧
    cache.declarations = cache.declared.reverse.map Symbol.declaration ∧
    (∀ front s rest, cache.declared.reverse = front ++ s :: rest →
      cache.symbol? s.target = some s ∧ (∀ d ∈ s.deps, d ∈ front) ∧
        ∃ e, cache.lookup? e = some s ∧
          ∀ r, r ∈ s.deps ↔ ∃ d ∈ e.children, cache.lookup? d = some r) ∧
    (∀ s, s ∈ cache.declared ↔ ∃ r, Mentioned b kernel lambdaKernel calls r ∧ r.Needs s) ∧
    ∀ more, clear ∉ more → cache.declarations <+:
      (runAll b kernel lambdaKernel (calls ++ more)).exprs.declarations := by
  intro cache
  have htracks := tracks_runAll b kernel lambdaKernel calls
  have hgrounded := grounded_runAll b kernel lambdaKernel calls
  refine ⟨htracks.listed.names_nodup htracks.valid,
    fun key s hs => htracks.listed.isDeclared_iff_mem htracks.valid hs, rfl, ?_,
    mem_declared_iff b kernel lambdaKernel calls,
    fun more hmore => declarations_prefix b kernel lambdaKernel hmore calls⟩
  intro front s rest hsplit
  have hmem : s ∈ cache.declared := by
    rw [← List.mem_reverse, hsplit]
    exact List.mem_append_right _ List.mem_cons_self
  have hknown := htracks.listed.known hmem
  exact ⟨hknown, fun d hd => htracks.listed.afterDeps.mem_front hsplit hd, hgrounded s hknown⟩

end

/-- The square of a sum declares the sum. The negation of the square then adds the square, whose
name is in the text, behind the sum that it depends on. -/
theorem declarations_history_square :
    let sum : Expr := .sum [.var "x", .lit (-1)]
    let square : Expr := .product [sum, sum]
    let calls := [CacheCall.parse (.neg sum), .clear, .emit square]
    let cache := (runAll .cpp "cse" "lambda" calls).exprs
    clear ∉ [CacheCall.emit (.neg square)] ∧
      cache.declarations = [⟨"cse_1_2", "x - 1"⟩] ∧
      (∃ s ∈ cache.declared, ∃ r, Mentioned .cpp "cse" "lambda" calls r ∧ r.Needs s) ∧
      cache.declarations <+:
        (runAll .cpp "cse" "lambda" (calls ++ [.emit (.neg square)])).exprs.declarations := by
  intro sum square calls cache
  have hmore : clear ∉ [CacheCall.emit (.neg square)] := by simp
  have hdeclarations : cache.declarations = [⟨"cse_1_2", "x - 1"⟩] := by decide +kernel
  obtain ⟨_, _, hlist, _, hmentioned, hgrows⟩ := declarations_history .cpp "cse" "lambda" calls
  obtain ⟨s, hs, _⟩ : ∃ s ∈ cache.declared.reverse, s.declaration = ⟨"cse_1_2", "x - 1"⟩ := by
    rw [← List.mem_map, ← hlist]
    exact hdeclarations ▸ List.mem_singleton_self _
  have hs := List.mem_reverse.1 hs
  exact ⟨hmore, hdeclarations, ⟨s, hs, (hmentioned s).1 hs⟩, hgrows _ hmore⟩

end CacheCall

end TensorTemplate
