import TensorTemplate.Proofs.PlainLine
import TensorTemplate.Proofs.ExprCache.Parsing
import TensorTemplate.Stack

/-!
Texts without dollar signs and newlines.

Such a text is one line, and nothing in it is taken for a call. Expressions whose
names are of this kind are printed to texts of this kind, and so are function
values; a declaration of such a text is one line, whatever pattern it is written
by.
-/

namespace TensorTemplate

namespace Text

/-- The text has no dollar sign and no newline. -/
def Clean (s : String) : Prop := '$' ∉ s.toList ∧ '\n' ∉ s.toList

instance (s : String) : Decidable (Clean s) :=
  inferInstanceAs (Decidable ('$' ∉ s.toList ∧ '\n' ∉ s.toList))

theorem clean_empty : Clean "" := by decide

@[simp]
theorem clean_append {s t : String} : Clean (s ++ t) ↔ Clean s ∧ Clean t := by
  simp only [Clean, String.toList_append, List.mem_append, not_or]
  constructor
  · rintro ⟨⟨hs, ht⟩, hs', ht'⟩
    exact ⟨⟨hs, hs'⟩, ht, ht'⟩
  · rintro ⟨⟨hs, hs'⟩, ht, ht'⟩
    exact ⟨⟨hs, ht⟩, hs', ht'⟩

theorem Clean.of_subset {s t : String} (ht : Clean t) (h : s.toList ⊆ t.toList) : Clean s :=
  ⟨fun hmem => ht.1 (h hmem), fun hmem => ht.2 (h hmem)⟩

theorem clean_join {ts : List String} (h : ∀ t ∈ ts, Clean t) : Clean (String.join ts) := by
  induction ts with
  | nil => decide
  | cons t ts ih =>
      rw [String.join_cons, clean_append]
      exact ⟨h t List.mem_cons_self, ih fun u hu => h u (List.mem_cons_of_mem _ hu)⟩

theorem clean_intercalate {sep : String} (hsep : Clean sep) {ts : List String}
    (h : ∀ t ∈ ts, Clean t) : Clean (sep.intercalate ts) := by
  induction ts with
  | nil => exact clean_empty
  | cons t ts ih =>
      have ht := h t List.mem_cons_self
      have hts := ih fun u hu => h u (List.mem_cons_of_mem _ hu)
      cases ts with
      | nil => simpa using ht
      | cons u us =>
          rw [String.intercalate_cons_cons, clean_append, clean_append]
          exact ⟨⟨ht, hsep⟩, hts⟩

theorem clean_of_isIdentChar {s : String} (h : ∀ c ∈ s.toList, isIdentChar c = true) : Clean s :=
  ⟨fun hmem => absurd (h _ hmem) (by decide), fun hmem => absurd (h _ hmem) (by decide)⟩

theorem clean_of_isIdentifier {s : String} (h : isIdentifier s = true) : Clean s :=
  clean_of_isIdentChar fun _ hc => isIdentChar_of_mem_identifier h hc

theorem clean_toString_nat (n : Nat) : Clean (toString n) :=
  clean_of_isIdentChar fun _ hc => isIdentChar_of_isDigit (isDigit_of_mem_repr hc)

theorem clean_toString_int (n : Int) : Clean (toString n) := by
  by_cases hn : n < 0
  · rw [Operand.toString_of_neg hn, clean_append]
    exact ⟨by decide, clean_toString_nat n.natAbs⟩
  · rw [Operand.toString_of_nonneg hn]
    exact clean_toString_nat n.natAbs

end Text

open Text

/-! ### Expressions -/

/-- Every variable and function name in the expression is clean. -/
inductive Expr.Clean : Expr → Prop where
  | lit (n : Int) : Clean (.lit n)
  | var {x : String} (hx : Text.Clean x) : Clean (.var x)
  | node {op : Op} {cs : List Expr} (hname : ∀ f, op = .call f → Text.Clean f)
      (hcs : ∀ c ∈ cs, Clean c) : Clean (.node op cs)

theorem Expr.Clean.of_mem_preorder {d e : Expr} (he : e.Clean) (hd : d ∈ e.preorder) : d.Clean := by
  induction he with
  | lit n =>
      rw [List.mem_singleton.1 hd]
      exact .lit n
  | var hx =>
      rw [List.mem_singleton.1 hd]
      exact .var hx
  | node hname hcs ih =>
      rw [Expr.preorder, List.mem_cons, Expr.mem_preorderList] at hd
      rcases hd with rfl | ⟨c, hc, hd⟩
      · exact .node hname hcs
      · exact ih c hc hd

namespace Printed

theorem clean_wrapped {p : Printed} (hp : Text.Clean p.text) : Text.Clean p.wrapped := by
  simp only [wrapped, clean_append]
  exact ⟨⟨by decide, hp⟩, by decide⟩

theorem clean_atLeast {p : Printed} (hp : Text.Clean p.text) (q : Precedence) :
    Text.Clean (p.atLeast q) := by
  unfold atLeast
  split
  · exact clean_wrapped hp
  · exact hp

theorem clean_laterTerm {p : Printed} (hp : Text.Clean p.text) : Text.Clean p.laterTerm := by
  have hterm := clean_atLeast hp .sum
  unfold laterTerm
  split
  · rename_i rest heq
    rw [clean_append]
    refine ⟨by decide, hterm.of_subset ?_⟩
    rw [heq, String.toList_ofList]
    exact List.subset_cons_self _ _
  · rw [clean_append]
    exact ⟨by decide, hterm⟩

theorem clean_sumText {ps : List Printed} (hps : ∀ p ∈ ps, Text.Clean p.text) :
    Text.Clean (sumText ps) := by
  cases ps with
  | nil => decide
  | cons p ps =>
      rw [sumText, clean_append]
      refine ⟨clean_atLeast (hps p List.mem_cons_self) _, clean_join ?_⟩
      intro t ht
      obtain ⟨q, hq, rfl⟩ := List.mem_map.1 ht
      exact clean_laterTerm (hps q (List.mem_cons_of_mem _ hq))

theorem clean_factor {p : Printed} (hp : Text.Clean p.text) : Text.Clean p.factor := by
  unfold factor
  split
  · exact clean_wrapped hp
  · exact clean_atLeast hp _

theorem clean_firstAtLeast {ps : List Printed} (hps : ∀ p ∈ ps, Text.Clean p.text)
    (q : Precedence) : Text.Clean (firstAtLeast q ps) := by
  cases ps with
  | nil => exact clean_empty
  | cons p ps => exact clean_atLeast (hps p List.mem_cons_self) q

end Printed

namespace Backend

variable {ps : List Printed} (hps : ∀ p ∈ ps, Text.Clean p.text)

include hps

theorem clean_texts : Text.Clean (", ".intercalate (ps.map (·.text))) := by
  apply clean_intercalate (by decide)
  intro t ht
  obtain ⟨p, hp, rfl⟩ := List.mem_map.1 ht
  exact hps p hp

theorem clean_power (b : Backend) : Text.Clean (b.power ps).text := by
  cases b with
  | cpp =>
      simp only [power, Printed.atom, clean_append]
      exact ⟨⟨by decide, clean_texts hps⟩, by decide⟩
  | python =>
      simp only [power, clean_append]
      refine ⟨⟨Printed.clean_firstAtLeast hps _, by decide⟩, Printed.clean_firstAtLeast ?_ _⟩
      exact fun p hp => hps p (List.mem_of_mem_drop hp)

/-- A compound expression of clean parts is clean. -/
theorem clean_node (b : Backend) {op : Op} (hop : ∀ f, op = .call f → Text.Clean f) :
    Text.Clean (b.node op ps).text := by
  cases op with
  | add => exact Printed.clean_sumText hps
  | mul =>
      apply clean_intercalate (by decide)
      intro t ht
      obtain ⟨p, hp, rfl⟩ := List.mem_map.1 ht
      exact Printed.clean_factor (hps p hp)
  | neg =>
      simp only [node, clean_append]
      exact ⟨by decide, Printed.clean_firstAtLeast hps _⟩
  | pow => exact clean_power hps b
  | call f =>
      simp only [node, Printed.atom, clean_append]
      exact ⟨⟨⟨hop f rfl, by decide⟩, clean_texts hps⟩, by decide⟩

omit hps

mutual

/-- A clean expression with clean names for some of its operands is printed to a clean text. -/
theorem clean_printedM (b : Backend) {subst : Expr → Option String}
    (hsubst : ∀ c name, subst c = some name → Text.Clean name) :
    (e : Expr) → e.Clean → Text.Clean (Id.run (b.printedM (fun c => pure (subst c)) e)).text
  | .lit n, _ => by
      simp only [printedM, literal]
      split <;> exact clean_toString_int n
  | .var x, .var hx => hx
  | .node op cs, .node hname hcs =>
      clean_node (clean_operandsM b hsubst cs hcs) b hname

theorem clean_operandsM (b : Backend) {subst : Expr → Option String}
    (hsubst : ∀ c name, subst c = some name → Text.Clean name) :
    (es : List Expr) → (∀ e ∈ es, e.Clean) →
      ∀ p ∈ Id.run (b.operandsM (fun c => pure (subst c)) es), Text.Clean p.text
  | [], _ => by simp [operandsM]
  | e :: es, hes => by
      have hrest := clean_operandsM b hsubst es fun d hd => hes d (List.mem_cons_of_mem _ hd)
      have hfirst := clean_printedM b hsubst e (hes e List.mem_cons_self)
      intro p hp
      cases hname : subst e with
      | some name =>
          have hrun : Id.run (b.operandsM (fun c => pure (subst c)) (e :: es)) =
              .atom name :: Id.run (b.operandsM (fun c => pure (subst c)) es) := by
            simp [operandsM, hname]
          rcases List.mem_cons.1 (hrun ▸ hp) with rfl | hp
          · exact hsubst e name hname
          · exact hrest p hp
      | none =>
          have hrun : Id.run (b.operandsM (fun c => pure (subst c)) (e :: es)) =
              Id.run (b.printedM (fun c => pure (subst c)) e) ::
                Id.run (b.operandsM (fun c => pure (subst c)) es) := by
            simp [operandsM, hname]
          rcases List.mem_cons.1 (hrun ▸ hp) with rfl | hp
          · exact hfirst
          · exact hrest p hp

end

theorem clean_print (b : Backend) {e : Expr} (he : e.Clean) : Text.Clean (b.print e) :=
  clean_printedM b (by simp) e he

end Backend

/-! ### Function values -/

/-- The parameters have labels of index classes, and what is computed is clean. -/
structure Lambda.Clean (l : Lambda) : Prop where
  tags : ∀ t ∈ l.tags, (IndexClass.ofLabel? t.label).isSome
  body : match l.body with
    | .value e => e.Clean
    | .cases cs => ∀ c ∈ cs.get, c.2.Clean

theorem clean_singleton_of_label {label : Char} (h : (IndexClass.ofLabel? label).isSome) :
    Text.Clean (String.singleton label) := by
  have hne : ∀ c : Char, IndexClass.ofLabel? c = none → label ≠ c := by
    rintro c hc rfl
    rw [hc] at h
    cases h
  constructor
  · simpa using (hne '$' (by decide)).symm
  · simpa using (hne '\n' (by decide)).symm

namespace Backend

section

variable {params : List String} (hparams : ∀ x ∈ params, Text.Clean x)

include hparams

theorem clean_parameters : Text.Clean (parameters params) := by
  apply clean_intercalate (by decide)
  intro t ht
  obtain ⟨x, hx, rfl⟩ := List.mem_map.1 ht
  exact clean_append.2 ⟨by decide, hparams x hx⟩

theorem clean_atomicLambda (b : Backend) {value : String} (hvalue : Text.Clean value) :
    Text.Clean (b.atomicLambda params value) := by
  have hlist : Text.Clean (", ".intercalate params) := clean_intercalate (by decide) hparams
  cases b with
  | cpp =>
      simp only [atomicLambda, clean_append]
      exact ⟨⟨⟨⟨by decide, clean_parameters hparams⟩, by decide⟩, hvalue⟩, by decide⟩
  | python =>
      cases params with
      | nil => exact clean_append.2 ⟨by decide, hvalue⟩
      | cons x xs =>
          simp only [atomicLambda, clean_append]
          exact ⟨⟨⟨by decide, hlist⟩, by decide⟩, hvalue⟩

theorem clean_testedCase {c : PrintedCase} (hc : Text.Clean c.value) :
    Text.Clean (testedCase params c) := by
  have htests : Text.Clean (" && ".intercalate
      ((params.zip c.values).map fun pv => pv.1 ++ " == " ++ toString pv.2)) := by
    apply clean_intercalate (by decide)
    intro t ht
    obtain ⟨pv, hpv, rfl⟩ := List.mem_map.1 ht
    simp only [clean_append]
    exact ⟨⟨hparams _ (List.of_mem_zip hpv).1, by decide⟩, clean_toString_nat _⟩
  simp only [testedCase, clean_append]
  exact ⟨⟨⟨⟨by decide, htests⟩, by decide⟩, hc⟩, by decide⟩

omit hparams in
theorem clean_tableCase {c : PrintedCase} (hc : Text.Clean c.value) : Text.Clean (tableCase c) := by
  have hvalues : Text.Clean (", ".intercalate (c.values.map toString)) := by
    apply clean_intercalate (by decide)
    intro t ht
    obtain ⟨v, _, rfl⟩ := List.mem_map.1 ht
    exact clean_toString_nat v
  simp only [tableCase, clean_append]
  exact ⟨⟨⟨by decide, hvalues⟩, by decide⟩, hc⟩

theorem clean_mapLambda (b : Backend) {cases : List PrintedCase}
    (hcases : ∀ c ∈ cases, Text.Clean c.value) : Text.Clean (b.mapLambda params cases) := by
  have hlist : Text.Clean (", ".intercalate params) := clean_intercalate (by decide) hparams
  cases b with
  | cpp =>
      have htested : Text.Clean (String.join (cases.map (testedCase params))) := by
        apply clean_join
        intro t ht
        obtain ⟨c, hc, rfl⟩ := List.mem_map.1 ht
        exact clean_testedCase hparams (hcases c hc)
      simp only [mapLambda, clean_append]
      exact ⟨⟨⟨⟨by decide, clean_parameters hparams⟩, by decide⟩, htested⟩, by decide⟩
  | python =>
      have htable : Text.Clean (", ".intercalate (cases.map tableCase)) := by
        apply clean_intercalate (by decide)
        intro t ht
        obtain ⟨c, hc, rfl⟩ := List.mem_map.1 ht
        exact clean_tableCase (hcases c hc)
      simp only [mapLambda, clean_append]
      exact ⟨⟨⟨⟨⟨⟨by decide, hlist⟩, by decide⟩, htable⟩, by decide⟩, hlist⟩, by decide⟩

end

end Backend

theorem Lambda.Clean.render {l : Lambda} (hl : l.Clean) (b : Backend) :
    Text.Clean (l.render b) := by
  have hparams : ∀ x ∈ l.params, Text.Clean x := by
    intro x hx
    obtain ⟨t, ht, rfl⟩ := List.mem_map.1 hx
    exact clean_singleton_of_label (hl.tags t ht)
  have hbody := hl.body
  unfold Lambda.render
  split
  · rename_i e heq
    rw [heq] at hbody
    exact Backend.clean_atomicLambda hparams b (b.clean_print hbody)
  · rename_i cs heq
    rw [heq] at hbody
    apply Backend.clean_mapLambda hparams
    intro c hc
    obtain ⟨entry, hentry, rfl⟩ := List.mem_map.1 hc
    exact b.clean_print (hbody entry hentry)

/-! ### Declarations -/

namespace Declaration

theorem mem_of_mem_fill {name target cs : List Char} {c : Char} (h : c ∈ fill name target cs) :
    c ∈ name ∨ c ∈ target ∨ c ∈ cs := by
  fun_induction fill name target cs with
  | case1 cs ih => grind
  | case2 cs ih => grind
  | case3 d cs hname htarget ih => grind
  | case4 => cases h

/-- A pattern with the mark for the name shows the name. -/
theorem mem_fill_of_occursIn {name target cs : List Char} (h : occursIn ['$', '1'] cs = true)
    {c : Char} (hc : c ∈ name) : c ∈ fill name target cs := by
  fun_induction fill name target cs with
  | case1 cs ih => exact List.mem_append_left _ hc
  | case2 cs ih =>
      have hrest : occursIn ['$', '1'] cs = true := by simpa [occursIn] using h
      exact List.mem_append_right _ (ih hrest)
  | case3 d cs hname htarget ih =>
      rw [occursIn, Bool.or_eq_true] at h
      rcases h with h | h
      · obtain ⟨rest, hrest⟩ := List.isPrefixOf_iff_prefix.1 h
        simp only [List.cons_append, List.nil_append, List.cons.injEq] at hrest
        exact absurd hrest.2.symm (hname rest hrest.1.symm)
      · exact List.mem_cons_of_mem _ (ih h)
  | case4 => cases h

theorem instantiate_eq {pattern : String} (hcheck : check pattern = .ok ()) (d : Declaration) :
    (d.instantiate pattern).toList = fill d.name.toList d.target.toList pattern.toList := by
  simp [instantiate, hcheck]

theorem check_eq_ok {pattern : String} (hname : Text.contains pattern "$1" = true)
    (htarget : Text.contains pattern "$2" = true) : check pattern = .ok () := by
  simp [check, hname, htarget]

theorem occursIn_of_check {pattern : String} (h : check pattern = .ok ()) :
    occursIn ['$', '1'] pattern.toList = true := by
  unfold check at h
  split at h
  · cases h
  · rename_i hname
    simpa [Text.contains] using hname

/-- Name and target are clean, and the name shows. -/
structure Clean (d : Declaration) : Prop where
  name : Text.Clean d.name
  visible : '_' ∈ d.name.toList
  target : Text.Clean d.target

theorem Clean.newline_notMem_instantiate {d : Declaration} (hd : d.Clean) {pattern : String}
    (hpattern : '\n' ∉ pattern.toList) : '\n' ∉ (d.instantiate pattern).toList := by
  cases hcheck : check pattern with
  | error e => simpa [instantiate, hcheck] using hpattern
  | ok _ =>
      rw [instantiate_eq hcheck]
      intro hmem
      rcases mem_of_mem_fill hmem with hmem | hmem | hmem
      · exact hd.name.2 hmem
      · exact hd.target.2 hmem
      · exact hpattern hmem

/-- A clean declaration is one line, if it makes no call with the pattern. -/
theorem Clean.plainLine_instantiate {d : Declaration} (hd : d.Clean) {pattern : String}
    (hcheck : check pattern = .ok ()) (hpattern : '\n' ∉ pattern.toList)
    (hcalls : Segment.NoCalls (d.instantiate pattern)) :
    Segment.PlainLine (d.instantiate pattern) where
  noCalls := hcalls
  newline_notMem := hd.newline_notMem_instantiate hpattern
  visible := by
    rw [instantiate_eq hcheck]
    exact mem_fill_of_occursIn (occursIn_of_check hcheck) hd.visible

theorem check_defaultDeclaration (b : Backend) : check b.defaultDeclaration = .ok () := by
  cases b <;> rfl

/-- With the pattern that is used without another, a clean declaration makes no call. -/
theorem Clean.noCalls_instantiate {d : Declaration} (hd : d.Clean) (b : Backend) :
    Segment.NoCalls (d.instantiate b.defaultDeclaration) := by
  apply Segment.noCalls_of_notMem
  rw [instantiate_eq (check_defaultDeclaration b)]
  cases b with
  | cpp => simp [Backend.defaultDeclaration, fill, hd.name.1, hd.target.1]
  | python => simp [Backend.defaultDeclaration, fill, hd.name.1, hd.target.1]

end Declaration

namespace LambdaRecord

/-- Name and function value are clean, and the name shows. -/
structure Clean (r : LambdaRecord) : Prop where
  name : Text.Clean r.name
  visible : '_' ∈ r.name.toList
  lambda : r.lambda.Clean

/-- The declaration of a clean function value is one line. -/
theorem Clean.plainLine_declare {r : LambdaRecord} (hr : r.Clean) (b : Backend) :
    Segment.PlainLine (r.declare b) := by
  have hl := hr.lambda.render b
  have hclean : Text.Clean (r.declare b) := by
    cases b <;> simp only [declare, declaration, Backend.lambdaFragments, clean_append]
    · exact ⟨⟨⟨⟨by decide, hr.name⟩, by decide⟩, hl⟩, by decide⟩
    · exact ⟨⟨⟨⟨by decide, hr.name⟩, by decide⟩, hl⟩, by decide⟩
  refine ⟨Segment.noCalls_of_notMem hclean.1, hclean.2, ?_⟩
  simp [declare, declaration, hr.visible]

end LambdaRecord

namespace Held

/-- What is held, and then more. -/
def add (h k : Held) : Held := ⟨h.lambdas ++ k.lambdas, h.declarations ++ k.declarations⟩

/-- The names of what is held. -/
def names (h : Held) : List String := h.lambdas.map (·.name) ++ h.declarations.map (·.name)

theorem names_add_perm (h k : Held) : (h.add k).names.Perm (h.names ++ k.names) := by
  simp only [names, add, List.map_append, List.append_assoc]
  apply List.Perm.append_left
  rw [← List.append_assoc, ← List.append_assoc]
  exact List.perm_append_comm.append_right _

/-- All that is held is clean. -/
structure Clean (h : Held) : Prop where
  lambdas : ∀ r ∈ h.lambdas, r.Clean
  declarations : ∀ d ∈ h.declarations, d.Clean

theorem Clean.add {h k : Held} (hh : h.Clean) (hk : k.Clean) : (h.add k).Clean where
  lambdas := by
    intro r hr
    rcases List.mem_append.1 hr with hr | hr
    · exact hh.lambdas r hr
    · exact hk.lambdas r hr
  declarations := by
    intro d hd
    rcases List.mem_append.1 hd with hd | hd
    · exact hh.declarations d hd
    · exact hk.declarations d hd

theorem clean_empty : Clean {} := ⟨by simp, by simp⟩

end Held

end TensorTemplate
