import TensorTemplate.Proofs.Semantics

/-!
Printed expressions have the values of the expressions.

A printed text is read at the binding strength that it carries, and it can be put
where the printer puts it: behind other terms of a sum, where a sign at its head
becomes the operator, and behind other factors of a product. Operands that can be put
in both places make a compound text that can, for each operator. A sum behind other
terms and a product behind other factors are read from left to right all the same, so
that the text groups its operands in another way than the expression, with the same
value.
-/

namespace TensorTemplate

open Grammar Operand

/-- The numbers of operands with which the operator is printed as an operator. -/
def Op.Prints : Op → Nat → Prop
  | .add, n => 1 ≤ n
  | .mul, n => 1 ≤ n
  | .neg, n => n = 1
  | .pow, n => n = 2
  | .call _, _ => True

instance (op : Op) (n : Nat) : Decidable (op.Prints n) :=
  match op with
  | .add => inferInstanceAs (Decidable (1 ≤ n))
  | .mul => inferInstanceAs (Decidable (1 ≤ n))
  | .neg => inferInstanceAs (Decidable (n = 1))
  | .pow => inferInstanceAs (Decidable (n = 2))
  | .call _ => inferInstanceAs (Decidable True)

/-- Every operator has operands that it is printed with, and all names are identifiers. -/
inductive Expr.Printable : Expr → Prop where
  | lit (n : Int) : Printable (.lit n)
  | var {x : String} (hx : isIdentifier x = true) : Printable (.var x)
  | node {op : Op} {cs : List Expr} (harity : op.Prints cs.length)
      (hname : ∀ f, op = .call f → isIdentifier f = true) (hcs : ∀ c ∈ cs, Printable c) :
      Printable (.node op cs)

/-- Every variable by its name. -/
def Interpretation.variables (I : Interpretation) : Environment := fun x => some (I.var x)

/-! ### Texts and values -/

/-- At this binding strength, the text is read as a term with this value. -/
def ReadsTo (b : Backend) (q : Precedence) (text : String) (v : Interpretation → Int) : Prop :=
  ∃ t, Reads b q (tokens text) t ∧ ∀ I, t.eval I I.variables = some (v I)

/-- What binds strongly can stand where less is asked for. -/
theorem Grammar.Reads.weaken {b : Backend} {p q : Precedence} {ts : List String} {t : Term}
    (h : Reads b p ts t) (hq : q.rank ≤ p.rank) : Reads b q ts t := by
  have hpower : ∀ {t}, Reads b .power ts t → q.rank ≤ Precedence.power.rank → Reads b q ts t := by
    intro t h hq
    cases q with
    | sum => exact .ofProduct (.ofUnary (.ofPower h))
    | product => exact .ofUnary (.ofPower h)
    | unary => exact .ofPower h
    | power => exact h
    | atom => exact absurd hq (by decide)
  cases p with
  | sum =>
      cases q with
      | sum => exact h
      | _ => exact absurd hq (by decide)
  | product =>
      cases q with
      | sum => exact .ofProduct h
      | product => exact h
      | _ => exact absurd hq (by decide)
  | unary =>
      cases q with
      | sum => exact .ofProduct (.ofUnary h)
      | product => exact .ofUnary h
      | unary => exact h
      | _ => exact absurd hq (by decide)
  | power => exact hpower h hq
  | atom =>
      cases q with
      | atom => exact h
      | _ => exact hpower (.ofAtom h) (by decide)

namespace ReadsTo

variable {b : Backend} {s w : String} {u v : Interpretation → Int}

theorem weaken {p q : Precedence} (h : ReadsTo b p w v) (hq : q.rank ≤ p.rank) :
    ReadsTo b q w v := by
  obtain ⟨t, ht, hv⟩ := h
  exact ⟨t, ht.weaken hq, hv⟩

theorem wrapped (h : ReadsTo b .sum w v) : ReadsTo b .atom ("(" ++ w ++ ")") v := by
  obtain ⟨t, ht, hv⟩ := h
  refine ⟨t, ?_, hv⟩
  rw [tokens_wrapped]
  exact .group ht

theorem plus (hs : ReadsTo b .sum s u) (hw : ReadsTo b .product w v) :
    ReadsTo b .sum (s ++ (" + " ++ w)) fun I => u I + v I := by
  obtain ⟨t, ht, hu⟩ := hs
  obtain ⟨t', ht', hv⟩ := hw
  refine ⟨.add t t', ?_, fun I => by simp [Term.eval, hu, hv]⟩
  rw [tokens_append (apart_right (by simp; decide) _), tokens_append (apart_left (by decide) _)]
  exact .add ht ht'

theorem minus (hs : ReadsTo b .sum s u) (hw : ReadsTo b .product w v) :
    ReadsTo b .sum (s ++ (" - " ++ w)) fun I => u I - v I := by
  obtain ⟨t, ht, hu⟩ := hs
  obtain ⟨t', ht', hv⟩ := hw
  refine ⟨.sub t t', ?_, fun I => by simp [Term.eval, hu, hv]⟩
  rw [tokens_append (apart_right (by simp; decide) _), tokens_append (apart_left (by decide) _)]
  exact .sub ht ht'

theorem times (hs : ReadsTo b .product s u) (hw : ReadsTo b .unary w v) (hfirm : Firm s)
    (hfirm' : Firm w) : ReadsTo b .product (s ++ "*" ++ w) fun I => u I * v I := by
  obtain ⟨t, ht, hu⟩ := hs
  obtain ⟨t', ht', hv⟩ := hw
  refine ⟨.mul t t', ?_, fun I => by simp [Term.eval, hu, hv]⟩
  rw [tokens_append (hfirm'.apart_mark_left (by simp [isMark])),
    tokens_append (hfirm.apart_mark_right (by decide)), List.append_assoc]
  exact .mul ht ht'

theorem negated (hw : ReadsTo b .unary w v) (hfirm : Firm w) :
    ReadsTo b .unary ("-" ++ w) fun I => -v I := by
  obtain ⟨t, ht, hv⟩ := hw
  refine ⟨.neg t, ?_, fun I => by simp [Term.eval, hv]⟩
  rw [tokens_append (hfirm.apart_mark_left (by decide))]
  exact .neg ht

end ReadsTo

namespace Printed

/-! ### Operands -/

theorem firm_wrapped (p : Printed) : Firm p.wrapped :=
  Firm.append ⟨by decide, by decide, by decide⟩ p.text ⟨by decide, by decide, by decide⟩

theorem factor_sum (s : String) : (Printed.mk s .sum).factor = (Printed.mk s .sum).wrapped := rfl

theorem factor_unary (s : String) :
    (Printed.mk s .unary).factor = (Printed.mk s .unary).wrapped := rfl

theorem factor_product (s : String) : (Printed.mk s .product).factor = s := rfl

theorem laterTerm_eq_minus {p : Printed} {w : String} (h : p.text = "-" ++ w) :
    p.laterTerm = " - " ++ w := by
  have hchars : (p.atLeast .sum).toList = '-' :: w.toList := by
    rw [atLeast_sum, h, String.toList_append]
    rfl
  rw [laterTerm, hchars]
  simp

theorem laterTerm_eq_plus {p : Printed} (h : p.text.toList.head? ≠ some '-') :
    p.laterTerm = " + " ++ p.text := by
  rw [laterTerm, atLeast_sum]
  split
  · rename_i rest heq
    rw [heq] at h
    exact absurd rfl h
  · rfl

theorem head?_ne_minus {s : String} (h : Firm s) : s.toList.head? ≠ some '-' := by
  intro hhead
  have hmark := h.2.1
  rw [hhead] at hmark
  exact absurd hmark (by decide)

/-- Only the head of a text decides between plus and minus. -/
theorem laterTerm_append {s w : String} (hs : s ≠ "") (p q : Precedence) :
    (Printed.mk (s ++ w) p).laterTerm = (Printed.mk s q).laterTerm ++ w := by
  cases hchars : s.toList with
  | nil => exact absurd (String.toList_eq_nil_iff.1 hchars) hs
  | cons c cs =>
      by_cases hc : c = '-'
      · have hsplit : s = "-" ++ String.ofList cs := by
          apply String.toList_injective
          simp [hchars, hc]
        have hhead : (Printed.mk s q).text = "-" ++ String.ofList cs := hsplit
        have hwhole : (Printed.mk (s ++ w) p).text = "-" ++ (String.ofList cs ++ w) := by
          rw [← String.append_assoc, ← hsplit]
        rw [laterTerm_eq_minus hhead, laterTerm_eq_minus hwhole, String.append_assoc]
      · rw [laterTerm_eq_plus (by simp [hchars, hc]), laterTerm_eq_plus (by simp [hchars, hc]),
          String.append_assoc]

/-- The printed operand has this value where it stands alone, behind other terms and behind other
factors. -/
structure Stands (b : Backend) (p : Printed) (v : Interpretation → Int) : Prop where
  reads : ReadsTo b p.precedence p.text v
  nonempty : p.text ≠ ""
  /-- Signs are at the head of sums and of texts with a sign only. -/
  firm : p.precedence ≠ .sum → p.precedence ≠ .unary → Firm p.text
  added : ∀ {s u}, ReadsTo b .sum s u → ReadsTo b .sum (s ++ p.laterTerm) fun I => u I + v I
  multiplied : ∀ {s u}, Firm s → ReadsTo b .product s u →
    ReadsTo b .product (s ++ "*" ++ p.factor) fun I => u I * v I

namespace Stands

variable {b : Backend} {p : Printed} {v : Interpretation → Int}

theorem atLeast (h : Stands b p v) (q : Precedence) : ReadsTo b q (p.atLeast q) v := by
  rw [Printed.atLeast]
  split
  · exact (h.reads.weaken (Nat.zero_le _)).wrapped.weaken (by cases q <;> decide)
  · rename_i hrank
    exact h.reads.weaken (Nat.le_of_not_lt hrank)

theorem firm_atLeast (h : Stands b p v) {q : Precedence} (hq : Precedence.unary.rank < q.rank) :
    Firm (p.atLeast q) := by
  rw [Printed.atLeast]
  split
  · exact p.firm_wrapped
  · rename_i hrank
    apply h.firm
    · rintro hp
      rw [hp] at hrank
      exact hrank (Nat.lt_of_le_of_lt (Nat.zero_le _) hq)
    · rintro hp
      rw [hp] at hrank
      exact hrank hq

/-- A factor is read at the strength of a product, and of a sign unless it is a product itself. -/
theorem factor (h : Stands b p v) : ReadsTo b .product p.factor v := by
  rw [Printed.factor]
  split
  · exact (h.reads.weaken (Nat.zero_le _)).wrapped.weaken (by decide)
  · exact h.atLeast .product

theorem firm_factor (h : Stands b p v) : Firm p.factor := by
  rw [Printed.factor, Printed.atLeast]
  split
  · exact p.firm_wrapped
  · split
    · exact p.firm_wrapped
    · rename_i hunary hrank
      refine h.firm ?_ hunary
      rintro hp
      rw [hp] at hrank
      exact hrank (by decide)

end Stands

variable {b : Backend} {v : Interpretation → Int}

/-- A text without a sign in front that binds more strongly than one with a sign. -/
theorem stands_firm {p : Printed} (hp : Precedence.unary.rank < p.precedence.rank)
    (hfirm : Firm p.text) (hreads : ReadsTo b p.precedence p.text v) : Stands b p v where
  reads := hreads
  nonempty := hfirm.1
  firm := fun _ _ => hfirm
  added := by
    intro s u hs
    rw [laterTerm_eq_plus (head?_ne_minus hfirm)]
    exact hs.plus (hreads.weaken (Nat.le_of_lt (Nat.lt_trans (by decide) hp)))
  multiplied := by
    intro s u hs hreads'
    have hfactor : p.factor = p.text := by
      have hunary : p.precedence ≠ .unary := by
        rintro heq
        rw [heq] at hp
        exact absurd hp (by decide)
      have hproduct : ¬p.precedence.rank < Precedence.product.rank :=
        Nat.not_lt.2 (Nat.le_of_lt (Nat.lt_trans (by decide) hp))
      rw [Printed.factor, if_neg hunary, Printed.atLeast, if_neg hproduct]
    rw [hfactor]
    exact hreads'.times (hreads.weaken (Nat.le_of_lt hp)) hs hfirm

/-- A factor in parentheses. -/
theorem multiplied_wrapped {p : Printed} (hp : p.factor = p.wrapped)
    (hreads : ReadsTo b .sum p.text v) {s : String} {u : Interpretation → Int} (hs : Firm s)
    (hreads' : ReadsTo b .product s u) :
    ReadsTo b .product (s ++ "*" ++ p.factor) fun I => u I * v I := by
  rw [hp]
  exact hreads'.times (hreads.wrapped.weaken (by decide)) hs p.firm_wrapped

/-- A text with a sign in front. -/
theorem stands_signed {w : String} (hfirm : Firm w) (hreads : ReadsTo b .power w v) :
    Stands b ⟨"-" ++ w, .unary⟩ fun I => -v I := by
  have hnegated : ReadsTo b .unary ("-" ++ w) fun I => -v I :=
    (hreads.weaken (by decide)).negated hfirm
  have hsum : ReadsTo b .sum ("-" ++ w) fun I => -v I := hnegated.weaken (by decide)
  refine ⟨hnegated, by simp, fun _ h => absurd rfl h, ?_,
    multiplied_wrapped (factor_unary _) hsum⟩
  intro s u hs
  rw [laterTerm_eq_minus rfl]
  simpa only [Int.sub_eq_add_neg] using hs.minus (hreads.weaken (by decide))

theorem stands_literal (n : Int) : Stands b (Backend.literal n) fun _ => n := by
  have hnum : ReadsTo b .atom n.natAbs.repr fun _ => n.natAbs :=
    ⟨_, reads_repr n.natAbs, fun I => by rw [Term.eval]⟩
  have hfirm := firm_word (isWord_repr n.natAbs)
  rw [Backend.literal]
  split
  · rename_i hn
    have hsigned := stands_signed hfirm (hnum.weaken (q := .power) (by decide))
    have hvalue : n = -(n.natAbs : Int) := by omega
    rw [toString_of_neg hn]
    rwa [← hvalue] at hsigned
  · rename_i hn
    have hvalue : (n.natAbs : Int) = n := by omega
    rw [hvalue] at hnum
    rw [toString_of_nonneg hn]
    exact stands_firm (by decide : Precedence.unary.rank < Precedence.atom.rank) hfirm hnum

/-! ### Compound texts -/

section Compound

variable {p : Printed} {ps : List Printed} {vs : List (Interpretation → Int)}

theorem added_all (h : List.Forall₂ (Stands b) ps vs) {s : String} {u : Interpretation → Int}
    (hs : ReadsTo b .sum s u) :
    ReadsTo b .sum (s ++ String.join (ps.map laterTerm))
      fun I => u I + (vs.map (· I)).foldr (· + ·) 0 := by
  induction h generalizing s u with
  | nil => simpa using hs
  | cons hp _ ih => simpa [String.append_assoc, Int.add_assoc] using ih (hp.added hs)

theorem stands_sum (hp : Stands b p v) (h : List.Forall₂ (Stands b) ps vs) :
    Stands b ⟨sumText (p :: ps), .sum⟩ fun I => v I + (vs.map (· I)).foldr (· + ·) 0 := by
  have hreads : ReadsTo b .sum (sumText (p :: ps))
      fun I => v I + (vs.map (· I)).foldr (· + ·) 0 := by
    rw [sumText]
    exact added_all h (hp.atLeast .sum)
  have hlater : (Printed.mk (sumText (p :: ps)) .sum).laterTerm =
      p.laterTerm ++ String.join (ps.map laterTerm) := by
    rw [sumText, atLeast_sum]
    exact laterTerm_append hp.nonempty .sum p.precedence
  refine ⟨hreads, ?_, fun hne => absurd rfl hne, ?_,
    multiplied_wrapped (factor_sum _) hreads⟩
  · simp [sumText, atLeast_sum, hp.nonempty]
  · intro s u hs
    rw [hlater, ← String.append_assoc]
    simpa only [Int.add_assoc] using added_all h (hp.added hs)

theorem multiplied_all (h : List.Forall₂ (Stands b) ps vs) {s : String}
    {u : Interpretation → Int} (hfirm : Firm s) (hs : ReadsTo b .product s u) :
    Firm ("*".intercalate (s :: ps.map factor)) ∧
      ReadsTo b .product ("*".intercalate (s :: ps.map factor))
        fun I => u I * (vs.map (· I)).foldr (· * ·) 1 := by
  induction h generalizing s u with
  | nil => simpa using ⟨hfirm, hs⟩
  | cons hp _ ih =>
      have hstep := ih (hfirm.append "*" hp.firm_factor) (hp.multiplied hfirm hs)
      simpa [String.intercalate_cons_cons, String.intercalate_cons_append, String.append_assoc,
        Int.mul_assoc] using hstep

theorem stands_product (hp : Stands b p v) (h : List.Forall₂ (Stands b) ps vs) :
    Stands b ⟨"*".intercalate ((p :: ps).map factor), .product⟩
      fun I => v I * (vs.map (· I)).foldr (· * ·) 1 := by
  obtain ⟨hfirm, hreads⟩ := multiplied_all h hp.firm_factor hp.factor
  refine ⟨hreads, hfirm.1, fun _ _ => hfirm, ?_, ?_⟩
  · intro s u hs
    rw [laterTerm_eq_plus (head?_ne_minus hfirm)]
    exact hs.plus hreads
  · intro s u hs hreads'
    have hstep := (multiplied_all h (hs.append "*" hp.firm_factor) (hp.multiplied hs hreads')).2
    rw [factor_product]
    cases ps with
    | nil => simpa [Int.mul_assoc] using hstep
    | cons q qs =>
        simpa [String.intercalate_cons_cons, String.append_assoc, Int.mul_assoc] using hstep

/-- The arguments of a call, each read on its own. -/
theorem exists_parts (h : List.Forall₂ (Stands b) ps vs) :
    ∃ parts : List (List String × Term), parts.map (·.1) = ps.map (fun p => tokens p.text) ∧
      (∀ part ∈ parts, Reads b .sum part.1 part.2) ∧
      ∀ I, Term.evalList I I.variables (parts.map (·.2)) = some (vs.map (· I)) := by
  induction h with
  | nil => exact ⟨[], rfl, by simp, fun _ => rfl⟩
  | @cons p v ps vs hp _ ih =>
      obtain ⟨parts, htokens, hreads, hvalues⟩ := ih
      obtain ⟨t, ht, hv⟩ := hp.reads
      refine ⟨(tokens p.text, t) :: parts, by simp [htokens], ?_, ?_⟩
      · intro part hpart
        rcases List.mem_cons.1 hpart with rfl | hpart
        · exact ht.weaken (Nat.zero_le _)
        · exact hreads part hpart
      · intro I
        simp [Term.evalList, hv, hvalues]

theorem stands_call {f : String} (hf : isIdentifier f = true)
    (h : List.Forall₂ (Stands b) ps vs) :
    Stands b (.atom (f ++ "(" ++ ", ".intercalate (ps.map (·.text)) ++ ")"))
      fun I => I.call f (vs.map (· I)) := by
  have hword := isWord_of_isIdentifier hf
  obtain ⟨parts, htokens, hreads, hvalues⟩ := exists_parts h
  refine stands_firm (by decide : Precedence.unary.rank < Precedence.atom.rank) ?_
    ⟨.call f (parts.map (·.2)), ?_, fun I => by rw [Term.eval, hvalues, Option.map_some]⟩
  · have hfirm := (firm_word hword).append ("(" ++ ", ".intercalate (ps.map (·.text)))
      (t := ")") ⟨by decide, by decide, by decide⟩
    rwa [← String.append_assoc] at hfirm
  · have hcall := Reads.call hf hreads
    rw [htokens] at hcall
    show Reads b .atom (tokens (f ++ "(" ++ ", ".intercalate (ps.map (·.text)) ++ ")")) _
    rw [String.append_assoc, String.append_assoc, tokens_append (apart_right (by simp; decide) _),
      tokens_word hword.1 hword.2, ← String.append_assoc, tokens_wrapped, tokens_intercalate_comma,
      List.map_map]
    exact hcall

theorem stands_power {q : Printed} {w : Interpretation → Int} (hp : Stands b p v)
    (hq : Stands b q w) : Stands b (b.power [p, q]) fun I => I.pow (v I) (w I) := by
  cases b with
  | cpp =>
      obtain ⟨t, ht, hv⟩ := hp.reads
      obtain ⟨t', ht', hw⟩ := hq.reads
      have hcall : "std::pow(" ++ ", ".intercalate [p.text, q.text] ++ ")" =
          "std::pow" ++ ("(" ++ ", ".intercalate [p.text, q.text] ++ ")") := by
        simp [← String.append_assoc]
      refine stands_firm (by decide : Precedence.unary.rank < Precedence.atom.rank) ?_
        ⟨.pow t t', ?_, fun I => by simp [Term.eval, hv, hw]⟩
      · exact Firm.append (s := "std::pow(") ⟨by decide, by decide, by decide⟩ _
          ⟨by decide, by decide, by decide⟩
      · have hread := Reads.powCall rfl (ht.weaken (Nat.zero_le _)) (ht'.weaken (Nat.zero_le _))
        show Reads .cpp .atom (tokens ("std::pow(" ++ ", ".intercalate [p.text, q.text] ++ ")")) _
        rw [hcall, tokens_append (apart_right (by simp; decide) _),
          tokens_word isWord_pow.1 isWord_pow.2, tokens_wrapped, tokens_intercalate_comma]
        simpa using hread
  | python =>
      obtain ⟨t, ht, hv⟩ := hp.atLeast .atom
      obtain ⟨t', ht', hw⟩ := hq.atLeast .power
      have hbase := hp.firm_atLeast (by decide : Precedence.unary.rank < Precedence.atom.rank)
      have hexponent := hq.firm_atLeast (by decide : Precedence.unary.rank < Precedence.power.rank)
      refine stands_firm (by decide : Precedence.unary.rank < Precedence.power.rank)
        (hbase.append "**" hexponent) ⟨.pow t t', ?_, fun I => by simp [Term.eval, hv, hw]⟩
      show Reads .python .power (tokens (p.atLeast .atom ++ "**" ++ q.atLeast .power)) _
      rw [tokens_append (hexponent.apart_mark_left (by simp [isMark])),
        tokens_append (hbase.apart_mark_right (by decide)), List.append_assoc]
      exact .powOp rfl ht (.ofPower ht')

/-- Operands with values make a text with the value that the operator makes of them. -/
theorem stands_node {op : Op} (harity : op.Prints ps.length)
    (hname : ∀ f, op = .call f → isIdentifier f = true) (h : List.Forall₂ (Stands b) ps vs) :
    Stands b (b.node op ps) fun I => I.apply op (vs.map (· I)) := by
  cases op with
  | add =>
      cases h with
      | nil => exact absurd harity (Nat.not_succ_le_zero 0)
      | cons hp h => exact stands_sum hp h
  | mul =>
      cases h with
      | nil => exact absurd harity (Nat.not_succ_le_zero 0)
      | cons hp h => exact stands_product hp h
  | neg =>
      obtain ⟨p, rfl⟩ := List.length_eq_one_iff.1 harity
      obtain ⟨v, vs, hp, hnil, rfl⟩ := List.forall₂_cons_left_iff.1 h
      rw [List.forall₂_nil_left_iff.1 hnil]
      exact stands_signed (hp.firm_atLeast (by decide)) (hp.atLeast .power)
  | pow =>
      obtain ⟨p, q, rfl⟩ := List.length_eq_two.1 harity
      obtain ⟨v, vs, hp, hrest, rfl⟩ := List.forall₂_cons_left_iff.1 h
      obtain ⟨w, vs, hq, hnil, rfl⟩ := List.forall₂_cons_left_iff.1 hrest
      rw [List.forall₂_nil_left_iff.1 hnil]
      exact stands_power hp hq
  | call f => exact stands_call (hname f rfl) h

end Compound

end Printed

namespace Backend

variable (b : Backend)

theorem operandsM_none (cs : List Expr) :
    Id.run (b.operandsM (fun _ => pure none) cs) = cs.map (b.printedWith fun _ => none) := by
  induction cs with
  | nil => rfl
  | cons c cs ih =>
      rw [List.map_cons, ← ih]
      rfl

theorem stands_printedWith {e : Expr} (he : e.Printable) :
    Printed.Stands b (b.printedWith (fun _ => none) e) fun I => e.value I := by
  induction he with
  | lit n => exact Printed.stands_literal n
  | @var x hx =>
      exact Printed.stands_firm (by decide : Precedence.unary.rank < Precedence.atom.rank)
        (firm_word (isWord_of_isIdentifier hx)) ⟨.name x, reads_name hx, fun I => rfl⟩
  | @node op cs harity hname _ ih =>
      have hoperands : List.Forall₂ (Printed.Stands b) (cs.map (b.printedWith fun _ => none))
          (cs.map fun c I => c.value I) := by
        rw [List.forall₂_map_left_iff, List.forall₂_map_right_iff, List.forall₂_same]
        exact ih
      have hnode := Printed.stands_node (by simpa using harity) hname hoperands
      have hprinted : b.printedWith (fun _ => none) (.node op cs) =
          b.node op (cs.map (b.printedWith fun _ => none)) := by
        rw [← operandsM_none]
        rfl
      rw [hprinted]
      simpa [Expr.value, Expr.valueList_eq_map, Function.comp_def] using hnode

/-- The text of a printable expression is read as one term, which has the value of the expression,
whatever the variables, calls and powers mean. -/
theorem print_value {e : Expr} (he : e.Printable) :
    ∃ t, b.ReadsAs (b.print e) t ∧
      ∀ I : Interpretation, t.eval I (fun x => some (I.var x)) = some (e.value I) := by
  obtain ⟨t, ht, hvalue⟩ := (b.stands_printedWith he).reads
  exact ⟨t, readsAs_of_reads (ht.weaken (Nat.zero_le _)), hvalue⟩

/-- A sum inside a sum, with a sign at its head, and a product inside a product. -/
theorem print_value_nested :
    let x : Expr := .var "x"
    let y : Expr := .var "y"
    let e : Expr := .sum [x, .sum [.neg y, .lit (-3)],
      .product [.neg x, .product [.sum [y], .pow (.neg x) (.lit 2)]]]
    e.Printable ∧ Backend.python.print e = "x - y - 3 + (-x)*(y)*(-x)**2" ∧
      ∃ t, Backend.python.ReadsAs "x - y - 3 + (-x)*(y)*(-x)**2" t ∧
        ∀ I : Interpretation, t.eval I (fun x => some (I.var x)) = some (e.value I) := by
  intro x y e
  have hx : x.Printable := .var (by decide)
  have hy : y.Printable := .var (by decide)
  have hminus : ∀ {d : Expr}, d.Printable → (Expr.neg d).Printable := by
    intro d hd
    exact .node rfl (by simp) (by simpa using hd)
  have hpower : (Expr.pow (.neg x) (.lit 2)).Printable :=
    .node (by decide) (by simp) (by simpa using ⟨hminus hx, .lit 2⟩)
  have hsum : (Expr.sum [y]).Printable := .node (by decide) (by simp) (by simpa using hy)
  have hinner : (Expr.product [.sum [y], .pow (.neg x) (.lit 2)]).Printable :=
    .node (by decide) (by simp) (by simpa using ⟨hsum, hpower⟩)
  have hdifference : (Expr.sum [.neg y, .lit (-3)]).Printable :=
    .node (by decide) (by simp) (by simpa using ⟨hminus hy, .lit (-3)⟩)
  have houter : (Expr.product [.neg x, .product [.sum [y], .pow (.neg x) (.lit 2)]]).Printable :=
    .node (by decide) (by simp) (by simpa using ⟨hminus hx, hinner⟩)
  have he : e.Printable :=
    .node (by decide) (by simp) (by simpa using ⟨hx, hdifference, houter⟩)
  have htext : Backend.python.print e = "x - y - 3 + (-x)*(y)*(-x)**2" := by decide +kernel
  have hread := Backend.python.print_value he
  rw [htext] at hread
  exact ⟨he, htext, hread⟩

end Backend

end TensorTemplate
