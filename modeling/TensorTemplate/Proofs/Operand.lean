import TensorTemplate.Proofs.Grammar

/-!
A compound expression whose operands are names and literals, as it is printed and as
it is read back. Both target languages read the printed text as the term that the
operator makes of its operands, and this term gives operator and operands back: so
different operators or operands never print alike.

The points where this could fail are the sign of a negative literal, which takes the
place of the plus in a sum and is put in parentheses elsewhere, and the two stars of
a power beside the one of a product.
-/

namespace TensorTemplate

open Grammar

/-- An operand that is printed in one piece. -/
inductive Operand where
  | name (x : String)
  | lit (n : Int)
deriving DecidableEq, Repr

namespace Operand

def printed : Operand → Printed
  | name x => .atom x
  | lit n => Backend.literal n

/-- The name is an identifier. -/
def Fits : Operand → Prop
  | name x => isIdentifier x = true
  | lit _ => True

def term : Operand → Term
  | name x => .name x
  | lit n => if n < 0 then .neg (.num n.natAbs) else .num n.natAbs

/-- The operand as it stands beside an operator that binds more strongly than a sum. -/
def solid (o : Operand) : String :=
  match o with
  | name x => x
  | lit n => if n < 0 then "(-" ++ n.natAbs.repr ++ ")" else n.natAbs.repr

/-- The term with one more operand added on the right. -/
def plus (t : Term) : Operand → Term
  | name x => .add t (.name x)
  | lit n => if n < 0 then .sub t (.num n.natAbs) else .add t (.num n.natAbs)

/-- The term with one more operand multiplied on the right. -/
def times (t : Term) (o : Operand) : Term := .mul t o.term

/-- What an operator makes of its operands, if it takes so many of them. -/
inductive NodeTerm : Op → List Operand → Term → Prop where
  | add (o p : Operand) (os : List Operand) :
      NodeTerm .add (o :: p :: os) ((p :: os).foldl plus o.term)
  | mul (o p : Operand) (os : List Operand) :
      NodeTerm .mul (o :: p :: os) ((p :: os).foldl times o.term)
  | neg (o : Operand) : NodeTerm .neg [o] (.neg o.term)
  | pow (o p : Operand) : NodeTerm .pow [o, p] (.pow o.term p.term)
  | call (f : String) (os : List Operand) : NodeTerm (.call f) os (.call f (os.map term))

/-! ### From the term back to the operands -/

theorem term_injective : Function.Injective term := by
  intro o p h
  cases o with
  | name x =>
      cases p with
      | name y => simpa [term] using h
      | lit n => by_cases hn : n < 0 <;> simp [term, hn] at h
  | lit m =>
      cases p with
      | name y => by_cases hm : m < 0 <;> simp [term, hm] at h
      | lit n =>
          by_cases hm : m < 0 <;> by_cases hn : n < 0 <;> simp [term, hm, hn] at h
          all_goals rw [lit.injEq]; omega

theorem plus_inj {t u : Term} {o p : Operand} (h : plus t o = plus u p) : t = u ∧ o = p := by
  cases o with
  | name x =>
      cases p with
      | name y => simpa [plus] using h
      | lit n => by_cases hn : n < 0 <;> simp [plus, hn] at h
  | lit m =>
      cases p with
      | name y => by_cases hm : m < 0 <;> simp [plus, hm] at h
      | lit n =>
          by_cases hm : m < 0 <;> by_cases hn : n < 0 <;> simp [plus, hm, hn] at h
          all_goals exact ⟨h.1, by rw [lit.injEq]; omega⟩

theorem times_inj {t u : Term} {o p : Operand} (h : times t o = times u p) : t = u ∧ o = p := by
  simp only [times, Term.mul.injEq] at h
  exact ⟨h.1, term_injective h.2⟩

theorem plus_ne_term (t : Term) (o p : Operand) : plus t o ≠ p.term := by
  cases o with
  | name x =>
      cases p with
      | name y => simp [plus, term]
      | lit n => by_cases hn : n < 0 <;> simp [plus, term, hn]
  | lit m =>
      cases p with
      | name y => by_cases hm : m < 0 <;> simp [plus, term, hm]
      | lit n => by_cases hm : m < 0 <;> by_cases hn : n < 0 <;> simp [plus, term, hm, hn]

theorem times_ne_term (t : Term) (o p : Operand) : times t o ≠ p.term := by
  cases p with
  | name y => simp [times, term.eq_1]
  | lit n => by_cases hn : n < 0 <;> simp [times, term.eq_2, hn]

/-- A chain of one operator, from left to right, has its operands in order. -/
theorem foldl_inj {f : Term → Operand → Term} (hf : ∀ {t u o p}, f t o = f u p → t = u ∧ o = p)
    (hne : ∀ t o p, f t o ≠ term p) {o p : Operand} {os ps : List Operand}
    (h : os.foldl f o.term = ps.foldl f p.term) : o = p ∧ os = ps := by
  induction os using List.reverseRecOn generalizing ps with
  | nil =>
      cases ps using List.reverseRecOn with
      | nil => exact ⟨term_injective h, rfl⟩
      | append_singleton ps last =>
          rw [List.foldl_append] at h
          exact absurd h.symm (hne _ _ _)
  | append_singleton os last ih =>
      cases ps using List.reverseRecOn with
      | nil =>
          rw [List.foldl_append] at h
          exact absurd h (hne _ _ _)
      | append_singleton ps last' =>
          rw [List.foldl_append, List.foldl_append] at h
          obtain ⟨hinit, hlast⟩ := hf h
          obtain ⟨hfirst, hrest⟩ := ih hinit
          exact ⟨hfirst, by rw [hrest, hlast]⟩

/-- The operator that a term shows at its root; a difference is a sum. -/
def rootOp? : Term → Option Op
  | .num _ | .name _ => none
  | .neg _ => some .neg
  | .add _ _ | .sub _ _ => some .add
  | .mul _ _ => some .mul
  | .pow _ _ => some .pow
  | .call f _ => some (.call f)

theorem rootOp?_plus (t : Term) (o : Operand) : rootOp? (plus t o) = some .add := by
  cases o with
  | name x => rfl
  | lit n => by_cases hn : n < 0 <;> simp [plus, hn, rootOp?]

theorem rootOp?_foldl {f : Term → Operand → Term} {op : Op}
    (hf : ∀ t o, rootOp? (f t o) = some op) (t : Term) (o : Operand) (os : List Operand) :
    rootOp? ((o :: os).foldl f t) = some op := by
  induction os generalizing t o with
  | nil => exact hf t o
  | cons p os ih => exact ih (f t o) p

theorem NodeTerm.rootOp?_eq {op : Op} {os : List Operand} {t : Term} (h : NodeTerm op os t) :
    rootOp? t = some op := by
  cases h with
  | add o p os => exact rootOp?_foldl rootOp?_plus _ _ _
  | mul o p os => exact rootOp?_foldl (fun _ _ => rfl) _ _ _
  | neg | pow | call => rfl

/-- Operator and operands can be read off the term. -/
theorem NodeTerm.inj {op op' : Op} {os os' : List Operand} {t t' : Term} (h : NodeTerm op os t)
    (h' : NodeTerm op' os' t') (ht : t = t') : op = op' ∧ os = os' := by
  have hop : op = op' := by
    apply Option.some_inj.1
    rw [← h.rootOp?_eq, ← h'.rootOp?_eq, ht]
  subst hop
  refine ⟨rfl, ?_⟩
  cases h with
  | add o p os =>
      cases h'
      obtain ⟨ho, hos⟩ := foldl_inj plus_inj plus_ne_term ht
      rw [ho, hos]
  | mul o p os =>
      cases h'
      obtain ⟨ho, hos⟩ := foldl_inj times_inj times_ne_term ht
      rw [ho, hos]
  | neg o =>
      cases h'
      rw [term_injective (Term.neg.inj ht)]
  | pow o p =>
      cases h'
      obtain ⟨ho, hp⟩ := Term.pow.inj ht
      rw [term_injective ho, term_injective hp]
  | call f os =>
      cases h'
      exact List.map_injective_iff.2 term_injective (Term.call.inj ht).2

/-! ### Where tokens meet -/

/-- A character that starts and ends tokens, whatever stands beside it. -/
def isLoose (c : Char) : Bool := !isWordChar c && c != '*' && c != '-'

theorem sticks_of_isLoose_left {c : Char} (h : isLoose c = true) (d : Char) :
    sticks c d = false := by
  simp only [isLoose, Bool.and_eq_true, Bool.not_eq_true', bne_iff_ne] at h
  simp [sticks, h.1.1, h.1.2, h.2]

theorem sticks_of_isLoose_right {d : Char} (h : isLoose d = true) (c : Char) :
    sticks c d = false := by
  simp only [isLoose, Bool.and_eq_true, Bool.not_eq_true', bne_iff_ne] at h
  simp only [sticks, h.1.1, Bool.and_false, Bool.false_or, Bool.and_eq_false_imp, beq_iff_eq]
  rintro rfl
  simp [h.1.2, h.2]

theorem apart_left {s : String} (hs : s.toList.getLast?.all isLoose = true) (t : String) :
    Apart s t := by
  intro c hc d _
  exact sticks_of_isLoose_left ((Option.all_eq_true _ _).1 hs c hc) d

theorem apart_right {t : String} (ht : t.toList.head?.all isLoose = true) (s : String) :
    Apart s t := by
  intro c _ d hd
  exact sticks_of_isLoose_right ((Option.all_eq_true _ _).1 ht d hd) c

/-- A character that is part of a token of two of its kind. -/
def isMark (c : Char) : Bool := c == '*' || c == '-'

theorem isMark_iff {c : Char} : isMark c = true ↔ c = '*' ∨ c = '-' := by
  simp [isMark]

/-- The text is not empty and neither starts nor ends with a sign or a star. -/
def Firm (s : String) : Prop :=
  s ≠ "" ∧ s.toList.head?.any isMark = false ∧ s.toList.getLast?.any isMark = false

theorem sticks_mark {c d : Char} (hc : isMark c = true) (hd : isMark d = false) :
    sticks c d = false ∧ sticks d c = false := by
  have hne : c ≠ d := by
    rintro rfl
    rw [hc] at hd
    cases hd
  have hword : isWordChar c = false := by
    rcases isMark_iff.1 hc with rfl | rfl <;> decide
  simp [sticks, hword, hne, hne.symm]

theorem Firm.apart_mark_left {s mark : String} (hs : Firm s)
    (hmark : mark.toList.getLast?.all isMark = true) : Apart mark s := by
  intro c hc d hd
  exact (sticks_mark ((Option.all_eq_true _ _).1 hmark c hc)
    ((Option.any_eq_false _ _).1 hs.2.1 d hd)).1

theorem Firm.apart_mark_right {s mark : String} (hs : Firm s)
    (hmark : mark.toList.head?.all isMark = true) : Apart s mark := by
  intro c hc d hd
  exact (sticks_mark ((Option.all_eq_true _ _).1 hmark d hd)
    ((Option.any_eq_false _ _).1 hs.2.2 c hc)).2

theorem firm_word {w : String} (hw : IsWord w) : Firm w := by
  have hchars : ∀ c ∈ w.toList, isMark c = false := by
    intro c hc
    have hword := hw.2 c hc
    by_contra hmark
    rcases isMark_iff.1 (eq_true_of_ne_false hmark) with rfl | rfl <;>
      exact absurd hword (by decide)
  refine ⟨hw.1, (Option.any_eq_false _ _).2 ?_, (Option.any_eq_false _ _).2 ?_⟩
  · intro c hc
    exact hchars c (List.mem_of_mem_head? hc)
  · intro c hc
    exact hchars c (List.mem_of_mem_getLast? hc)

/-- Firm texts around anything make a firm text. -/
theorem Firm.append {s t : String} (hs : Firm s) (mid : String) (ht : Firm t) :
    Firm (s ++ mid ++ t) := by
  have hs' : s.toList ≠ [] := by simpa using hs.1
  have ht' : t.toList ≠ [] := by simpa using ht.1
  refine ⟨?_, ?_, ?_⟩
  · simp [hs.1]
  · rw [String.toList_append, String.toList_append, List.append_assoc,
      List.head?_append_of_ne_nil _ hs']
    exact hs.2.1
  · rw [String.toList_append, List.getLast?_append_of_ne_nil _ ht']
    exact ht.2.2

/-! ### The texts of an operand -/

theorem toString_of_nonneg {n : Int} (hn : ¬n < 0) : toString n = n.natAbs.repr := by
  rw [Int.toString_eq_repr, Int.repr_eq_if, if_pos (by omega)]
  congr 1
  omega

theorem toString_of_neg {n : Int} (hn : n < 0) : toString n = "-" ++ n.natAbs.repr := by
  rw [Int.toString_eq_repr, Int.repr_eq_if, if_neg (by omega)]
  congr 2
  omega

theorem printed_lit_of_nonneg {n : Int} (hn : ¬n < 0) : (lit n).printed = .atom n.natAbs.repr := by
  simp [printed, Backend.literal, hn, toString_of_nonneg hn]

theorem printed_lit_of_neg {n : Int} (hn : n < 0) :
    (lit n).printed = ⟨"-" ++ n.natAbs.repr, .unary⟩ := by
  simp [printed, Backend.literal, hn, toString_of_neg hn]

theorem atLeast_sum (p : Printed) : p.atLeast .sum = p.text := rfl

/-- At any place that asks for more than a sign, an operand stands as its solid form. -/
theorem atLeast_eq_solid (o : Operand) {q : Precedence} (hq : Precedence.unary.rank < q.rank) :
    o.printed.atLeast q = o.solid := by
  have hatom : ¬Precedence.atom.rank < q.rank := by cases q <;> decide
  cases o with
  | name x => simp [Printed.atLeast, printed, Printed.atom, hatom, solid]
  | lit n =>
      by_cases hn : n < 0
      · simp [Printed.atLeast, printed_lit_of_neg hn, Printed.wrapped, hq, solid, hn,
          ← String.append_assoc]
      · simp [Printed.atLeast, printed_lit_of_nonneg hn, Printed.atom, hatom, solid, hn]

theorem factor_eq_solid (o : Operand) : o.printed.factor = o.solid := by
  cases o with
  | name x => rfl
  | lit n =>
      by_cases hn : n < 0
      · simp [Printed.factor, printed_lit_of_neg hn, Printed.wrapped, solid, hn,
          ← String.append_assoc]
      · simp [Printed.factor, printed_lit_of_nonneg hn, Printed.atom, Printed.atLeast, solid, hn,
          Precedence.rank]

/-- A text that starts with a word character is added with a plus. -/
theorem laterTerm_word {w : String} (hw : IsWord w) :
    (Printed.atom w).laterTerm = " + " ++ w := by
  unfold Printed.laterTerm
  rw [atLeast_sum]
  split
  · rename_i rest heq
    have hfirst := hw.2 '-' (by rw [show w.toList = _ from heq]; exact List.mem_cons_self)
    exact absurd hfirst (by decide)
  · rfl

theorem laterTerm_of_neg {n : Int} (hn : n < 0) :
    (lit n).printed.laterTerm = " - " ++ n.natAbs.repr := by
  simp [printed_lit_of_neg hn, Printed.laterTerm, atLeast_sum, -Nat.toList_repr]

/-! ### Reading -/

section Reading

variable {b : Backend}

theorem reads_repr (n : Nat) : Reads b .atom (tokens n.repr) (.num n) := by
  rw [tokens_word (isWord_repr n).1 (isWord_repr n).2]
  exact .num n

theorem reads_name {x : String} (hx : isIdentifier x = true) :
    Reads b .atom (tokens x) (.name x) := by
  have hword := isWord_of_isIdentifier hx
  rw [tokens_word hword.1 hword.2]
  exact .name hx

theorem reads_negative (n : Nat) : Reads b .unary (tokens ("-" ++ n.repr)) (.neg (.num n)) := by
  rw [tokens_append ((firm_word (isWord_repr n)).apart_mark_left (by decide))]
  exact .neg (.ofPower (.ofAtom (reads_repr n)))

theorem tokens_wrapped (s : String) : tokens ("(" ++ s ++ ")") = "(" :: tokens s ++ [")"] := by
  rw [tokens_append (apart_right (by decide) _), tokens_append (apart_left (by decide) _)]
  rfl

theorem reads_solid {o : Operand} (ho : o.Fits) : Reads b .atom (tokens o.solid) o.term := by
  cases o with
  | name x => exact reads_name ho
  | lit n =>
      by_cases hn : n < 0
      · have hread : Reads b .atom (tokens ("(" ++ ("-" ++ n.natAbs.repr) ++ ")"))
            (.neg (.num n.natAbs)) := by
          rw [tokens_wrapped]
          exact .group (.ofProduct (.ofUnary (reads_negative _)))
        simpa [solid, term, hn, ← String.append_assoc] using hread
      · simpa [solid, term, hn] using reads_repr n.natAbs

theorem reads_printed {o : Operand} (ho : o.Fits) :
    Reads b .unary (tokens o.printed.text) o.term := by
  cases o with
  | name x => exact .ofPower (.ofAtom (reads_name ho))
  | lit n =>
      by_cases hn : n < 0
      · simpa [printed_lit_of_neg hn, term, hn] using reads_negative n.natAbs
      · have hread := Reads.ofPower (.ofAtom (reads_repr (b := b) n.natAbs))
        simpa [printed_lit_of_nonneg hn, Printed.atom, term, hn] using hread

theorem firm_solid {o : Operand} (ho : o.Fits) : Firm o.solid := by
  cases o with
  | name x => exact firm_word (isWord_of_isIdentifier ho)
  | lit n =>
      by_cases hn : n < 0
      · have hfirm : Firm ("(" ++ ("-" ++ n.natAbs.repr) ++ ")") :=
          Firm.append ⟨by decide, by decide, by decide⟩ _ ⟨by decide, by decide, by decide⟩
        simpa [solid, hn, ← String.append_assoc] using hfirm
      · simpa [solid, hn] using firm_word (isWord_repr n.natAbs)

/-- A text with one more term of a sum after it. -/
theorem reads_later {s : String} {t : Term} (hs : Reads b .sum (tokens s) t) {o : Operand}
    (ho : o.Fits) : Reads b .sum (tokens (s ++ o.printed.laterTerm)) (plus t o) := by
  have hplus : ∀ {w u}, Reads b .atom (tokens w) u →
      Reads b .sum (tokens (s ++ (" + " ++ w))) (.add t u) := by
    intro w u hw
    rw [tokens_append (apart_right (by simp; decide) _), tokens_append (apart_left (by decide) _)]
    exact .add hs (.ofUnary (.ofPower (.ofAtom hw)))
  cases o with
  | name x =>
      rw [printed, laterTerm_word (isWord_of_isIdentifier ho)]
      exact hplus (reads_name ho)
  | lit n =>
      by_cases hn : n < 0
      · rw [laterTerm_of_neg hn, tokens_append (apart_right (by simp; decide) _),
          tokens_append (apart_left (by decide) _), plus, if_pos hn]
        exact .sub hs (.ofUnary (.ofPower (.ofAtom (reads_repr _))))
      · rw [printed_lit_of_nonneg hn, laterTerm_word (isWord_repr _), plus, if_neg hn]
        exact hplus (reads_repr _)

/-- A sum is read from left to right. -/
theorem reads_sum {s : String} {t : Term} (hs : Reads b .sum (tokens s) t) {os : List Operand}
    (hos : ∀ o ∈ os, o.Fits) :
    Reads b .sum (tokens (s ++ String.join ((os.map printed).map Printed.laterTerm)))
      (os.foldl plus t) := by
  induction os generalizing s t with
  | nil => simpa using hs
  | cons o os ih =>
      have hstep := ih (reads_later hs (hos o List.mem_cons_self))
        (fun p hp => hos p (List.mem_cons_of_mem _ hp))
      simpa [String.append_assoc] using hstep

/-- A product is read from left to right. -/
theorem reads_product {s : String} {t : Term} (hs : Reads b .product (tokens s) t) (hfirm : Firm s)
    {os : List Operand} (hos : ∀ o ∈ os, o.Fits) :
    Reads b .product (tokens ("*".intercalate (s :: (os.map printed).map Printed.factor)))
      (os.foldl times t) := by
  induction os generalizing s t with
  | nil => simpa using hs
  | cons o os ih =>
      have ho := hos o List.mem_cons_self
      have hstep : Reads b .product (tokens (s ++ "*" ++ o.solid)) (times t o) := by
        rw [tokens_append ((firm_solid ho).apart_mark_left (by simp [isMark])),
          tokens_append (hfirm.apart_mark_right (by decide)), List.append_assoc]
        exact .mul hs (.ofPower (.ofAtom (reads_solid ho)))
      have hrest := ih hstep (hfirm.append "*" (firm_solid ho))
        (fun p hp => hos p (List.mem_cons_of_mem _ hp))
      simpa [factor_eq_solid, String.intercalate_cons_cons, String.intercalate_cons_append,
        String.append_assoc] using hrest

theorem tokens_intercalate_comma (ss : List String) :
    tokens (", ".intercalate ss) = [","].intercalate (ss.map tokens) := by
  induction ss with
  | nil => rfl
  | cons s ss ih =>
      cases ss with
      | nil => simp
      | cons s' ss =>
          rw [String.intercalate_cons_cons, tokens_append (apart_left (by simp; decide) _),
            tokens_append (apart_right (by decide) _), ih]
          simp [show tokens ", " = [","] from by decide]

theorem reads_call {f : String} (hf : isIdentifier f = true) {os : List Operand}
    (hos : ∀ o ∈ os, o.Fits) :
    Reads b .atom (tokens (f ++ "(" ++ ", ".intercalate ((os.map printed).map (·.text)) ++ ")"))
      (.call f (os.map term)) := by
  have hword := isWord_of_isIdentifier hf
  have hparts : ∀ part ∈ os.map fun o => (tokens o.printed.text, o.term),
      Reads b .sum part.1 part.2 := by
    intro part hpart
    obtain ⟨o, ho, rfl⟩ := List.mem_map.1 hpart
    exact .ofProduct (.ofUnary (reads_printed (hos o ho)))
  rw [String.append_assoc, String.append_assoc, tokens_append (apart_right (by simp; decide) _),
    tokens_word hword.1 hword.2, ← String.append_assoc, tokens_wrapped, tokens_intercalate_comma]
  simpa [Function.comp_def] using Reads.call hf hparts

theorem reads_power {o p : Operand} (ho : o.Fits) (hp : p.Fits) :
    Reads b .sum (tokens (b.power [o.printed, p.printed]).text) (.pow o.term p.term) := by
  cases b with
  | cpp =>
      have hcall : "std::pow(" ++ ", ".intercalate [o.printed.text, p.printed.text] ++ ")" =
          "std::pow" ++ ("(" ++ ", ".intercalate [o.printed.text, p.printed.text] ++ ")") := by
        simp [← String.append_assoc]
      have hbase := Reads.ofProduct (.ofUnary (reads_printed (b := .cpp) ho))
      have hexponent := Reads.ofProduct (.ofUnary (reads_printed (b := .cpp) hp))
      have hread := Reads.powCall rfl hbase hexponent
      simp only [Backend.power, Printed.atom, List.map_cons, List.map_nil]
      rw [hcall, tokens_append (apart_right (by simp; decide) _),
        tokens_word isWord_pow.1 isWord_pow.2, tokens_wrapped, tokens_intercalate_comma]
      simpa using Reads.ofProduct (.ofUnary (.ofPower (.ofAtom hread)))
  | python =>
      simp only [Backend.power, Printed.firstAtLeast, List.drop_succ_cons, List.drop_zero,
        atLeast_eq_solid _ (show Precedence.unary.rank < Precedence.atom.rank by decide),
        atLeast_eq_solid _ (show Precedence.unary.rank < Precedence.power.rank by decide)]
      rw [tokens_append ((firm_solid hp).apart_mark_left (by simp [isMark])),
        tokens_append ((firm_solid ho).apart_mark_right (by decide)), List.append_assoc]
      exact .ofProduct (.ofUnary (.ofPower
        (.powOp rfl (reads_solid ho) (.ofPower (.ofAtom (reads_solid hp))))))

/-- A compound expression of one level is read as the term of its operator and operands. -/
theorem NodeTerm.readsAs {op : Op} {os : List Operand} {t : Term} (h : NodeTerm op os t)
    (hop : ∀ f, op = .call f → isIdentifier f = true) (hos : ∀ o ∈ os, o.Fits) :
    b.ReadsAs (b.node op (os.map printed)).text t := by
  apply Backend.readsAs_of_reads
  cases h with
  | add o p os =>
      have hfirst := Reads.ofProduct (.ofUnary (reads_printed (b := b) (hos o List.mem_cons_self)))
      exact reads_sum hfirst (fun q hq => hos q (List.mem_cons_of_mem _ hq))
  | mul o p os =>
      have ho := hos o List.mem_cons_self
      have hread := reads_product (b := b) (.ofUnary (.ofPower (.ofAtom (reads_solid ho))))
        (firm_solid ho) (fun q hq => hos q (List.mem_cons_of_mem _ hq))
      rw [← factor_eq_solid] at hread
      exact .ofProduct hread
  | neg o =>
      have ho := hos o List.mem_cons_self
      simp only [Backend.node, List.map_cons, List.map_nil, Printed.firstAtLeast,
        atLeast_eq_solid _ (show Precedence.unary.rank < Precedence.power.rank by decide)]
      rw [tokens_append ((firm_solid ho).apart_mark_left (by decide))]
      exact .ofProduct (.ofUnary (.neg (.ofPower (.ofAtom (reads_solid ho)))))
  | pow o p =>
      exact reads_power (hos o List.mem_cons_self)
        (hos p (List.mem_cons_of_mem _ List.mem_cons_self))
  | call f os =>
      exact .ofProduct (.ofUnary (.ofPower (.ofAtom (reads_call (hop f rfl) hos))))

end Reading

end Operand

end TensorTemplate
