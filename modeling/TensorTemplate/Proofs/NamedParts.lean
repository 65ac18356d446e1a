import TensorTemplate.Proofs.Printing

/-!
Printing with names for some parts of an expression.

A part of an expression is given by the way down to it, the list of the operands'
numbers. In the order of lists, which is that of reading, a way comes before all ways
that go on from it, and these before the ways to the right. The printer asks for the
name of every proper part that is not inside a part with a name, in this order and
once for each way, and prints the expression in which the parts with names are
variables.
-/

namespace TensorTemplate

namespace Expr

/-! ### Parts -/

/-- The part of the expression that is reached on a way down, if the way does not leave it. -/
def at? : Expr → (way : List Nat) → Option Expr
  | e, [] => some e
  | e, i :: way =>
    match e.children[i]? with
    | none => none
    | some c => c.at? way

mutual

/-- The expression with a variable for each of its largest proper parts that have a name. -/
def withNames (name? : Expr → Option String) : Expr → Expr
  | lit n => lit n
  | var x => var x
  | node op cs => node op (withNamesList name? cs)

def withNamesList (name? : Expr → Option String) : List Expr → List Expr
  | [] => []
  | c :: cs => ((name? c).elim (c.withNames name?) var) :: withNamesList name? cs

end

theorem withNamesList_eq_map (name? : Expr → Option String) (cs : List Expr) :
    withNamesList name? cs = cs.map fun c => (name? c).elim (c.withNames name?) var := by
  induction cs with
  | nil => rfl
  | cons c cs ih => rw [withNamesList, ih, List.map_cons]

/-- A proper part of the expression that is not inside a proper part with a name. -/
def Bare (name? : Expr → Option String) (e : Expr) (way : List Nat) (d : Expr) : Prop :=
  way ≠ [] ∧ e.at? way = some d ∧
    ∀ up, up ≠ [] → up <+: way → up ≠ way → (e.at? up).bind name? = none

section

variable {name? : Expr → Option String} {e d : Expr}

theorem at?_cons (e : Expr) (i : Nat) (way : List Nat) :
    e.at? (i :: way) = e.children[i]?.bind (·.at? way) := by
  rw [at?]
  cases e.children[i]? <;> rfl

/-- The first step to a bare part leads to it, or to an operand without a name. -/
theorem bare_cons {i : Nat} {way : List Nat} :
    e.Bare name? (i :: way) d ↔ ∃ c, e.children[i]? = some c ∧
      (way = [] ∧ d = c ∨ name? c = none ∧ c.Bare name? way d) := by
  simp only [Bare, at?_cons]
  constructor
  · rintro ⟨_, hd, hup⟩
    obtain ⟨c, hc, hd⟩ := Option.bind_eq_some_iff.1 hd
    refine ⟨c, hc, ?_⟩
    cases way with
    | nil => exact Or.inl ⟨rfl, (Option.some.inj hd).symm⟩
    | cons j way =>
        refine Or.inr ⟨?_, by simp, hd, ?_⟩
        · simpa [at?, hc] using hup [i] (by simp) (by simp) (by simp)
        · intro up _ hprefix hne
          have habove := hup (i :: up) (by simp) (List.cons_prefix_cons.2 ⟨rfl, hprefix⟩) (by simpa)
          rwa [at?_cons, hc] at habove
  · rintro ⟨c, hc, ⟨rfl, rfl⟩ | ⟨hname, _, hd, hup⟩⟩
    · refine ⟨by simp, by simp [hc, at?], ?_⟩
      intro up hup hprefix hne
      cases up with
      | nil => exact absurd rfl hup
      | cons j up =>
          obtain ⟨rfl, hrest⟩ := List.cons_prefix_cons.1 hprefix
          exact absurd (by rw [List.prefix_nil.1 hrest]) hne
    · refine ⟨by simp, by simpa [hc] using hd, ?_⟩
      intro up hne hprefix hproper
      cases up with
      | nil => exact absurd rfl hne
      | cons j up =>
          obtain ⟨rfl, hrest⟩ := List.cons_prefix_cons.1 hprefix
          rw [at?_cons, hc]
          cases up with
          | nil => simpa [at?] using hname
          | cons k up => exact hup _ (by simp) hrest (by simpa using hproper)

end

mutual

/-- The proper parts that are not inside a part with a name, with the ways to them, as they are
read. -/
def bareParts (name? : Expr → Option String) : Expr → List (List Nat × Expr)
  | lit _ => []
  | var _ => []
  | node _ cs => barePartsFrom name? 0 cs

/-- The same for operands, the first of which has this number. -/
def barePartsFrom (name? : Expr → Option String) (i : Nat) : List Expr → List (List Nat × Expr)
  | [] => []
  | c :: cs =>
    ([i], c) :: (if (name? c).isSome then [] else (c.bareParts name?).map (Prod.map (i :: ·) id)) ++
      barePartsFrom name? (i + 1) cs

end

section

variable (name? : Expr → Option String)

theorem mem_barePartsFrom (i : Nat) (cs : List Expr) (way : List Nat) (d : Expr) :
    (way, d) ∈ barePartsFrom name? i cs ↔ ∃ k c rest, way = (i + k) :: rest ∧ cs[k]? = some c ∧
      (rest = [] ∧ d = c ∨ name? c = none ∧ (rest, d) ∈ c.bareParts name?) := by
  induction cs generalizing i with
  | nil => simp [barePartsFrom]
  | cons c cs ih =>
      have hinside : (way, d) ∈ (if (name? c).isSome then []
          else (c.bareParts name?).map (Prod.map (i :: ·) id)) ↔
          ∃ rest, way = i :: rest ∧ name? c = none ∧ (rest, d) ∈ c.bareParts name? := by
        cases name? c <;> simp [Prod.map, eq_comm, and_comm]
      rw [barePartsFrom, List.cons_append, List.mem_cons, List.mem_append, hinside, ih]
      constructor
      · rintro (h | ⟨rest, rfl, hd⟩ | ⟨k, b, rest, rfl, hb, hd⟩)
        · obtain ⟨rfl, rfl⟩ := Prod.mk.inj h
          exact ⟨0, d, [], rfl, rfl, Or.inl ⟨rfl, rfl⟩⟩
        · exact ⟨0, c, rest, rfl, rfl, Or.inr hd⟩
        · exact ⟨k + 1, b, rest, by rw [Nat.add_assoc, Nat.add_comm 1], hb, hd⟩
      · rintro ⟨k, b, rest, rfl, hb, hd⟩
        cases k with
        | zero =>
            cases hb
            rcases hd with ⟨rfl, rfl⟩ | hd
            · exact Or.inl rfl
            · exact Or.inr (Or.inl ⟨rest, rfl, hd⟩)
        | succ k =>
            exact Or.inr (Or.inr ⟨k, b, rest, by rw [Nat.add_assoc, Nat.add_comm 1], hb, hd⟩)

theorem mem_bareParts {e d : Expr} {way : List Nat} :
    (way, d) ∈ e.bareParts name? ↔ e.Bare name? way d := by
  induction way generalizing e with
  | nil => cases e <;> simp [bareParts, mem_barePartsFrom, Bare]
  | cons i way ih =>
      cases e with
      | lit n => simp [bareParts, bare_cons, children]
      | var x => simp [bareParts, bare_cons, children]
      | node op cs =>
          rw [bareParts, mem_barePartsFrom, bare_cons]
          simp only [Nat.zero_add, List.cons.injEq, children, ← ih]
          constructor
          · rintro ⟨_, c, _, ⟨rfl, rfl⟩, hc, hd⟩
            exact ⟨c, hc, hd⟩
          · rintro ⟨c, hc, hd⟩
            exact ⟨i, c, way, ⟨rfl, rfl⟩, hc, hd⟩

mutual

/-- The ways to bare parts stand in the order of reading, no way twice. -/
theorem pairwise_bareParts : (e : Expr) →
    (e.bareParts name?).Pairwise fun a b => a.1 < b.1
  | .lit _ => .nil
  | .var _ => .nil
  | .node _ cs => pairwise_barePartsFrom 0 cs

theorem pairwise_barePartsFrom : (i : Nat) → (cs : List Expr) →
    (barePartsFrom name? i cs).Pairwise fun a b => a.1 < b.1
  | _, [] => .nil
  | i, c :: cs => by
      have hright : ∀ part ∈ barePartsFrom name? (i + 1) cs, ∀ rest, i :: rest < part.1 := by
        rintro ⟨way, d⟩ hpart rest
        obtain ⟨k, _, right, rfl, _⟩ := (mem_barePartsFrom name? _ _ _ _).1 hpart
        exact List.cons_lt_cons_iff.2 (Or.inl (by omega))
      have hbelow : ((c.bareParts name?).map (Prod.map (i :: ·) id)).Pairwise
          fun a b => a.1 < b.1 := by
        refine List.pairwise_map.2 ((pairwise_bareParts c).imp ?_)
        intro a b hlt
        exact List.cons_lt_cons_iff.2 (Or.inr ⟨rfl, hlt⟩)
      have hfirst : ∀ part ∈ c.bareParts name?, [i] < i :: part.1 := by
        rintro ⟨way, d⟩ hpart
        cases way with
        | nil => exact absurd rfl ((mem_bareParts name?).1 hpart).1
        | cons j way => exact List.cons_lt_cons_iff.2 (Or.inr ⟨rfl, List.nil_lt_cons _ _⟩)
      rw [barePartsFrom, List.cons_append, List.pairwise_cons, List.pairwise_append]
      have hrest := pairwise_barePartsFrom (i + 1) cs
      cases name? c with
      | some x => exact ⟨fun part hpart => hright part hpart [], .nil, hrest, by simp⟩
      | none =>
          refine ⟨?_, hbelow, hrest, ?_⟩
          · intro part hpart
            rcases List.mem_append.1 hpart with hpart | hpart
            · obtain ⟨inner, hinner, rfl⟩ := List.mem_map.1 hpart
              exact hfirst inner hinner
            · exact hright part hpart []
          · intro part hpart other hother
            obtain ⟨inner, _, rfl⟩ := List.mem_map.1 hpart
            exact hright other hother inner.1

end

/-- Where a part is bare, the expression with the names has the part's name, or the part with the
names in it. -/
theorem at?_withNames {e d : Expr} {way : List Nat} (h : e.Bare name? way d) :
    (e.withNames name?).at? way = some ((name? d).elim (d.withNames name?) var) := by
  induction way generalizing e with
  | nil => exact absurd rfl h.1
  | cons i way ih =>
      obtain ⟨c, hc, hd⟩ := bare_cons.1 h
      have hchild : (e.withNames name?).children[i]? =
          some ((name? c).elim (c.withNames name?) var) := by
        cases e with
        | lit n => simp [children] at hc
        | var x => simp [children] at hc
        | node op cs =>
            simp only [children] at hc
            simp [withNames, children, withNamesList_eq_map, hc]
      rw [at?_cons, hchild]
      rcases hd with ⟨rfl, rfl⟩ | ⟨hname, hd⟩
      · rfl
      · rw [hname]
        exact ih hd

end

end Expr

namespace Backend

section

variable {m : Type → Type} [Monad m] [LawfulMonad m] (b : Backend) (note : Expr → m Unit)
  (name? : Expr → Option String)

mutual

/-- Whatever is noted when the printer asks for a name, it is noted of the bare parts in their
order. What is printed is the expression with the names. -/
theorem printedM_note : (e : Expr) →
    b.printedM (fun c => do note c; pure (name? c)) e = (do
      (e.bareParts name?).forM fun part => note part.2
      pure (b.printedWith (fun _ => none) (e.withNames name?)))
  | .lit n => by
      simp [printedM, Expr.bareParts, Expr.withNames, printedWith]
  | .var x => by
      simp [printedM, Expr.bareParts, Expr.withNames, printedWith]
  | .node op cs => by
      have hprinted : b.printedWith (fun _ => none) ((Expr.node op cs).withNames name?) =
          b.node op ((Expr.withNamesList name? cs).map (b.printedWith fun _ => none)) := by
        rw [← operandsM_none]
        rfl
      rw [printedM, operandsM_note 0 cs, hprinted]
      simp [Expr.bareParts]

theorem operandsM_note : (i : Nat) → (cs : List Expr) →
    b.operandsM (fun c => do note c; pure (name? c)) cs = (do
      (Expr.barePartsFrom name? i cs).forM fun part => note part.2
      pure ((Expr.withNamesList name? cs).map (b.printedWith fun _ => none)))
  | i, [] => by
      simp [operandsM, Expr.barePartsFrom, Expr.withNamesList]
  | i, c :: cs => by
      have hfirst := printedM_note c
      have hrest := operandsM_note (i + 1) cs
      rw [operandsM, hrest]
      cases hname : name? c with
      | some x =>
          simp [Expr.barePartsFrom, Expr.withNamesList, hname]
          rfl
      | none =>
          simp only [bind_assoc, pure_bind, hfirst]
          simp [Expr.barePartsFrom, Expr.withNamesList, hname]

end

end

/-- Puts the expression on a list of those asked about, the latest first. -/
def listing (c : Expr) : StateM (List Expr) Unit := modify (c :: ·)

theorem forM_listing (parts : List (List Nat × Expr)) (asked : List Expr) :
    (parts.forM fun part => listing part.2).run asked =
      ((), (parts.map (·.2)).reverse ++ asked) := by
  induction parts generalizing asked with
  | nil => rfl
  | cons part parts ih =>
      have hrest := ih (part.2 :: asked)
      rw [List.map_cons, List.reverse_cons, List.append_assoc]
      exact hrest

/-- Printing with names is printing of the expression in which each of the largest proper parts with
names is a variable. Names are asked for once at each way to a proper part that is not inside a part
with a name, in the order of reading, and nowhere else. -/
theorem printedWith_names (b : Backend) (name? : Expr → Option String) (e : Expr) :
    b.printedWith name? e = b.printedWith (fun _ => none) (e.withNames name?) ∧
    (∀ way d, e.Bare name? way d →
      (e.withNames name?).at? way = some ((name? d).elim (d.withNames name?) .var)) ∧
    ∃ asked : List (List Nat × Expr),
      b.printedAsking name? e = (b.printedWith name? e, asked.map (·.2)) ∧
      (asked.map (·.1)).Pairwise (· < ·) ∧
      ∀ way d, (way, d) ∈ asked ↔ e.Bare name? way d := by
  have hprinted : b.printedWith name? e = b.printedWith (fun _ => none) (e.withNames name?) := by
    have hsilent := b.printedM_note (fun _ => (pure () : Id Unit)) name? e
    exact hsilent
  refine ⟨hprinted, fun way d => Expr.at?_withNames name?, e.bareParts name?, ?_, ?_, ?_⟩
  · have hnoted := congrArg (·.run []) (b.printedM_note listing name? e)
    rw [StateT.run_bind, forM_listing, ← hprinted] at hnoted
    have hrun : b.printedAsking name? e = (b.printedWith name? e,
        (((e.bareParts name?).map Prod.snd).reverse ++ []).reverse) :=
      congrArg (fun r => (r.1, r.2.reverse)) hnoted
    rw [hrun, List.append_nil, List.reverse_reverse]
  · exact List.pairwise_map.2 (Expr.pairwise_bareParts name? e)
  · exact fun way d => Expr.mem_bareParts name?

end Backend

end TensorTemplate
