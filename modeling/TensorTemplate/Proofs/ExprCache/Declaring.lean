import TensorTemplate.Proofs.ExprCache.Parsing

/-!
What an expression cache has declared. The declared symbols stand in an order in
which each comes after all that it depends on; naming a symbol adds it and what it
needs, and nothing else.
-/

namespace TensorTemplate

namespace ExprCache

/-! ### Naming -/

theorem operandsM_cons_of_some {c : ExprCache} {d : Expr} {s : Symbol} (hd : c.lookup? d = some s)
    (ds : List Expr) (used : List Symbol) :
    (c.backend.operandsM c.noting (d :: ds)).run used =
      (.atom s.name :: ((c.backend.operandsM c.noting ds).run (s :: used)).1,
        ((c.backend.operandsM c.noting ds).run (s :: used)).2) := by
  have hnoting : (c.noting d).run used = (some s.name, s :: used) := by
    simp [noting, hd, StateT.run]
  rw [Backend.operandsM, StateT.run_bind, hnoting]
  rfl

theorem operandsM_cons_of_none {c : ExprCache} {d : Expr} (hd : c.lookup? d = none)
    (ds : List Expr) (used : List Symbol) :
    (c.backend.operandsM c.noting (d :: ds)).run used =
      let first := (c.backend.printedM c.noting d).run used
      let rest := (c.backend.operandsM c.noting ds).run first.2
      (first.1 :: rest.1, rest.2) := by
  have hnoting : (c.noting d).run used = (none, used) := by
    simp [noting, hd, StateT.run]
  rw [Backend.operandsM, StateT.run_bind, hnoting]
  rfl

mutual

/-- What is noted while an expression is printed are symbols of parsed expressions. -/
theorem noted_of_printedM (c : ExprCache) : (e : Expr) → (used : List Symbol) → (s : Symbol) →
    s ∈ ((c.backend.printedM c.noting e).run used).2 → s ∈ used ∨ ∃ d, c.lookup? d = some s
  | .lit _, _, _, hs => Or.inl hs
  | .var _, _, _, hs => Or.inl hs
  | .node _ cs, used, s, hs => noted_of_operandsM c cs used s hs

theorem noted_of_operandsM (c : ExprCache) : (cs : List Expr) → (used : List Symbol) →
    (s : Symbol) → s ∈ ((c.backend.operandsM c.noting cs).run used).2 →
    s ∈ used ∨ ∃ d, c.lookup? d = some s
  | [], _, _, hs => Or.inl hs
  | d :: ds, used, s, hs => by
      cases hd : c.lookup? d with
      | some r =>
          rw [operandsM_cons_of_some hd] at hs
          rcases noted_of_operandsM c ds _ s hs with hs | hs
          · rcases List.mem_cons.1 hs with rfl | hs
            · exact Or.inr ⟨d, hd⟩
            · exact Or.inl hs
          · exact Or.inr hs
      | none =>
          rw [operandsM_cons_of_none hd] at hs
          rcases noted_of_operandsM c ds _ s hs with hs | hs
          · exact noted_of_printedM c d used s hs
          · exact Or.inr hs

end

/-- Only symbols of parsed expressions are named. -/
theorem lookup?_of_mem_naming {c : ExprCache} {e : Expr} {s : Symbol} (h : s ∈ (c.naming e).2) :
    ∃ d, c.lookup? d = some s := by
  rcases noted_of_printedM c e [] s (List.mem_reverse.1 h) with h | h
  · cases h
  · exact h

theorem operandsM_noting {c : ExprCache} (hc : c.LeafFree) {cs : List Expr} (hcs : c.Covers cs)
    (used : List Symbol) :
    (c.backend.operandsM c.noting cs).run used =
      ((cs.map c.operand).map Operand.printed, (cs.filterMap c.lookup?).reverse ++ used) := by
  induction cs generalizing used with
  | nil => rfl
  | cons d ds ih =>
      have hrest := ih fun e he => hcs e (List.mem_cons_of_mem _ he)
      cases hd : c.lookup? d with
      | some s =>
          rw [operandsM_cons_of_some hd, hrest]
          simp [operand_of_lookup? hc hd, Operand.printed, hd]
      | none =>
          simp only [operandsM_cons_of_none hd, hrest]
          cases d with
          | lit n =>
              have hprinted : (c.backend.printedM c.noting (.lit n)).run used =
                  (Backend.literal n, used) := rfl
              simp [hd, operand, Operand.printed, hprinted]
          | var x =>
              have hprinted : (c.backend.printedM c.noting (.var x)).run used = (.atom x, used) :=
                rfl
              simp [hd, operand, Operand.printed, hprinted]
          | node op' cs' =>
              obtain ⟨s, hs⟩ := hcs _ List.mem_cons_self rfl
              rw [hs] at hd
              cases hd

/-- With all its operands parsed, an expression names their symbols. -/
theorem naming_node {c : ExprCache} (hc : c.LeafFree) (op : Op) {cs : List Expr}
    (hcs : c.Covers cs) :
    c.naming (.node op cs) = (c.substituted (.node op cs), cs.filterMap c.lookup?) := by
  have hrun : (c.backend.printedM c.noting (.node op cs)).run [] =
      (c.backend.node op ((c.backend.operandsM c.noting cs).run []).1,
        ((c.backend.operandsM c.noting cs).run []).2) := rfl
  rw [operandsM_noting hc hcs] at hrun
  simp [naming, hrun, substituted_node hc op hcs]

/-! ### Declaring -/

end ExprCache

/-- The second symbol is the first one, or stands in the targets that the first one leads to. -/
inductive Symbol.Needs : Symbol → Symbol → Prop where
  | self (s : Symbol) : Needs s s
  | dep {s d r : Symbol} (hd : d ∈ s.deps) (h : Needs d r) : Needs s r

namespace ExprCache

/-- Every symbol of the list stands before all that it depends on. -/
def AfterDeps : List Symbol → Prop
  | [] => True
  | s :: older => (∀ d ∈ s.deps, d ∈ older) ∧ AfterDeps older

/-- What is true of the declared symbols of every cache. -/
structure Listed (c : ExprCache) : Prop where
  isDeclared_iff : ∀ {key}, c.isDeclared key = true ↔ ∃ s ∈ c.declared, s.target = key
  known : ∀ {s}, s ∈ c.declared → c.Known s
  nodup : c.declared.Nodup
  afterDeps : AfterDeps c.declared

/-- What a symbol of the list depends on is among the symbols behind it. -/
theorem AfterDeps.mem_of_mem_deps {newer older : List Symbol} {s d : Symbol}
    (h : AfterDeps (newer ++ s :: older)) (hd : d ∈ s.deps) : d ∈ older := by
  induction newer with
  | nil => exact h.1 d hd
  | cons t newer ih => exact ih h.2

/-- Of what is declared, all that is needed is declared. -/
theorem Listed.needs {c : ExprCache} (hl : c.Listed) {s r : Symbol} (hs : s ∈ c.declared)
    (h : s.Needs r) : r ∈ c.declared := by
  induction h with
  | self s => exact hs
  | dep hd _ ih =>
      obtain ⟨newer, older, hsplit⟩ := List.append_of_mem hs
      have holder := (hsplit ▸ hl.afterDeps).mem_of_mem_deps hd
      apply ih
      rw [hsplit]
      exact List.mem_append_right _ (List.mem_cons_of_mem _ holder)

/-- The second cache is the first one with the symbols declared, and with what they need. -/
structure Declaring (ss : List Symbol) (c c' : ExprCache) : Prop where
  frame : ∃ new keys, c' = { c with declared := new ++ c.declared, declaredKeys := keys } ∧
    ∀ r ∈ new, ∃ s ∈ ss, s.Needs r
  listed : c'.Listed
  declared : ∀ s ∈ ss, s ∈ c'.declared

theorem Valid.relist {c : ExprCache} (hc : c.Valid) (declared : List Symbol)
    (declaredKeys : Std.TreeSet String) : { c with declared, declaredKeys }.Valid :=
  ⟨hc.target_eq, hc.name_eq, hc.number_lt, hc.number_inj, hc.deps_known, hc.known, hc.parsed,
    hc.leafFree, hc.covers, hc.substituted_eq⟩

theorem Declaring.valid {ss : List Symbol} {c c' : ExprCache} (h : Declaring ss c c')
    (hc : c.Valid) : c'.Valid := by
  obtain ⟨new, keys, rfl, _⟩ := h.frame
  exact hc.relist _ _

/-- What a symbol needs is not newer than the symbol. -/
theorem Valid.number_le_of_needs {c : ExprCache} (hc : c.Valid) {s r : Symbol} (hs : c.Known s)
    (h : s.Needs r) : c.Known r ∧ r.number ≤ s.number := by
  induction h with
  | self s => exact ⟨hs, Nat.le_refl _⟩
  | dep hd _ ih =>
      obtain ⟨hknown, hlt⟩ := hc.deps_known hs hd
      obtain ⟨hr, hle⟩ := ih hknown
      exact ⟨hr, hle.trans hlt.le⟩

theorem isDeclared_insert (c : ExprCache) (s : Symbol) (key : String) :
    { c with
      declared := s :: c.declared
      declaredKeys := c.declaredKeys.insert s.target }.isDeclared key = true ↔
        s.target = key ∨ c.isDeclared key = true := by
  simp [isDeclared, Std.TreeSet.contains_insert, Std.LawfulEqCmp.compare_eq_iff_eq]

/-- One more symbol, when all that it depends on is declared. -/
theorem Listed.cons {c : ExprCache} (hl : c.Listed) {s : Symbol} (hs : c.Known s)
    (hnew : c.isDeclared s.target = false) (hdeps : ∀ d ∈ s.deps, d ∈ c.declared) :
    { c with
      declared := s :: c.declared
      declaredKeys := c.declaredKeys.insert s.target }.Listed where
  isDeclared_iff := by
    intro key
    rw [isDeclared_insert, hl.isDeclared_iff]
    simp
  known := by
    intro r hr
    rcases List.mem_cons.1 hr with rfl | hr
    · exact hs
    · exact hl.known hr
  nodup := by
    refine List.nodup_cons.2 ⟨?_, hl.nodup⟩
    intro hmem
    rw [hl.isDeclared_iff.2 ⟨s, hmem, rfl⟩] at hnew
    cases hnew
  afterDeps := ⟨hdeps, hl.afterDeps⟩

mutual

/-- Declaring a symbol adds it and what it needs. -/
theorem declare_spec {c : ExprCache} (hc : c.Valid) (hl : c.Listed) :
    (s : Symbol) → c.Known s → Declaring [s] c (declare c s)
  | ⟨name, target, number, deps⟩, hs => by
      rw [declare]
      split
      · rename_i h
        obtain ⟨r, hr, htarget⟩ := hl.isDeclared_iff.1 h
        have heq := (hl.known hr).eq_of_target hs htarget
        subst heq
        refine ⟨⟨[], c.declaredKeys, rfl, by simp⟩, hl, ?_⟩
        simpa using hr
      · rename_i h
        have hdeps := declareAll_spec hc hl deps fun d hd => (hc.deps_known hs hd).1
        obtain ⟨new, keys, heq, hneeds⟩ := hdeps.frame
        have hknown : (declareAll c deps).Known ⟨name, target, number, deps⟩ := by
          rw [heq]
          exact hs
        -- no dependency needs the symbol itself, since numbers go down
        have hnew : (declareAll c deps).isDeclared target = false := by
          apply Bool.eq_false_iff.2
          intro hdeclared
          obtain ⟨r, hr, htarget⟩ := hdeps.listed.isDeclared_iff.1 hdeclared
          have hself := (hdeps.listed.known hr).eq_of_target hknown htarget
          subst hself
          rw [heq] at hr
          rcases List.mem_append.1 hr with hr | hr
          · obtain ⟨d, hd, hneed⟩ := hneeds _ hr
            have hlt := (hc.deps_known hs hd).2
            exact absurd (hc.number_le_of_needs (hc.deps_known hs hd).1 hneed).2 (Nat.not_le.2 hlt)
          · exact h (hl.isDeclared_iff.2 ⟨_, hr, rfl⟩)
        refine ⟨⟨⟨name, target, number, deps⟩ :: new, keys.insert target, ?_, ?_⟩,
          hdeps.listed.cons hknown hnew hdeps.declared, ?_⟩
        · rw [heq]
          rfl
        · intro r hr
          refine ⟨_, List.mem_singleton_self _, ?_⟩
          rcases List.mem_cons.1 hr with rfl | hr
          · exact .self _
          · obtain ⟨d, hd, hneed⟩ := hneeds r hr
            exact .dep hd hneed
        · intro r hr
          exact List.mem_cons.2 (Or.inl (List.mem_singleton.1 hr))

/-- Declaring symbols adds them and what they need. -/
theorem declareAll_spec {c : ExprCache} (hc : c.Valid) (hl : c.Listed) :
    (ss : List Symbol) → (∀ s ∈ ss, c.Known s) → Declaring ss c (declareAll c ss)
  | [], _ => ⟨⟨[], c.declaredKeys, rfl, by simp⟩, hl, by simp⟩
  | s :: ss, hss => by
      have hfirst := declare_spec hc hl s (hss s List.mem_cons_self)
      obtain ⟨new, keys, heq, hneeds⟩ := hfirst.frame
      have hrest := declareAll_spec (hfirst.valid hc) hfirst.listed ss (by
        intro r hr
        rw [heq]
        exact hss r (List.mem_cons_of_mem _ hr))
      obtain ⟨new', keys', heq', hneeds'⟩ := hrest.frame
      rw [declareAll]
      refine ⟨⟨new' ++ new, keys', ?_, ?_⟩, hrest.listed, ?_⟩
      · rw [heq', heq, List.append_assoc]
      · intro r hr
        rcases List.mem_append.1 hr with hr | hr
        · obtain ⟨t, ht, h⟩ := hneeds' r hr
          exact ⟨t, List.mem_cons_of_mem _ ht, h⟩
        · obtain ⟨t, ht, h⟩ := hneeds r hr
          exact ⟨t, List.mem_cons.2 (Or.inl (List.mem_singleton.1 ht)), h⟩
      · intro r hr
        rcases List.mem_cons.1 hr with rfl | hr
        · rw [heq']
          exact List.mem_append_right _ (hfirst.declared r (List.mem_singleton_self r))
        · exact hrest.declared r hr

end

theorem Extends.listed {c c' : ExprCache} (h : c.Extends c') (hl : c.Listed) : c'.Listed where
  isDeclared_iff := by
    intro key
    rw [isDeclared, h.declaredKeys, h.declared]
    exact hl.isDeclared_iff
  known := by
    intro s hs
    rw [h.declared] at hs
    exact h.symbol (hl.known hs)
  nodup := h.declared ▸ hl.nodup
  afterDeps := h.declared ▸ hl.afterDeps

/-- Printing through the cache declares what is named. -/
theorem declaring_substituteAndDeclare {c : ExprCache} (hc : c.Valid) (hl : c.Listed) (e : Expr) :
    Declaring (c.naming e).2 c (c.substituteAndDeclare e).2.2 := by
  apply declareAll_spec hc hl
  intro s hs
  obtain ⟨d, hd⟩ := lookup?_of_mem_naming hs
  exact hc.known hd

theorem listed_clear (c : ExprCache) : c.clear.Listed where
  isDeclared_iff := by
    intro key
    simp [isDeclared, clear]
  known := fun hs => by cases hs
  nodup := List.nodup_nil
  afterDeps := trivial

end ExprCache

end TensorTemplate
