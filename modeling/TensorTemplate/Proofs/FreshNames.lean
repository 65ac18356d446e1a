import TensorTemplate.Proofs.ExprCache.Sharing
import TensorTemplate.Proofs.Temporaries

/-!
No name is made twice.

A generator starts its count again only together with a new generation, so of the
names of one kernel, each has a later generation than those before it, or the same
generation and a higher count. Names of different kernels differ anyway. The caches
make names in this way and no other: every call of a cache is a run of their two
generators, and what the call has put into the tables carries the names of that run.
-/

namespace TensorTemplate

open NameGen

/-! ### Generators that share a generation -/

/-- Name generators with one generation for all of them. -/
structure Mint where
  generation : Nat := 0
  gens : List NameGen
deriving DecidableEq, Repr

namespace Mint

/-- What can be asked of the generators. -/
inductive Step where
  /-- A name of this generator. -/
  | fresh (i : Nat)
  | advance
  /-- The count of this generator starts again, in a new generation. -/
  | restart (i : Nat)
deriving DecidableEq, Repr

/-- The names that a step gives, and the generators after it. -/
def step (m : Mint) : Step → List String × Mint
  | .fresh i =>
    match m.gens[i]? with
    | none => ([], m)
    | some g =>
      let (name, g) := g.fresh m.generation
      ([name], { m with gens := m.gens.set i g })
  | .advance => ([], { m with generation := m.generation + 1 })
  | .restart i => ([], { generation := m.generation + 1, gens := m.gens.modify i reset })

/-- The names that the steps give, one after the other, and the generators after them. -/
def run (m : Mint) : List Step → List String × Mint
  | [] => ([], m)
  | s :: steps =>
    let (names, m) := m.step s
    let (more, m) := m.run steps
    (names ++ more, m)

/-- A name that comes before all that the generators have still to give. -/
def Given (m : Mint) (name : String) : Prop :=
  ∃ (i : Nat) (g : NameGen) (generation count : Nat), m.gens[i]? = some g ∧
    name = nameOf g.kernel generation count ∧
    (generation < m.generation ∨ generation = m.generation ∧ count < g.count)

theorem kernels_step (m : Mint) (s : Step) :
    (m.step s).2.gens.map (·.kernel) = m.gens.map (·.kernel) := by
  cases s with
  | fresh i =>
      simp only [step]
      split
      · rfl
      · rename_i g hg
        obtain ⟨hi, rfl⟩ := List.getElem?_eq_some_iff.1 hg
        apply List.ext_getElem
        · simp
        · intro j hj _
          simp only [List.getElem_map, List.getElem_set]
          split
          · rename_i hij
            subst hij
            rfl
          · rfl
  | advance => rfl
  | restart i =>
      apply List.ext_getElem
      · simp [step]
      · intro j hj _
        simp only [step, List.getElem_map, List.getElem_modify]
        split
        · rfl
        · rfl

/-- A name that is given stays so. -/
theorem Given.step {m : Mint} {name : String} (h : m.Given name) (s : Step) :
    (m.step s).2.Given name := by
  obtain ⟨i, g, generation, count, hg, hname, hbefore⟩ := h
  cases s with
  | fresh j =>
      simp only [Mint.step]
      split
      · exact ⟨i, g, generation, count, hg, hname, hbefore⟩
      · rename_i g' hg'
        by_cases hij : j = i
        · subst hij
          rw [hg] at hg'
          cases hg'
          have hlength : j < m.gens.length := (List.getElem?_eq_some_iff.1 hg).1
          refine ⟨j, { g with count := g.count + 1 }, generation, count, ?_, hname, ?_⟩
          · simp [hlength, fresh]
          · exact hbefore.imp_right fun h => ⟨h.1, Nat.lt_succ_of_lt h.2⟩
        · refine ⟨i, g, generation, count, ?_, hname, hbefore⟩
          simp [hij, hg]
  | advance =>
      refine ⟨i, g, generation, count, hg, hname, Or.inl ?_⟩
      show generation < m.generation + 1
      omega
  | restart j =>
      -- in the new generation no count matters
      have hlt : generation < m.generation + 1 := by omega
      by_cases hij : j = i
      · subst hij
        refine ⟨j, g.reset, generation, count, ?_, hname, Or.inl hlt⟩
        simp [Mint.step, hg]
      · refine ⟨i, g, generation, count, ?_, hname, Or.inl hlt⟩
        simp [Mint.step, hij, hg]

/-- What a step gives is given after it. -/
theorem given_of_mem_step {m : Mint} {s : Step} {name : String} (h : name ∈ (m.step s).1) :
    (m.step s).2.Given name := by
  cases s with
  | fresh i =>
      simp only [step] at h ⊢
      split at h
      · cases h
      · rename_i g hg
        have hlength : i < m.gens.length := (List.getElem?_eq_some_iff.1 hg).1
        rw [List.mem_singleton.1 h]
        refine ⟨i, { g with count := g.count + 1 }, m.generation, g.count, ?_, rfl,
          Or.inr ⟨rfl, Nat.lt_succ_self _⟩⟩
        simp [hlength, fresh]
  | advance => cases h
  | restart i => cases h

/-- No step gives a name that is given already. -/
theorem not_given_of_mem_step {m : Mint} (hm : (m.gens.map (·.kernel)).Nodup) {s : Step}
    {name : String} (h : name ∈ (m.step s).1) : ¬m.Given name := by
  cases s with
  | fresh i =>
      simp only [step] at h
      split at h
      · cases h
      · rename_i g hg
        rintro ⟨j, g', generation, count, hg', hname, hbefore⟩
        have hfresh : name = nameOf g.kernel m.generation g.count := List.mem_singleton.1 h
        obtain ⟨hkernel, hgeneration, hcount⟩ := nameOf_inj (hfresh.symm.trans hname)
        -- one kernel is one generator, so the name would have to come before itself
        have hij : i = j := by
          have hi : i < m.gens.length := (List.getElem?_eq_some_iff.1 hg).1
          apply (List.getElem?_inj (by simpa using hi) hm).1
          rw [List.getElem?_map, List.getElem?_map, hg, hg']
          exact congrArg some hkernel
        rw [← hij, hg] at hg'
        cases hg'
        omega
  | advance => cases h
  | restart i => cases h

theorem nodup_step (m : Mint) (s : Step) : (m.step s).1.Nodup := by
  cases s with
  | fresh i =>
      simp only [step]
      split
      · exact List.nodup_nil
      · exact List.nodup_singleton _
  | advance => exact List.nodup_nil
  | restart i => exact List.nodup_nil

/-- Generators with different kernels never give a name twice, nor one that is given already. -/
theorem nodup_run {m : Mint} (hm : (m.gens.map (·.kernel)).Nodup) (steps : List Step) :
    (m.run steps).1.Nodup ∧ ∀ name ∈ (m.run steps).1, ¬m.Given name := by
  induction steps generalizing m with
  | nil => simp [run]
  | cons s steps ih =>
      have hkernels : ((m.step s).2.gens.map (·.kernel)).Nodup := by rwa [kernels_step]
      obtain ⟨hnodup, hlater⟩ := ih hkernels
      simp only [run]
      constructor
      · refine List.nodup_append.2 ⟨m.nodup_step s, hnodup, ?_⟩
        rintro name hname _ hname' rfl
        exact hlater name hname' (given_of_mem_step hname)
      · intro name hname
        rcases List.mem_append.1 hname with hname | hname
        · exact not_given_of_mem_step hm hname
        · exact fun hgiven => hlater name hname (hgiven.step s)

theorem run_append (m : Mint) (steps steps' : List Step) :
    m.run (steps ++ steps') =
      ((m.run steps).1 ++ ((m.run steps).2.run steps').1, ((m.run steps).2.run steps').2) := by
  induction steps generalizing m with
  | nil => rfl
  | cons s steps ih => simp [run, ih]

/-- Names of one generator, in a row. -/
theorem run_replicate_fresh {m : Mint} {i : Nat} {g : NameGen} (hg : m.gens[i]? = some g)
    (n : Nat) :
    m.run (List.replicate n (.fresh i)) =
      ((List.range' g.count n).map (nameOf g.kernel m.generation),
        { m with gens := m.gens.set i { g with count := g.count + n } }) := by
  induction n with
  | zero =>
      obtain ⟨hi, rfl⟩ := List.getElem?_eq_some_iff.1 hg
      show ([], m) = ([], { m with gens := m.gens.set i m.gens[i] })
      rw [List.set_getElem_self]
  | succ n ih =>
      have hi : i < m.gens.length := (List.getElem?_eq_some_iff.1 hg).1
      rw [List.replicate_succ', run_append, ih, List.range'_concat]
      simp [run, step, hi, fresh, Nat.add_assoc]

end Mint

/-! ### The expression cache -/

namespace ExprCache

/-- The names of the symbols that came under new keys between two states of a cache. -/
def madeSince (c c' : ExprCache) : List String :=
  (c'.symbols.toList.filter fun entry => (c.symbol? entry.1).isNone).map (·.2.name)

theorem madeSince_self (c : ExprCache) : c.madeSince c = [] := by
  have hnone : (c.symbols.toList.filter fun entry => (c.symbol? entry.1).isNone) = [] := by
    rw [List.filter_eq_nil_iff]
    rintro ⟨key, s⟩ hmem
    have hkey := Std.TreeMap.mem_toList_iff_getElem?_eq_some.1 hmem
    simp [symbol?, hkey]
  simp [madeSince, hnone]

theorem madeSince_clear (c : ExprCache) : c.madeSince c.clear = [] := by
  have hempty : c.clear.symbols.toList = [] := rfl
  simp [madeSince, hempty]

/-- A cache that makes symbols for `n` new keys takes `n` names in a row. -/
structure Makes (generation n : Nat) (c c' : ExprCache) : Prop where
  names : c'.names = { c.names with count := c.names.count + n }
  misses : c'.misses = c.misses + n
  made : (c.madeSince c').Perm
    ((List.range' c.names.count n).map (nameOf c.names.kernel generation))

theorem makes_self (generation : Nat) (c : ExprCache) : c.Makes generation 0 c :=
  ⟨rfl, rfl, by simp [madeSince_self]⟩

/-- Entering an expression makes at most one symbol more. -/
theorem Makes.enter {generation n : Nat} {c d : ExprCache} (h : c.Makes generation n d)
    (hext : c.Extends d) (e : Expr) (deps : List Symbol) :
    ∃ n, c.Makes generation n (d.enter generation e deps).1 := by
  cases hkey : d.symbol? (d.substituted e) with
  | some s =>
      rw [enter_of_some _ _ hkey]
      exact ⟨n, h.names, h.misses, h.made⟩
  | none =>
      rw [enter_of_none _ _ hkey]
      generalize hnew : d.entered generation e deps = s
      have htarget : s.target = d.substituted e := by simp [← hnew, entered, hkey]
      have hname : s.name = nameOf c.names.kernel generation (c.names.count + n) := by
        simp [← hnew, entered, hkey, h.names]
      -- a key that is new to `d` was new to `c`
      have hunknown : (c.symbol? (d.substituted e)).isNone = true := by
        cases hold : c.symbol? (d.substituted e) with
        | none => rfl
        | some r =>
            rw [hext.symbol hold] at hkey
            cases hkey
      have hothers : (d.symbols.toList.filter fun entry =>
          decide ¬(d.substituted e == entry.1) = true) = d.symbols.toList := by
        rw [List.filter_eq_self]
        rintro ⟨key, r⟩ hmem
        have hr := Std.TreeMap.mem_toList_iff_getElem?_eq_some.1 hmem
        have hne : d.substituted e ≠ key := by
          rintro rfl
          rw [symbol?, hr] at hkey
          cases hkey
        simpa using hne
      have htable : (d.symbols.insert s.target s).toList.Perm
          ((d.substituted e, s) :: d.symbols.toList) := by
        have hinsert := Std.TreeMap.toList_insert_perm (t := d.symbols) (k := s.target) (v := s)
        rw [htarget, hothers] at hinsert
        rwa [htarget]
      refine ⟨n + 1, ?_, ?_, ?_⟩
      · simp [h.names, Nat.add_assoc]
      · simp [h.misses, Nat.add_assoc]
      · have hmade := (htable.filter fun entry => (c.symbol? entry.1).isNone).map (·.2.name)
        simp only [List.filter_cons, hunknown, if_true, List.map_cons] at hmade
        rw [List.range'_concat, List.map_append]
        refine hmade.trans ((h.made.cons _).trans ?_)
        rw [hname]
        simpa using (List.perm_append_singleton _ _).symm

theorem Entering.makes {generation : Nat} {S : Expr → Prop} {c c' : ExprCache}
    (h : Entering generation S c c') : ∃ n, c.Makes generation n c' := by
  induction h with
  | refl => exact ⟨0, makes_self _ _⟩
  | hit _ ih =>
      obtain ⟨n, hn⟩ := ih
      exact ⟨n, hn.names, hn.misses, hn.made⟩
  | enter hrun _ _ _ ih =>
      obtain ⟨n, hn⟩ := ih
      exact hn.enter hrun.grows _ _

end ExprCache

/-! ### The lambda cache -/

namespace LambdaCache

/-- The names of the records behind those that were there. -/
def madeSince (c c' : LambdaCache) : List String :=
  (c'.atomic.drop c.atomic.length ++ c'.mapped.drop c.mapped.length).map (·.name)

theorem madeSince_self (c : LambdaCache) : c.madeSince c = [] := by simp [madeSince]

theorem madeSince_clear (c : LambdaCache) : c.madeSince c.clear = [] := by
  simp [madeSince, clear]

theorem madeSince_push (c : LambdaCache) (r : LambdaRecord) : c.madeSince (c.push r) = [r.name] := by
  unfold push
  split
  · simp [madeSince]
  · simp [madeSince]

theorem misses_push (c : LambdaCache) (r : LambdaRecord) : (c.push r).misses = c.misses := by
  unfold push
  split <;> rfl

end LambdaCache

/-! ### Both caches -/

namespace Temporaries

/-- The names that came into the caches between two states. -/
def madeSince (t t' : Temporaries) : List String :=
  t.exprs.madeSince t'.exprs ++ t.lambdas.madeSince t'.lambdas

/-- How often a cache has made a name. -/
def misses (t : Temporaries) : Nat := t.exprs.misses + t.lambdas.misses

/-- The generators of the caches. -/
def mint (t : Temporaries) : Mint := ⟨t.generation, [t.exprs.names, t.lambdas.names]⟩

/-- The caches have come from the first state to the second by a run of their generators, which gave
the names that were made. -/
def Mints (t : Temporaries) (names : List String) (t' : Temporaries) : Prop :=
  t'.misses = t.misses + names.length ∧
    ∃ steps, (t.mint.run steps).2 = t'.mint ∧ names.Perm (t.mint.run steps).1

theorem Mints.trans {t t' t'' : Temporaries} {names names' : List String} (h : t.Mints names t')
    (h' : t'.Mints names' t'') : t.Mints (names ++ names') t'' := by
  obtain ⟨hmisses, steps, hmint, hperm⟩ := h
  obtain ⟨hmisses', steps', hmint', hperm'⟩ := h'
  refine ⟨?_, steps ++ steps', ?_, ?_⟩
  · rw [hmisses', hmisses, List.length_append, Nat.add_assoc]
  · rw [Mint.run_append, hmint, hmint']
  · rw [Mint.run_append, hmint]
    exact hperm.append hperm'

variable {t : Temporaries}

theorem Steady.parse (ht : t.Steady) (e : Expr) : (t.parse e).Steady := by
  have hentering := (ExprCache.parse_spec t.generation ht.valid e).1
  exact ⟨hentering.valid ht.valid, hentering.grows.listed ht.listed⟩

theorem Steady.substituteAndDeclare (ht : t.Steady) (e : Expr) :
    (t.substituteAndDeclare e).2.Steady := by
  have hdeclaring := ExprCache.declaring_substituteAndDeclare ht.valid ht.listed e
  exact ⟨hdeclaring.valid ht.valid, hdeclaring.listed⟩

theorem Steady.mints_parse (ht : t.Steady) (e : Expr) :
    t.Mints (t.madeSince (t.parse e)) (t.parse e) := by
  obtain ⟨n, hn⟩ := (ExprCache.parse_spec t.generation ht.valid e).1.makes
  have hmade : t.madeSince (t.parse e) = t.exprs.madeSince (t.exprs.parse t.generation e) := by
    simp [madeSince, Temporaries.parse, LambdaCache.madeSince_self]
  have hrun := Mint.run_replicate_fresh (m := t.mint) (i := 0) (g := t.exprs.names) rfl n
  rw [hmade]
  refine ⟨?_, List.replicate n (.fresh 0), ?_, ?_⟩
  · have hlength := hn.made.length_eq
    have hmisses := hn.misses
    simp only [List.length_map, List.length_range'] at hlength
    simp only [misses, Temporaries.parse, hmisses, hlength]
    omega
  · rw [hrun]
    simp [mint, Temporaries.parse, hn.names]
  · rw [hrun]
    exact hn.made

/-- Declaring changes neither the table nor the generators. -/
theorem Steady.mint_substituteAndDeclare (ht : t.Steady) (e : Expr) :
    let t' := (t.substituteAndDeclare e).2
    t'.mint = t.mint ∧ t'.misses = t.misses ∧ ∀ s : Temporaries, s.madeSince t' = s.madeSince t := by
  obtain ⟨new, keys, heq, _⟩ :=
    (ExprCache.declaring_substituteAndDeclare ht.valid ht.listed e).frame
  have hexprs : (t.substituteAndDeclare e).2 = { t with
      exprs := { t.exprs with declared := new ++ t.exprs.declared, declaredKeys := keys } } := by
    rw [← heq]
    rfl
  intro t'
  have ht' : t' = _ := hexprs
  rw [ht']
  exact ⟨rfl, rfl, fun _ => rfl⟩

theorem mints_cacheLambda (t : Temporaries) (l : Lambda) :
    t.Mints (t.madeSince (t.cacheLambda l).2) (t.cacheLambda l).2 := by
  have hlambdas : (t.cacheLambda l).2 = { t with lambdas := (t.lambdas.enter t.generation l).2 } :=
    rfl
  have hmade : t.madeSince (t.cacheLambda l).2 =
      t.lambdas.madeSince (t.lambdas.enter t.generation l).2 := by
    simp [madeSince, hlambdas, ExprCache.madeSince_self]
  rw [hmade, hlambdas]
  rcases t.lambdas.enter_cases t.generation l with ⟨r, _, heq⟩ | heq
  · rw [heq]
    have hnone : t.lambdas.madeSince { t.lambdas with hits := t.lambdas.hits + 1 } = [] :=
      t.lambdas.madeSince_self
    rw [hnone]
    exact ⟨rfl, [], rfl, List.Perm.nil⟩
  · rw [heq]
    generalize hr : (⟨nameOf t.lambdas.names.kernel t.generation t.lambdas.names.count, l⟩ :
      LambdaRecord) = r
    let c : LambdaCache :=
      { t.lambdas with
        names := { t.lambdas.names with count := t.lambdas.names.count + 1 }
        misses := t.lambdas.misses + 1 }
    have hone : t.lambdas.madeSince (c.push r) = [r.name] := c.madeSince_push r
    have hnames : (c.push r).names = c.names := (c.push_frame r).2
    show t.Mints (t.lambdas.madeSince (c.push r)) { t with lambdas := c.push r }
    rw [hone]
    refine ⟨?_, [.fresh 1], ?_, ?_⟩
    · show t.exprs.misses + (c.push r).misses = t.exprs.misses + t.lambdas.misses + 1
      rw [c.misses_push, Nat.add_assoc]
    · show (⟨t.generation, [t.exprs.names, c.names]⟩ : Mint) =
        ⟨t.generation, [t.exprs.names, (c.push r).names]⟩
      rw [hnames]
    · rw [← hr]
      rfl

end Temporaries

/-- A call of one of the caches. -/
inductive TemporariesCall where
  | exprs (call : CacheCall)
  | cacheLambda (l : Lambda)
  | clearLambdas

namespace TemporariesCall

def run (t : Temporaries) : TemporariesCall → Temporaries
  | exprs call => call.run t
  | cacheLambda l => (t.cacheLambda l).2
  | clearLambdas => t.clearLambdas

def runAll (t : Temporaries) (calls : List TemporariesCall) : Temporaries := calls.foldl run t

/-- All names that the caches make, call by call. -/
def minted (t : Temporaries) : List TemporariesCall → List String
  | [] => []
  | call :: calls => t.madeSince (call.run t) ++ minted (call.run t) calls

variable {t : Temporaries}

theorem mints_run (ht : t.Steady) (call : TemporariesCall) :
    t.Mints (t.madeSince (call.run t)) (call.run t) := by
  have hself : t.madeSince t = [] := by
    simp [Temporaries.madeSince, ExprCache.madeSince_self, LambdaCache.madeSince_self]
  cases call with
  | exprs call =>
      cases call with
      | parse e => exact ht.mints_parse e
      | emit e =>
          obtain ⟨hmint, hmisses, hmade⟩ := (ht.parse e).mint_substituteAndDeclare e
          obtain ⟨hmisses', steps, hsteps, hperm⟩ := ht.mints_parse e
          show t.Mints (t.madeSince ((t.parse e).substituteAndDeclare e).2)
            ((t.parse e).substituteAndDeclare e).2
          rw [hmade]
          exact ⟨hmisses.trans hmisses', steps, hsteps.trans hmint.symm, hperm⟩
      | substitute e =>
          show t.Mints (t.madeSince t) t
          rw [hself]
          exact ⟨rfl, [], rfl, List.Perm.nil⟩
      | substituteAndDeclare e =>
          obtain ⟨hmint, hmisses, hmade⟩ := ht.mint_substituteAndDeclare e
          show t.Mints (t.madeSince (t.substituteAndDeclare e).2) (t.substituteAndDeclare e).2
          rw [hmade, hself]
          exact ⟨hmisses, [], hmint.symm, List.Perm.nil⟩
      | clear =>
          have hnone : t.madeSince t.clearExprs = [] := by
            simp [Temporaries.madeSince, Temporaries.clearExprs, Temporaries.advance,
              ExprCache.madeSince_clear, LambdaCache.madeSince_self]
          show t.Mints (t.madeSince t.clearExprs) t.clearExprs
          rw [hnone]
          exact ⟨rfl, [.advance], rfl, List.Perm.nil⟩
      | advance =>
          show t.Mints (t.madeSince t.advance) t.advance
          have hnone : t.madeSince t.advance = [] := hself
          rw [hnone]
          exact ⟨rfl, [.advance], rfl, List.Perm.nil⟩
  | cacheLambda l => exact t.mints_cacheLambda l
  | clearLambdas =>
      have hnone : t.madeSince t.clearLambdas = [] := by
        simp [Temporaries.madeSince, Temporaries.clearLambdas, Temporaries.advance,
          LambdaCache.madeSince_clear, ExprCache.madeSince_self]
      show t.Mints (t.madeSince t.clearLambdas) t.clearLambdas
      rw [hnone]
      exact ⟨rfl, [.restart 1], rfl, List.Perm.nil⟩

theorem steady_run (ht : t.Steady) (call : TemporariesCall) : (call.run t).Steady := by
  cases call with
  | exprs call =>
      cases call with
      | parse e => exact ht.parse e
      | emit e => exact ht.emit e
      | substitute e => exact ht
      | substituteAndDeclare e => exact ht.substituteAndDeclare e
      | clear => exact ⟨t.exprs.valid_clear, t.exprs.listed_clear⟩
      | advance => exact ⟨ht.valid, ht.listed⟩
  | cacheLambda l => exact ⟨ht.valid, ht.listed⟩
  | clearLambdas => exact ⟨ht.valid, ht.listed⟩

/-- The names of a whole run of the caches are those of a run of their generators. -/
theorem mints_runAll (ht : t.Steady) (calls : List TemporariesCall) :
    t.Mints (minted t calls) (runAll t calls) := by
  induction calls generalizing t with
  | nil => exact ⟨rfl, [], rfl, List.Perm.nil⟩
  | cons call calls ih => exact (mints_run ht call).trans (ih (steady_run ht call))

/-- Caches with different kernels never make a name twice, however their calls and clearings are
mixed, and every name counts as a miss. The same is true of any generators with different kernels
that share a generation. -/
theorem minted_nodup (b : Backend) {exprKernel lambdaKernel : String}
    (hkernels : exprKernel ≠ lambdaKernel) (calls : List TemporariesCall) :
    let t := Temporaries.new b exprKernel lambdaKernel
    (minted t calls).Nodup ∧ (minted t calls).length = (runAll t calls).misses ∧
      ∀ m : Mint, (m.gens.map (·.kernel)).Nodup → ∀ steps, (m.run steps).1.Nodup := by
  intro t
  have hsteady : t.Steady :=
    ⟨(ExprCache.new b exprKernel).valid_clear, (ExprCache.new b exprKernel).listed_clear⟩
  obtain ⟨hmisses, steps, _, hperm⟩ := mints_runAll hsteady calls
  have hdistinct : (t.mint.gens.map (·.kernel)).Nodup := by
    simpa [Temporaries.mint, t, Temporaries.new, ExprCache.new, LambdaCache.new] using hkernels
  refine ⟨hperm.nodup_iff.2 (Mint.nodup_run hdistinct steps).1, ?_, ?_⟩
  · rw [hmisses]
    exact (Nat.zero_add _).symm
  · exact fun m hm steps => (Mint.nodup_run hm steps).1

/-- Five names under kernels of which one begins like a name of the other. -/
theorem minted_nodup_alike :
    let sum : Expr := .sum [.var "x", .lit 1]
    let value : Lambda := ⟨"V", [], .value sum⟩
    let calls : List TemporariesCall :=
      [.exprs (.parse (.product [sum, sum])), .cacheLambda value, .clearLambdas, .exprs (.emit sum),
        .cacheLambda value, .cacheLambda value, .exprs .clear, .exprs (.emit sum)]
    let m : Mint := ⟨0, [⟨"t", 0⟩, ⟨"t_0", 0⟩, ⟨"t_0_0", 7⟩]⟩
    let steps : List Mint.Step :=
      [.fresh 0, .fresh 1, .restart 1, .fresh 1, .fresh 2, .fresh 0, .advance, .fresh 0]
    "t" ≠ "t_0" ∧ (minted (.new .cpp "t" "t_0") calls).Nodup ∧
      (minted (.new .cpp "t" "t_0") calls).length = 5 ∧ (m.run steps).1.Nodup := by
  intro sum value calls m steps
  obtain ⟨hnodup, hlength, hmint⟩ := minted_nodup .cpp (show "t" ≠ "t_0" by decide) calls
  exact ⟨by decide, hnodup, hlength.trans (by decide +kernel), hmint m (by decide) steps⟩

end TemporariesCall

end TensorTemplate
