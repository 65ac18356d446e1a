import TensorTemplate.Proofs.ExprCache.Declaring
import TensorTemplate.Temporaries
import Mathlib.Data.Finset.Card

/-!
Sharing is exact.

Keys of symbols are printed texts, so two expressions could share a symbol without
being equal. Of expressions that the target languages can read, with names that no
generator makes, this never happens: printed through its operands' names, such an
expression can be read back, operator and operands. So each distinct compound
expression has a symbol of its own, and how many symbols there are does not depend
on the order of the calls.
-/

namespace TensorTemplate

open NameGen

/-! ### Expressions that can be read back -/

/-- How many operands an operator takes. -/
def Op.Takes : Op → Nat → Prop
  | .add, n => 2 ≤ n
  | .mul, n => 2 ≤ n
  | .neg, n => n = 1
  | .pow, n => n = 2
  | .call _, _ => True

instance (op : Op) (n : Nat) : Decidable (op.Takes n) :=
  match op with
  | .add => inferInstanceAs (Decidable (2 ≤ n))
  | .mul => inferInstanceAs (Decidable (2 ≤ n))
  | .neg => inferInstanceAs (Decidable (n = 1))
  | .pow => inferInstanceAs (Decidable (n = 2))
  | .call _ => inferInstanceAs (Decidable True)

/-- A name that the target languages read as one and that no generator of the kernel makes. -/
def IsPlainName (kernel name : String) : Prop := isIdentifier name = true ∧ ¬Minted kernel name

/-- Every operator has as many operands as it takes, and all names are plain. -/
inductive Expr.WellFormed (kernel : String) : Expr → Prop where
  | lit (n : Int) : WellFormed kernel (.lit n)
  | var {x : String} (hx : IsPlainName kernel x) : WellFormed kernel (.var x)
  | node {op : Op} {cs : List Expr} (harity : op.Takes cs.length)
      (hname : ∀ f, op = .call f → IsPlainName kernel f) (hcs : ∀ c ∈ cs, WellFormed kernel c) :
      WellFormed kernel (.node op cs)

theorem Expr.WellFormed.of_mem_preorder {kernel : String} {d e : Expr} (he : e.WellFormed kernel)
    (hd : d ∈ e.preorder) : d.WellFormed kernel := by
  induction he with
  | lit n =>
      rw [List.mem_singleton.1 hd]
      exact .lit n
  | var hx =>
      rw [List.mem_singleton.1 hd]
      exact .var hx
  | node harity hname hcs ih =>
      rw [Expr.preorder, List.mem_cons, Expr.mem_preorderList] at hd
      rcases hd with rfl | ⟨c, hc, hd⟩
      · exact .node harity hname hcs
      · exact ih c hc hd

theorem Operand.exists_nodeTerm {op : Op} {os : List Operand} (h : op.Takes os.length) :
    ∃ t, NodeTerm op os t := by
  match op, os, h with
  | .add, o :: p :: os, _ => exact ⟨_, .add o p os⟩
  | .mul, o :: p :: os, _ => exact ⟨_, .mul o p os⟩
  | .neg, [o], _ => exact ⟨_, .neg o⟩
  | .pow, [o, p], _ => exact ⟨_, .pow o p⟩
  | .call f, os, _ => exact ⟨_, .call f os⟩

namespace ExprCache

/-! ### Caches of such expressions -/

/-- What is true of a cache that has only parsed well-formed expressions. -/
structure Exact (c : ExprCache) : Prop where
  isIdentifier_kernel : isIdentifier c.names.kernel = true
  wellFormed : ∀ {e s}, c.lookup? e = some s → e.WellFormed c.names.kernel
  inj : ∀ {e d s}, c.lookup? e = some s → c.lookup? d = some s → e = d
  mem_deps : ∀ {e s d r}, c.lookup? e = some s → d ∈ e.children → c.lookup? d = some r → r ∈ s.deps
  size_eq : c.symbols.size = c.parsed.size

theorem operand_fits {c : ExprCache} (hc : c.Valid) (hkernel : isIdentifier c.names.kernel = true)
    {e : Expr} (he : e.WellFormed c.names.kernel) (hparsed : c.Covers [e]) :
    (c.operand e).Fits := by
  cases he with
  | lit n => trivial
  | var hx => exact hx.1
  | node _ _ _ =>
      obtain ⟨s, hs⟩ := hparsed _ List.mem_cons_self rfl
      obtain ⟨generation, hname⟩ := hc.name_eq (hc.known hs)
      rw [operand_of_lookup? hc.leafFree hs, hname]
      exact isIdentifier_nameOf hkernel _ _

/-- Operands that differ look different. -/
theorem Exact.operand_inj {c : ExprCache} (hc : c.Valid) (hx : c.Exact) {e d : Expr}
    (he : e.WellFormed c.names.kernel) (hd : d.WellFormed c.names.kernel) (hpe : c.Covers [e])
    (hpd : c.Covers [d]) (h : c.operand e = c.operand d) : e = d := by
  -- a symbol's name is made by the generator, and a plain name is not
  have hminted : ∀ {e s x}, c.lookup? e = some s → IsPlainName c.names.kernel x → s.name ≠ x := by
    rintro e s x hs hplain rfl
    obtain ⟨generation, hname⟩ := hc.name_eq (hc.known hs)
    exact hplain.2 ⟨generation, s.number, hname⟩
  cases he with
  | lit n =>
      cases hd with
      | lit m => rw [Operand.lit.inj h]
      | var _ => cases h
      | node _ _ _ => cases h
  | var hplain =>
      cases hd with
      | lit m => cases h
      | var _ => rw [Operand.name.inj h]
      | node _ _ _ =>
          obtain ⟨r, hr⟩ := hpd _ List.mem_cons_self rfl
          rw [operand_of_lookup? hc.leafFree hr] at h
          exact absurd (Operand.name.inj h).symm (hminted hr hplain)
  | node _ _ _ =>
      obtain ⟨s, hs⟩ := hpe _ List.mem_cons_self rfl
      rw [operand_of_lookup? hc.leafFree hs] at h
      cases hd with
      | lit n => cases h
      | var hplain => exact absurd (Operand.name.inj h) (hminted hs hplain)
      | node _ _ _ =>
          obtain ⟨r, hr⟩ := hpd _ List.mem_cons_self rfl
          rw [operand_of_lookup? hc.leafFree hr] at h
          have hsr := hc.name_inj (hc.known hs) (hc.known hr) (Operand.name.inj h)
          exact hx.inj hs (hsr ▸ hr)

theorem Covers.singleton {c : ExprCache} {es : List Expr} (hes : c.Covers es) {e : Expr}
    (he : e ∈ es) : c.Covers [e] := by
  intro d hd
  rw [List.mem_singleton.1 hd]
  exact hes e he

/-- A well-formed expression with parsed operands is printed as a term of one level. -/
theorem readsAs_substituted {c : ExprCache} (hc : c.Valid)
    (hkernel : isIdentifier c.names.kernel = true) {op : Op} {cs : List Expr}
    (he : (Expr.node op cs).WellFormed c.names.kernel) (hcs : c.Covers cs) :
    ∃ t, Operand.NodeTerm op (cs.map c.operand) t ∧
      c.backend.ReadsAs (c.substituted (.node op cs)) t := by
  cases he with
  | node harity hname hchildren =>
      obtain ⟨t, ht⟩ : ∃ t, Operand.NodeTerm op (cs.map c.operand) t :=
        Operand.exists_nodeTerm (by simpa using harity)
      refine ⟨t, ht, ?_⟩
      rw [substituted_node hc.leafFree op hcs]
      apply ht.readsAs fun f hf => (hname f hf).1
      intro o ho
      obtain ⟨d, hd, rfl⟩ := List.mem_map.1 ho
      exact operand_fits hc hkernel (hchildren d hd) (hcs.singleton hd)

/-- Well-formed expressions with parsed operands print differently. -/
theorem Exact.substituted_inj {c : ExprCache} (hc : c.Valid) (hx : c.Exact) {op op' : Op}
    {cs cs' : List Expr} (he : (Expr.node op cs).WellFormed c.names.kernel)
    (he' : (Expr.node op' cs').WellFormed c.names.kernel) (hcs : c.Covers cs) (hcs' : c.Covers cs')
    (h : c.substituted (.node op cs) = c.substituted (.node op' cs')) :
    Expr.node op cs = .node op' cs' := by
  obtain ⟨t, ht, hread⟩ := readsAs_substituted hc hx.isIdentifier_kernel he hcs
  obtain ⟨t', ht', hread'⟩ := readsAs_substituted hc hx.isIdentifier_kernel he' hcs'
  rw [← h] at hread'
  obtain ⟨rfl, hoperands⟩ := ht.inj ht' ((hread' t).1 ((hread t).2 rfl))
  have hchildren : ∀ d ∈ cs, d.WellFormed c.names.kernel := by
    cases he with | node _ _ hchildren => exact hchildren
  have hchildren' : ∀ d ∈ cs', d.WellFormed c.names.kernel := by
    cases he' with | node _ _ hchildren => exact hchildren
  congr 1
  apply List.ext_getElem
  · simpa using congrArg List.length hoperands
  · intro i hi hi'
    have hoperand := List.getElem_of_eq hoperands (by simpa using hi)
    rw [List.getElem_map, List.getElem_map] at hoperand
    have hmem := List.getElem_mem hi
    have hmem' := List.getElem_mem hi'
    exact hx.operand_inj hc (hchildren _ hmem) (hchildren' _ hmem') (hcs.singleton hmem)
      (hcs'.singleton hmem') hoperand

/-- A new well-formed expression never finds a symbol of its key. -/
theorem Exact.symbol?_substituted {c : ExprCache} (hc : c.Valid) (hx : c.Exact) {op : Op}
    {cs : List Expr} (he : (Expr.node op cs).WellFormed c.names.kernel)
    (hnew : c.lookup? (.node op cs) = none) (hcs : c.Covers cs) :
    c.symbol? (c.substituted (.node op cs)) = none := by
  cases h : c.symbol? (c.substituted (.node op cs)) with
  | none => rfl
  | some s =>
      have htarget := hc.target_eq h
      have hknown : c.Known s := by rw [Known, htarget, h]
      obtain ⟨d, hd⟩ := hc.parsed hknown
      have hcompound := hc.leafFree hd
      cases d with
      | lit n => cases hcompound
      | var x => cases hcompound
      | node op' cs' =>
          have htext := hc.substituted_eq hd
          rw [htarget] at htext
          have heq := hx.substituted_inj hc he (hx.wellFormed hd) hcs (hc.covers hd) htext.symm
          rw [heq, hd] at hnew
          cases hnew

theorem mem_addSymbol_of_mem {deps : List Symbol} {s : Symbol} (o : Option Symbol) (h : s ∈ deps) :
    s ∈ addSymbol deps o := by
  cases o with
  | none => exact h
  | some r =>
      simp only [addSymbol]
      split
      · exact h
      · exact List.mem_append_left _ h

/-- The collected symbols are those of all the listed expressions. -/
theorem Valid.mem_depsOf_of_lookup? {c : ExprCache} (hc : c.Valid) {cs : List Expr} {d : Expr}
    {s : Symbol} (hd : d ∈ cs) (hs : c.lookup? d = some s) {deps : List Symbol}
    (hdeps : ∀ r ∈ deps, c.Known r) : s ∈ c.depsOf deps cs := by
  have hkeep : ∀ {cs : List Expr} {deps : List Symbol}, s ∈ deps → s ∈ c.depsOf deps cs := by
    intro cs
    induction cs with
    | nil => exact id
    | cons e cs ih => exact fun h => ih (mem_addSymbol_of_mem _ h)
  induction cs generalizing deps with
  | nil => cases hd
  | cons e cs ih =>
      have hnext : ∀ r ∈ addSymbol deps (c.lookup? e), c.Known r := by
        intro r hr
        rcases mem_addSymbol hr with hr | hr
        · exact hdeps r hr
        · exact hc.known hr
      rcases List.mem_cons.1 hd with rfl | hd
      · show s ∈ c.depsOf (addSymbol deps (c.lookup? d)) cs
        apply hkeep
        rw [hs]
        simp only [addSymbol]
        split
        · rename_i hany
          obtain ⟨r, hr, htarget⟩ := List.any_eq_true.1 hany
          have heq := (hdeps r hr).eq_of_target (hc.known hs) (of_decide_eq_true htarget)
          exact heq ▸ hr
        · exact List.mem_append_right _ (List.mem_singleton_self s)
      · exact ih hd hnext

/-- Entering a well-formed expression keeps a cache exact. -/
theorem Exact.enter {c : ExprCache} (hc : c.Valid) (hx : c.Exact) (generation : Nat) {op : Op}
    {cs : List Expr} (he : (Expr.node op cs).WellFormed c.names.kernel)
    (hnew : c.lookup? (.node op cs) = none) (hcs : c.Covers cs) :
    (c.enter generation (.node op cs) (c.depsOf [] cs)).1.Exact := by
  have hkey := hx.symbol?_substituted hc he hnew hcs
  have hext := extends_enter generation (c.depsOf [] cs) hnew
  have hvalid := hc.enter generation hnew hcs
  have hlookup := lookup?_enter c generation (.node op cs) (c.depsOf [] cs)
  -- the new symbol differs from all the others, since its key does
  have hfresh : ∀ {d s}, c.lookup? d = some s →
      s ≠ c.entered generation (.node op cs) (c.depsOf [] cs) := by
    rintro d s hd rfl
    have hknown := hc.known hd
    rw [Known, hc.entered_target, hkey] at hknown
    cases hknown
  refine ⟨?_, ?_, ?_, ?_, ?_⟩
  · rw [hext.kernel]
    exact hx.isIdentifier_kernel
  · intro d s hd
    rw [hext.kernel]
    rw [hlookup] at hd
    split at hd
    · rename_i heq
      exact heq ▸ he
    · exact hx.wellFormed hd
  · intro d d' s hd hd'
    rw [hlookup] at hd hd'
    split at hd <;> split at hd'
    · simp_all
    · exact absurd (Option.some.inj hd).symm (hfresh hd')
    · exact absurd (Option.some.inj hd').symm (hfresh hd)
    · exact hx.inj hd hd'
  · intro d s b r hd hb hr
    rw [hlookup] at hd
    split at hd
    · rename_i heq
      subst heq
      rw [hext.lookup?_eq hvalid.leafFree (hcs b hb)] at hr
      have hdeps : s.deps = c.depsOf [] cs := by
        rw [← Option.some.inj hd, entered, hkey]
        rfl
      rw [hdeps]
      exact hc.mem_depsOf_of_lookup? hb hr (by simp)
    · rw [hext.lookup?_eq hvalid.leafFree (hc.covers hd b hb)] at hr
      exact hx.mem_deps hd hb hr
  · have hparsed : c.parsed.contains (.node op cs) = false := by
      rw [Std.TreeMap.contains_eq_isSome_getElem?, show c.parsed[Expr.node op cs]? = none from hnew]
      rfl
    have hsymbols : c.symbols.contains
        (c.entered generation (.node op cs) (c.depsOf [] cs)).target = false := by
      rw [hc.entered_target, Std.TreeMap.contains_eq_isSome_getElem?,
        show c.symbols[c.substituted (.node op cs)]? = none from hkey]
      rfl
    rw [enter_of_none _ _ hkey]
    simp [Std.TreeMap.size_insert, hparsed, hsymbols, hx.size_eq]

theorem Entering.exact {generation : Nat} {S : Expr → Prop} {c c' : ExprCache}
    (h : Entering generation S c c') (hc : c.Valid) (hx : c.Exact)
    (hS : ∀ {e}, S e → e.WellFormed c.names.kernel) : c'.Exact := by
  induction h with
  | refl => exact hx
  | hit _ ih => exact ⟨ih.isIdentifier_kernel, ih.wellFormed, ih.inj, ih.mem_deps, ih.size_eq⟩
  | enter hrun he hnew hcs ih =>
      apply ih.enter (hrun.valid hc) _ _ hnew hcs
      rw [hrun.grows.kernel]
      exact hS he

theorem Declaring.exact {ss : List Symbol} {c c' : ExprCache} (h : Declaring ss c c')
    (hx : c.Exact) : c'.Exact := by
  obtain ⟨new, keys, rfl, _⟩ := h.frame
  exact ⟨hx.isIdentifier_kernel, hx.wellFormed, hx.inj, hx.mem_deps, hx.size_eq⟩

end ExprCache

/-! ### Histories -/

/-- A call of the expression cache, or of something else that starts a new generation. -/
inductive CacheCall where
  | parse (e : Expr)
  | emit (e : Expr)
  /-- Printing only; nothing is recorded. -/
  | substitute (e : Expr)
  | substituteAndDeclare (e : Expr)
  | clear
  | advance

namespace CacheCall

def run (t : Temporaries) : CacheCall → Temporaries
  | parse e => t.parse e
  | emit e => (t.emit e).2
  | substitute _ => t
  | substituteAndDeclare e => (t.substituteAndDeclare e).2
  | clear => t.clearExprs
  | advance => t.advance

/-- The expressions parsed since the last clearing, after one more call. -/
def liveAfter (live : List Expr) : CacheCall → List Expr
  | parse e => live ++ [e]
  | emit e => live ++ [e]
  | clear => []
  | _ => live

/-- The expressions parsed since the last clearing. -/
def live (calls : List CacheCall) : List Expr := calls.foldl liveAfter []

/-- What a new pair of caches has become after the calls. -/
def runAll (b : Backend) (kernel lambdaKernel : String) (calls : List CacheCall) : Temporaries :=
  calls.foldl run (.new b kernel lambdaKernel)

/-- The compound expressions that the listed ones consist of. -/
def compounds (es : List Expr) : List Expr :=
  (es.flatMap Expr.preorder).filter fun e => !e.isLeaf

theorem mem_compounds {es : List Expr} {d : Expr} :
    d ∈ compounds es ↔ (∃ e ∈ es, d ∈ e.preorder) ∧ d.isLeaf = false := by
  simp [compounds]

/-- The state of a cache after calls that parsed these expressions since the last clearing. -/
structure Tracks (b : Backend) (kernel : String) (es : List Expr) (c : ExprCache) : Prop where
  backend_eq : c.backend = b
  kernel_eq : c.names.kernel = kernel
  valid : c.Valid
  listed : c.Listed
  parsed_iff : ∀ {e}, (∃ s, c.lookup? e = some s) ↔ e ∈ compounds es
  exact : isIdentifier kernel = true → (∀ e ∈ es, e.WellFormed kernel) → c.Exact

theorem tracks_clear (c : ExprCache) : Tracks c.backend c.names.kernel [] c.clear where
  backend_eq := rfl
  kernel_eq := rfl
  valid := c.valid_clear
  listed := c.listed_clear
  parsed_iff := by simp [ExprCache.lookup?_clear, compounds]
  exact := by
    intro hkernel _
    refine ⟨hkernel, ?_, ?_, ?_, rfl⟩ <;> simp [ExprCache.lookup?_clear]

variable {b : Backend} {kernel : String} {es : List Expr} {c : ExprCache}

theorem Tracks.parse (h : Tracks b kernel es c) (generation : Nat) (e : Expr) :
    Tracks b kernel (es ++ [e]) (c.parse generation e) := by
  obtain ⟨hrun, hcovers⟩ := ExprCache.parse_spec generation h.valid e
  have hext := hrun.grows
  refine ⟨hext.backend.trans h.backend_eq, hext.kernel.trans h.kernel_eq, hrun.valid h.valid,
    hext.listed h.listed, ?_, ?_⟩
  · intro d
    rw [mem_compounds]
    constructor
    · rintro ⟨s, hs⟩
      refine ⟨?_, (hrun.valid h.valid).leafFree hs⟩
      rcases hrun.lookup?_cases hs with hs | hd
      · obtain ⟨a, ha, hd⟩ := (mem_compounds.1 (h.parsed_iff.1 ⟨s, hs⟩)).1
        exact ⟨a, List.mem_append_left _ ha, hd⟩
      · exact ⟨e, List.mem_append_right _ (List.mem_singleton_self e), hd⟩
    · rintro ⟨⟨a, ha, hd⟩, hcompound⟩
      rcases List.mem_append.1 ha with ha | ha
      · obtain ⟨s, hs⟩ := h.parsed_iff.2 (mem_compounds.2 ⟨⟨a, ha, hd⟩, hcompound⟩)
        exact ⟨s, hext.lookup hs⟩
      · rw [List.mem_singleton.1 ha] at hd
        exact hcovers d hd hcompound
  · intro hkernel hes
    have hexact := h.exact hkernel fun a ha => hes a (List.mem_append_left _ ha)
    have he := hes e (List.mem_append_right _ (List.mem_singleton_self e))
    apply hrun.exact h.valid hexact
    intro d hd
    rw [h.kernel_eq]
    exact he.of_mem_preorder hd

theorem Tracks.substituteAndDeclare (h : Tracks b kernel es c) (e : Expr) :
    Tracks b kernel es (c.substituteAndDeclare e).2.2 := by
  have hdeclaring := ExprCache.declaring_substituteAndDeclare h.valid h.listed e
  have hvalid := hdeclaring.valid h.valid
  have hlisted := hdeclaring.listed
  have hexact := fun hkernel hes => hdeclaring.exact (h.exact hkernel hes)
  obtain ⟨new, keys, hframe, _⟩ := hdeclaring.frame
  rw [hframe] at hvalid hlisted hexact ⊢
  exact ⟨h.backend_eq, h.kernel_eq, hvalid, hlisted, h.parsed_iff, hexact⟩

theorem Tracks.run {t : Temporaries} (h : Tracks b kernel es t.exprs) (call : CacheCall) :
    Tracks b kernel (call.liveAfter es) (call.run t).exprs := by
  cases call with
  | parse e => exact h.parse t.generation e
  | emit e => exact (h.parse t.generation e).substituteAndDeclare e
  | substitute e => exact h
  | substituteAndDeclare e => exact h.substituteAndDeclare e
  | clear =>
      have hclear := tracks_clear t.exprs
      rw [h.backend_eq, h.kernel_eq] at hclear
      exact hclear
  | advance => exact h

/-- After any calls, the cache has parsed what they say. -/
theorem tracks_runAll (b : Backend) (kernel lambdaKernel : String) (calls : List CacheCall) :
    Tracks b kernel (live calls) (runAll b kernel lambdaKernel calls).exprs := by
  induction calls using List.reverseRecOn with
  | nil => exact tracks_clear (.new b kernel)
  | append_singleton calls call ih =>
      rw [live, runAll, List.foldl_append, List.foldl_append]
      exact ih.run call

/-- There are as many symbols as distinct compound expressions. -/
theorem Tracks.size_eq (h : Tracks b kernel es c) (hkernel : isIdentifier kernel = true)
    (hes : ∀ e ∈ es, e.WellFormed kernel) : c.size = (compounds es).toFinset.card := by
  have hkeys : c.parsed.keys.toFinset = (compounds es).toFinset := by
    ext e
    rw [List.mem_toFinset, List.mem_toFinset, ← h.parsed_iff, Std.TreeMap.mem_keys,
      Std.TreeMap.mem_iff_isSome_getElem?, Option.isSome_iff_exists]
    rfl
  rw [← hkeys, List.toFinset_card_of_nodup Std.TreeMap.nodup_keys, Std.TreeMap.length_keys]
  exact (h.exact hkernel hes).size_eq

/-- Compound expressions parsed since the last clearing have one symbol exactly if they are equal,
so there are as many symbols as distinct such expressions, whatever the order of the calls. -/
theorem lookup?_eq_iff (b : Backend) {kernel : String} (lambdaKernel : String)
    (hkernel : isIdentifier kernel = true) (calls : List CacheCall)
    (hlive : ∀ e ∈ live calls, e.WellFormed kernel) :
    let cache := (runAll b kernel lambdaKernel calls).exprs
    (∀ d ∈ compounds (live calls), ∀ e ∈ compounds (live calls), ∃ s r,
      cache.lookup? d = some s ∧ cache.lookup? e = some r ∧ (s = r ↔ d = e) ∧
        (s.name = r.name ↔ d = e)) ∧
    cache.size = (compounds (live calls)).toFinset.card ∧
    ∀ b' calls', (∀ e, e ∈ live calls' ↔ e ∈ live calls) →
      (runAll b' kernel lambdaKernel calls').exprs.size = cache.size := by
  intro cache
  have htracks := tracks_runAll b kernel lambdaKernel calls
  have hexact := htracks.exact hkernel hlive
  refine ⟨?_, htracks.size_eq hkernel hlive, ?_⟩
  · intro d hd e he
    obtain ⟨s, hs⟩ := htracks.parsed_iff.2 hd
    obtain ⟨r, hr⟩ := htracks.parsed_iff.2 he
    have hsymbol : s = r ↔ d = e := by
      constructor
      · rintro rfl
        exact hexact.inj hs hr
      · rintro rfl
        exact Option.some.inj (hs.symm.trans hr)
    refine ⟨s, r, hs, hr, hsymbol, ?_⟩
    rw [← hsymbol]
    constructor
    · exact htracks.valid.name_inj (htracks.valid.known hs) (htracks.valid.known hr)
    · rintro rfl
      rfl
  · intro b' calls' hsame
    have htracks' := tracks_runAll b' kernel lambdaKernel calls'
    rw [htracks'.size_eq hkernel fun e he => hlive e ((hsame e).1 he),
      show cache.size = _ from htracks.size_eq hkernel hlive]
    congr 1
    ext d
    simp only [List.mem_toFinset, mem_compounds, hsame]

/-- A sum and a product of it with itself, parsed twice and in two orders, are two symbols. -/
theorem size_sum_product :
    let sum : Expr := .sum [.var "x", .lit (-1)]
    let product : Expr := .product [sum, sum]
    (runAll .cpp "cse" "lambda"
      [.parse (.neg sum), .clear, .parse sum, .advance, .emit product, .emit sum]).exprs.size =
      2 := by
  intro sum product
  have hx : IsPlainName "cse" "x" := ⟨by decide, not_minted_of_notMem (by decide)⟩
  have hsum : sum.WellFormed "cse" := by
    refine .node (by decide) (by simp) ?_
    intro c hc
    rcases List.mem_pair.1 hc with rfl | rfl
    · exact .var hx
    · exact .lit _
  have hproduct : product.WellFormed "cse" := by
    refine .node (by decide) (by simp) ?_
    intro c hc
    rcases List.mem_pair.1 hc with rfl | rfl <;> exact hsum
  have hexact := lookup?_eq_iff .cpp "lambda" (show isIdentifier "cse" = true by decide)
    [.parse (.neg sum), .clear, .parse sum, .advance, .emit product, .emit sum] (by
      intro e he
      have hcases : e = sum ∨ e = product := by
        simpa [live, liveAfter, or_comm] using he
      rcases hcases with rfl | rfl
      · exact hsum
      · exact hproduct)
  rw [hexact.2.1]
  decide +kernel

end CacheCall

end TensorTemplate
