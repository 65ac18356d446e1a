import TensorTemplate.ExprCache
import TensorTemplate.Proofs.Operand

/-!
What an expression cache knows, whatever expressions it is given.

Parsing enters compound expressions one after the other, operands before what they
are operands of. So in every state the operands of a parsed expression are parsed,
its key is its printed form with their names, symbols depend on older symbols only,
and nothing that is known changes until the cache is cleared.
-/

namespace TensorTemplate

namespace Expr

theorem mem_preorderList {d : Expr} {cs : List Expr} :
    d ∈ preorderList cs ↔ ∃ c ∈ cs, d ∈ c.preorder := by
  induction cs with
  | nil => simp [preorderList]
  | cons c cs ih => simp [preorderList, ih]

theorem size_le_sizeList {c : Expr} {cs : List Expr} (h : c ∈ cs) : c.size ≤ sizeList cs := by
  induction cs with
  | nil => cases h
  | cons d cs ih =>
      rw [sizeList]
      rcases List.mem_cons.1 h with rfl | h
      · omega
      · have hle := ih h
        omega

theorem mem_preorder_self (e : Expr) : e ∈ e.preorder := by
  cases e <;> simp [preorder]

theorem mem_preorder_of_mem_children {d e : Expr} (h : d ∈ e.children) : d ∈ e.preorder := by
  cases e with
  | lit n => cases h
  | var x => cases h
  | node op cs => exact List.mem_cons_of_mem _ (mem_preorderList.2 ⟨d, h, d.mem_preorder_self⟩)

/-- Induction over an expression with a hypothesis for every operand. -/
@[elab_as_elim]
theorem induction_children {motive : Expr → Prop} (lit : ∀ n, motive (.lit n))
    (var : ∀ x, motive (.var x))
    (node : ∀ op cs, (∀ c ∈ cs, motive c) → motive (.node op cs)) (e : Expr) : motive e := by
  refine @Expr.rec motive (fun cs => ∀ c ∈ cs, motive c) lit var node ?_ ?_ e
  · simp
  · intro c cs hc hcs d hd
    rcases List.mem_cons.1 hd with rfl | hd
    · exact hc
    · exact hcs d hd

theorem size_le_of_mem_preorder {d e : Expr} (h : d ∈ e.preorder) : d.size ≤ e.size := by
  induction e using induction_children with
  | lit n => simp_all [preorder]
  | var x => simp_all [preorder]
  | node op cs ih =>
      rw [preorder, List.mem_cons, mem_preorderList] at h
      rcases h with rfl | ⟨c, hc, h⟩
      · exact Nat.le_refl _
      · have hle := (ih c hc h).trans (size_le_sizeList hc)
        simp only [size]
        omega

/-- An expression is no part of its own operands. -/
theorem node_notMem_preorderList (op : Op) (cs : List Expr) : node op cs ∉ preorderList cs := by
  intro h
  obtain ⟨c, hc, h⟩ := mem_preorderList.1 h
  have hle := (size_le_of_mem_preorder h).trans (size_le_sizeList hc)
  simp only [size] at hle
  omega

end Expr

namespace ExprCache

open NameGen

/-! ### Entering one expression -/

/-- The symbol that an expression gets when it is entered. -/
def entered (c : ExprCache) (generation : Nat) (e : Expr) (deps : List Symbol) : Symbol :=
  (c.symbol? (c.substituted e)).getD
    { name := nameOf c.names.kernel generation c.names.count, target := c.substituted e
      number := c.names.count, deps }

section Enter

variable {c : ExprCache} (generation : Nat) {e : Expr} (deps : List Symbol)

theorem enter_of_some {s : Symbol} (h : c.symbol? (c.substituted e) = some s) :
    c.enter generation e deps =
      ({ c with parsed := c.parsed.insert e s, hits := c.hits + 1 }, s) := by
  simp only [enter, h]

theorem enter_of_none (h : c.symbol? (c.substituted e) = none) :
    c.enter generation e deps =
      let s := c.entered generation e deps
      ({ c with
          names := { c.names with count := c.names.count + 1 }
          parsed := c.parsed.insert e s
          symbols := c.symbols.insert s.target s
          misses := c.misses + 1 }, s) := by
  simp [enter, entered, h, fresh]

theorem entered_of_some {s : Symbol} (h : c.symbol? (c.substituted e) = some s) :
    c.entered generation e deps = s := by
  simp [entered, h]

variable (c e)

theorem enter_snd : (c.enter generation e deps).2 = c.entered generation e deps := by
  cases h : c.symbol? (c.substituted e) with
  | none => rw [enter_of_none _ _ h]
  | some s => rw [enter_of_some _ _ h, entered_of_some _ _ h]

theorem lookup?_enter (d : Expr) :
    (c.enter generation e deps).1.lookup? d =
      if e = d then some (c.entered generation e deps) else c.lookup? d := by
  cases h : c.symbol? (c.substituted e) with
  | none =>
      simp [enter_of_none _ _ h, lookup?, Std.TreeMap.getElem?_insert,
        Std.LawfulEqCmp.compare_eq_iff_eq]
  | some s =>
      simp [enter_of_some _ _ h, entered_of_some _ _ h, lookup?, Std.TreeMap.getElem?_insert,
        Std.LawfulEqCmp.compare_eq_iff_eq]

theorem symbol?_enter (key : String) :
    (c.enter generation e deps).1.symbol? key =
      if c.substituted e = key then some (c.entered generation e deps) else c.symbol? key := by
  cases h : c.symbol? (c.substituted e) with
  | none =>
      have htarget : (c.entered generation e deps).target = c.substituted e := by
        simp [entered, h]
      simp [enter_of_none _ _ h, symbol?, htarget, Std.TreeMap.getElem?_insert,
        Std.LawfulEqCmp.compare_eq_iff_eq]
  | some s =>
      rw [enter_of_some _ _ h, entered_of_some _ _ h]
      by_cases hkey : c.substituted e = key
      · rw [if_pos hkey, ← h, hkey]
        rfl
      · rw [if_neg hkey]
        rfl

theorem enter_count :
    (c.enter generation e deps).1.names.count =
      if (c.symbol? (c.substituted e)).isSome then c.names.count else c.names.count + 1 := by
  cases h : c.symbol? (c.substituted e) with
  | none => rw [enter_of_none _ _ h]; rfl
  | some s => rw [enter_of_some _ _ h]; rfl

/-- Entering leaves everything else as it is. -/
theorem enter_frame :
    let c' := (c.enter generation e deps).1
    c'.backend = c.backend ∧ c'.names.kernel = c.names.kernel ∧ c'.declared = c.declared ∧
      c'.declaredKeys = c.declaredKeys := by
  cases h : c.symbol? (c.substituted e) with
  | none => rw [enter_of_none _ _ h]; exact ⟨rfl, rfl, rfl, rfl⟩
  | some s => rw [enter_of_some _ _ h]; exact ⟨rfl, rfl, rfl, rfl⟩

end Enter

/-! ### The printed form -/

/-- An operand as it stands in the printed form: leaves as they are, the rest by name. -/
def operand (c : ExprCache) : Expr → Operand
  | .lit n => .lit n
  | .var x => .name x
  | .node op cs => .name (((c.lookup? (.node op cs)).map (·.name)).getD "")

/-- Only compound expressions have symbols. -/
def LeafFree (c : ExprCache) : Prop := ∀ {e s}, c.lookup? e = some s → e.isLeaf = false

/-- All compound expressions of the list have symbols. -/
def Covers (c : ExprCache) (es : List Expr) : Prop :=
  ∀ e ∈ es, e.isLeaf = false → ∃ s, c.lookup? e = some s

theorem operand_of_lookup? {c : ExprCache} (hc : c.LeafFree) {e : Expr} {s : Symbol}
    (h : c.lookup? e = some s) : c.operand e = .name s.name := by
  cases e with
  | lit n => exact absurd (hc h) (by simp [Expr.isLeaf])
  | var x => exact absurd (hc h) (by simp [Expr.isLeaf])
  | node op cs => simp [operand, h]

/-- With all its operands parsed, an expression prints on one level. -/
theorem substituted_node {c : ExprCache} (hc : c.LeafFree) (op : Op) {cs : List Expr}
    (hcs : c.Covers cs) :
    c.substituted (.node op cs) =
      (c.backend.node op ((cs.map c.operand).map Operand.printed)).text := by
  have hoperands : Id.run (c.backend.operandsM
      (fun sub => pure ((c.lookup? sub).map (·.name))) cs) =
      (cs.map c.operand).map Operand.printed := by
    induction cs with
    | nil => rfl
    | cons d ds ih =>
        have hrest := ih fun e he => hcs e (List.mem_cons_of_mem _ he)
        cases hd : c.lookup? d with
        | some s => simpa [Backend.operandsM, hd, operand_of_lookup? hc hd, Operand.printed]
            using hrest
        | none =>
            cases d with
            | lit n => simpa [Backend.operandsM, Backend.printedM, hd, operand, Operand.printed]
                using hrest
            | var x => simpa [Backend.operandsM, Backend.printedM, hd, operand, Operand.printed]
                using hrest
            | node op' cs' =>
                obtain ⟨s, hs⟩ := hcs _ List.mem_cons_self rfl
                simp [hs] at hd
  simp only [substituted, Backend.printedWith, Backend.printedM]
  rw [← hoperands]
  rfl

/-! ### Growth -/

/-- The second cache knows all that the first one knows, and has declared the same. -/
structure Extends (c c' : ExprCache) : Prop where
  backend : c'.backend = c.backend
  kernel : c'.names.kernel = c.names.kernel
  count : c.names.count ≤ c'.names.count
  lookup : ∀ {e s}, c.lookup? e = some s → c'.lookup? e = some s
  symbol : ∀ {key s}, c.symbol? key = some s → c'.symbol? key = some s
  declared : c'.declared = c.declared
  declaredKeys : c'.declaredKeys = c.declaredKeys

theorem Extends.refl (c : ExprCache) : c.Extends c :=
  ⟨rfl, rfl, Nat.le_refl _, id, id, rfl, rfl⟩

theorem Extends.trans {c c' c'' : ExprCache} (h : c.Extends c') (h' : c'.Extends c'') :
    c.Extends c'' where
  backend := h'.backend.trans h.backend
  kernel := h'.kernel.trans h.kernel
  count := h.count.trans h'.count
  lookup := fun hs => h'.lookup (h.lookup hs)
  symbol := fun hs => h'.symbol (h.symbol hs)
  declared := h'.declared.trans h.declared
  declaredKeys := h'.declaredKeys.trans h.declaredKeys

theorem Extends.covers {c c' : ExprCache} (h : c.Extends c') {es : List Expr} (hes : c.Covers es) :
    c'.Covers es := by
  intro e he hcompound
  obtain ⟨s, hs⟩ := hes e he hcompound
  exact ⟨s, h.lookup hs⟩

/-- Entering a new expression changes nothing that is known. -/
theorem extends_enter {c : ExprCache} (generation : Nat) {e : Expr} (deps : List Symbol)
    (hnew : c.lookup? e = none) : c.Extends (c.enter generation e deps).1 := by
  obtain ⟨hbackend, hkernel, hdeclared, hkeys⟩ := enter_frame c generation e deps
  refine ⟨hbackend, hkernel, ?_, ?_, ?_, hdeclared, hkeys⟩
  · rw [enter_count]
    split <;> omega
  · intro d s hs
    rw [lookup?_enter, if_neg, hs]
    rintro rfl
    rw [hnew] at hs
    cases hs
  · intro key s hs
    rw [symbol?_enter]
    split
    · rename_i hkey
      rw [entered_of_some _ _ (hkey ▸ hs)]
    · exact hs

theorem Extends.operand {c c' : ExprCache} (h : c.Extends c') {e : Expr}
    (he : e.isLeaf = false → ∃ s, c.lookup? e = some s) : c'.operand e = c.operand e := by
  cases e with
  | lit n => rfl
  | var x => rfl
  | node op cs =>
      obtain ⟨s, hs⟩ := he rfl
      simp [ExprCache.operand, hs, h.lookup hs]

/-- What is printed through parsed operands stays the same. -/
theorem Extends.substituted {c c' : ExprCache} (h : c.Extends c') (hc : c.LeafFree)
    (hc' : c'.LeafFree) {op : Op} {cs : List Expr} (hcs : c.Covers cs) :
    c'.substituted (.node op cs) = c.substituted (.node op cs) := by
  have hoperands : cs.map c'.operand = cs.map c.operand := by
    apply List.map_congr_left
    intro d hd
    exact h.operand (hcs d hd)
  rw [substituted_node hc' op (h.covers hcs), substituted_node hc op hcs, hoperands, h.backend]

/-! ### What holds of every cache -/

/-- The cache has this symbol. -/
def Known (c : ExprCache) (s : Symbol) : Prop := c.symbol? s.target = some s

/-- What is true of the symbols and of the parsed expressions of every cache. -/
structure Valid (c : ExprCache) : Prop where
  target_eq : ∀ {key s}, c.symbol? key = some s → s.target = key
  name_eq : ∀ {s}, c.Known s → ∃ generation, s.name = nameOf c.names.kernel generation s.number
  number_lt : ∀ {s}, c.Known s → s.number < c.names.count
  number_inj : ∀ {s r}, c.Known s → c.Known r → s.number = r.number → s = r
  deps_known : ∀ {s r}, c.Known s → r ∈ s.deps → c.Known r ∧ r.number < s.number
  known : ∀ {e s}, c.lookup? e = some s → c.Known s
  parsed : ∀ {s}, c.Known s → ∃ e, c.lookup? e = some s
  leafFree : c.LeafFree
  covers : ∀ {e s}, c.lookup? e = some s → c.Covers e.children
  substituted_eq : ∀ {e s}, c.lookup? e = some s → c.substituted e = s.target

/-- Symbols of one name are one symbol. -/
theorem Valid.name_inj {c : ExprCache} (hc : c.Valid) {s r : Symbol} (hs : c.Known s)
    (hr : c.Known r) (h : s.name = r.name) : s = r := by
  obtain ⟨g, hg⟩ := hc.name_eq hs
  obtain ⟨g', hg'⟩ := hc.name_eq hr
  rw [hg, hg'] at h
  exact hc.number_inj hs hr (nameOf_inj h).2.2

/-- Symbols of one key are one symbol. -/
theorem Known.eq_of_target {c : ExprCache} {s r : Symbol} (hs : c.Known s) (hr : c.Known r)
    (h : s.target = r.target) : s = r := by
  unfold Known at hs hr
  rw [h, hr] at hs
  exact (Option.some.inj hs).symm

theorem lookup?_clear (c : ExprCache) (e : Expr) : c.clear.lookup? e = none :=
  Std.TreeMap.getElem?_emptyc

theorem symbol?_clear (c : ExprCache) (key : String) : c.clear.symbol? key = none :=
  Std.TreeMap.getElem?_emptyc

theorem valid_clear (c : ExprCache) : c.clear.Valid := by
  constructor <;> simp [Known, LeafFree, symbol?_clear, lookup?_clear]

/-- The symbols of the listed expressions, each once. -/
def depsOf (c : ExprCache) (deps : List Symbol) (cs : List Expr) : List Symbol :=
  cs.foldl (fun deps d => addSymbol deps (c.lookup? d)) deps

theorem mem_addSymbol {deps : List Symbol} {o : Option Symbol} {s : Symbol}
    (h : s ∈ addSymbol deps o) : s ∈ deps ∨ o = some s := by
  cases o with
  | none => exact Or.inl h
  | some r =>
      simp only [addSymbol] at h
      split at h
      · exact Or.inl h
      · rcases List.mem_append.1 h with h | h
        · exact Or.inl h
        · exact Or.inr (by rw [List.mem_singleton.1 h])

theorem mem_depsOf {c : ExprCache} {deps : List Symbol} {cs : List Expr} {s : Symbol}
    (h : s ∈ c.depsOf deps cs) : s ∈ deps ∨ ∃ d ∈ cs, c.lookup? d = some s := by
  induction cs generalizing deps with
  | nil => exact Or.inl h
  | cons d cs ih =>
      rcases ih h with h | ⟨d', hd', h⟩
      · rcases mem_addSymbol h with h | h
        · exact Or.inl h
        · exact Or.inr ⟨d, List.mem_cons_self, h⟩
      · exact Or.inr ⟨d', List.mem_cons_of_mem _ hd', h⟩

theorem Valid.entered_target {c : ExprCache} (hc : c.Valid) (generation : Nat) (e : Expr)
    (deps : List Symbol) : (c.entered generation e deps).target = c.substituted e := by
  cases h : c.symbol? (c.substituted e) with
  | none => simp [entered, h]
  | some s => rw [entered_of_some _ _ h, hc.target_eq h]

/-- What is known after entering is what was known, or a new symbol with the next number. -/
theorem Valid.known_enter {c : ExprCache} (hc : c.Valid) (generation : Nat) (e : Expr)
    (deps : List Symbol) {s : Symbol} (h : (c.enter generation e deps).1.Known s) :
    c.Known s ∨
      s = ⟨nameOf c.names.kernel generation c.names.count, c.substituted e, c.names.count, deps⟩ ∧
      (c.enter generation e deps).1.names.count = c.names.count + 1 := by
  rw [Known, symbol?_enter] at h
  split at h
  · cases Option.some.inj h
    rw [enter_count, Known, hc.entered_target]
    cases hkey : c.symbol? (c.substituted e) with
    | none => exact Or.inr (by simp [entered, hkey])
    | some r => exact Or.inl (by rw [entered_of_some _ _ hkey])
  · exact Or.inl h

/-- Entering an expression whose operands are parsed keeps a cache valid. -/
theorem Valid.enter {c : ExprCache} (hc : c.Valid) (generation : Nat) {op : Op} {cs : List Expr}
    (hnew : c.lookup? (.node op cs) = none) (hcs : c.Covers cs) :
    (c.enter generation (.node op cs) (c.depsOf [] cs)).1.Valid := by
  have hext := extends_enter generation (c.depsOf [] cs) hnew
  have hknown := fun {s} => hc.known_enter generation (.node op cs) (c.depsOf [] cs) (s := s)
  have hlookup := lookup?_enter c generation (.node op cs) (c.depsOf [] cs)
  have hsymbol := symbol?_enter c generation (.node op cs) (c.depsOf [] cs)
  have htarget := hc.entered_target generation (.node op cs) (c.depsOf [] cs)
  generalize (c.enter generation (.node op cs) (c.depsOf [] cs)).1 = c' at *
  generalize c.entered generation (.node op cs) (c.depsOf [] cs) = new at *
  have hleafFree : c'.LeafFree := by
    intro d s hd
    rw [hlookup] at hd
    split at hd
    · rename_i heq
      rw [← heq]
      rfl
    · exact hc.leafFree hd
  refine ⟨?_, ?_, ?_, ?_, ?_, ?_, ?_, hleafFree, ?_, ?_⟩
  · intro key s hs
    rw [hsymbol] at hs
    split at hs
    · rename_i hkey
      rw [← Option.some.inj hs, htarget, hkey]
    · exact hc.target_eq hs
  · intro s hs
    rw [hext.kernel]
    rcases hknown hs with hs | ⟨rfl, _⟩
    · exact hc.name_eq hs
    · exact ⟨generation, rfl⟩
  · intro s hs
    rcases hknown hs with hs | ⟨rfl, hcount⟩
    · exact Nat.lt_of_lt_of_le (hc.number_lt hs) hext.count
    · rw [hcount]
      exact Nat.lt_succ_self _
  · intro s r hs hr hnumber
    rcases hknown hs with hs | ⟨rfl, _⟩ <;> rcases hknown hr with hr | ⟨rfl, _⟩
    · exact hc.number_inj hs hr hnumber
    · exact absurd (hc.number_lt hs) (by simp [hnumber])
    · exact absurd (hc.number_lt hr) (by simp [← hnumber])
    · rfl
  · intro s r hs hr
    rcases hknown hs with hs | ⟨rfl, _⟩
    · exact ⟨hext.symbol (hc.deps_known hs hr).1, (hc.deps_known hs hr).2⟩
    · rcases mem_depsOf hr with hr | ⟨d, _, hd⟩
      · cases hr
      · exact ⟨hext.symbol (hc.known hd), hc.number_lt (hc.known hd)⟩
  · intro d s hd
    rw [hlookup] at hd
    split at hd
    · rw [← Option.some.inj hd, Known, htarget, hsymbol, if_pos rfl]
    · exact hext.symbol (hc.known hd)
  · intro s hs
    rw [Known, hsymbol] at hs
    split at hs
    · exact ⟨.node op cs, by rw [hlookup, if_pos rfl, hs]⟩
    · obtain ⟨d, hd⟩ := hc.parsed hs
      exact ⟨d, hext.lookup hd⟩
  · intro d s hd
    rw [hlookup] at hd
    split at hd
    · rename_i heq
      rw [← heq]
      exact hext.covers hcs
    · exact hext.covers (hc.covers hd)
  · intro d s hd
    rw [hlookup] at hd
    split at hd
    · rename_i heq
      rw [← heq, ← Option.some.inj hd, htarget, hext.substituted hc.leafFree hleafFree hcs]
    · have hcompound := hc.leafFree hd
      cases d with
      | lit n => cases hcompound
      | var x => cases hcompound
      | node op' cs' =>
          have hcs' : c.Covers cs' := hc.covers hd
          rw [hext.substituted hc.leafFree hleafFree hcs', hc.substituted_eq hd]

/-! ### Parsing -/

/-- A run of entries, each of an expression in `S` that was new and whose operands were parsed. -/
inductive Entering (generation : Nat) (S : Expr → Prop) : ExprCache → ExprCache → Prop where
  | refl (c : ExprCache) : Entering generation S c c
  | hit {c c' : ExprCache} (h : Entering generation S c c') :
      Entering generation S c { c' with hits := c'.hits + 1 }
  | enter {c c' : ExprCache} (h : Entering generation S c c') {op : Op} {cs : List Expr}
      (hS : S (.node op cs)) (hnew : c'.lookup? (.node op cs) = none) (hcs : c'.Covers cs) :
      Entering generation S c (c'.enter generation (.node op cs) (c'.depsOf [] cs)).1

namespace Entering

variable {generation : Nat} {S T : Expr → Prop} {c c' c'' : ExprCache}

theorem trans (h : Entering generation S c c') (h' : Entering generation S c' c'') :
    Entering generation S c c'' := by
  induction h' with
  | refl => exact h
  | hit _ ih => exact .hit ih
  | enter _ hS hnew hcs ih => exact .enter ih hS hnew hcs

theorem mono (hST : ∀ {e}, S e → T e) (h : Entering generation S c c') :
    Entering generation T c c' := by
  induction h with
  | refl => exact .refl _
  | hit _ ih => exact .hit ih
  | enter _ hS hnew hcs ih => exact .enter ih (hST hS) hnew hcs

theorem grows (h : Entering generation S c c') : c.Extends c' := by
  induction h with
  | refl => exact .refl _
  | hit _ ih => exact ⟨ih.backend, ih.kernel, ih.count, ih.lookup, ih.symbol, ih.declared,
      ih.declaredKeys⟩
  | enter _ _ hnew _ ih => exact ih.trans (extends_enter _ _ hnew)

theorem valid (h : Entering generation S c c') (hc : c.Valid) : c'.Valid := by
  induction h with
  | refl => exact hc
  | hit _ ih =>
      exact ⟨ih.target_eq, ih.name_eq, ih.number_lt, ih.number_inj, ih.deps_known, ih.known,
        ih.parsed, ih.leafFree, ih.covers, ih.substituted_eq⟩
  | enter _ _ hnew hcs ih => exact ih.enter _ hnew hcs

/-- Only expressions in `S` are entered. -/
theorem lookup?_cases (h : Entering generation S c c') {e : Expr} {s : Symbol}
    (hs : c'.lookup? e = some s) : c.lookup? e = some s ∨ S e := by
  induction h with
  | refl => exact Or.inl hs
  | hit _ ih => exact ih hs
  | enter _ hS _ _ ih =>
      rw [lookup?_enter] at hs
      split at hs
      · rename_i heq
        exact Or.inr (heq ▸ hS)
      · exact ih hs

end Entering

/-- Where every compound expression is parsed already, growth changes no look-up. -/
theorem Extends.lookup?_eq {c c' : ExprCache} (h : c.Extends c') (hc' : c'.LeafFree) {e : Expr}
    (he : e.isLeaf = false → ∃ s, c.lookup? e = some s) : c'.lookup? e = c.lookup? e := by
  cases hlookup : c.lookup? e with
  | some s => exact h.lookup hlookup
  | none =>
      cases hlookup' : c'.lookup? e with
      | none => rfl
      | some s =>
          obtain ⟨r, hr⟩ := he (hc' hlookup')
          rw [hr] at hlookup
          cases hlookup

theorem lookup?_eq_none_of_isLeaf {c : ExprCache} (hc : c.LeafFree) {e : Expr}
    (he : e.isLeaf = true) : c.lookup? e = none := by
  cases h : c.lookup? e with
  | none => rfl
  | some s =>
      rw [hc h] at he
      cases he

/-- With an expression, all its compound parts are parsed. -/
theorem Valid.covers_preorder {c : ExprCache} (hc : c.Valid) {e : Expr} {s : Symbol}
    (h : c.lookup? e = some s) : c.Covers e.preorder := by
  induction e using Expr.induction_children generalizing s with
  | lit n => exact absurd (hc.leafFree h) (by simp [Expr.isLeaf])
  | var x => exact absurd (hc.leafFree h) (by simp [Expr.isLeaf])
  | node op cs ih =>
      intro d hd hcompound
      rw [Expr.preorder, List.mem_cons, Expr.mem_preorderList] at hd
      rcases hd with rfl | ⟨b, hb, hd⟩
      · exact ⟨s, h⟩
      · cases hleaf : b.isLeaf with
        | true =>
            cases b <;> simp_all [Expr.preorder, Expr.isLeaf]
        | false =>
            obtain ⟨r, hr⟩ := hc.covers h b hb hleaf
            exact ih b hb hr d hd hcompound

mutual

/-- Parsing enters subexpressions, all of them that are compound, and gives the expression's own
symbol. -/
theorem parseNode_spec (generation : Nat) {c : ExprCache} (hc : c.Valid) : (e : Expr) →
    Entering generation (· ∈ e.preorder) c (parseNode generation c e).1 ∧
      (parseNode generation c e).1.Covers e.preorder ∧
      (parseNode generation c e).2 = (parseNode generation c e).1.lookup? e
  | .lit n => by
      refine ⟨.refl _, ?_, (lookup?_eq_none_of_isLeaf hc.leafFree rfl).symm⟩
      simp [Covers, Expr.preorder, Expr.isLeaf]
  | .var x => by
      refine ⟨.refl _, ?_, (lookup?_eq_none_of_isLeaf hc.leafFree rfl).symm⟩
      simp [Covers, Expr.preorder, Expr.isLeaf]
  | .node op cs => by
      rw [parseNode]
      cases h : c.lookup? (.node op cs) with
      | some s => exact ⟨.hit (.refl c), hc.covers_preorder h, h.symm⟩
      | none =>
          obtain ⟨hrun, hcovers, hdeps⟩ := parseList_spec generation hc [] cs
          simp only [hdeps]
          generalize (parseList generation c [] cs).1 = c' at *
          have hcs : c'.Covers cs := by
            intro d hd hcompound
            exact hcovers d (Expr.mem_preorderList.2 ⟨d, hd, d.mem_preorder_self⟩) hcompound
          have hnew : c'.lookup? (.node op cs) = none := by
            cases h' : c'.lookup? (.node op cs) with
            | none => rfl
            | some s =>
                rcases hrun.lookup?_cases h' with hold | hmem
                · rw [h] at hold
                  cases hold
                · exact absurd hmem (Expr.node_notMem_preorderList op cs)
          have hrun' := hrun.mono fun {d} hd => List.mem_cons_of_mem (Expr.node op cs) hd
          refine ⟨.enter hrun' (Expr.mem_preorder_self _) hnew hcs, ?_, ?_⟩
          · intro d hd hcompound
            rcases List.mem_cons.1 hd with rfl | hd
            · exact ⟨_, (lookup?_enter _ _ _ _ _).trans (if_pos rfl)⟩
            · exact (extends_enter generation _ hnew).covers hcovers d hd hcompound
          · simp only [lookup?_enter, enter_snd, if_true]

/-- Parsing a list parses its elements, and collects their symbols. -/
theorem parseList_spec (generation : Nat) {c : ExprCache} (hc : c.Valid) (deps : List Symbol) :
    (es : List Expr) →
    Entering generation (· ∈ Expr.preorderList es) c (parseList generation c deps es).1 ∧
      (parseList generation c deps es).1.Covers (Expr.preorderList es) ∧
      (parseList generation c deps es).2 = (parseList generation c deps es).1.depsOf deps es
  | [] => ⟨.refl _, by simp [Covers, Expr.preorderList], rfl⟩
  | e :: es => by
      obtain ⟨hrun, hcovers, hsymbol⟩ := parseNode_spec generation hc e
      have hvalid := hrun.valid hc
      simp only [parseList, hsymbol]
      generalize (parseNode generation c e).1 = c' at *
      obtain ⟨hrun', hcovers', hdeps⟩ :=
        parseList_spec generation hvalid (addSymbol deps (c'.lookup? e)) es
      generalize parseList generation c' (addSymbol deps (c'.lookup? e)) es = r at *
      have hfirst : r.1.lookup? e = c'.lookup? e :=
        hrun'.grows.lookup?_eq (hrun'.valid hvalid).leafFree (hcovers e e.mem_preorder_self)
      refine ⟨(hrun.mono ?_).trans (hrun'.mono ?_), ?_, ?_⟩
      · intro d hd
        exact List.mem_append_left _ hd
      · intro d hd
        exact List.mem_append_right _ hd
      · intro d hd hcompound
        rcases List.mem_append.1 hd with hd | hd
        · exact hrun'.grows.covers hcovers d hd hcompound
        · exact hcovers' d hd hcompound
      · rw [hdeps, depsOf, depsOf, List.foldl_cons, hfirst]

end

theorem parse_spec (generation : Nat) {c : ExprCache} (hc : c.Valid) (e : Expr) :
    Entering generation (· ∈ e.preorder) c (c.parse generation e) ∧
      (c.parse generation e).Covers e.preorder := by
  obtain ⟨hrun, hcovers, _⟩ := parseNode_spec generation hc e
  exact ⟨hrun, hcovers⟩

end ExprCache

end TensorTemplate
