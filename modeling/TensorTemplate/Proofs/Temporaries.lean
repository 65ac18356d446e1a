import TensorTemplate.Proofs.CleanText
import TensorTemplate.Proofs.ExprCache.Declaring
import Mathlib.Data.List.Nodup

/-!
The caches of a run.

All that waits in the caches was made in the present generation, by names that are
all different, and has a clean declaration. Printing an expression adds what its
text names, and what that needs; calling a function value adds that value; and
clearing starts a later generation with nothing that waits.
-/

namespace TensorTemplate

open NameGen

namespace NameGen

/-- A name made in this generation, by whatever generator. -/
def MadeIn (generation : Nat) (name : String) : Prop :=
  ∃ kernel count, name = nameOf kernel generation count

theorem MadeIn.unique {g g' : Nat} {name : String} (h : MadeIn g name) (h' : MadeIn g' name) :
    g = g' := by
  obtain ⟨kernel, count, rfl⟩ := h
  obtain ⟨kernel', count', heq⟩ := h'
  exact (nameOf_inj heq).2.1

theorem underscore_mem_of_madeIn {g : Nat} {name : String} (h : MadeIn g name) :
    '_' ∈ name.toList := by
  obtain ⟨kernel, count, rfl⟩ := h
  rw [toList_nameOf]
  simp

end NameGen

/-- What can be declared: a shared subexpression, or a function value. -/
inductive Temporary where
  | symbol (s : Symbol)
  | lambda (r : LambdaRecord)

namespace Temporary

def name : Temporary → String
  | symbol s => s.name
  | lambda r => r.name

/-- The second temporary is the first one, or stands in the targets that the first one leads to. -/
inductive Needs : Temporary → Temporary → Prop where
  | symbol {s r : Symbol} (h : s.Needs r) : Needs (.symbol s) (.symbol r)
  | lambda (r : LambdaRecord) : Needs (.lambda r) (.lambda r)

theorem Needs.refl : (x : Temporary) → x.Needs x
  | .symbol s => .symbol (.self s)
  | .lambda r => .lambda r

theorem needs_lambda_iff {r : LambdaRecord} {x : Temporary} :
    (lambda r).Needs x ↔ x = .lambda r := by
  constructor
  · rintro ⟨⟩
    rfl
  · rintro rfl
    exact .lambda r

end Temporary

namespace ExprCache

/-- Symbols with clean names print their expressions clean. -/
theorem clean_substituted {c : ExprCache} (hc : c.Valid)
    (hkernel : isIdentifier c.names.kernel = true) {e : Expr} (he : e.Clean) :
    Text.Clean (c.substituted e) := by
  apply Backend.clean_printedM
  · intro d name hname
    obtain ⟨s, hs, rfl⟩ := Option.map_eq_some_iff.1 hname
    obtain ⟨generation, hmade⟩ := hc.name_eq (hc.known hs)
    rw [hmade]
    exact Text.clean_of_isIdentifier (isIdentifier_nameOf hkernel _ _)
  · exact he

/-- Entering clean expressions in a generation leaves only symbols of that generation with clean
targets, if there were no others. -/
theorem Entering.symbol {generation : Nat} {S : Expr → Prop} {c c' : ExprCache}
    (h : Entering generation S c c') (hc : c.Valid) (hkernel : isIdentifier c.names.kernel = true)
    (hS : ∀ e, S e → e.Clean)
    (hsymbol : ∀ s, c.Known s →
      s.name = nameOf c.names.kernel generation s.number ∧ Text.Clean s.target) :
    ∀ s, c'.Known s → s.name = nameOf c.names.kernel generation s.number ∧ Text.Clean s.target := by
  induction h with
  | refl => exact hsymbol
  | hit _ ih => exact ih
  | @enter d h op cs hnode hnew hcs ih =>
      intro s hs
      have hd := h.valid hc
      rcases hd.known_enter generation (.node op cs) (d.depsOf [] cs) hs with hs | ⟨rfl, _⟩
      · exact ih s hs
      · rw [h.grows.kernel]
        exact ⟨rfl, clean_substituted hd (h.grows.kernel ▸ hkernel) (hS _ hnode)⟩

end ExprCache

namespace Temporaries

/-- The temporaries that wait for their declaration, in the order of declaration. -/
def waiting (t : Temporaries) : List Temporary :=
  t.lambdas.records.map .lambda ++ t.exprs.declared.reverse.map .symbol

/-- The symbols whose names printing `e` puts into the text. -/
def named (t : Temporaries) (e : Expr) : List Symbol := ((t.parse e).exprs.naming e).2

/-- What is true of the caches of every run on clean expressions. -/
structure Neat (t : Temporaries) : Prop where
  exprKernel : isIdentifier t.exprs.names.kernel = true
  lambdaKernel : isIdentifier t.lambdas.names.kernel = true
  valid : t.exprs.Valid
  listed : t.exprs.Listed
  symbol : ∀ s, t.exprs.Known s →
    s.name = nameOf t.exprs.names.kernel t.generation s.number ∧ Text.Clean s.target
  record : ∀ r, r ∈ t.lambdas.records →
    (∃ n < t.lambdas.names.count, r.name = nameOf t.lambdas.names.kernel t.generation n) ∧
      r.lambda.Clean

/-- With two kernels, also the names are apart. -/
structure Sound (t : Temporaries) : Prop extends Neat t where
  kernel_ne : t.exprs.names.kernel ≠ t.lambdas.names.kernel
  records_nodup : (t.lambdas.records.map (·.name)).Nodup

variable {t : Temporaries}

theorem Sound.madeIn (ht : t.Sound) {x : Temporary} (hx : x ∈ t.waiting) :
    MadeIn t.generation x.name := by
  rcases List.mem_append.1 hx with hx | hx
  · obtain ⟨r, hr, rfl⟩ := List.mem_map.1 hx
    obtain ⟨n, _, hname⟩ := (ht.record r hr).1
    exact ⟨_, _, hname⟩
  · obtain ⟨s, hs, rfl⟩ := List.mem_map.1 hx
    exact ⟨_, _, (ht.symbol s (ht.listed.known (List.mem_reverse.1 hs))).1⟩

/-- No two temporaries that wait have one name. -/
theorem Sound.waiting_nodup (ht : t.Sound) : (t.waiting.map Temporary.name).Nodup := by
  have hdeclared : (t.exprs.declared.reverse.map (·.name)).Nodup := by
    refine List.Nodup.map_on ?_ (List.nodup_reverse.2 ht.listed.nodup)
    intro s hs r hr hname
    have hs := ht.listed.known (List.mem_reverse.1 hs)
    exact ht.valid.name_inj hs (ht.listed.known (List.mem_reverse.1 hr)) hname
  have hapart : ∀ r ∈ t.lambdas.records, ∀ s ∈ t.exprs.declared.reverse, r.name ≠ s.name := by
    intro r hr s hs hname
    obtain ⟨n, _, hr⟩ := (ht.record r hr).1
    rw [hr, (ht.symbol s (ht.listed.known (List.mem_reverse.1 hs))).1] at hname
    exact ht.kernel_ne (nameOf_inj hname).1.symm
  rw [waiting, List.map_append, List.map_map, List.map_map, List.nodup_append]
  refine ⟨ht.records_nodup, hdeclared, ?_⟩
  intro name hname name' hname'
  obtain ⟨r, hr, rfl⟩ := List.mem_map.1 hname
  obtain ⟨s, hs, rfl⟩ := List.mem_map.1 hname'
  exact hapart r hr s hs

/-- What is true of the caches of every run. -/
structure Steady (t : Temporaries) : Prop where
  valid : t.exprs.Valid
  listed : t.exprs.Listed

theorem Neat.steady (ht : t.Neat) : t.Steady := ⟨ht.valid, ht.listed⟩

/-! ### Printing an expression -/

theorem Steady.declaring (ht : t.Steady) (e : Expr) :
    ExprCache.Declaring (t.named e) (t.parse e).exprs (t.emit e).2.exprs := by
  have hentering := (ExprCache.parse_spec t.generation ht.valid e).1
  exact ExprCache.declaring_substituteAndDeclare (hentering.valid ht.valid)
    (hentering.grows.listed ht.listed) e

theorem Steady.emit (ht : t.Steady) (e : Expr) : (t.emit e).2.Steady := by
  have hentering := (ExprCache.parse_spec t.generation ht.valid e).1
  exact ⟨(ht.declaring e).valid (hentering.valid ht.valid), (ht.declaring e).listed⟩

/-- Printing changes no kernel; what is known then was known, or has been parsed. -/
theorem Steady.emit_exprs (ht : t.Steady) (e : Expr) :
    ∃ new keys, (t.emit e).2.exprs =
      { t.exprs.parse t.generation e with
        declared := new ++ (t.exprs.parse t.generation e).declared, declaredKeys := keys } := by
  obtain ⟨new, keys, heq, _⟩ := (ht.declaring e).frame
  exact ⟨new, keys, heq⟩

theorem Steady.kernel_emit (ht : t.Steady) (e : Expr) :
    (t.emit e).2.exprs.names.kernel = t.exprs.names.kernel := by
  obtain ⟨new, keys, hexprs⟩ := ht.emit_exprs e
  rw [hexprs]
  exact (ExprCache.parse_spec t.generation ht.valid e).1.grows.kernel

theorem Neat.emit (ht : t.Neat) {e : Expr} (he : e.Clean) : (t.emit e).2.Neat := by
  have hentering := (ExprCache.parse_spec t.generation ht.valid e).1
  have hsymbol := hentering.symbol ht.valid ht.exprKernel
    (fun d hd => he.of_mem_preorder hd) ht.symbol
  obtain ⟨new, keys, hexprs⟩ := ht.steady.emit_exprs e
  have hsteady := ht.steady.emit e
  refine ⟨?_, ht.lambdaKernel, hsteady.valid, hsteady.listed, ?_, ht.record⟩
  · rw [ht.steady.kernel_emit]
    exact ht.exprKernel
  · rw [ht.steady.kernel_emit, hexprs]
    exact hsymbol

theorem Sound.emit (ht : t.Sound) {e : Expr} (he : e.Clean) : (t.emit e).2.Sound where
  toNeat := ht.toNeat.emit he
  kernel_ne := by
    rw [ht.steady.kernel_emit]
    exact ht.kernel_ne
  records_nodup := ht.records_nodup

/-- Printing adds the symbols that the text names, and what they need. -/
theorem Steady.mem_waiting_emit (ht : t.Steady) (e : Expr) {x : Temporary} :
    x ∈ (t.emit e).2.waiting ↔
      x ∈ t.waiting ∨ ∃ s ∈ t.named e, (Temporary.symbol s).Needs x := by
  have hentering := (ExprCache.parse_spec t.generation ht.valid e).1
  have hdeclaring := ht.declaring e
  obtain ⟨new, keys, heq, hnew⟩ := hdeclaring.frame
  have hdeclared : (t.emit e).2.exprs.declared = new ++ t.exprs.declared := by
    rw [← hentering.grows.declared]
    exact congrArg ExprCache.declared heq
  cases x with
  | lambda r =>
      have hneeds : ¬∃ s ∈ t.named e, (Temporary.symbol s).Needs (.lambda r) := by
        rintro ⟨s, _, h⟩
        cases h
      simp only [hneeds, or_false]
      simp [waiting, Temporaries.emit, substituteAndDeclare, parse]
  | symbol r =>
      have hwaiting : ∀ t : Temporaries, .symbol r ∈ t.waiting ↔ r ∈ t.exprs.declared := by
        simp [waiting]
      rw [hwaiting, hwaiting]
      constructor
      · intro hr
        rw [hdeclared] at hr
        rcases List.mem_append.1 hr with hr | hr
        · obtain ⟨s, hs, hneeds⟩ := hnew r hr
          exact Or.inr ⟨s, hs, .symbol hneeds⟩
        · exact Or.inl hr
      · rintro (hr | ⟨s, hs, hneeds⟩)
        · rw [hdeclared]
          exact List.mem_append_right _ hr
        · cases hneeds with
          | symbol hneeds => exact hdeclaring.listed.needs (hdeclaring.declared s hs) hneeds

/-! ### Calling a function value -/

/-- The record that a call of the function value goes to. -/
def called (t : Temporaries) (l : Lambda) : LambdaRecord := (t.lambdas.enter t.generation l).1

end Temporaries

namespace LambdaCache

theorem mem_records_push {c : LambdaCache} {r r' : LambdaRecord} :
    r' ∈ (c.push r).records ↔ r' ∈ c.records ∨ r' = r := by
  unfold push
  split <;> simp only [records, List.mem_append, List.mem_singleton] <;> tauto

theorem records_push_perm (c : LambdaCache) (r : LambdaRecord) :
    (c.push r).records.Perm (r :: c.records) := by
  unfold push
  split
  · simp only [records, List.append_assoc]
    exact List.perm_middle
  · simp only [records]
    rw [← List.append_assoc]
    exact List.perm_append_singleton _ _

/-- What tells the records apart tells them apart with one more, if that differs from all. -/
theorem nodup_map_push {β : Type} {f : LambdaRecord → β} {c : LambdaCache} {r : LambdaRecord}
    (h : (c.records.map f).Nodup) (hr : ∀ r' ∈ c.records, f r' ≠ f r) :
    ((c.push r).records.map f).Nodup := by
  refine ((records_push_perm c r).map f).nodup_iff.2 (List.nodup_cons.2 ⟨?_, h⟩)
  intro hmem
  obtain ⟨r', hr', heq⟩ := List.mem_map.1 hmem
  exact hr r' hr' heq

theorem mem_records_of_find? {c : LambdaCache} {l : Lambda} {r : LambdaRecord}
    (h : c.find? l = some r) : r ∈ c.records := by
  have hmem := List.mem_of_find?_eq_some h
  split at hmem
  · exact List.mem_append_left _ hmem
  · exact List.mem_append_right _ hmem

theorem push_frame (c : LambdaCache) (r : LambdaRecord) :
    (c.push r).backend = c.backend ∧ (c.push r).names = c.names := by
  unfold push
  split <;> exact ⟨rfl, rfl⟩

/-- Entering finds the record of a function value, or makes one with the next name. -/
theorem enter_cases (c : LambdaCache) (generation : Nat) (l : Lambda) :
    (∃ r ∈ c.records, c.enter generation l = (r, { c with hits := c.hits + 1 })) ∨
      (let r : LambdaRecord := ⟨nameOf c.names.kernel generation c.names.count, l⟩
       c.enter generation l =
        (r, { c with names := { c.names with count := c.names.count + 1 },
                     misses := c.misses + 1 }.push r)) := by
  unfold enter
  split
  · rename_i r hr
    exact Or.inl ⟨r, mem_records_of_find? hr, rfl⟩
  · exact Or.inr rfl

end LambdaCache

namespace Temporaries

variable {t : Temporaries}

/-- Calling a function value changes no kernel. -/
theorem kernel_cacheLambda (t : Temporaries) (l : Lambda) :
    (t.cacheLambda l).2.lambdas.names.kernel = t.lambdas.names.kernel := by
  show (t.lambdas.enter t.generation l).2.names.kernel = t.lambdas.names.kernel
  rcases t.lambdas.enter_cases t.generation l with ⟨r, _, heq⟩ | heq
  · rw [heq]
  · rw [heq]
    show (LambdaCache.push _ _).names.kernel = _
    rw [(LambdaCache.push_frame _ _).2]

theorem Neat.cacheLambda (ht : t.Neat) {l : Lambda} (hl : l.Clean) : (t.cacheLambda l).2.Neat where
  exprKernel := ht.exprKernel
  lambdaKernel := by
    rw [kernel_cacheLambda]
    exact ht.lambdaKernel
  valid := ht.valid
  listed := ht.listed
  symbol := ht.symbol
  record := by
    rw [kernel_cacheLambda]
    have hlambdas : (t.cacheLambda l).2.lambdas = (t.lambdas.enter t.generation l).2 := rfl
    rw [hlambdas]
    rcases t.lambdas.enter_cases t.generation l with ⟨r, _, heq⟩ | heq
    · rw [heq]
      exact ht.record
    · rw [heq]
      obtain ⟨_, hnames⟩ := LambdaCache.push_frame
        { t.lambdas with
          names := { t.lambdas.names with count := t.lambdas.names.count + 1 }
          misses := t.lambdas.misses + 1 }
        ⟨nameOf t.lambdas.names.kernel t.generation t.lambdas.names.count, l⟩
      intro r hr
      rw [hnames]
      rcases LambdaCache.mem_records_push.1 hr with hr | rfl
      · obtain ⟨⟨n, hn, hname⟩, hclean⟩ := ht.record r hr
        exact ⟨⟨n, Nat.lt_succ_of_lt hn, hname⟩, hclean⟩
      · exact ⟨⟨_, Nat.lt_succ_self _, rfl⟩, hl⟩

theorem Sound.cacheLambda (ht : t.Sound) {l : Lambda} (hl : l.Clean) :
    (t.cacheLambda l).2.Sound where
  toNeat := ht.toNeat.cacheLambda hl
  kernel_ne := by
    rw [kernel_cacheLambda]
    exact ht.kernel_ne
  records_nodup := by
    have hlambdas : (t.cacheLambda l).2.lambdas = (t.lambdas.enter t.generation l).2 := rfl
    rw [hlambdas]
    rcases t.lambdas.enter_cases t.generation l with ⟨r, _, heq⟩ | heq
    · rw [heq]
      exact ht.records_nodup
    · -- the new name has a count that no record has yet
      rw [heq]
      refine LambdaCache.nodup_map_push ht.records_nodup fun r hr hname => ?_
      obtain ⟨n, hn, hmade⟩ := (ht.record r hr).1
      rw [hmade] at hname
      exact absurd (nameOf_inj hname).2.2 hn.ne

theorem backend_cacheLambda (t : Temporaries) (l : Lambda) :
    (t.cacheLambda l).2.lambdas.backend = t.lambdas.backend := by
  show (t.lambdas.enter t.generation l).2.backend = t.lambdas.backend
  rcases t.lambdas.enter_cases t.generation l with ⟨r, _, heq⟩ | heq
  · rw [heq]
  · rw [heq]
    exact (LambdaCache.push_frame _ _).1

/-- Calling adds the function value that is called. -/
theorem mem_waiting_cacheLambda (t : Temporaries) (l : Lambda) {x : Temporary} :
    x ∈ (t.cacheLambda l).2.waiting ↔ x ∈ t.waiting ∨ x = .lambda (t.called l) := by
  have hrecords : ∀ r, r ∈ (t.cacheLambda l).2.lambdas.records ↔
      r ∈ t.lambdas.records ∨ r = t.called l := by
    intro r
    have hlambdas : (t.cacheLambda l).2.lambdas = (t.lambdas.enter t.generation l).2 := rfl
    rw [hlambdas, called]
    rcases t.lambdas.enter_cases t.generation l with ⟨r', hr', heq⟩ | heq
    · rw [heq]
      refine ⟨Or.inl, ?_⟩
      rintro (hr | rfl)
      · exact hr
      · exact hr'
    · rw [heq]
      exact LambdaCache.mem_records_push
  have hexprs : (t.cacheLambda l).2.exprs = t.exprs := rfl
  cases x with
  | symbol s => simp [waiting, hexprs]
  | lambda r => simp [waiting, hrecords]

/-! ### Clearing -/

theorem clear_eq (t : Temporaries) :
    ∃ generation, t.generation < generation ∧
      t.clear =
        { generation, exprs := t.exprs.clear
          lambdas := if t.lambdas.isEmpty then t.lambdas else t.lambdas.clear } := by
  unfold clear
  split
  · exact ⟨t.generation + 1, Nat.lt_succ_self _, rfl⟩
  · exact ⟨t.generation + 1 + 1, by omega, rfl⟩

theorem records_clear (t : Temporaries) : t.clear.lambdas.records = [] := by
  obtain ⟨generation, _, heq⟩ := t.clear_eq
  rw [heq]
  split
  · rename_i hempty
    exact List.isEmpty_iff.1 hempty
  · rfl

theorem waiting_clear (t : Temporaries) : t.clear.waiting = [] := by
  obtain ⟨generation, _, heq⟩ := t.clear_eq
  have hdeclared : t.clear.exprs.declared = [] := by
    rw [heq]
    rfl
  simp [waiting, records_clear, hdeclared]

theorem backend_clear (t : Temporaries) : t.clear.lambdas.backend = t.lambdas.backend := by
  obtain ⟨generation, _, heq⟩ := t.clear_eq
  rw [heq]
  split <;> rfl

theorem generation_lt_clear (t : Temporaries) : t.generation < t.clear.generation := by
  obtain ⟨generation, hlt, heq⟩ := t.clear_eq
  rw [heq]
  exact hlt

theorem steady_clear (t : Temporaries) : t.clear.Steady := by
  obtain ⟨generation, _, heq⟩ := t.clear_eq
  rw [heq]
  exact ⟨t.exprs.valid_clear, t.exprs.listed_clear⟩

theorem exprs_clear (t : Temporaries) : t.clear.exprs = t.exprs.clear := by
  obtain ⟨generation, _, heq⟩ := t.clear_eq
  rw [heq]

theorem kernel_clear (t : Temporaries) :
    t.clear.lambdas.names.kernel = t.lambdas.names.kernel := by
  obtain ⟨generation, _, heq⟩ := t.clear_eq
  rw [heq]
  split <;> rfl

theorem Neat.clear (ht : t.Neat) : t.clear.Neat where
  exprKernel := by
    rw [exprs_clear]
    exact ht.exprKernel
  lambdaKernel := by
    rw [kernel_clear]
    exact ht.lambdaKernel
  valid := t.steady_clear.valid
  listed := t.steady_clear.listed
  symbol := by
    rw [exprs_clear]
    intro s hs
    simp [ExprCache.Known, ExprCache.symbol?_clear] at hs
  record := by simp [records_clear]

theorem Sound.clear (ht : t.Sound) : t.clear.Sound where
  toNeat := ht.toNeat.clear
  kernel_ne := by
    rw [exprs_clear, kernel_clear]
    exact ht.kernel_ne
  records_nodup := by simp [records_clear]

theorem neat_new (b : Backend) {exprKernel lambdaKernel : String}
    (hexpr : isIdentifier exprKernel = true) (hlambda : isIdentifier lambdaKernel = true) :
    (new b exprKernel lambdaKernel).Neat :=
  ⟨hexpr, hlambda, (ExprCache.new b exprKernel).valid_clear,
    (ExprCache.new b exprKernel).listed_clear,
    fun s hs => by simp [ExprCache.Known, new, ExprCache.new, ExprCache.symbol?] at hs,
    by simp [new, LambdaCache.new, LambdaCache.records]⟩

theorem sound_new (b : Backend) {exprKernel lambdaKernel : String}
    (hexpr : isIdentifier exprKernel = true) (hlambda : isIdentifier lambdaKernel = true)
    (hne : exprKernel ≠ lambdaKernel) : (new b exprKernel lambdaKernel).Sound :=
  ⟨neat_new b hexpr hlambda, hne, List.nodup_nil⟩

/-! ### What waits, as it is held -/

/-- What waits in the caches, to be held. -/
def toHeld (t : Temporaries) : Held := ⟨t.lambdas.records, t.exprs.declarations⟩

theorem names_toHeld (t : Temporaries) : t.toHeld.names = t.waiting.map Temporary.name := by
  simp [toHeld, Held.names, waiting, ExprCache.declarations, Function.comp_def, Temporary.name,
    Symbol.declaration]

theorem Neat.clean_toHeld (ht : t.Neat) : t.toHeld.Clean where
  lambdas := by
    intro r hr
    obtain ⟨⟨n, _, hname⟩, hclean⟩ := ht.record r hr
    refine ⟨?_, underscore_mem_of_madeIn ⟨_, _, hname⟩, hclean⟩
    rw [hname]
    exact Text.clean_of_isIdentifier (isIdentifier_nameOf ht.lambdaKernel _ _)
  declarations := by
    intro d hd
    obtain ⟨s, hs, rfl⟩ := List.mem_map.1 hd
    obtain ⟨hname, hclean⟩ := ht.symbol s (ht.listed.known (List.mem_reverse.1 hs))
    refine ⟨?_, underscore_mem_of_madeIn ⟨_, _, hname⟩, hclean⟩
    show Text.Clean s.name
    rw [hname]
    exact Text.clean_of_isIdentifier (isIdentifier_nameOf ht.exprKernel _ _)

theorem isPending_eq_false_iff (t : Temporaries) : t.isPending = false ↔ t.waiting = [] := by
  simp [isPending, waiting, LambdaCache.isEmpty]
  tauto

end Temporaries

end TensorTemplate
