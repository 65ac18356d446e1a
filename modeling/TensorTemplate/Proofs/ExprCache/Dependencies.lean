import TensorTemplate.Proofs.ExprCache.History

/-!
The dependencies of symbols, as a table of symbols by their keys sees them.

A symbol is found by its key, and so is what it depends on. Whatever expressions a
cache is given, and whichever of them print alike, a symbol depends only on symbols
that were made before it since the last clearing and are still in the table. So
declaring by key, with every dependency looked up again, ends within as many levels
as the symbol's number says, meets no key that is missing, and declares just what
`declare` does.
-/

namespace TensorTemplate

namespace ExprCache

/-- Declares the symbol of a key, after those of the keys that it depends on. Each is looked up in
the table when its turn comes. There is no result if one is missing there, or if the dependencies go
deeper than `depth`. -/
def declareKey? : (depth : Nat) → ExprCache → (key : String) → Option ExprCache
  | 0, _, _ => none
  | depth + 1, c, key => do
    let s ← c.symbol? key
    if c.isDeclared key then
      return c
    let c ← (s.deps.map (·.target)).foldlM (declareKey? depth) c
    return { c with declared := s :: c.declared, declaredKeys := c.declaredKeys.insert key }

theorem Declaring.known {ss : List Symbol} {c c' : ExprCache} (h : Declaring ss c c') {s : Symbol}
    (hs : c.Known s) : c'.Known s := by
  obtain ⟨new, keys, rfl, _⟩ := h.frame
  exact hs

/-- If each of the symbols can be declared by key, so can all of them one after the other. -/
theorem foldlM_declareKey? {depth n : Nat}
    (hone : ∀ {c : ExprCache} {s : Symbol}, c.Valid → c.Listed → c.Known s → s.number < n →
      declareKey? depth c s.target = some (c.declare s))
    {c : ExprCache} (hc : c.Valid) (hl : c.Listed) {ss : List Symbol}
    (hss : ∀ s ∈ ss, c.Known s ∧ s.number < n) :
    (ss.map (·.target)).foldlM (declareKey? depth) c = some (c.declareAll ss) := by
  induction ss generalizing c with
  | nil => rfl
  | cons s ss ih =>
      obtain ⟨hs, hlt⟩ := hss s List.mem_cons_self
      have hfirst := declare_spec hc hl s hs
      have hrest : ∀ r ∈ ss, (c.declare s).Known r ∧ r.number < n := by
        intro r hr
        obtain ⟨hknown, hlt⟩ := hss r (List.mem_cons_of_mem _ hr)
        exact ⟨hfirst.known hknown, hlt⟩
      rw [List.map_cons, List.foldlM_cons, hone hc hl hs hlt]
      exact ih (hfirst.valid hc) hfirst.listed hrest

/-- Declaring by key finds every dependency, and ends, since numbers go down along dependencies. -/
theorem declareKey?_eq {c : ExprCache} (hc : c.Valid) (hl : c.Listed) {s : Symbol}
    (hs : c.Known s) {depth : Nat} (hlt : s.number < depth) :
    declareKey? depth c s.target = some (c.declare s) := by
  induction depth generalizing c s with
  | zero => exact absurd hlt (Nat.not_lt_zero _)
  | succ depth ih =>
      obtain ⟨name, target, number, deps⟩ := s
      have hlookup : c.symbol? target = some ⟨name, target, number, deps⟩ := hs
      have hdeps : (deps.map (·.target)).foldlM (declareKey? depth) c =
          some (c.declareAll deps) := by
        apply foldlM_declareKey? (fun hc hl hs => ih hc hl hs) hc hl
        intro d hd
        obtain ⟨hknown, hlower⟩ := hc.deps_known hs hd
        exact ⟨hknown, hlower.trans_le (Nat.le_of_lt_succ hlt)⟩
      rw [declareKey?, declare, hlookup]
      split
      · rfl
      · simp [hdeps]

/-! ### When symbols are made -/

/-- The second cache is the first one later, with nothing cleared in between: the symbols are still
there, and a symbol that was added has a number which had not been given. -/
structure Later (c c' : ExprCache) : Prop where
  count_le : c.names.count ≤ c'.names.count
  known : ∀ {s}, c.Known s → c'.Known s
  known_or_le : ∀ {s}, c'.Known s → c.Known s ∨ c.names.count ≤ s.number

namespace Later

variable {c c' c'' : ExprCache}

protected theorem refl (c : ExprCache) : c.Later c := ⟨Nat.le_refl _, id, Or.inl⟩

protected theorem trans (h : c.Later c') (h' : c'.Later c'') : c.Later c'' where
  count_le := h.count_le.trans h'.count_le
  known := fun hs => h'.known (h.known hs)
  known_or_le := by
    intro s hs
    rcases h'.known_or_le hs with hs | hle
    · exact h.known_or_le hs
    · exact Or.inr (h.count_le.trans hle)

/-- Of the later symbols, the earlier cache had those with numbers given by then. -/
theorem number_lt_iff (h : c.Later c') (hc : c.Valid) {s : Symbol} (hs : c'.Known s) :
    s.number < c.names.count ↔ c.Known s := by
  constructor
  · intro hlt
    rcases h.known_or_le hs with hs | hle
    · exact hs
    · exact absurd hlt (Nat.not_lt.2 hle)
  · exact hc.number_lt

end Later

theorem Entering.later {generation : Nat} {S : Expr → Prop} {c c' : ExprCache}
    (h : Entering generation S c c') (hc : c.Valid) : c.Later c' where
  count_le := h.grows.count
  known := h.grows.symbol
  known_or_le := by
    intro s hs
    induction h with
    | refl => exact Or.inl hs
    | hit _ ih => exact ih hs
    | enter hrun _ _ _ ih =>
        rcases (hrun.valid hc).known_enter _ _ _ hs with hs | ⟨rfl, _⟩
        · exact ih hs
        · exact Or.inr hrun.grows.count

theorem Declaring.later {ss : List Symbol} {c c' : ExprCache} (h : Declaring ss c c') :
    c.Later c' := by
  obtain ⟨new, keys, rfl, _⟩ := h.frame
  exact ⟨Nat.le_refl _, id, Or.inl⟩

end ExprCache

namespace CacheCall

open ExprCache

theorem later_run {b : Backend} {kernel : String} {es : List Expr} {t : Temporaries}
    (h : Tracks b kernel es t.exprs) {call : CacheCall} (hcall : call ≠ clear) :
    t.exprs.Later (call.run t).exprs := by
  have hparse := fun e => (parse_spec t.generation h.valid e).1.later h.valid
  have hdeclare : ∀ {c : ExprCache} {es : List Expr}, Tracks b kernel es c → ∀ e,
      c.Later (c.substituteAndDeclare e).2.2 :=
    fun hc e => (declaring_substituteAndDeclare hc.valid hc.listed e).later
  cases call with
  | parse e => exact hparse e
  | emit e => exact (hparse e).trans (hdeclare (h.parse t.generation e) e)
  | substitute e => exact .refl _
  | substituteAndDeclare e => exact hdeclare h e
  | clear => exact absurd rfl hcall
  | advance => exact .refl _

section

variable (b : Backend) (kernel lambdaKernel : String)

theorem later_runAll (calls : List CacheCall) {more : List CacheCall} (hmore : clear ∉ more) :
    (runAll b kernel lambdaKernel calls).exprs.Later
      (runAll b kernel lambdaKernel (calls ++ more)).exprs := by
  induction more using List.reverseRecOn with
  | nil =>
      rw [List.append_nil]
      exact .refl _
  | append_singleton more call ih =>
      have hcall : call ≠ clear := by
        rintro rfl
        exact hmore (List.mem_append_right _ (List.mem_singleton_self _))
      have hfirst := ih fun hmem => hmore (List.mem_append_left _ hmem)
      rw [← List.append_assoc, runAll_concat]
      exact hfirst.trans (later_run (tracks_runAll b kernel lambdaKernel (calls ++ more)) hcall)

/-- All symbols that there are have been made since the last clearing. -/
theorem count_le_of_known {before after : List CacheCall} (hafter : clear ∉ after) {s : Symbol}
    (hs : (runAll b kernel lambdaKernel (before ++ clear :: after)).exprs.Known s) :
    (runAll b kernel lambdaKernel before).exprs.names.count ≤ s.number := by
  have hsplit : before ++ clear :: after = (before ++ [clear]) ++ after := by simp
  rw [hsplit] at hs
  rcases (later_runAll b kernel lambdaKernel (before ++ [clear]) hafter).known_or_le hs with
    hs | hle
  · rw [runAll_concat] at hs
    have hnone := symbol?_clear (runAll b kernel lambdaKernel before).exprs s.target
    cases hnone.symm.trans hs
  · rw [runAll_concat] at hle
    exact hle

/-- What a symbol depends on is in the table under its own key, and was made before the symbol and
since the last clearing: numbers are given in the order in which symbols are made, as the symbols of
an earlier time show. So declaring a symbol by its key comes to an end, and finds all that the
symbol leads to. -/
theorem deps_made_before (calls : List CacheCall) :
    let cache := (runAll b kernel lambdaKernel calls).exprs
    ∀ key s, cache.symbol? key = some s →
      (∀ d ∈ s.deps, cache.symbol? d.target = some d ∧ d.number < s.number ∧
        ∀ before after, calls = before ++ clear :: after → clear ∉ after →
          (runAll b kernel lambdaKernel before).exprs.names.count ≤ d.number) ∧
      (∀ before after, calls = before ++ after → clear ∉ after →
        (s.number < (runAll b kernel lambdaKernel before).exprs.names.count ↔
          (runAll b kernel lambdaKernel before).exprs.symbol? key = some s)) ∧
      ∀ depth > s.number, cache.declareKey? depth key = some (cache.declare s) := by
  intro cache key s hkey
  have htracks := tracks_runAll b kernel lambdaKernel calls
  have hs : cache.Known s := by
    rw [Known, htracks.valid.target_eq hkey]
    exact hkey
  rw [← htracks.valid.target_eq hkey]
  refine ⟨?_, ?_, ?_⟩
  · intro d hd
    obtain ⟨hknown, hlt⟩ := htracks.valid.deps_known hs hd
    refine ⟨hknown, hlt, ?_⟩
    rintro before after rfl hafter
    exact count_le_of_known b kernel lambdaKernel hafter hknown
  · rintro before after rfl hafter
    exact (later_runAll b kernel lambdaKernel before hafter).number_lt_iff
      (tracks_runAll b kernel lambdaKernel before).valid hs
  · intro depth hdepth
    exact declareKey?_eq htracks.valid htracks.listed hs hdepth

end

/-- Two sums that print alike, the second of a variable that reads as a sum, and a variable with the
name of their symbol: what has the key of the product depends on the negation alone. -/
theorem deps_made_before_alike :
    let sum : Expr := .sum [.var "x", .var "y"]
    let calls := [CacheCall.parse (.neg sum), .clear, .parse (.neg (.sum [.var "x + y"])),
      .parse (.product [.var "cse_1_2", .neg sum])]
    let cache := (runAll .cpp "cse" "lambda" calls).exprs
    ∃ s, cache.symbol? "cse_1_2*cse_1_3" = some s ∧ s.deps.map (·.target) = ["-cse_1_2"] ∧
      (∀ d ∈ s.deps, cache.symbol? d.target = some d ∧ d.number < s.number ∧
        (runAll .cpp "cse" "lambda" [.parse (.neg sum)]).exprs.names.count ≤ d.number) ∧
      cache.declareKey? 5 "cse_1_2*cse_1_3" = some (cache.declare s) := by
  intro sum calls cache
  have hfound : (cache.symbol? "cse_1_2*cse_1_3").map
      (fun s => (s.number, s.deps.map (·.target))) = some (4, ["-cse_1_2"]) := by decide +kernel
  obtain ⟨s, hs, hdata⟩ := Option.map_eq_some_iff.1 hfound
  obtain ⟨hnumber, hkeys⟩ := Prod.mk.inj hdata
  obtain ⟨hdeps, _, hdeclare⟩ := deps_made_before .cpp "cse" "lambda" calls _ s hs
  refine ⟨s, hs, hkeys, ?_, hdeclare 5 (by omega)⟩
  intro d hd
  obtain ⟨hknown, hlt, hsince⟩ := hdeps d hd
  exact ⟨hknown, hlt, hsince [.parse (.neg sum)] _ rfl (by simp)⟩

end CacheCall

end TensorTemplate
