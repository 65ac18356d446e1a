import TensorTemplate.Proofs.Expansion.Moves
import TensorTemplate.Proofs.LambdaCache

/-!
Calls of function values go to the right ones.

Along every run, all records of the cache are function values of the model, and the
records that were called before the last clearing had names of earlier generations. So a
name that a call has returned stands for one record for good, and what this record
computes is the tensor that was called, whichever call has made it.
-/

namespace TensorTemplate

open ExpandM NameGen

/-- Some frame has called the record. -/
def Journal.Calls (j : Journal) (r : LambdaRecord) : Prop := ∃ id, (id, .called r) ∈ j

namespace State

/-- What is true of calls along every run. -/
structure RightCalls (setup : Setup) (s : State) : Prop where
  backend : s.temporaries.lambdas.backend = setup.backend
  cache : s.temporaries.lambdas.OfModel setup.model s.temporaries.generation
  lambda : ∀ r, s.journal.Calls r → r.lambda.OfModel setup.model
  /-- What was called is in the cache, or was made before the cache was cleared. -/
  known : ∀ r, s.journal.Calls r →
    r ∈ s.temporaries.lambdas.records ∨ ∃ g < s.temporaries.generation, MadeIn g r.name
  unique : ∀ r r', s.journal.Calls r → s.journal.Calls r' → r.name = r'.name → r = r'

namespace RightCalls

variable {setup : Setup} {s t : State}

protected theorem initial (setup : Setup) (files : FileTree) :
    (State.initial setup files).RightCalls setup := by
  have hcalls : ∀ r, ¬(State.initial setup files).journal.Calls r := by
    rintro r ⟨id, hid⟩
    cases hid
  exact ⟨rfl, LambdaCache.ofModel_of_records rfl, fun r h => (hcalls r h).elim,
    fun r h => (hcalls r h).elim, fun r _ h => (hcalls r h).elim⟩

/-- Only the function values, the generation and the calls count. -/
theorem of_same (hs : s.RightCalls setup) (hlambdas : t.temporaries.lambdas = s.temporaries.lambdas)
    (hgeneration : t.temporaries.generation = s.temporaries.generation)
    (hcalls : ∀ r, t.journal.Calls r → s.journal.Calls r) : t.RightCalls setup where
  backend := by rw [hlambdas, hs.backend]
  cache := by
    rw [hlambdas, hgeneration]
    exact hs.cache
  lambda := fun r hr => hs.lambda r (hcalls r hr)
  known := by
    rw [hlambdas, hgeneration]
    exact fun r hr => hs.known r (hcalls r hr)
  unique := fun r r' hr hr' => hs.unique r r' (hcalls r hr) (hcalls r' hr')

theorem clear (hs : s.RightCalls setup) :
    { s with temporaries := s.temporaries.clear }.RightCalls setup where
  backend := s.temporaries.backend_clear.trans hs.backend
  cache := LambdaCache.ofModel_of_records s.temporaries.records_clear
  lambda := hs.lambda
  known := by
    intro r hr
    have hlt := s.temporaries.generation_lt_clear
    rcases hs.known r hr with hr | ⟨g, hg, hmade⟩
    · obtain ⟨n, _, hname⟩ := hs.cache.name r hr
      exact Or.inr ⟨_, hlt, _, _, hname⟩
    · exact Or.inr ⟨g, hg.trans hlt, hmade⟩
  unique := hs.unique

theorem calls_call {l : Lambda} {r : LambdaRecord} (h : (s.call l).journal.Calls r) :
    s.journal.Calls r ∨ r = s.temporaries.called l := by
  obtain ⟨id, hid⟩ := h
  unfold call recordOnTop at hid
  split at hid
  · exact Or.inl ⟨id, hid⟩
  · rcases List.mem_cons.1 hid with heq | hid
    · cases heq
      exact Or.inr rfl
    · exact Or.inl ⟨id, hid⟩

theorem temporaries_call (s : State) (l : Lambda) :
    (s.call l).temporaries = (s.temporaries.cacheLambda l).2 := by
  unfold call recordOnTop
  split <;> rfl

/-- After a call the record that it went to is in the cache, and has the function value called. -/
theorem called (hs : s.RightCalls setup) (hnames : setup.model.tensors.names.Nodup) {l : Lambda}
    (hl : l.OfModel setup.model) :
    (s.temporaries.called l).lambda = l ∧
      s.temporaries.called l ∈ (s.call l).temporaries.lambdas.records := by
  obtain ⟨-, hlambda, hrecords⟩ := hs.cache.enter hnames hl
  rw [temporaries_call]
  exact ⟨hlambda, (hrecords _).2 (Or.inr rfl)⟩

theorem call (hs : s.RightCalls setup) (hnames : setup.model.tensors.names.Nodup) {l : Lambda}
    (hl : l.OfModel setup.model) : (s.call l).RightCalls setup := by
  obtain ⟨hcache, hlambda, hrecords⟩ := hs.cache.enter hnames hl
  have hknown : ∀ r, s.journal.Calls r →
      r ∈ (s.temporaries.cacheLambda l).2.lambdas.records ∨
        ∃ g < s.temporaries.generation, MadeIn g r.name :=
    fun r hr => (hs.known r hr).imp_left fun h => (hrecords r).2 (Or.inl h)
  have hcalled := (hrecords _).2 (Or.inr rfl)
  -- a record of an earlier generation has another name than the one that is called
  have hunique : ∀ r, s.journal.Calls r → r.name = (s.temporaries.called l).name →
      r = s.temporaries.called l := by
    intro r hr hname
    rcases hknown r hr with hr | ⟨g, hg, hmade⟩
    · exact hcache.eq_of_name hr hcalled hname
    · obtain ⟨n, -, hmade'⟩ := hcache.name _ hcalled
      exact absurd (hmade.unique ⟨_, n, hname.trans hmade'⟩) hg.ne
  refine ⟨?_, ?_, ?_, ?_, ?_⟩
  · rw [temporaries_call, Temporaries.backend_cacheLambda, hs.backend]
  · rw [temporaries_call]
    exact hcache
  · intro r hr
    rcases calls_call hr with hr | rfl
    · exact hs.lambda r hr
    · rw [show (s.temporaries.called l).lambda = l from hlambda]
      exact hl
  · intro r hr
    rw [temporaries_call]
    rcases calls_call hr with hr | rfl
    · exact hknown r hr
    · exact Or.inl hcalled
  · intro r r' hr hr' hname
    rcases calls_call hr with hr | rfl <;> rcases calls_call hr' with hr' | rfl
    · exact hs.unique r r' hr hr' hname
    · exact hunique r hr hname
    · exact (hunique r' hr' hname.symm).symm
    · rfl

/-- Every change of a run keeps calls right. -/
theorem move (hnames : setup.model.tensors.names.Nodup) (h : Move setup s t)
    (hs : s.RightCalls setup) : t.RightCalls setup := by
  cases h with
  | opened buffer pass template =>
      refine hs.of_same rfl rfl fun r hr => ?_
      obtain ⟨id, hid⟩ := hr
      rcases List.mem_cons.1 hid with heq | hid
      · cases heq
      · exact ⟨id, hid⟩
  | withTop f => exact hs.of_same rfl rfl fun r hr => hr
  | popped => exact hs.of_same rfl rfl fun r hr => hr
  | record id hevent =>
      refine hs.of_same rfl rfl fun r hr => ?_
      obtain ⟨id', hid⟩ := hr
      rcases List.mem_cons.1 hid with heq | hid
      · cases heq
        cases hevent
      · exact ⟨id', hid⟩
  | emit e => exact hs.of_same rfl rfl fun r hr => hr
  | call ht indices => exact hs.call hnames ⟨_, _, indices, ht, rfl⟩
  | clear => exact hs.clear
  | aside => exact hs.of_same rfl rfl fun r hr => hr
  | bookmarks => exact hs.of_same rfl rfl fun r hr => hr
  | see => exact hs.of_same rfl rfl fun r hr => hr

end RightCalls

theorem Reachable.rightCalls {setup : Setup} (hnames : setup.model.tensors.names.Nodup) {s : State}
    (hs : s.Reachable setup) : s.RightCalls setup := by
  obtain ⟨files, hleads⟩ := hs
  exact hleads.keeps (RightCalls.move hnames) (.initial setup files)

end State

/-! ### The rule of a tensor -/

theorem Table.get?_insert {α : Type} (t : Table α) (name : String) (value : α) (other : String) :
    (t.insert name value).get? other = if name = other then some value else t.get? other := by
  obtain ⟨entries⟩ := t
  simp only [get?, insert]
  induction entries with
  | nil =>
      by_cases hother : name = other
      · simp [enter, hother]
      · simp [enter, hother]
  | cons entry rest ih =>
      by_cases hname : entry.1 = name
      · by_cases hother : name = other
        · simp [enter, hname, hother]
        · simp [enter, hname, hother]
      · by_cases hother : entry.1 = other
        · have hne : name ≠ other := fun heq => hname (hother.trans heq.symm)
          rw [enter, if_neg hname]
          simp [hother, hne]
        · simpa [enter, hname, hother] using ih

theorem Index.tag_valued (assignment : List Index) (i : Index) :
    (i.valued assignment).tag = i.tag := by
  unfold valued
  split <;> rfl

namespace ExpandM

variable {r : Registry} {rules : List (String × Rule)} {name : String}

theorem addRules_append (r : Registry) (rules more : List (String × Rule)) :
    addRules r (rules ++ more) = addRules (addRules r rules) more := List.foldl_append

theorem get?_addRules_of_notMem (h : name ∉ rules.map (·.1)) :
    (addRules r rules).get? name = r.get? name := by
  induction rules generalizing r with
  | nil => rfl
  | cons rule rules ih =>
      obtain ⟨hne, hnot⟩ := not_or.1 (fun hmem => h (List.mem_cons.2 hmem))
      have hrest : (addRules r (rule :: rules)).get? name = (r.insert rule.1 rule.2).get? name :=
        ih hnot
      rw [hrest, Table.get?_insert, if_neg (Ne.symm hne)]

theorem get?_addRules_of_mem (hnodup : (rules.map (·.1)).Nodup) {rule : Rule}
    (h : (name, rule) ∈ rules) : (addRules r rules).get? name = some rule := by
  induction rules generalizing r with
  | nil => cases h
  | cons first rules ih =>
      obtain ⟨hnot, hrest⟩ := List.nodup_cons.1 hnodup
      rcases List.mem_cons.1 h with rfl | h
      · have hfirst : (addRules r ((name, rule) :: rules)).get? name =
            (r.insert name rule).get? name := get?_addRules_of_notMem hnot
        rw [hfirst, Table.get?_insert, if_pos rfl]
      · exact ih hrest h

/-- The rule under a tensor's name and the ending is that of its function value, whatever else the
model holds. -/
theorem get?_lambdaRule {model : Model} (hnames : model.tensors.names.Nodup) {kind : String}
    {t : Tensor} (ht : (kind, t) ∈ model.tensors.entries) (id : Nat) :
    (addRules {} (builtinRules model id .implementation)).get? (kind ++ "_LAMBDA") =
      some ⟨0, .indexed t.slots false, .tensorLambda kind t⟩ := by
  have hrules : builtinRules model id .implementation =
      (fundamentalRules ++ [("TEMP_POOL", .simple 1 (.setPool id))] ++ tensorRules model) ++
        lambdaRules model ++ embedRules := rfl
  have hlast : ∀ other : String, other.toList.getLast? ≠ some 'A' → kind ++ "_LAMBDA" ≠ other := by
    rintro other hother rfl
    apply hother
    simp
  have hembed : kind ++ "_LAMBDA" ∉ embedRules.map (·.1) := by
    intro hmem
    rcases List.mem_pair.1 hmem with heq | heq
    · exact hlast _ (by decide) heq
    · exact hlast _ (by decide) heq
  have hnodup : ((lambdaRules model).map (·.1)).Nodup := by
    have hmap : (lambdaRules model).map (·.1) = model.tensors.names.map (· ++ "_LAMBDA") := by
      simp [lambdaRules, Table.names, Function.comp_def]
    rw [hmap]
    refine hnames.map fun a b heq => ?_
    simpa [← String.toList_inj] using heq
  rw [hrules, addRules_append, get?_addRules_of_notMem hembed, addRules_append]
  exact get?_addRules_of_mem hnodup (List.mem_map.2 ⟨(kind, t), ht, rfl⟩)

/-- A call of the rule goes to the function value of the tensor for the indices as they are written;
values that an assignment has for them do not count. -/
theorem invoke_lambda (setup : Setup) (re : Reentry) {kind : String} {t : Tensor} {d : Directive}
    {rule : Rule} (hrule : r.validate d = .ok rule) (hbody : rule.body = .tensorLambda kind t)
    (assignment : List Index) (s : State) :
    let l := t.toLambda kind setup.model.ranges d.indices
    invoke setup re r assignment d s =
      .ok (s.temporaries.lambdas.backend.invocation (s.temporaries.called l).name l.params)
        (s.call l) := by
  have htags : (d.indices.map (Index.valued assignment)).map Index.tag =
      d.indices.map Index.tag := by
    rw [List.map_map]
    exact List.map_congr_left fun i _ => i.tag_valued assignment
  intro l
  rw [invoke, bind_eq (ofExcept_eq hrule), hbody]
  show cacheLambda (t.toLambda kind setup.model.ranges (d.indices.map (Index.valued assignment))) s =
    _
  rw [t.toLambda_congr kind setup.model.ranges htags]
  exact cacheLambda_eq l s

end ExpandM

/-! ### Calls -/

namespace State

/-- In every state that a run can be in, the cache has no two records of one shape with the same kind
and tags. A name that was ever returned by a call stands for one record, and this computes the
tensor of its kind. A call that the rules accept returns the name of a record that computes the
tensor called, for the indices of the call, whether the call has made it or an earlier one. Requests
and all that is done for lines, also where it fails, lead to such states again. -/
theorem called_tabulates {setup : Setup} (hpackages : setup.packages = [])
    (hnames : setup.model.tensors.names.Nodup) {s : State} (hs : s.Reachable setup) :
    (s.temporaries.lambdas.atomic.map (·.lambda.identity)).Nodup ∧
      (s.temporaries.lambdas.mapped.map (·.lambda.identity)).Nodup ∧
      (∀ r, s.journal.Calls r →
        (∀ r', s.journal.Calls r' → r'.name = r.name → r' = r) ∧
        ∃ t, (r.lambda.kind, t) ∈ setup.model.tensors.entries ∧
          (r.lambda.payload setup.backend).Tabulates setup.backend setup.model.ranges t
            r.lambda.tags) ∧
      (∀ kind t, (kind, t) ∈ setup.model.tensors.entries → ∀ id d rule,
        let rules := addRules {} (builtinRules setup.model id .implementation)
        let labels := d.indices.map fun i => String.singleton i.label
        d.name = kind ++ "_LAMBDA" → rules.validate d = .ok rule → ∀ re assignment, ∃ r s',
          invoke setup re rules assignment d s =
            .ok (setup.backend.invocation r.name labels) s' ∧
          s'.Reachable setup ∧
          r ∈ s'.temporaries.lambdas.records ∧
          (∀ r' ∈ s'.temporaries.lambdas.records, r'.name = r.name → r' = r) ∧
          r.lambda.identity = (kind, d.indices.map Index.tag) ∧
          r.lambda.render setup.backend =
            (r.lambda.payload setup.backend).render setup.backend labels ∧
          (r.lambda.payload setup.backend).Tabulates setup.backend setup.model.ranges t
            (d.indices.map Index.tag)) ∧
      (∀ request : Request, request.Bare → (stateAfter (request.run setup) s).Reachable setup) ∧
      ∀ f fs, s.stack.frames = f :: fs → f.Local setup →
        ∀ depth (α : Type) (x : ExpandM α), Routine setup (reentry setup depth) f.id x →
          (stateAfter x s).Reachable setup := by
  have hright := hs.rightCalls hnames
  obtain ⟨hatomic, hmapped, -⟩ := List.nodup_append.1
    (List.map_append ▸ hright.cache.identities_nodup)
  refine ⟨hatomic, hmapped, ?_, ?_, ?_, ?_⟩
  · intro r hr
    refine ⟨fun r' hr' hname => hright.unique r' r hr' hr hname, ?_⟩
    obtain ⟨kind, t, indices, ht, hlambda⟩ := hright.lambda r hr
    rw [hlambda]
    exact ⟨t, ht, t.tabulates_toLambda kind setup.model.ranges setup.backend indices⟩
  · intro kind t ht id d rule rules labels hname hrule re assignment
    set l := t.toLambda kind setup.model.ranges d.indices
    have hl : l.OfModel setup.model := ⟨kind, t, d.indices, ht, rfl⟩
    have hparams : l.params = labels := t.params_toLambda kind setup.model.ranges d.indices
    have hbody : rule.body = .tensorLambda kind t := by
      have hget := Registry.get?_of_validate hrule
      rw [hname, get?_lambdaRule hnames ht] at hget
      cases hget
      rfl
    have hinvoke := invoke_lambda setup re hrule hbody assignment s
    obtain ⟨hlambda, hmem⟩ := hright.called hnames hl
    have hcache := (hright.call hnames hl).cache
    refine ⟨s.temporaries.called l, s.call l, ?_, ?_, hmem, ?_, ?_, ?_, ?_⟩
    · rw [hinvoke, hright.backend, hparams]
    · exact (Leads.of_move (.call s ht d.indices)).reachable hs
    · exact fun r' hr' hname => hcache.eq_of_name hr' hmem hname
    · rw [hlambda]
      rfl
    · rw [hlambda, l.render_eq, hparams]
    · rw [hlambda]
      exact t.tabulates_toLambda kind setup.model.ranges setup.backend d.indices
  · exact fun request hbare => (request.run_leads hpackages hbare s).reachable hs
  · intro f fs hframes hf depth α x hx
    exact ((hx.moves (moves_reentry hpackages depth)).leads hframes rfl hf).reachable hs

/-- A template, and a form on phase space that misses its first component. -/
def formSetup (template : String) : Setup where
  settings := {}
  backend := .cpp
  model :=
    { name := "form", fields := ["x", "y"]
      tensors := ⟨[("G", ⟨[.full], fun values => if values = [0] then none else some (.var "g")⟩)]⟩ }
  source := .memory ⟨[("outer", template)]⟩

/-- A function value that a failed request has left in the cache is called by its old name, over the
fields only. -/
theorem called_tabulates_left :
    let setup := formSetup "cpp 0.1\n$G_LAMBDA[a]\n$NOPE\n"
    let s := stateAfter ((Request.text "outer" .implementation).run setup) (.initial setup {})
    let d : Directive := { name := "G_LAMBDA", indices := [⟨'a', .field, none⟩] }
    let rules := addRules {} (builtinRules setup.model 1 .implementation)
    s.Reachable setup ∧ s.temporaries.lambdas.records.map (·.name) = ["__lambda_0_0"] ∧
      ∃ r s', invoke setup (reentry setup 0) rules [] d s = .ok "__lambda_0_0(a)" s' ∧
        r ∈ s'.temporaries.lambdas.records ∧ r.name = "__lambda_0_0" ∧
        ∃ t, ("G", t) ∈ setup.model.tensors.entries ∧
          (r.lambda.payload .cpp).Tabulates .cpp ⟨2, 0⟩ t [⟨'a', .field⟩] := by
  intro setup s d rules
  have hpackages : setup.packages = [] := rfl
  have hnames : setup.model.tensors.names.Nodup := List.nodup_singleton "G"
  obtain ⟨-, -, -, -, hrequest, -⟩ :=
    called_tabulates hpackages hnames ⟨{}, .refl (.initial setup {})⟩
  have hs : s.Reachable setup := hrequest (.text "outer" .implementation) trivial
  obtain ⟨-, -, -, hcalls, -⟩ := called_tabulates hpackages hnames hs
  obtain ⟨r, s', hinvoke, -, hr, -, -, -, htable⟩ :=
    hcalls "G" _ List.mem_cons_self 1 d _ rfl rfl (reentry setup 0) []
  obtain ⟨text, t, hinvoke', hafter⟩ := exists_ok_of_succeeds
    (x := invoke setup (reentry setup 0) rules [] d) (s := s)
    (p := fun t => t.temporaries.lambdas.records.map (·.name) = ["__lambda_0_0"])
    (by decide +kernel)
  cases hinvoke.symm.trans hinvoke'
  have hname : r.name = "__lambda_0_0" := by
    have hmem := List.mem_map_of_mem (f := (·.name)) hr
    rw [hafter] at hmem
    exact List.mem_singleton.1 hmem
  rw [hname] at hinvoke
  exact ⟨hs, by decide +kernel, r, s', hinvoke, hr, hname, _, List.mem_cons_self, htable⟩

end State

end TensorTemplate
