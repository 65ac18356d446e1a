import TensorTemplate.Proofs.Expansion.Growth
import TensorTemplate.Proofs.PlainLine

/-!
What expanding the lines of a template comes down to.

With the built-in rules, whatever is done for a line is put together from few actions
on the frame on top: its rules are asked for, expressions and function values of the
model go through the caches, boundaries are set in that frame, nested templates are
expanded, and lines are written to its end. A property of actions that holds of what is
done for lines, and is kept by putting actions together, holds of whole bodies.
-/

namespace TensorTemplate

/-! ### Failures -/

/-- Whether the error is that there was no frame, rule table or pool to work on. -/
def Error.isMissing : Error → Bool
  | missingContext _ => true
  | within _ _ cause => cause.isMissing
  | _ => false

/-- Whether the error is neither for want of something around nor wrapped in a place. -/
def Error.isBasic : Error → Bool
  | missingContext _ => false
  | within _ _ _ => false
  | _ => true

theorem Error.isMissing_eq_false_of_isBasic {e : Error} (h : e.isBasic = true) :
    e.isMissing = false := by
  cases e with
  | missingContext what => cases h
  | within template line cause => cases h
  | _ => rfl

/-- Whether the error is that the nesting is too deep. -/
def Error.isDeep : Error → Bool
  | nestedTooDeep => true
  | within _ _ cause => cause.isDeep
  | _ => false

theorem Error.root_ne_of_isDeep {e : Error} (h : e.isDeep = false) : e.root ≠ .nestedTooDeep := by
  induction e with
  | within template line cause ih => exact ih h
  | nestedTooDeep => cases h
  | _ => exact nofun

/-- A failure, if there is one, is basic, and has nothing to do with nesting. -/
def Placed {α : Type} (r : Except Error α) : Prop :=
  ∀ e, r = .error e → (e.isBasic && !e.isDeep) = true

namespace Placed

variable {α β : Type}

protected theorem ok (a : α) : Placed (.ok a) := fun _ h => nomatch h

protected theorem error {e : Error} (he : (e.isBasic && !e.isDeep) = true) :
    Placed (.error e : Except Error α) := by
  intro e' h
  cases h
  exact he

theorem isBasic {r : Except Error α} (hr : Placed r) :
    ∀ e, r = .error e → e.isBasic = true := fun e he => (Bool.and_eq_true_iff.1 (hr e he)).1

theorem isDeep_eq_false {r : Except Error α} (hr : Placed r) :
    ∀ e, r = .error e → e.isDeep = false := fun e he => by
  simpa using (Bool.and_eq_true_iff.1 (hr e he)).2

theorem isMissing_eq_false {r : Except Error α} (hr : Placed r) :
    ∀ e, r = .error e → e.isMissing = false := fun e he =>
  Error.isMissing_eq_false_of_isBasic (hr.isBasic e he)

protected theorem bind {r : Except Error α} {f : α → Except Error β} (hr : Placed r)
    (hf : ∀ a, r = .ok a → Placed (f a)) : Placed (r >>= f) := by
  intro e h
  cases hrun : r with
  | error e' =>
      rw [hrun] at h
      cases h
      exact hr e hrun
  | ok a =>
      rw [hrun] at h
      exact hf a hrun e h

end Placed

theorem Directive.placed_indicesOf (labels : List Char) : Placed (indicesOf labels) := by
  induction labels with
  | nil => exact .ok []
  | cons label labels ih =>
      unfold indicesOf
      split
      · exact .error rfl
      · exact ih.bind fun _ _ => .ok _

namespace Segment

theorem placed_readDirective (cs : List Char) : Placed (readDirective cs) := by
  refine (Directive.placed_indicesOf _).bind fun indices _ => ?_
  split
  · split
    · exact .error rfl
    · exact .ok _
  · exact .ok _

theorem placed_tokens (cs : List Char) : Placed (tokens cs) := by
  fun_induction tokens cs with
  | case1 => exact .ok []
  | case2 cs ih => exact ih.bind fun _ _ => .ok _
  | case3 c cs _ _ e he => exact .error (placed_readDirective _ e he)
  | case4 c cs _ _ d rest _ _ ih => exact ih.bind fun _ _ => .ok _
  | case5 c cs _ _ ih => exact ih.bind fun _ _ => .ok _
  | case6 c cs _ _ ih => exact ih.bind fun _ _ => .ok _

theorem placed_scan (line : String) : Placed (scan line) :=
  (placed_tokens _).bind fun _ _ => .ok _

end Segment

theorem Registry.placed_validate (r : Registry) (d : Directive) : Placed (r.validate d) := by
  unfold validate
  split
  · exact .error rfl
  · split
    · exact .error rfl
    · split
      · exact .error rfl
      · split
        · exact .error rfl
        · exact .ok _

theorem LinePlan.placed_ofSegments (r : Registry) (p : LinePlan) (segments : List Segment) :
    Placed (ofSegments r p segments) := by
  induction segments generalizing p with
  | nil => exact .ok p
  | cons segment segments ih =>
      cases segment with
      | text t => exact ih p
      | directive d => exact (r.placed_validate d).bind fun _ _ => ih _

namespace ExpandM

theorem placed_valuesFor (rule : String) (indices : List Index) :
    Placed (valuesFor rule indices) := by
  induction indices with
  | nil => exact .ok []
  | cons i is ih =>
      unfold valuesFor
      split
      · exact .error rfl
      · exact ih.bind fun _ _ => .ok _

theorem placed_pick {α : Type} (rule : String) (indices : List Index) (item? : Nat → Option α) :
    Placed (pick rule indices item?) := by
  refine (placed_valuesFor rule indices).bind fun values _ => ?_
  split
  · exact .ok _
  · exact .error rfl

end ExpandM

/-! ### The built-in rules -/

/-- What a built-in rule of the frame with this number does: it sets boundaries in that frame only,
and takes expressions from the tensors of the model, and function values under their names. -/
def RuleBody.Builtin (model : Model) (id : Nat) : RuleBody → Prop
  | .setPool frame => frame = id
  | .tensor t => ∃ name, (name, t) ∈ model.tensors.entries
  | .tensorLambda kind t => (kind, t) ∈ model.tensors.entries
  | .script _ => False
  | _ => True

theorem Table.mem_enter {α : Type} {name : String} {value : α} {entries : List (String × α)}
    {entry : String × α} (h : entry ∈ enter name value entries) :
    entry = (name, value) ∨ entry ∈ entries := by
  induction entries with
  | nil => exact Or.inl (List.mem_singleton.1 h)
  | cons first rest ih =>
      unfold enter at h
      split at h
      · rcases List.mem_cons.1 h with rfl | h
        · exact Or.inl rfl
        · exact Or.inr (List.mem_cons_of_mem _ h)
      · rcases List.mem_cons.1 h with rfl | h
        · exact Or.inr List.mem_cons_self
        · exact (ih h).imp_right (List.mem_cons_of_mem _)

/-- A call that is accepted names a rule, and has as many arguments as the rule takes. -/
theorem Registry.of_validate {r : Registry} {d : Directive} {rule : Rule}
    (h : r.validate d = .ok rule) :
    r.get? d.name = some rule ∧ d.args.length = rule.arity := by
  unfold validate at h
  split at h
  · cases h
  · rename_i rule' hget
    split at h
    · cases h
    · rename_i hlength
      split at h
      · cases h
      · split at h
        · cases h
        · cases h
          exact ⟨hget, Decidable.not_not.1 hlength⟩

theorem Registry.get?_of_validate {r : Registry} {d : Directive} {rule : Rule}
    (h : r.validate d = .ok rule) : r.get? d.name = some rule := (of_validate h).1

namespace ExpandM

theorem mem_addRules {rules : List (String × Rule)} {r : Registry} {entry : String × Rule}
    (h : entry ∈ (addRules r rules).entries) : entry ∈ r.entries ∨ entry ∈ rules := by
  induction rules generalizing r with
  | nil => exact Or.inl h
  | cons rule rules ih =>
      rcases ih h with h | h
      · rcases Table.mem_enter h with rfl | h
        · exact Or.inr List.mem_cons_self
        · exact Or.inl h
      · exact Or.inr (List.mem_cons_of_mem _ h)

/-- What holds of the rules that are fixed, and of those for every tensor, holds of all. -/
theorem forall_builtinRules {P : String × Rule → Prop} {model : Model} {id : Nat}
    (hfixed : ∀ entry ∈ fundamentalRules ++ [("TEMP_POOL", .simple 1 (.setPool id))] ++ embedRules,
      P entry)
    (htensor : ∀ name t, (name, t) ∈ model.tensors.entries →
      P (name, .indexed t.slots (.tensor t)))
    (hlambda : ∀ name t, (name, t) ∈ model.tensors.entries →
      P (name ++ "_LAMBDA", ⟨0, .indexed t.slots false, .tensorLambda name t⟩))
    {pass : Pass} : ∀ entry ∈ builtinRules model id pass, P entry := by
  intro entry h
  simp only [builtinRules, List.mem_append] at h
  rcases h with ((h | h) | h) | h
  · exact hfixed entry (List.mem_append_left _ (List.mem_append.2 h))
  · obtain ⟨tensor, hmem, rfl⟩ := List.mem_map.1 h
    exact htensor tensor.1 tensor.2 hmem
  · split at h
    · obtain ⟨tensor, hmem, rfl⟩ := List.mem_map.1 h
      exact hlambda tensor.1 tensor.2 hmem
    · cases h
  · exact hfixed entry (List.mem_append_right _ h)

theorem builtin_of_mem {model : Model} {id : Nat} {pass : Pass} :
    ∀ entry ∈ builtinRules model id pass, entry.2.body.Builtin model id := by
  refine forall_builtinRules ?_ (fun name t h => ⟨name, h⟩) fun name t h => h
  simp [fundamentalRules, embedRules, Rule.simple, Rule.indexed, RuleBody.Builtin]

theorem mem_of_get?_addRules {rules : List (String × Rule)} {name : String} {rule : Rule}
    (h : (addRules {} rules).get? name = some rule) : (name, rule) ∈ rules := by
  rcases mem_addRules (Table.mem_of_get? h) with hentry | hentry
  · cases hentry
  · exact hentry

/-- A call that is accepted by the built-in rules runs one of them. -/
theorem builtin_of_validate {model : Model} {id : Nat} {pass : Pass} {d : Directive} {rule : Rule}
    (h : (addRules {} (builtinRules model id pass)).validate d = .ok rule) :
    rule.body.Builtin model id :=
  builtin_of_mem _ (mem_of_get?_addRules (Registry.get?_of_validate h))

/-! ### Actions that are put together -/

/-- An action that is put together from what is done for the lines of the frame with this number. -/
inductive Routine (setup : Setup) (re : Reentry) (id : Nat) : {α : Type} → ExpandM α → Prop where
  | pure {α : Type} (a : α) : Routine setup re id (pure a)
  /-- A failure, but not for want of something around. -/
  | throw {α : Type} {e : Error} (he : e.isBasic = true) :
      Routine setup re id (throw e : ExpandM α)
  | bind {α β : Type} {x : ExpandM α} {f : α → ExpandM β} (hx : Routine setup re id x)
      (hf : ∀ a, Routine setup re id (f a)) : Routine setup re id (x >>= f)
  /-- The name of the template on top is asked for. -/
  | template {α : Type} (g : String → α) :
      Routine setup re id (do pure (g (← topFrame).template))
  /-- The rules of the frame on top are asked for. -/
  | rules {α : Type} {k : Registry → ExpandM α} (hgrows : ∀ r, Grows (k r))
      (hk : ∀ pass, Routine setup re id (k (addRules {} (builtinRules setup.model id pass)))) :
      Routine setup re id (do k (← ofExcept (← get).stack.registry))
  | count (n : Nat) :
      Routine setup re id (modify fun s => { s with replacements := s.replacements + n })
  | see (sight : Sight) : Routine setup re id (see sight)
  /-- A component of one of the tensors goes through the cache. -/
  | emit {name : String} {t : Tensor} (ht : (name, t) ∈ setup.model.tensors.entries)
      {values : List Nat} {e : Expr} (he : t.component values = some e) :
      Routine setup re id (emit e)
  /-- One of the tensors goes through the cache as a function value. -/
  | cacheLambda {kind : String} {t : Tensor} (ht : (kind, t) ∈ setup.model.tensors.entries)
      {indices : List Index}
      (hlabels : ∀ i ∈ indices, (IndexClass.ofLabel? i.label).isSome) :
      Routine setup re id (cacheLambda (t.toLambda kind setup.model.ranges indices))
  | setBoundary {pattern : String} (hpattern : '\n' ∉ pattern.toList) :
      Routine setup re id (setBoundary setup.backend re id pattern)
  /-- A template is imported or embedded. -/
  | nested (template : String) {options : NestedOptions}
      (hoptions : options = .verbatim ∨ options = .stringLiteral setup.backend) :
      Routine setup re id (re.nested template options)
  /-- A line is written to the end. -/
  | write (text : String) :
      Routine setup re id (do
        onTopBuffer (·.writeToEnd text)
        recordOnTop (.wrote text))

namespace Routine

variable {setup : Setup} {re : Reentry} {id : Nat} {α β : Type}

theorem bindExcept {r : Except Error α} (hr : Placed r) {f : α → ExpandM β}
    (hf : ∀ a, r = .ok a → Routine setup re id (f a)) :
    Routine setup re id (ofExcept r >>= f) := by
  cases r with
  | ok a => exact hf a rfl
  | error e => exact .throw (hr.isBasic e rfl)

theorem ofExcept {r : Except Error α} (hr : Placed r) : Routine setup re id (ofExcept r) := by
  cases r with
  | ok a => exact .pure a
  | error e => exact .throw (hr.isBasic e rfl)

theorem mapM {f : α → ExpandM β} {as : List α} (hf : ∀ a ∈ as, Routine setup re id (f a)) :
    Routine setup re id (as.mapM f) := by
  induction as with
  | nil => exact .pure []
  | cons a as ih =>
      rw [List.mapM_cons]
      exact (hf a List.mem_cons_self).bind fun _ =>
        (ih fun a' ha' => hf a' (List.mem_cons_of_mem _ ha')).bind fun _ => .pure _

theorem forM {f : α → ExpandM PUnit} (hf : ∀ a, Routine setup re id (f a)) (as : List α) :
    Routine setup re id (as.forM f) := by
  induction as with
  | nil => exact .pure _
  | cons a as ih => exact (hf a).bind fun _ => ih

/-- The ways back into expanding are the same for the lines of a frame. -/
theorem of_forLines {frame : Nat} {x : ExpandM α} (h : Routine setup (re.forLines frame) id x) :
    Routine setup re id x := by
  induction h with
  | pure a => exact .pure a
  | throw he => exact .throw he
  | bind _ _ hx hf => exact .bind hx hf
  | template g => exact .template g
  | rules hgrows _ hk => exact .rules hgrows hk
  | count n => exact .count n
  | see sight => exact .see sight
  | emit ht he => exact .emit ht he
  | cacheLambda ht hlabels => exact .cacheLambda ht hlabels
  | setBoundary hpattern => exact .setBoundary hpattern
  | nested template hoptions => exact .nested template hoptions
  | write text => exact .write text

end Routine

theorem newline_notMem_headD {args : List String} (hargs : ∀ a ∈ args, '\n' ∉ a.toList) :
    '\n' ∉ (args.headD "").toList := by
  cases args with
  | nil => decide
  | cons a args => exact hargs a List.mem_cons_self

/-- Every built-in rule is routine. -/
theorem routine_evaluate (setup : Setup) (re : Reentry) {id : Nat} (name : String) {body : RuleBody}
    (hbody : body.Builtin setup.model id) {args : List String}
    (hargs : ∀ a ∈ args, '\n' ∉ a.toList) {indices : List Index}
    (hlabels : ∀ i ∈ indices, (IndexClass.ofLabel? i.label).isSome) :
    Routine setup re id (evaluate setup re name body args indices) := by
  cases body with
  | template => exact .template fun template => template
  | guard => exact .template fun template => includeGuard setup.model.name template
  | fieldName => exact .bind (.ofExcept (placed_pick _ _ _)) fun _ => .pure _
  | parameter => exact .ofExcept (placed_pick _ _ _)
  | coordinate => exact .bind (.ofExcept (placed_pick _ _ _)) fun _ => .pure _
  | setPool frame =>
      cases hbody
      exact .setBoundary (newline_notMem_headD hargs)
  | tensor t =>
      obtain ⟨tensor, ht⟩ := hbody
      refine .bind (.ofExcept (placed_valuesFor _ _)) fun values => ?_
      split
      · rename_i e he
        exact .emit ht he
      · exact .throw rfl
  | tensorLambda kind t => exact .cacheLambda hbody hlabels
  | importTemplate => exact .bind (.nested _ (Or.inl rfl)) fun _ => .pure _
  | embedString => exact .bind (.nested _ (Or.inr rfl)) fun _ => .pure _
  | script actions => exact hbody.elim
  | _ => exact .pure _

end ExpandM

/-! ### Lines -/

/-- Text that is cut off a call leaves the call its name and its arguments. -/
theorem Segment.mem_of_mem_detachSubscript {r : Registry} {segments : List Segment} {d : Directive}
    (hd : .directive d ∈ segments.flatMap (detachSubscript r)) :
    ∃ call, .directive call ∈ segments ∧ d.name = call.name ∧ d.args = call.args ∧
      d.indices ⊆ call.indices := by
  obtain ⟨segment, hsegment, hd⟩ := List.mem_flatMap.1 hd
  cases segment with
  | text t => cases List.mem_singleton.1 hd
  | directive call =>
      refine ⟨call, hsegment, ?_⟩
      simp only [detachSubscript] at hd
      split at hd
      · rcases List.mem_cons.1 hd with hd | hd
        · cases hd
          exact ⟨rfl, rfl, List.nil_subset _⟩
        · cases List.mem_singleton.1 hd
      · cases List.mem_singleton.1 hd
        exact ⟨rfl, rfl, List.Subset.refl _⟩

theorem Segment.madeOf_detachSubscript {r : Registry} {segments : List Segment} {cs : List Char}
    (h : ∀ {d : Directive}, .directive d ∈ segments → d.MadeOf cs) {d : Directive}
    (hd : .directive d ∈ segments.flatMap (detachSubscript r)) : d.MadeOf cs := by
  obtain ⟨call, hcall, -, hargs, hindices⟩ := mem_of_mem_detachSubscript hd
  exact ⟨hargs ▸ (h hcall).args, fun i hi => (h hcall).indices i (hindices hi)⟩

theorem Index.label_valued (assignment : List Index) (i : Index) :
    (i.valued assignment).label = i.label := by
  unfold valued
  split <;> rfl

namespace ExpandM

theorem routine_expandSegment (setup : Setup) (re : Reentry) {id : Nat} {line : String}
    (hline : '\n' ∉ line.toList) (pass : Pass) (assignment : List Index) {segment : Segment}
    (hsegment : ∀ d, segment = .directive d → d.MadeOf line.toList) :
    Routine setup re id (expandSegment setup re (addRules {} (builtinRules setup.model id pass))
      assignment segment) := by
  cases segment with
  | text t => exact .pure t
  | directive d =>
      have hd := hsegment d rfl
      refine .bind ?_ fun _ => .bind (.see _) fun _ => .pure _
      refine .bindExcept (Registry.placed_validate _ d) fun rule hrule => routine_evaluate setup re
        d.name (builtin_of_validate hrule) (fun a ha hmem => hline (hd.args a ha hmem)) ?_
      intro i hi
      obtain ⟨j, hj, rfl⟩ := List.mem_map.1 hi
      rw [Index.label_valued]
      exact Index.isSome_of_ofLabel? (hd.indices j hj)

section Lines

variable (setup : Setup) {re : Reentry} (hre : re.Grows) {id : Nat}

include hre

theorem routine_expandLine {line : String} (hline : '\n' ∉ line.toList) :
    Routine setup re id (expandLine setup re line) := by
  refine .bindExcept (Segment.placed_scan line) fun segments hscan => ?_
  split
  · refine .rules (fun r => ?_) fun pass => ?_
    · refine .bind (.ofExcept _) fun plan => .bind ?_ fun lines =>
        .bind (.modify fun s => List.suffix_refl s.journal) fun _ => .pure _
      rw [LinePlan.mapAssignments_eq]
      exact .mapM (fun assignment => .bind (.mapM (keeps_expandSegment hre setup r assignment) _)
        fun _ => .pure _) _
    · refine .bindExcept (LinePlan.placed_ofSegments _ _ _) fun plan _ => .bind ?_ fun lines =>
        .bind (.count _) fun _ => .pure _
      rw [LinePlan.mapAssignments_eq]
      refine .mapM fun assignment _ => .bind (.mapM fun segment hsegment => ?_) fun _ => .pure _
      apply routine_expandSegment setup re hline pass assignment
      rintro d rfl
      exact Segment.madeOf_detachSubscript (Segment.madeOf_scan hscan) hsegment
  · exact .pure _

theorem routine_expandText (text : String) : Routine setup re id (expandText setup re text) := by
  refine .bind (.bind (.mapM fun line hline => ?_) fun _ => .pure _) fun _ => .pure _
  exact routine_expandLine setup hre (Text.newline_notMem_of_mem_lines hline)

/-- All that is done for a line of the frame with this number. -/
theorem routine_writeLine (frame : Nat) {line : String} (hline : '\n' ∉ line.toList) :
    Routine setup re id (writeLine setup (re.forLines frame) line) :=
  (routine_expandLine setup (hre.forLines frame) hline).of_forLines.bind fun _ =>
    (Routine.forM Routine.write _).bind fun _ => .pure _

end Lines

/-! ### Bodies -/

/-- The property is kept when actions are put together, when their errors are wrapped in places, and
when bookmarks are moved. -/
structure Composes (P : (α : Type) → ExpandM α → Prop) : Prop where
  pure : ∀ {α : Type} (a : α), P α (pure a)
  bind : ∀ {α β : Type} {x : ExpandM α} {k : α → ExpandM β}, P α x → (∀ a, P β (k a)) →
    P β (x >>= k)
  within : ∀ {α : Type} {x : ExpandM α}, P α x → ∀ template line, P α (within template line x)
  track : ∀ change, P Unit (track change)

namespace Composes

variable {P : (α : Type) → ExpandM α → Prop} (hP : Composes P) {setup : Setup} {re : Reentry}
  {template : String} {body : List String}

include hP

theorem mapM {α β : Type} {f : α → ExpandM β} {as : List α} (hf : ∀ a ∈ as, P β (f a)) :
    P (List β) (as.mapM f) := by
  induction as with
  | nil => exact hP.pure []
  | cons a as ih =>
      rw [List.mapM_cons]
      refine hP.bind (hf a List.mem_cons_self) fun _ => hP.bind (ih fun a' ha' => ?_) fun _ =>
        hP.pure _
      exact hf a' (List.mem_cons_of_mem _ ha')

theorem writeBody (hlines : ∀ line ∈ body, P Nat (writeLine setup re line)) :
    P Nat (writeBody setup re template body) := by
  refine hP.bind (hP.mapM fun entry hentry => hP.bind (hP.track _) fun _ => ?_) fun _ => hP.pure _
  exact hP.within (hlines entry.1 (List.fst_mem_of_mem_zipIdx hentry)) _ _

/-- The body of the frame with this number; finishing it expands none of its lines. -/
theorem runBody {frame : Nat}
    (hlines : ∀ line ∈ body, P Nat (writeLine setup (re.forLines frame) line))
    (hfinish : P Unit (finishTop re)) : P Nat (runBody setup (re.forLines frame) template body) :=
  hP.bind (hP.track _) fun _ => hP.bind (hP.writeBody hlines) fun _ =>
    hP.bind (hP.track _) fun _ => hP.bind (hP.within hfinish _ _) fun _ =>
      hP.bind (hP.track _) fun _ => hP.pure _

end Composes

end ExpandM

end TensorTemplate
