import TensorTemplate.Proofs.Expansion.Balance
import Mathlib.Logic.Relation

/-!
The changes that runs are made of.

With the built-in rules a run changes the state in few ways: frames are pushed, changed on
top and popped, events are noted, expressions go through the cache, function values of
the model's tensors are called, and the caches are cleared. A state is reachable if such
changes lead to it from the start. The states before and after every part of a run are
among these, also where the run fails, so what each change keeps holds all along a run.
-/

namespace TensorTemplate

open ExpandM

namespace State

/-- The state after a call of the function value. -/
def call (s : State) (l : Lambda) : State :=
  { s with temporaries := (s.temporaries.cacheLambda l).2 }.recordOnTop
    (.called (s.temporaries.called l))

/-- One of the changes that a run with the built-in rules is made of. -/
inductive Move (setup : Setup) : State → State → Prop where
  | opened (s : State) (buffer : Buffer) (pass : Pass) (template : String) :
      Move setup s (s.opened buffer pass template)
  | withTop (s : State) (f : Frame) : Move setup s (s.withTop f)
  | popped (s : State) : Move setup s s.popped
  /-- An event is noted, unless it is a call. -/
  | record (s : State) (id : Nat) {event : FrameEvent} (h : event.isCall = false) :
      Move setup s (s.record id event)
  | emit (s : State) (e : Expr) : Move setup s { s with temporaries := (s.temporaries.emit e).2 }
  /-- One of the tensors is called as a function value. -/
  | call (s : State) {kind : String} {t : Tensor} (ht : (kind, t) ∈ setup.model.tensors.entries)
      (indices : List Index) : Move setup s (s.call (t.toLambda kind setup.model.ranges indices))
  | clear (s : State) : Move setup s { s with temporaries := s.temporaries.clear }
  /-- Warnings, counts, notes and files change. -/
  | aside (s : State) (diagnostics : Diagnostics) (replacements : Nat) (log : List String)
      (files : FileTree) : Move setup s { s with diagnostics, replacements, log, files }
  | bookmarks (s : State) (bookmarks : List Bookmark) : Move setup s { s with bookmarks }
  | see (s : State) (sight : Sight) : Move setup s (s.see sight)

/-- Changes one after another lead from one state to the other. -/
def Leads (setup : Setup) : State → State → Prop := Relation.ReflTransGen (Move setup)

/-- A state that a run with the built-in rules can be in. -/
def Reachable (setup : Setup) (s : State) : Prop :=
  ∃ files, (State.initial setup files).Leads setup s

namespace Leads

variable {setup : Setup} {s t u : State}

protected theorem refl (s : State) : s.Leads setup s := Relation.ReflTransGen.refl

protected theorem trans (hst : s.Leads setup t) (htu : t.Leads setup u) : s.Leads setup u :=
  Relation.ReflTransGen.trans hst htu

theorem of_move (h : Move setup s t) : s.Leads setup t := Relation.ReflTransGen.single h

theorem recordOnTop (s : State) {event : FrameEvent} (h : event.isCall = false) :
    s.Leads setup (s.recordOnTop event) := by
  unfold State.recordOnTop
  split
  · exact .refl s
  · exact of_move (.record s _ h)

theorem reachable (h : s.Leads setup t) (hs : s.Reachable setup) : t.Reachable setup := by
  obtain ⟨files, hfiles⟩ := hs
  exact ⟨files, hfiles.trans h⟩

/-- What every change keeps holds in all states that changes lead to. -/
theorem keeps {P : State → Prop} (hstep : ∀ {s t}, Move setup s t → P s → P t)
    (h : s.Leads setup t) (hs : P s) : P t := by
  induction h with
  | refl => exact hs
  | tail _ hmove ih => exact hstep hmove ih

section Actions

variable {α β : Type} {x : ExpandM α} {k : α → ExpandM β}

theorem of_ok {a : α} (hx : x s = .ok a t) (h : s.Leads setup t) :
    s.Leads setup (stateAfter x s) := by
  rwa [stateAfter, hx]

/-- Two actions lead on if the first one does, and the second one from where the first one ends. -/
protected theorem bind (hx : s.Leads setup (stateAfter x s))
    (hk : ∀ a t, x s = .ok a t → t.Leads setup (stateAfter (k a) t)) :
    s.Leads setup (stateAfter (x >>= k) s) := by
  cases hrun : x s with
  | ok a t =>
      rw [stateAfter, hrun] at hx
      rw [stateAfter_bind hrun]
      exact hx.trans (hk a t hrun)
  | error e t =>
      rw [stateAfter, hrun] at hx
      rwa [stateAfter, bind_eq_error hrun]

theorem bindExcept {r : Except Error α} (hk : ∀ a, s.Leads setup (stateAfter (k a) s)) :
    s.Leads setup (stateAfter (ExpandM.ofExcept r >>= k) s) := by
  cases r with
  | ok a => exact hk a
  | error e => exact .refl s

end Actions

end Leads

end State

namespace ExpandM

/-- On a local frame of this number, the action is balanced and made of changes. -/
structure Moves (setup : Setup) (id : Nat) {α : Type} (x : ExpandM α) : Prop
    extends Balances setup id x where
  leads : ∀ {s : State} {f : Frame} {fs : List Frame}, s.stack.frames = f :: fs → f.id = id →
    f.Local setup → s.Leads setup (stateAfter x s)

end ExpandM

/-- The ways back into expanding are made of changes. -/
structure Reentry.Moves (setup : Setup) (re : Reentry) : Prop where
  nested : ∀ {id} template options, ExpandM.Moves setup id (re.nested template options)
  expandText : ∀ {id} text, ExpandM.Moves setup id (re.expandText text)

theorem Reentry.Moves.balances {setup : Setup} {re : Reentry} (hre : re.Moves setup) :
    re.Balances setup :=
  ⟨fun template options => (hre.nested template options).toBalances,
    fun text => (hre.expandText text).toBalances⟩

namespace ExpandM

namespace Moves

variable {setup : Setup} {id : Nat} {α β : Type}

protected theorem pure (a : α) : Moves setup id (pure a) := ⟨.pure a, fun _ _ _ => .refl _⟩

protected theorem throw {e : Error} (he : e.isMissing = false) :
    Moves setup id (throw e : ExpandM α) := ⟨.throw he, fun _ _ _ => .refl _⟩

protected theorem get : Moves setup id (get : ExpandM State) := ⟨.get, fun _ _ _ => .refl _⟩

protected theorem bind {x : ExpandM α} {k : α → ExpandM β} (hx : Moves setup id x)
    (hk : ∀ a, Moves setup id (k a)) : Moves setup id (x >>= k) where
  toBalances := hx.toBalances.bind fun a => (hk a).toBalances
  leads := by
    intro s f fs hframes hid hf
    refine (hx.leads hframes hid hf).bind fun a t hrun => ?_
    obtain ⟨g, hg, hfg⟩ := (hx.ends hframes hid hf).after
    rw [stateAfter, hrun] at hg
    exact (hk a).leads hg (hfg.id.trans hid) (hfg.isLocal hf)

protected theorem within {x : ExpandM α} (hx : Moves setup id x) (template : String)
    (line : Nat) : Moves setup id (within template line x) where
  toBalances := hx.toBalances.within template line
  leads := by
    intro s f fs hframes hid hf
    have hleads := hx.leads hframes hid hf
    simp only [stateAfter, ExpandM.within] at hleads ⊢
    cases hrun : x s <;> simpa only [hrun] using hleads

protected theorem forM {k : α → ExpandM PUnit} {as : List α}
    (hk : ∀ a ∈ as, Moves setup id (k a)) : Moves setup id (as.forM k) := by
  induction as with
  | nil => exact .pure _
  | cons a as ih =>
      exact (hk a List.mem_cons_self).bind fun _ => ih fun b hb => hk b (List.mem_cons_of_mem _ hb)

/-- An action that succeeds and leaves the stack alone. -/
theorem of_stack {x : ExpandM α}
    (h : ∀ s, ∃ a t, x s = .ok a t ∧ t.stack = s.stack ∧ s.Leads setup t) :
    Moves setup id x where
  toBalances := .of_stack fun s => by
    obtain ⟨a, t, hx, hstack, -⟩ := h s
    exact ⟨a, t, hx, hstack⟩
  leads := by
    intro s f fs _ _ _
    obtain ⟨a, t, hx, -, hleads⟩ := h s
    exact .of_ok hx hleads

/-- A change of the state that leaves the stack alone. -/
protected theorem modify {g : State → State} (hstack : ∀ s, (g s).stack = s.stack)
    (h : ∀ s : State, s.Leads setup (g s)) : Moves setup id (modify g : ExpandM Unit) :=
  of_stack fun s => ⟨(), g s, rfl, hstack s, h s⟩

end Moves

section Actions

variable {setup : Setup} {id : Nat}

theorem moves_track (change : List Bookmark → List Bookmark) : Moves setup id (track change) :=
  .modify (fun _ => rfl) fun s => .of_move (.bookmarks s _)

theorem composes_moves : Composes fun _ x => Moves setup id x :=
  ⟨.pure, .bind, .within, moves_track⟩

theorem moves_record (event : FrameEvent) (h : event.isCall = false) :
    Moves setup id (record id event) :=
  .modify (fun _ => rfl) fun s => .of_move (.record s id h)

theorem moves_recordOnTop (event : FrameEvent) (h : event.isCall = false) :
    Moves setup id (recordOnTop event) :=
  .modify (fun s => stack_recordOnTop s event) fun s => .recordOnTop s h

/-- Warnings, counts and notes. -/
theorem moves_aside {g : State → State}
    (h : ∀ s : State, ∃ diagnostics replacements log files,
      g s = { s with diagnostics, replacements, log, files }) :
    Moves setup id (modify g : ExpandM Unit) := by
  refine .of_stack fun s => ⟨(), g s, rfl, ?_⟩
  obtain ⟨diagnostics, replacements, log, files, heq⟩ := h s
  rw [heq]
  exact ⟨rfl, .of_move (.aside s _ _ _ _)⟩

theorem moves_clearTemporaries : Moves setup id clearTemporaries :=
  .modify (fun _ => rfl) fun s => .of_move (.clear s)

theorem moves_emit (e : Expr) : Moves setup id (emit e) := by
  refine .of_stack fun s => ⟨_, _, emit_eq e s, stack_recordOnTop _ _, ?_⟩
  exact (State.Leads.of_move (.emit s e)).trans (.recordOnTop _ rfl)

theorem moves_cacheLambda {kind : String} {t : Tensor}
    (ht : (kind, t) ∈ setup.model.tensors.entries) (indices : List Index) :
    Moves setup id (cacheLambda (t.toLambda kind setup.model.ranges indices)) :=
  .of_stack fun s => ⟨_, _, cacheLambda_eq _ s, stack_recordOnTop _ _, .of_move (.call s ht indices)⟩

theorem moves_renderDeclarations (pattern : String) (held : List Declaration) :
    Moves setup id (renderDeclarations pattern held) := by
  refine .of_stack fun s => ?_
  obtain ⟨diagnostics, hrender⟩ := renderDeclarations_eq pattern held s
  exact ⟨_, _, hrender, rfl, .of_move (.aside s diagnostics _ _ _)⟩

theorem moves_topFrame : Moves setup id topFrame :=
  ⟨balances_topFrame, fun hframes _ _ => .of_ok (topFrame_eq hframes) (.refl _)⟩

theorem moves_frame : Moves setup id (frame id) where
  toBalances := balances_frame
  leads := by
    rintro s f fs hframes rfl _
    exact .of_ok (frame_eq hframes) (.refl s)

theorem moves_poolOf : Moves setup id (poolOf id) where
  toBalances := balances_poolOf
  leads := by
    rintro s f fs hframes rfl hf
    obtain ⟨pool, hpool⟩ := Option.isSome_iff_exists.1 hf.pool
    exact .of_ok (poolOf_eq hframes hpool) (.refl s)

theorem moves_setPool (pool : Pool) : Moves setup id (setPool id pool) where
  toBalances := balances_setPool pool
  leads := by
    rintro s f fs hframes rfl _
    exact .of_ok (setPool_eq hframes pool) (.of_move (.withTop s _))

theorem moves_rules {α : Type} {k : Registry → ExpandM α}
    (hk : ∀ pass, Moves setup id (k (addRules {} (builtinRules setup.model id pass)))) :
    Moves setup id (do k (← ofExcept (← get).stack.registry)) where
  toBalances := balances_rules fun pass => (hk pass).toBalances
  leads := by
    rintro s f fs hframes rfl hf
    refine .bind (.refl s) ?_
    rintro _ _ ⟨⟩
    refine .bind ?_ fun r t hr => ?_
    · rw [registry_eq hframes hf.registry]
      exact .refl s
    · obtain ⟨hr, rfl⟩ := ofExcept_ok hr
      rw [registry_eq hframes hf.registry] at hr
      cases hr
      exact (hk f.pass).leads hframes rfl hf

theorem changeBuffer_leads {s : State} {f : Frame} {fs : List Frame}
    (hframes : s.stack.frames = f :: fs) (change : Buffer → Except Error Buffer) :
    s.Leads setup (stateAfter (changeBuffer f change) s) :=
  .bindExcept fun _ => .of_ok (setFrame_eq hframes rfl) (.of_move (.withTop s _))

variable {change : Buffer → Except Error Buffer} (hchange : Buffer.Modest change)

include hchange

theorem moves_onTopBuffer : Moves setup id (onTopBuffer change) where
  toBalances := balances_onTopBuffer hchange
  leads := by
    intro s f fs hframes _ _
    rw [onTopBuffer, stateAfter_bind (topFrame_eq hframes)]
    exact changeBuffer_leads hframes change

theorem moves_onBuffer : Moves setup id (onBuffer id change) where
  toBalances := balances_onBuffer hchange
  leads := by
    rintro s f fs hframes rfl _
    rw [onBuffer, stateAfter_bind (frame_eq hframes)]
    exact changeBuffer_leads hframes change

end Actions

/-! ### Pools and handlers -/

section Pools

variable {setup : Setup} {re : Reentry} {id : Nat} (hre : re.Moves setup)

include hre

/-- All that a pool does is made of changes. -/
theorem Chore.moves {α : Type} {x : ExpandM α} (h : Chore re id x) : Moves setup id x := by
  induction h with
  | pure a => exact .pure a
  | bind _ _ hx hk => exact hx.bind hk
  | get _ _ hk => exact .bind .get hk
  | frame _ _ hk => exact moves_frame.bind hk
  | poolOf => exact moves_poolOf
  | setPool pool => exact moves_setPool pool
  | onBuffer hchange => exact moves_onBuffer hchange.modest
  | record _ hcall => exact moves_record _ hcall
  | renderDeclarations pattern held => exact moves_renderDeclarations pattern held
  | clearTemporaries => exact moves_clearTemporaries
  | expandText text => exact hre.expandText text
  | warn message => exact moves_aside fun s => ⟨_, _, _, _, rfl⟩
  | note line => exact moves_aside fun s => ⟨_, _, _, _, rfl⟩

theorem moves_handle (event : BufferEvent) {handler : Handler} (h : handler.StaysOn id) :
    Moves setup id (handle re event handler) := (chore_handle re event h).moves hre

/-! ### Lines and templates -/

/-- All that is done for lines is made of changes. -/
theorem Routine.moves {α : Type} {x : ExpandM α} (h : Routine setup re id x) :
    Moves setup id x := by
  induction h with
  | pure a => exact .pure a
  | throw he => exact .throw (Error.isMissing_eq_false_of_isBasic he)
  | bind _ _ hx hk => exact hx.bind hk
  | template g => exact moves_topFrame.bind fun _ => .pure _
  | rules _ _ hk => exact moves_rules hk
  | count n => exact moves_aside fun s => ⟨_, _, _, _, rfl⟩
  | see sight => exact .modify (fun _ => rfl) fun s => .of_move (.see s sight)
  | emit => exact moves_emit _
  | cacheLambda ht => exact moves_cacheLambda ht _
  | setBoundary => exact (chore_setBoundary re id _ _).moves hre
  | nested template _ => exact hre.nested template _
  | write text =>
      exact (moves_onTopBuffer (Buffer.modest_append _)).bind fun _ =>
        moves_recordOnTop _ rfl

theorem moves_finishTop : Moves setup id (finishTop re) where
  toBalances := balances_finishTop hre.balances
  leads := by
    intro s f fs hframes hid hf
    set g : Frame := { f with buffer := f.buffer.takeHandlers.2 }
    have hclosing : Moves setup id (f.buffer.takeHandlers.1.forM (handle re .close)) := by
      refine .forM fun handler hmem => moves_handle hre .close ?_
      exact hid ▸ hf.staysOn_of_mem_takeHandlers hmem
    have hrest := hclosing.bind fun _ => moves_onTopBuffer Buffer.modest_close
    have hset : setFrame g s = .ok () (s.withTop g) := setFrame_eq hframes rfl
    have hafter := hrest.leads (frames_withTop hframes g) hid
      ((Frame.Lasts.ofTakeHandlers f).isLocal hf)
    rw [finishTop, stateAfter_bind (topFrame_eq hframes)]
    dsimp only
    rw [stateAfter_bind hset]
    exact (State.Leads.of_move (.withTop s g)).trans hafter

theorem runFrame_leads (hpackages : setup.packages = []) (hgrows : re.Grows) {s : State} {f : Frame}
    {fs : List Frame} (hframes : s.stack.frames = f :: fs)
    (hhandlers : ∀ h ∈ f.buffer.handlers, h.2.StaysOn f.id) (template text : String) :
    s.Leads setup (stateAfter (runFrame setup re f.id f.pass template (Text.lines text)) s) := by
  have hbody : Moves setup f.id
      (runBody setup (re.forLines f.id) template (Text.lines text)) := by
    refine composes_moves.runBody (fun line hline => ?_) (moves_finishTop hre)
    have hnewline := Text.newline_notMem_of_mem_lines hline
    exact (routine_writeLine setup hgrows f.id hnewline).moves hre
  have hafter := hbody.leads (frames_withTop hframes (f.equip setup)) rfl
    (f.isLocal_equip setup hhandlers)
  rw [stateAfter, runFrame_eq hpackages hframes]
  exact (State.Leads.of_move (.withTop s _)).trans hafter

omit hre in
theorem popFrame_ok {s t : State} {f : Frame} (h : popFrame s = .ok f t) : t = s.popped := by
  rw [popFrame_eq, Stack.pop] at h
  cases hframes : s.stack.frames with
  | nil =>
      rw [hframes] at h
      cases h
  | cons g gs =>
      rw [hframes] at h
      cases h
      rw [State.popped, hframes, List.tail_cons]

/-- A template is made of changes, whatever is on the stack below it. -/
theorem expandTemplate_leads (hpackages : setup.packages = []) (hgrows : re.Grows) {buffer : Buffer}
    (hbuffer : ∀ id, ∀ h ∈ buffer.handlers, h.2.StaysOn id) (s : State) (template : String)
    (pass : Pass) :
    s.Leads setup (stateAfter (expandTemplate setup re template buffer pass) s) := by
  refine .bind (.refl s) ?_
  rintro _ _ ⟨⟩
  refine .bindExcept fun text => .bindExcept fun split => .bindExcept fun _ => ?_
  set t := s.opened buffer pass template
  have hpush : pushFrame buffer pass template s = .ok s.stack.nextId t := rfl
  have hrun := runFrame_leads hre hpackages hgrows (s := t) rfl (hbuffer s.stack.nextId) template
    split.2
  obtain ⟨outcome, hattempt⟩ := attempt_eq
    (runFrame setup re s.stack.nextId pass template (Text.lines split.2)) t
  rw [stateAfter_bind hpush, stateAfter_bind hattempt]
  -- the frame goes whatever came of the lines
  refine (State.Leads.of_move (.opened s buffer pass template)).trans (hrun.trans (.bind ?_ ?_))
  · obtain ⟨_, u, f, -, hattempt', hpop, -⟩ :=
      popFrame_pushed hpackages hgrows hre.balances hbuffer s template pass split.2
    cases hattempt.symm.trans hattempt'
    exact .of_ok hpop (popFrame_ok hpop ▸ .of_move (.popped _))
  · intro popped u _
    refine .bindExcept fun count => .bind (.of_move (.record u _ rfl)) ?_
    rintro _ v -
    exact .refl v

theorem moves_expandNested (hpackages : setup.packages = []) (hgrows : re.Grows) (template : String)
    (options : NestedOptions) : Moves setup id (expandNested setup re template options) where
  toBalances := balances_expandNested hpackages hgrows hre.balances template options
  leads := by
    rintro s f fs hframes rfl hf
    have hsuspend : Moves setup f.id (f.buffer.handlers.forM fun h => handle re .suspend h.2) :=
      .forM fun h hh => moves_handle hre .suspend (hf.handlers h hh)
    have hchild : ∀ top : Frame, Moves setup f.id
        (expandTemplate setup re template (options.child top.buffer) top.pass) := by
      intro top
      have hnone : ∀ id, ∀ h ∈ (options.child top.buffer).handlers, h.2.StaysOn id := by
        simp [options.handlers_child]
      exact ⟨balances_expandTemplate hpackages hgrows hre.balances hnone template top.pass,
        fun _ _ _ => expandTemplate_leads hre hpackages hgrows hnone _ template top.pass⟩
    have hrest := hsuspend.bind fun _ => moves_topFrame.bind fun top =>
      (hchild top).bind fun result =>
        (moves_onTopBuffer (Buffer.modest_append fun _ => result.1.lines)).bind fun _ =>
          (moves_recordOnTop (.merged result.1.lines) rfl).bind fun _ => .pure result.2
    rw [expandNested, stateAfter_bind (topFrame_eq hframes)]
    exact hrest.leads hframes rfl hf

end Pools

end ExpandM

/-- At every depth, the ways back into expanding are made of changes. -/
theorem moves_reentry {setup : Setup} (hpackages : setup.packages = []) (depth : Nat) :
    (reentry setup depth).Moves setup := by
  induction depth with
  | zero => exact ⟨fun _ _ => .throw rfl, fun _ => .throw rfl⟩
  | succ depth ih =>
      have hgrows : (reentry setup depth).Grows := keeps_reentry setup depth
      exact ⟨ExpandM.moves_expandNested ih hpackages hgrows,
        fun text => (ExpandM.routine_expandText setup hgrows text).moves ih⟩

theorem Setup.expandToBuffer_leads {setup : Setup} (hpackages : setup.packages = [])
    {buffer : Buffer} (hbuffer : buffer.handlers = []) (s : State) (template : String)
    (pass : Pass) :
    s.Leads setup (stateAfter (setup.expandToBuffer template buffer pass) s) := by
  rw [stateAfter, expandToBuffer_eq]
  exact expandTemplate_leads (moves_reentry hpackages _) hpackages (keeps_reentry setup _)
    (by simp [hbuffer]) s template pass

/-- A request, also one that fails, is made of changes. -/
theorem Request.run_leads {setup : Setup} (hpackages : setup.packages = []) {r : Request}
    (hbare : r.Bare) (s : State) : s.Leads setup (stateAfter (r.run setup) s) := by
  cases r with
  | text template pass =>
      exact .bind (.bind (Setup.expandToBuffer_leads hpackages rfl s template pass)
        fun _ t _ => .refl t) fun _ t _ => .refl t
  | file template path pass =>
      refine .bind (.bind (Setup.expandToBuffer_leads hpackages rfl s template pass)
        fun result t _ => .bind ?_ fun _ u _ => .refl u) fun _ t _ => .refl t
      rw [stateAfter, Setup.writeFile_eq]
      cases t.files.write path result.1.render with
      | ok files => exact .of_move (.aside t _ _ _ files)
      | error fault => exact .refl t
  | buffer template given pass =>
      exact .bind (Setup.expandToBuffer_leads hpackages hbare s template pass) fun _ t _ => .refl t

end TensorTemplate
