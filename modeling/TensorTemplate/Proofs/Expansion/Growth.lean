import TensorTemplate.Expansion

/-!
Actions one after another, and what holds between a state and all later ones.

An action that succeeds is made of actions that succeed. A relation that is kept by
every change which actions are made of is kept by all actions, whether they succeed
or fail. One such relation is that the journal only grows: the journal after an
action is the journal before it with events added.
-/

namespace TensorTemplate

/-- Whether a frame is pushed. -/
def FrameEvent.isOpening : FrameEvent → Bool
  | .opened _ => true
  | _ => false

namespace ExpandM

/-! ### Running actions -/

section Run

variable {ε σ α β : Type} {x : EStateM ε σ α} {f : α → EStateM ε σ β} {s s' : σ}

theorem bind_ok {b : β} (h : (x >>= f) s = .ok b s') :
    ∃ a t, x s = .ok a t ∧ f a t = .ok b s' := by
  simp only [bind, EStateM.bind] at h
  cases hx : x s with
  | ok a t =>
      simp only [hx] at h
      exact ⟨a, t, rfl, h⟩
  | error e t => simp [hx] at h

theorem bind_eq {a : α} (h : x s = .ok a s') : (x >>= f) s = f a s' := by
  simp only [bind, EStateM.bind, h]

theorem bind_eq_error {e : ε} (h : x s = .error e s') : (x >>= f) s = .error e s' := by
  simp only [bind, EStateM.bind, h]

end Run

section Bind

variable {α β : Type} {x : ExpandM α} {f : α → ExpandM β} {s s' : State}

theorem get_bind {k : State → ExpandM α} : (get >>= k) s = k s s := rfl

theorem ofExcept_eq {r : Except Error α} {a : α} (h : r = .ok a) :
    ofExcept r s = .ok a s := by
  rw [h]
  rfl

theorem ofExcept_ok {r : Except Error α} {a : α} (h : ofExcept r s = .ok a s') :
    r = .ok a ∧ s' = s := by
  cases r with
  | ok a' =>
      cases h
      exact ⟨rfl, rfl⟩
  | error e => cases h

theorem ofExcept_bind_ok {r : Except Error α} {b : β} (h : (ofExcept r >>= f) s = .ok b s') :
    ∃ a, r = .ok a ∧ f a s = .ok b s' := by
  obtain ⟨a, t, hr, hf⟩ := bind_ok h
  obtain ⟨hr, ht⟩ := ofExcept_ok hr
  exact ⟨a, hr, ht ▸ hf⟩

theorem within_ok {template : String} {line : Nat} {a : α}
    (h : within template line x s = .ok a s') : x s = .ok a s' := by
  unfold within at h
  cases hx : x s <;> simp_all

theorem attempt_ok {a : α} (h : attempt x s = .ok (.ok a) s') : x s = .ok a s' := by
  unfold attempt at h
  cases hx : x s <;> simp_all

/-- Whether the action succeeds, with a state of which `p` holds. -/
def succeeds (x : ExpandM α) (s : State) (p : State → Prop) [DecidablePred p] : Bool :=
  match x s with
  | .ok _ t => decide (p t)
  | .error _ _ => false

theorem exists_ok_of_succeeds {p : State → Prop} [DecidablePred p] (h : succeeds x s p = true) :
    ∃ a t, x s = .ok a t ∧ p t := by
  unfold succeeds at h
  split at h
  · rename_i a t hx
    exact ⟨a, t, hx, of_decide_eq_true h⟩
  · cases h

theorem exists_of_succeeds {x : ExpandM Unit} {p : State → Prop} [DecidablePred p]
    (h : succeeds x s p = true) : ∃ t, x s = .ok () t ∧ p t := by
  obtain ⟨_, t, hx, ht⟩ := exists_ok_of_succeeds h
  exact ⟨t, hx, ht⟩

end Bind

/-! ### What lasts -/

/-- The state after an action, which may have failed. -/
def stateAfter {α : Type} (x : ExpandM α) (s : State) : State :=
  match x s with
  | .ok _ s => s
  | .error _ s => s

theorem error_of_not_succeeds {α : Type} {x : ExpandM α} {s : State}
    (h : succeeds x s (fun _ => True) = false) : ∃ e, x s = .error e (stateAfter x s) := by
  unfold succeeds at h
  unfold stateAfter
  cases hx : x s with
  | ok a t => simp [hx] at h
  | error e t => exact ⟨e, rfl⟩

theorem stateAfter_bind {α β : Type} {x : ExpandM α} {f : α → ExpandM β} {s t : State} {a : α}
    (h : x s = .ok a t) : stateAfter (x >>= f) s = stateAfter (f a) t := by
  rw [stateAfter, bind_eq h]
  rfl

theorem attempt_eq {α : Type} (x : ExpandM α) (s : State) :
    ∃ outcome, attempt x s = .ok outcome (stateAfter x s) := by
  simp only [stateAfter, attempt]
  cases x s <;> exact ⟨_, rfl⟩

end ExpandM

/-- The state with a new frame on top. -/
def State.opened (s : State) (buffer : Buffer) (pass : Pass) (template : String) : State :=
  let stack := (s.stack.push buffer pass template).2
  ({ s with stack }.record s.stack.nextId (.opened buffer)).see (.pushed stack.depth)

/-- The state without the frame on top, if there was one. -/
def State.popped (s : State) : State :=
  { s with stack := { s.stack with frames := s.stack.frames.tail } }

/-- A relation between a state and all that come later: it holds along every change that actions
are made of. -/
structure Lasting where
  Rel : State → State → Prop
  refl : ∀ s, Rel s s
  trans : ∀ {s t u}, Rel s t → Rel t u → Rel s u
  record : ∀ s id event, event.isOpening = false → Rel s (s.record id event)
  setFrame : ∀ s f, Rel s { s with stack := s.stack.set f }
  emit : ∀ s e, Rel s { s with temporaries := (s.temporaries.emit e).2 }
  cacheLambda : ∀ s l, Rel s { s with temporaries := (s.temporaries.cacheLambda l).2 }
  clear : ∀ s, Rel s { s with temporaries := s.temporaries.clear }
  /-- Warnings, notes and files play no part. -/
  aside : ∀ s diagnostics log files, Rel s { s with diagnostics, log, files }
  bookmarks : ∀ s bookmarks, Rel s { s with bookmarks }
  /-- What holds above a frame that is pushed holds once it is popped. -/
  framed : ∀ {s t} buffer pass template, Rel (s.opened buffer pass template) t → Rel s t.popped

/-- The count of replacements plays no part either, nor does what is seen. -/
class Lasting.Uncounted (R : Lasting) : Prop where
  count : ∀ s replacements, R.Rel s { s with replacements }
  see : ∀ s sight, R.Rel s (s.see sight)

theorem Lasting.recordOnTop (R : Lasting) (s : State) {event : FrameEvent}
    (h : event.isOpening = false) : R.Rel s (s.recordOnTop event) := by
  unfold State.recordOnTop
  split
  · exact R.refl _
  · exact R.record _ _ _ h

namespace ExpandM

/-- The relation holds between the states before and after the action. -/
def Keeps (R : Lasting) {α : Type} (x : ExpandM α) : Prop := ∀ s, R.Rel s (stateAfter x s)

namespace Keeps

variable {R : Lasting} {α β : Type}

theorem of_ok {x : ExpandM α} (hx : Keeps R x) {s s' : State} {a : α} (h : x s = .ok a s') :
    R.Rel s s' := by
  have hkeeps := hx s
  rwa [stateAfter, h] at hkeeps

protected theorem pure (a : α) : Keeps R (pure a) := fun s => R.refl s

protected theorem throw (e : Error) : Keeps R (throw e : ExpandM α) := fun s => R.refl s

protected theorem get : Keeps R (get : ExpandM State) := fun s => R.refl s

protected theorem bind {x : ExpandM α} {f : α → ExpandM β} (hx : Keeps R x)
    (hf : ∀ a, Keeps R (f a)) : Keeps R (x >>= f) := by
  intro s
  have hfirst := hx s
  simp only [stateAfter, bind, EStateM.bind] at hfirst ⊢
  cases hrun : x s with
  | ok a s' =>
      simp only [hrun] at hfirst ⊢
      exact R.trans hfirst (hf a s')
  | error e s' =>
      simp only [hrun] at hfirst ⊢
      exact hfirst

protected theorem modifyGet {f : State → α × State} (h : ∀ s, R.Rel s (f s).2) :
    Keeps R (modifyGet f : ExpandM α) := h

protected theorem modify {f : State → State} (h : ∀ s, R.Rel s (f s)) :
    Keeps R (modify f : ExpandM Unit) := h

protected theorem ofExcept (r : Except Error α) : Keeps R (ofExcept r) := by
  cases r with
  | ok a => exact .pure a
  | error e => exact .throw e

protected theorem within {x : ExpandM α} (hx : Keeps R x) (template : String) (line : Nat) :
    Keeps R (within template line x) := by
  intro s
  have hkeeps := hx s
  simp only [stateAfter, ExpandM.within] at hkeeps ⊢
  cases hrun : x s <;> simpa only [hrun] using hkeeps

protected theorem mapM {f : α → ExpandM β} (hf : ∀ a, Keeps R (f a)) (as : List α) :
    Keeps R (as.mapM f) := by
  induction as with
  | nil => exact .pure []
  | cons a as ih =>
      rw [List.mapM_cons]
      exact (hf a).bind fun _ => ih.bind fun _ => .pure _

protected theorem forM {f : α → ExpandM PUnit} (hf : ∀ a, Keeps R (f a)) (as : List α) :
    Keeps R (as.forM f) := by
  induction as with
  | nil => exact .pure _
  | cons a as ih => exact (hf a).bind fun _ => ih

protected theorem foldlM {f : β → α → ExpandM β} (hf : ∀ b a, Keeps R (f b a)) (b : β)
    (as : List α) : Keeps R (as.foldlM f b) := by
  induction as generalizing b with
  | nil => exact .pure b
  | cons a as ih =>
      rw [List.foldlM_cons]
      exact (hf b a).bind ih

end Keeps

variable {R : Lasting}

/-! ### Frames and buffers -/

theorem keeps_record (id : Nat) (event : FrameEvent) (h : event.isOpening = false) :
    Keeps R (record id event) :=
  .modify fun s => R.record s id event h

theorem keeps_recordOnTop (event : FrameEvent) (h : event.isOpening = false) :
    Keeps R (recordOnTop event) :=
  .modify fun s => R.recordOnTop s h

theorem keeps_warn (message : String) : Keeps R (warn message) :=
  .modify fun s => R.aside s _ _ _

theorem keeps_note (line : String) : Keeps R (note line) := .modify fun s => R.aside s _ _ _

theorem keeps_track (change : List Bookmark → List Bookmark) : Keeps R (track change) :=
  .modify fun s => R.bookmarks s _

theorem keeps_topFrame : Keeps R topFrame := .bind .get fun _ => .ofExcept _

theorem keeps_frame (id : Nat) : Keeps R (frame id) := by
  refine .bind .get fun s => ?_
  split
  · exact .pure _
  · exact .throw _

theorem keeps_setFrame (f : Frame) : Keeps R (setFrame f) := .modify fun s => R.setFrame s f

theorem keeps_changeBuffer (f : Frame) (change : Buffer → Except Error Buffer) :
    Keeps R (changeBuffer f change) := .bind (.ofExcept _) fun _ => keeps_setFrame _

theorem keeps_onTopBuffer (change : Buffer → Except Error Buffer) : Keeps R (onTopBuffer change) :=
  .bind keeps_topFrame fun _ => keeps_changeBuffer _ _

theorem keeps_onBuffer (id : Nat) (change : Buffer → Except Error Buffer) :
    Keeps R (onBuffer id change) := .bind (keeps_frame id) fun _ => keeps_changeBuffer _ _

/-- Printing an expression changes the caches, and the journal notes what is named. -/
theorem emit_eq (e : Expr) (s : State) :
    emit e s = .ok ((s.temporaries.parse e).exprs.substituteAndDeclare e).1
      ({ s with temporaries := (s.temporaries.emit e).2 }.recordOnTop
        (.named ((s.temporaries.parse e).exprs.naming e).2)) := rfl

/-- Calling a function value changes the caches, and the journal notes what is called. -/
theorem cacheLambda_eq (l : Lambda) (s : State) :
    cacheLambda l s =
      .ok (s.temporaries.lambdas.backend.invocation
          (s.temporaries.lambdas.enter s.temporaries.generation l).1.name l.params)
        ({ s with temporaries := (s.temporaries.cacheLambda l).2 }.recordOnTop
          (.called (s.temporaries.lambdas.enter s.temporaries.generation l).1)) := rfl

theorem keeps_emit (e : Expr) : Keeps R (emit e) := by
  intro s
  rw [stateAfter, emit_eq]
  exact R.trans (R.emit s e) (R.recordOnTop _ rfl)

theorem keeps_cacheLambda (l : Lambda) : Keeps R (cacheLambda l) := by
  intro s
  rw [stateAfter, cacheLambda_eq]
  exact R.trans (R.cacheLambda s l) (R.recordOnTop _ rfl)

theorem keeps_renderDeclarations (pattern : String) (held : List Declaration) :
    Keeps R (renderDeclarations pattern held) := .modifyGet fun s => R.aside s _ _ _

/-! ### Pools -/

theorem keeps_poolOf (id : Nat) : Keeps R (poolOf id) := by
  refine .bind (keeps_frame id) fun f => ?_
  split
  · exact .pure _
  · exact .throw _

theorem keeps_setPool (id : Nat) (pool : Pool) : Keeps R (setPool id pool) :=
  .bind (keeps_frame id) fun _ => keeps_setFrame _

theorem keeps_bindPool (backend : Backend) (id : Nat) : Keeps R (bindPool backend id) :=
  .bind (keeps_frame id) fun _ => keeps_setFrame _

theorem keeps_clearTemporaries : Keeps R clearTemporaries := .modify fun s => R.clear s

end ExpandM

/-- The relation holds along both ways back into expanding. -/
structure Reentry.Keeps (R : Lasting) (re : Reentry) : Prop where
  nested : ∀ template options, ExpandM.Keeps R (re.nested template options)
  expandText : ∀ text, ExpandM.Keeps R (re.expandText text)

theorem Reentry.Keeps.forLines {R : Lasting} {re : Reentry} (hre : re.Keeps R) (id : Nat) :
    (re.forLines id).Keeps R := ⟨hre.nested, hre.expandText⟩

namespace ExpandM

variable {re : Reentry} (hre : re.Keeps R)

include hre

theorem keeps_writeDeclarations (id : Nat) (pool : Pool) :
    Keeps R (writeDeclarations re id pool) := by
  refine .bind .get fun s => .bind (keeps_renderDeclarations _ _) fun _ =>
    .bind keeps_clearTemporaries fun _ => ?_
  dsimp only
  split
  · exact .bind (hre.expandText _) fun _ => keeps_onBuffer _ _
  · exact .pure _

theorem keeps_deposit (id : Nat) : Keeps R (deposit re id) := by
  refine .bind (keeps_poolOf id) fun pool => ?_
  split
  · exact .bind (keeps_setPool _ _) fun _ => .bind .get fun _ =>
      .bind (keeps_record _ _ rfl) fun _ => keeps_writeDeclarations hre id pool
  · exact .pure _

theorem keeps_setBoundary (backend : Backend) (id : Nat) (pattern : String) :
    Keeps R (setBoundary backend re id pattern) :=
  .bind (keeps_deposit hre id) fun _ => .bind (keeps_poolOf id) fun _ =>
    .bind (keeps_setPool _ _) fun _ => .bind (keeps_onBuffer _ _) fun _ =>
      .bind (keeps_record _ _ rfl) fun _ => .pure _

theorem keeps_suspendPool (id : Nat) : Keeps R (suspendPool re id) := by
  refine .bind (keeps_poolOf id) fun pool => ?_
  split
  · exact keeps_deposit hre id
  · refine .bind .get fun s => ?_
    dsimp only
    split
    · exact .bind (keeps_setPool _ _) fun _ => keeps_clearTemporaries
    · exact .pure _

omit hre in
theorem keeps_ensureBoundary (id : Nat) : Keeps R (ensureBoundary id) := by
  refine .bind (keeps_poolOf id) fun pool => ?_
  split
  · refine .bind (keeps_frame id) fun f => .bind .get fun s => ?_
    split
    · exact .bind (keeps_warn _) fun _ => .bind (keeps_onBuffer _ _) fun _ =>
        .bind (keeps_setPool _ _) fun _ => keeps_record _ _ rfl
    · exact keeps_warn _
  · exact .pure _

omit hre in
theorem keeps_dropHandler (id : Nat) : Keeps R (dropHandler id) := by
  refine .bind (keeps_poolOf id) fun pool => ?_
  split
  · exact .pure _
  · exact .bind (keeps_setPool _ _) fun _ => keeps_onBuffer _ _

theorem keeps_retirePool (id : Nat) : Keeps R (retirePool re id) :=
  .bind (keeps_ensureBoundary id) fun _ => .bind (keeps_deposit hre id) fun _ =>
    keeps_dropHandler id

/-! ### Scripts and rules -/

omit hre in
theorem keeps_quietly {x : ExpandM Unit} (hx : Keeps R x) : Keeps R (act.quietly x) :=
  .bind hx fun _ => .pure _

theorem keeps_act (args : List String) (indices : List Index) (action : Action) :
    Keeps R (act re args indices action) := by
  cases action with
  | text t => exact .pure _
  | nested template options => exact .bind (hre.nested _ _) fun _ => .pure _
  | expand t => exact hre.expandText _
  | emit e => exact keeps_emit e
  | lambda l => exact keeps_cacheLambda l
  | warn t => exact keeps_quietly (keeps_warn _)
  | fail t => exact .throw _
  | log t => exact keeps_quietly (keeps_note _)
  | frame => exact .bind keeps_topFrame fun _ => .bind .get fun _ => .pure _
  | _ => exact keeps_quietly (keeps_onTopBuffer _)

theorem keeps_perform (args : List String) (indices : List Index) (script : Script) :
    Keeps R (perform re args indices script) :=
  .bind (.mapM (keeps_act hre args indices) script) fun _ => .pure _

theorem keeps_evaluate (setup : Setup) (name : String) (body : RuleBody) (args : List String)
    (indices : List Index) : Keeps R (evaluate setup re name body args indices) := by
  cases body with
  | template => exact .bind keeps_topFrame fun _ => .pure _
  | guard => exact .bind keeps_topFrame fun _ => .pure _
  | fieldName => exact .bind (.ofExcept _) fun _ => .pure _
  | parameter => exact .ofExcept _
  | coordinate => exact .bind (.ofExcept _) fun _ => .pure _
  | setPool id => exact keeps_setBoundary hre _ _ _
  | tensor t =>
      refine .bind (.ofExcept _) fun values => ?_
      split
      · exact keeps_emit _
      · exact .throw _
  | tensorLambda kind t => exact keeps_cacheLambda _
  | importTemplate => exact .bind (hre.nested _ _) fun _ => .pure _
  | embedString => exact .bind (hre.nested _ _) fun _ => .pure _
  | script actions => exact keeps_perform hre _ _ _
  | _ => exact .pure _

/-! ### Lines and templates -/

theorem keeps_expandSegment [R.Uncounted] (setup : Setup) (r : Registry) (assignment : List Index)
    (segment : Segment) : Keeps R (expandSegment setup re r assignment segment) := by
  cases segment with
  | text t => exact .pure _
  | directive d =>
      exact .bind (.bind (.ofExcept _) fun _ => keeps_evaluate hre _ _ _ _ _) fun _ =>
        .bind (.modify fun s => Lasting.Uncounted.see s _) fun _ => .pure _

theorem keeps_expandLine [R.Uncounted] (setup : Setup) (line : String) :
    Keeps R (expandLine setup re line) := by
  refine .bind (.ofExcept _) fun segments => ?_
  split
  · refine .bind .get fun s => .bind (.ofExcept _) fun r => .bind (.ofExcept _) fun plan => ?_
    refine .bind ?_ fun lines => .bind (.modify fun s => Lasting.Uncounted.count s _) fun _ =>
      .pure _
    rw [LinePlan.mapAssignments_eq]
    exact .mapM (fun assignment => .bind (.mapM (keeps_expandSegment hre setup r assignment) _)
      fun _ => .pure _) _
  · exact .pure _

theorem keeps_expandText [R.Uncounted] (setup : Setup) (text : String) :
    Keeps R (expandText setup re text) :=
  .bind (.bind (.mapM (keeps_expandLine hre setup) _) fun _ => .pure _) fun _ => .pure _

theorem keeps_handle (event : BufferEvent) (handler : Handler) :
    Keeps R (handle re event handler) := by
  cases handler with
  | pool id =>
      cases event with
      | close => exact keeps_retirePool hre id
      | suspend => exact keeps_suspendPool hre id
  | note name => exact keeps_note _
  | script name onClose onSuspend =>
      exact .bind keeps_topFrame fun _ => .bind (keeps_perform hre _ _ _) fun _ => keeps_note _

theorem keeps_writeLine [R.Uncounted] (setup : Setup) (line : String) :
    Keeps R (writeLine setup re line) :=
  .bind (keeps_expandLine hre setup line) fun _ =>
    .bind (.forM (fun _ => .bind (keeps_onTopBuffer _) fun _ => keeps_recordOnTop _ rfl) _) fun _ =>
      .pure _

theorem keeps_writeBody [R.Uncounted] (setup : Setup) (template : String) (body : List String) :
    Keeps R (writeBody setup re template body) :=
  .bind (.mapM (fun _ => .bind (keeps_track _) fun _ => (keeps_writeLine hre setup _).within _ _) _)
    fun _ => .pure _

theorem keeps_finishTop : Keeps R (finishTop re) :=
  .bind keeps_topFrame fun _ => .bind (keeps_setFrame _) fun _ =>
    .bind (.forM (keeps_handle hre .close) _) fun _ => keeps_onTopBuffer _

omit hre in
theorem keeps_installPackage (id : Nat) (pass : Pass) (r : Registry) (p : Package) :
    Keeps R (installPackage id pass r p) := by
  have hinstall : Keeps R (do
      p.handlers.forM fun h => onBuffer id fun b => pure (b.register h).2
      return addRules r p.rules) :=
    .bind (.forM (fun _ => keeps_onBuffer _ _) _) fun _ => .pure _
  have hrefused : ∀ text : String, Keeps R (do
      let () ← throw (.refused text)
      p.handlers.forM fun h => onBuffer id fun b => pure (b.register h).2
      return addRules r p.rules) := fun text => .bind (.throw _) fun _ => hinstall
  unfold installPackage
  cases p.only <;> cases p.refusal <;> dsimp only
  · exact hinstall
  · exact hrefused _
  · split
    · exact .pure _
    · exact hinstall
  · split
    · exact .pure _
    · exact hrefused _

theorem keeps_runFrame [R.Uncounted] (setup : Setup) (id : Nat) (pass : Pass) (template : String)
    (body : List String) : Keeps R (runFrame setup re id pass template body) := by
  refine .bind (.bind (keeps_bindPool _ _) fun _ => .foldlM (keeps_installPackage id pass) _ _)
    fun registry => .bind (keeps_frame id) fun f => .bind (keeps_setFrame _) fun _ => ?_
  have hlines := hre.forLines id
  exact .bind (keeps_track _) fun _ => .bind (keeps_writeBody hlines setup template body) fun _ =>
    .bind (keeps_track _) fun _ => .bind ((keeps_finishTop hlines).within _ _) fun _ =>
      .bind (keeps_track _) fun _ => .pure _

omit hre in
theorem popFrame_eq (s : State) :
    popFrame s =
      match s.stack.pop with
      | some (f, stack) => .ok f { s with stack }
      | none => .error (.missingContext .buffer) s := by
  rw [popFrame, get_bind]
  cases s.stack.pop <;> rfl

omit hre in
theorem popFrame_of_cons {s : State} {f : Frame} {fs : List Frame}
    (hframes : s.stack.frames = f :: fs) :
    popFrame s = .ok f { s with stack := { s.stack with frames := fs } } := by
  rw [popFrame_eq, Stack.pop, hframes]

omit hre in
/-- A frame is popped whatever comes of the action on it. -/
theorem keeps_framed {α β : Type} (buffer : Buffer) (pass : Pass) (template : String)
    {x : Nat → ExpandM α} (hx : ∀ id, Keeps R (x id)) {k : Nat → Except Error α → Frame → ExpandM β}
    (hk : ∀ id outcome popped, Keeps R (k id outcome popped)) :
    Keeps R (do
      let id ← pushFrame buffer pass template
      let outcome ← attempt (x id)
      let popped ← popFrame
      k id outcome popped) := by
  intro s
  have hpush : pushFrame buffer pass template s =
      .ok s.stack.nextId (s.opened buffer pass template) := rfl
  obtain ⟨outcome, hattempt⟩ := attempt_eq (x s.stack.nextId) (s.opened buffer pass template)
  have hframed := R.framed (s := s) buffer pass template (hx s.stack.nextId _)
  rw [stateAfter_bind hpush, stateAfter_bind hattempt]
  generalize stateAfter (x s.stack.nextId) (s.opened buffer pass template) = t at hframed ⊢
  cases hframes : t.stack.frames with
  | nil =>
      have hpopped : t.popped = t := by rw [State.popped, hframes, List.tail_nil, ← hframes]
      rw [hpopped] at hframed
      simpa [stateAfter, bind, EStateM.bind, popFrame_eq, Stack.pop, hframes] using hframed
  | cons f fs =>
      have hpopped : t.popped = { t with stack := { t.stack with frames := fs } } := by
        rw [State.popped, hframes, List.tail_cons]
      rw [hpopped] at hframed
      rw [stateAfter_bind (popFrame_of_cons hframes)]
      exact R.trans hframed (hk _ _ _ _)

theorem keeps_expandTemplate [R.Uncounted] (setup : Setup) (template : String) (buffer : Buffer)
    (pass : Pass) : Keeps R (expandTemplate setup re template buffer pass) := by
  refine .bind .get fun s => .bind (.ofExcept _) fun text => .bind (.ofExcept _) fun split => ?_
  refine .bind (.ofExcept _) fun _ => keeps_framed buffer pass template
    (fun id => keeps_runFrame hre setup id pass template _) fun id outcome popped => ?_
  exact .bind (.ofExcept _) fun count => .bind (keeps_record _ _ rfl) fun _ => .pure _

theorem keeps_expandNested [R.Uncounted] (setup : Setup) (template : String)
    (options : NestedOptions) : Keeps R (expandNested setup re template options) := by
  refine .bind keeps_topFrame fun top => .bind (.forM (fun _ => keeps_handle hre .suspend _) _)
    fun _ => .bind keeps_topFrame fun top => ?_
  exact .bind (keeps_expandTemplate hre setup template _ _) fun _ =>
    .bind (keeps_onTopBuffer _) fun _ => .bind (keeps_recordOnTop _ rfl) fun _ => .pure _

end ExpandM

/-- On the way back it is texts that are expanded, until a frame is pushed. -/
theorem frame_reentry (setup : Setup) (depth : Nat) : (reentry setup depth).frame = none := by
  cases depth <;> rfl

/-- At every depth, the relation holds along the ways back into expanding. -/
theorem keeps_reentry {R : Lasting} [R.Uncounted] (setup : Setup) (depth : Nat) :
    (reentry setup depth).Keeps R := by
  induction depth with
  | zero => exact ⟨fun _ _ => .throw _, fun _ => .throw _⟩
  | succ depth ih =>
      exact ⟨ExpandM.keeps_expandNested ih setup, ExpandM.keeps_expandText ih setup⟩

/-! ### The journal -/

/-- The journal only grows. -/
def Lasting.journal : Lasting where
  Rel s t := s.journal <:+ t.journal
  refl s := List.suffix_refl s.journal
  trans := List.IsSuffix.trans
  record _ _ _ _ := List.suffix_cons _ _
  setFrame s _ := List.suffix_refl s.journal
  emit s _ := List.suffix_refl s.journal
  cacheLambda s _ := List.suffix_refl s.journal
  clear s := List.suffix_refl s.journal
  aside s _ _ _ := List.suffix_refl s.journal
  bookmarks s _ := List.suffix_refl s.journal
  framed _ _ _ h := (List.suffix_cons _ _).trans h

instance : Lasting.journal.Uncounted :=
  ⟨fun s _ => List.suffix_refl s.journal, fun s _ => List.suffix_refl s.journal⟩

/-- The action adds events to the journal and takes none away. -/
abbrev ExpandM.Grows {α : Type} (x : ExpandM α) : Prop := ExpandM.Keeps .journal x

/-- Both ways back into expanding add events and take none away. -/
abbrev Reentry.Grows (re : Reentry) : Prop := re.Keeps .journal

theorem ExpandM.Grows.of_ok {α : Type} {x : ExpandM α} (hx : Grows x) {s s' : State} {a : α}
    (h : x s = .ok a s') : s.journal <:+ s'.journal := Keeps.of_ok hx h

end TensorTemplate
