import TensorTemplate.Proofs.Expansion.Balance
import TensorTemplate.Proofs.StringLiteral

/-!
Two runs side by side, of which the second is inside one more embedding.

Nothing that is done for a template depends on the style of its lines. So the same
rules are called with the same results in both runs, the caches, warnings and counts
come out the same, and the same lines are written to the frames on top, inside one
embedding more in the second run. Only the frames on top are compared; what is below
them is not touched.
-/

namespace TensorTemplate

open ExpandM

/-- Whether a frame is pushed whose lines are decorated. -/
def FrameEvent.isDecorated : FrameEvent → Bool
  | .opened buffer => !buffer.style.decorations.isEmpty
  | _ => false

namespace State

/-- The states agree in all but their frames, journals and bookmarks. -/
structure Matches (s s' : State) : Prop where
  temporaries : s'.temporaries = s.temporaries
  diagnostics : s'.diagnostics = s.diagnostics
  replacements : s'.replacements = s.replacements
  log : s'.log = s.log
  files : s'.files = s.files
  nextId : s'.stack.nextId = s.stack.nextId

namespace Matches

variable {s s' : State}

protected theorem refl (s : State) : s.Matches s := ⟨rfl, rfl, rfl, rfl, rfl, rfl⟩

theorem record (h : s.Matches s') (id id' : Nat) (event event' : FrameEvent) :
    (s.record id event).Matches (s'.record id' event') :=
  ⟨h.temporaries, h.diagnostics, h.replacements, h.log, h.files, h.nextId⟩

theorem recordOnTop (h : s.Matches s') (event event' : FrameEvent) :
    (s.recordOnTop event).Matches (s'.recordOnTop event') := by
  unfold State.recordOnTop
  split <;> split <;>
    exact ⟨h.temporaries, h.diagnostics, h.replacements, h.log, h.files, h.nextId⟩

theorem withTemporaries (h : s.Matches s') (temporaries : Temporaries) :
    Matches { s with temporaries } { s' with temporaries } :=
  ⟨rfl, h.diagnostics, h.replacements, h.log, h.files, h.nextId⟩

theorem withTop (h : s.Matches s') (f f' : Frame) : (s.withTop f).Matches (s'.withTop f') :=
  ⟨h.temporaries, h.diagnostics, h.replacements, h.log, h.files, h.nextId⟩

theorem opened (h : s.Matches s') (buffer buffer' : Buffer) (pass : Pass) (template : String) :
    (s.opened buffer pass template).Matches (s'.opened buffer' pass template) :=
  ⟨h.temporaries, h.diagnostics, h.replacements, h.log, h.files,
    congrArg (· + 1) h.nextId⟩

theorem popped (h : s.Matches s') : s.popped.Matches s'.popped :=
  ⟨h.temporaries, h.diagnostics, h.replacements, h.log, h.files, h.nextId⟩

end Matches

/-- Since that journal, a frame was pushed whose lines are decorated. -/
def Decorated (j : Journal) (s : State) : Prop :=
  ∃ new : Journal, s.journal = new ++ j ∧ new.any (·.2.isDecorated) = true

theorem Decorated.of_suffix {j : Journal} {s t : State} (h : s.Decorated j)
    (hsuffix : s.journal <:+ t.journal) : t.Decorated j := by
  obtain ⟨new, hnew, hdecorated⟩ := h
  obtain ⟨more, hmore⟩ := hsuffix
  refine ⟨more ++ new, ?_, ?_⟩
  · rw [← hmore, hnew, List.append_assoc]
  · rw [List.any_append, hdecorated, Bool.or_true]

end State

/-- The second frame is expanded as the first one, inside one more embedding than its `k`. -/
structure Frame.Embeds (b : Backend) (D : Prop) (k : Nat) (f f' : Frame) : Prop where
  id : f'.id = f.id
  registry : f'.registry = f.registry
  pass : f'.pass = f.pass
  template : f'.template = f.template
  pool : f'.pool = f.pool
  buffer : f.buffer.Embeds b D k f'.buffer

theorem Frame.Embeds.mono {b : Backend} {D D' : Prop} {k : Nat} {f f' : Frame}
    (h : f.Embeds b D k f') (hD : D → D') : f.Embeds b D' k f' :=
  ⟨h.id, h.registry, h.pass, h.template, h.pool, h.buffer.mono hD⟩

/-- Frames with other buffers that are filled alike. -/
theorem Frame.Embeds.withBuffer {b : Backend} {D : Prop} {k : Nat} {f f' : Frame}
    (h : f.Embeds b D k f') {c c' : Buffer} (hbuffer : c.Embeds b D k c') :
    Frame.Embeds b D k { f with buffer := c } { f' with buffer := c' } :=
  ⟨h.id, h.registry, h.pass, h.template, h.pool, hbuffer⟩

/-- The states agree, and their frames on top are expanded alike. The frames below do not matter. -/
structure State.Mirrors (setup : Setup) (j : Journal) (id k : Nat) (fs fs' : List Frame)
    (s s' : State) : Prop where
  agree : s.Matches s'
  base : j <:+ s.journal
  level : k = 0 ∨ s.Decorated j
  top : ∃ f f', s.stack.frames = f :: fs ∧ s'.stack.frames = f' :: fs' ∧ f.id = id ∧
    f.Local setup ∧ f.Embeds setup.backend (s.Decorated j) k f'

namespace State.Mirrors

variable {setup : Setup} {j : Journal} {id k : Nat} {fs fs' : List Frame} {s s' t t' : State}

/-- A change on both sides that leaves the frames alone. -/
theorem of_frames (h : s.Mirrors setup j id k fs fs' s') (hmatches : t.Matches t')
    (hframes : t.stack.frames = s.stack.frames) (hframes' : t'.stack.frames = s'.stack.frames)
    (hsuffix : s.journal <:+ t.journal) : t.Mirrors setup j id k fs fs' t' where
  agree := hmatches
  base := h.base.trans hsuffix
  level := h.level.imp_right fun hD => hD.of_suffix hsuffix
  top := by
    obtain ⟨f, f', hf, hf', hid, hlocal, hembeds⟩ := h.top
    exact ⟨f, f', hframes.trans hf, hframes'.trans hf', hid, hlocal,
      hembeds.mono fun hD => hD.of_suffix hsuffix⟩

/-- A change of the frames on top. -/
theorem withTop (h : s.Mirrors setup j id k fs fs' s') {f g f' g' : Frame}
    (hf : s.stack.frames = f :: fs) (hf' : s'.stack.frames = f' :: fs') (hid : f.id = id)
    (hlocal : f.Local setup) (hlasts : f.Lasts g)
    (hembeds : g.Embeds setup.backend (s.Decorated j) k g') :
    (s.withTop g).Mirrors setup j id k fs fs' (s'.withTop g') where
  agree := h.agree.withTop g g'
  base := h.base
  level := h.level
  top := ⟨g, g', frames_withTop hf g, frames_withTop hf' g', hlasts.id.trans hid,
    hlasts.isLocal hlocal, hembeds⟩

end State.Mirrors

namespace ExpandM

/-- If the action succeeds in a run, it succeeds with the same result in one that is inside one more
embedding, and the runs stay alike. -/
structure Mirrored (setup : Setup) (id : Nat) {α : Type} (x : ExpandM α) : Prop where
  mirrors : ∀ {j : Journal} {k : Nat} {fs fs' : List Frame} {s s' t : State} {a : α},
    s.Mirrors setup j id k fs fs' s' → x s = .ok a t →
      ∃ t', x s' = .ok a t' ∧ t.Mirrors setup j id k fs fs' t'

end ExpandM

theorem Buffer.PoolChange.echoes {b : Backend} {change : Buffer → Except Error Buffer}
    (h : PoolChange change) : Echoes b change := by
  cases h with
  | writeAllToTag texts => exact echoes_writeAllToTag texts
  | setTagToEnd => exact echoes_setTagToEnd
  | setTagToStart => exact echoes_setTagToStart
  | deregister handler => exact echoes_deregister handler

/-- The ways back into expanding run alike. -/
structure Reentry.Mirrored (setup : Setup) (re : Reentry) : Prop where
  nested : ∀ {id} template {options : NestedOptions},
    options = .verbatim ∨ options = .stringLiteral setup.backend →
      ExpandM.Mirrored setup id (re.nested template options)
  expandText : ∀ {id} text, ExpandM.Mirrored setup id (re.expandText text)

namespace ExpandM

variable {setup : Setup} {id : Nat} {α β : Type}

namespace Mirrored

protected theorem pure (a : α) : Mirrored setup id (pure a) where
  mirrors := by
    intro j k fs fs' s s' t _ h hrun
    cases hrun
    exact ⟨s', rfl, h⟩

protected theorem throw (e : Error) : Mirrored setup id (throw e : ExpandM α) where
  mirrors := fun _ hrun => nomatch hrun

protected theorem bind {x : ExpandM α} {y : α → ExpandM β} (hx : Mirrored setup id x)
    (hy : ∀ a, Mirrored setup id (y a)) : Mirrored setup id (x >>= y) where
  mirrors := by
    intro j k fs fs' s s' u c h hrun
    obtain ⟨a, t, hfirst, hsecond⟩ := bind_ok hrun
    obtain ⟨t', hfirst', ht⟩ := hx.mirrors h hfirst
    obtain ⟨u', hsecond', hu⟩ := (hy a).mirrors ht hsecond
    exact ⟨u', (bind_eq hfirst').trans hsecond', hu⟩

protected theorem within {x : ExpandM α} (hx : Mirrored setup id x) (template : String)
    (line : Nat) : Mirrored setup id (within template line x) where
  mirrors := by
    intro j k fs fs' s s' t a h hrun
    obtain ⟨t', hrun', ht⟩ := hx.mirrors h (within_ok hrun)
    exact ⟨t', by rw [ExpandM.within, hrun'], ht⟩

protected theorem forM {y : α → ExpandM PUnit} {as : List α}
    (hy : ∀ a ∈ as, Mirrored setup id (y a)) : Mirrored setup id (as.forM y) := by
  induction as with
  | nil => exact .pure _
  | cons a as ih =>
      exact (hy a List.mem_cons_self).bind fun _ => ih fun b hb => hy b (List.mem_cons_of_mem _ hb)

/-- An action that succeeds on every state, and only reads and changes what the states agree in. -/
theorem of_matches {x : ExpandM α} (hgrows : Grows x)
    (hx : ∀ s s', s.Matches s' → ∃ a t t', x s = .ok a t ∧ x s' = .ok a t' ∧ t.Matches t' ∧
      t.stack = s.stack ∧ t'.stack = s'.stack) :
    Mirrored setup id x where
  mirrors := by
    intro j k fs fs' s s' t a h hrun
    obtain ⟨b, u, u', hu, hu', hmatches, hstack, hstack'⟩ := hx s s' h.agree
    rw [hrun] at hu
    cases hu
    refine ⟨u', hu', h.of_frames hmatches ?_ ?_ (hgrows.of_ok hrun)⟩
    · rw [hstack]
    · rw [hstack']

/-- What is done with a state depends on the temporaries in it alone. -/
theorem get {k : State → ExpandM α}
    (hsame : ∀ s s' : State, s'.temporaries = s.temporaries → k s' = k s)
    (hk : ∀ s, Mirrored setup id (k s)) : Mirrored setup id (get >>= k) where
  mirrors := by
    intro j n fs fs' s s' t a h hrun
    rw [get_bind] at hrun
    obtain ⟨t', hrun', ht⟩ := (hk s).mirrors h hrun
    refine ⟨t', ?_, ht⟩
    rw [get_bind, hsame s s' h.agree.temporaries]
    exact hrun'

end Mirrored

section Actions

theorem mirrored_warn (message : String) : Mirrored setup id (warn message) := by
  refine .of_matches (keeps_warn message) fun s s' h => ⟨_, _, _, rfl, rfl, ?_, rfl, rfl⟩
  exact ⟨h.temporaries, congrArg (·.warn message) h.diagnostics, h.replacements, h.log, h.files,
    h.nextId⟩

theorem mirrored_note (line : String) : Mirrored setup id (note line) := by
  refine .of_matches (keeps_note line) fun s s' h => ⟨_, _, _, rfl, rfl, ?_, rfl, rfl⟩
  exact ⟨h.temporaries, h.diagnostics, h.replacements, congrArg (line :: ·) h.log, h.files,
    h.nextId⟩

theorem mirrored_count (n : Nat) :
    Mirrored setup id (modify fun s => { s with replacements := s.replacements + n }) := by
  refine .of_matches (.modify fun s => List.suffix_refl s.journal) fun s s' h =>
    ⟨_, _, _, rfl, rfl, ?_, rfl, rfl⟩
  exact ⟨h.temporaries, h.diagnostics, congrArg (· + n) h.replacements, h.log, h.files, h.nextId⟩

theorem mirrored_see (sight : Sight) : Mirrored setup id (see sight) := by
  refine .of_matches (.modify fun s => List.suffix_refl s.journal) fun s s' h =>
    ⟨_, _, _, rfl, rfl, ?_, rfl, rfl⟩
  exact ⟨h.temporaries, h.diagnostics, h.replacements, h.log, h.files, h.nextId⟩

theorem mirrored_track (change : List Bookmark → List Bookmark) :
    Mirrored setup id (track change) := by
  refine .of_matches (keeps_track change) fun s s' h => ⟨_, _, _, rfl, rfl, ?_, rfl, rfl⟩
  exact ⟨h.temporaries, h.diagnostics, h.replacements, h.log, h.files, h.nextId⟩

theorem composes_mirrored : Composes fun _ x => Mirrored setup id x :=
  ⟨.pure, .bind, .within, mirrored_track⟩

theorem mirrored_clearTemporaries : Mirrored setup id clearTemporaries := by
  refine .of_matches keeps_clearTemporaries fun s s' h => ⟨_, _, _, rfl, rfl, ?_, rfl, rfl⟩
  exact ⟨congrArg Temporaries.clear h.temporaries, h.diagnostics, h.replacements, h.log, h.files,
    h.nextId⟩

theorem mirrored_record (frame : Nat) (event : FrameEvent) (hevent : event.isOpening = false) :
    Mirrored setup id (record frame event) :=
  .of_matches (keeps_record frame event hevent) fun _ _ h =>
    ⟨_, _, _, rfl, rfl, h.record frame frame event event, rfl, rfl⟩

theorem mirrored_recordOnTop (event : FrameEvent) (hevent : event.isOpening = false) :
    Mirrored setup id (recordOnTop event) :=
  .of_matches (keeps_recordOnTop event hevent) fun s s' h =>
    ⟨_, _, _, rfl, rfl, h.recordOnTop event event, stack_recordOnTop s event,
      stack_recordOnTop s' event⟩

theorem mirrored_emit (e : Expr) : Mirrored setup id (emit e) := by
  refine .of_matches (keeps_emit e) fun s s' h => ?_
  have hsame : emit e s' = .ok ((s.temporaries.parse e).exprs.substituteAndDeclare e).1
      ({ s' with temporaries := (s.temporaries.emit e).2 }.recordOnTop
        (.named ((s.temporaries.parse e).exprs.naming e).2)) := by
    rw [emit_eq, h.temporaries]
  refine ⟨_, _, _, emit_eq e s, hsame, ?_, stack_recordOnTop _ _, stack_recordOnTop _ _⟩
  exact (h.withTemporaries _).recordOnTop _ _

theorem mirrored_cacheLambda (l : Lambda) : Mirrored setup id (cacheLambda l) := by
  refine .of_matches (keeps_cacheLambda l) fun s s' h => ?_
  have hsame : cacheLambda l s' =
      .ok (s.temporaries.lambdas.backend.invocation
          (s.temporaries.lambdas.enter s.temporaries.generation l).1.name l.params)
        ({ s' with temporaries := (s.temporaries.cacheLambda l).2 }.recordOnTop
          (.called (s.temporaries.lambdas.enter s.temporaries.generation l).1)) := by
    rw [cacheLambda_eq, h.temporaries]
  refine ⟨_, _, _, cacheLambda_eq l s, hsame, ?_, stack_recordOnTop _ _, stack_recordOnTop _ _⟩
  exact (h.withTemporaries _).recordOnTop _ _

theorem mirrored_renderDeclarations (pattern : String) (held : List Declaration) :
    Mirrored setup id (renderDeclarations pattern held) := by
  refine .of_matches (keeps_renderDeclarations pattern held) fun s s' h => ?_
  refine ⟨_, _, { s' with
    diagnostics := (s.temporaries.exprs.renderDeclarations pattern held s.diagnostics).2 },
    rfl, ?_, ⟨h.temporaries, rfl, h.replacements, h.log, h.files, h.nextId⟩, rfl, rfl⟩
  show EStateM.Result.ok
    (s'.temporaries.exprs.renderDeclarations pattern held s'.diagnostics).1
    { s' with
      diagnostics := (s'.temporaries.exprs.renderDeclarations pattern held s'.diagnostics).2 } = _
  rw [h.temporaries, h.diagnostics]
  rfl

/-! ### The frame on top -/

/-- What is done with the frame depends on its template alone. -/
theorem mirrored_frame {k : Frame → ExpandM α}
    (hsame : ∀ f f' : Frame, f'.template = f.template → k f' = k f)
    (hk : ∀ f, Mirrored setup id (k f)) : Mirrored setup id (frame id >>= k) where
  mirrors := by
    intro j n fs fs' s s' t a h hrun
    obtain ⟨f, f', hf, hf', rfl, _, hembeds⟩ := h.top
    rw [bind_eq (frame_eq hf)] at hrun
    obtain ⟨t', hrun', ht⟩ := (hk f).mirrors h hrun
    refine ⟨t', ?_, ht⟩
    rw [← hembeds.id, bind_eq (frame_eq hf'), hsame f f' hembeds.template]
    exact hrun'

theorem mirrored_template (g : String → α) :
    Mirrored setup id (do pure (g (← topFrame).template)) where
  mirrors := by
    intro j n fs fs' s s' t a h hrun
    obtain ⟨f, f', hf, hf', _, _, hembeds⟩ := h.top
    rw [bind_eq (topFrame_eq hf)] at hrun
    cases hrun
    refine ⟨s', ?_, h⟩
    rw [bind_eq (topFrame_eq hf'), hembeds.template]
    rfl

theorem mirrored_rules {k : Registry → ExpandM α}
    (hk : ∀ pass, Mirrored setup id (k (addRules {} (builtinRules setup.model id pass)))) :
    Mirrored setup id (do k (← ofExcept (← get).stack.registry)) where
  mirrors := by
    intro j n fs fs' s s' t a h hrun
    obtain ⟨f, f', hf, hf', rfl, hlocal, hembeds⟩ := h.top
    have hregistry : f'.registry = some (addRules {} (builtinRules setup.model f.id f.pass)) :=
      hembeds.registry.trans hlocal.registry
    rw [get_bind, registry_eq hf hlocal.registry] at hrun
    obtain ⟨t', hrun', ht⟩ := (hk f.pass).mirrors h hrun
    refine ⟨t', ?_, ht⟩
    rw [get_bind, registry_eq hf' hregistry]
    exact hrun'

theorem mirrored_poolOf : Mirrored setup id (poolOf id) where
  mirrors := by
    intro j n fs fs' s s' t a h hrun
    obtain ⟨f, f', hf, hf', rfl, hlocal, hembeds⟩ := h.top
    obtain ⟨pool, hpool⟩ := Option.isSome_iff_exists.1 hlocal.pool
    rw [poolOf_eq hf hpool] at hrun
    cases hrun
    refine ⟨s', ?_, h⟩
    rw [← hembeds.id]
    exact poolOf_eq hf' (hembeds.pool.trans hpool)

theorem mirrored_setPool (pool : Pool) : Mirrored setup id (setPool id pool) where
  mirrors := by
    intro j n fs fs' s s' t a h hrun
    obtain ⟨f, f', hf, hf', rfl, hlocal, hembeds⟩ := h.top
    rw [setPool_eq hf] at hrun
    cases hrun
    refine ⟨s'.withTop { f' with pool := some pool }, ?_, h.withTop hf hf' rfl hlocal
      (.ofPool f pool) ?_⟩
    · rw [← hembeds.id]
      exact setPool_eq hf' pool
    · exact ⟨hembeds.id, hembeds.registry, hembeds.pass, hembeds.template, rfl, hembeds.buffer⟩

variable {change : Buffer → Except Error Buffer}

/-- What the change of a buffer comes to in both runs. -/
theorem changed {j : Journal} {n : Nat} {fs fs' : List Frame} {s s' : State}
    (hmodest : Buffer.Modest change) (hechoes : Buffer.Echoes setup.backend change)
    (h : s.Mirrors setup j id n fs fs' s') {f f' : Frame} (hf : s.stack.frames = f :: fs)
    (hf' : s'.stack.frames = f' :: fs') (hid : f.id = id) (hlocal : f.Local setup)
    (hembeds : f.Embeds setup.backend (s.Decorated j) n f') {buffer : Buffer}
    (hbuffer : change f.buffer = .ok buffer) :
    ∃ buffer', change f'.buffer = .ok buffer' ∧
      (s.withTop { f with buffer }).Mirrors setup j id n fs fs'
        (s'.withTop { f' with buffer := buffer' }) := by
  obtain ⟨buffer', hbuffer', hnew⟩ := hechoes h.level hembeds.buffer hbuffer
  exact ⟨buffer', hbuffer', h.withTop hf hf' hid hlocal (hmodest.lasts hbuffer)
    (hembeds.withBuffer hnew)⟩

variable (hmodest : Buffer.Modest change) (hechoes : Buffer.Echoes setup.backend change)

include hmodest hechoes

theorem mirrored_onBuffer : Mirrored setup id (onBuffer id change) where
  mirrors := by
    intro j n fs fs' s s' t a h hrun
    obtain ⟨f, f', hf, hf', rfl, hlocal, hembeds⟩ := h.top
    obtain ⟨buffer, hbuffer, rfl⟩ := onBuffer_ok hf hrun
    obtain ⟨buffer', hbuffer', hnew⟩ := changed hmodest hechoes h hf hf' rfl hlocal hembeds hbuffer
    refine ⟨_, ?_, hnew⟩
    rw [← hembeds.id]
    exact onBuffer_eq hf' hbuffer'

theorem mirrored_onTopBuffer : Mirrored setup id (onTopBuffer change) where
  mirrors := by
    intro j n fs fs' s s' t a h hrun
    obtain ⟨f, f', hf, hf', hid, hlocal, hembeds⟩ := h.top
    obtain ⟨buffer, hbuffer, rfl⟩ := onTopBuffer_ok hf hrun
    obtain ⟨buffer', hbuffer', hnew⟩ := changed hmodest hechoes h hf hf' hid hlocal hembeds hbuffer
    exact ⟨_, onTopBuffer_eq hf' hbuffer', hnew⟩

end Actions

/-! ### Pools and handlers -/

section Pools

variable {re : Reentry} (hre : re.Mirrored setup)

include hre

/-- All that a pool does runs alike. -/
theorem Chore.mirrored {x : ExpandM α} (h : Chore re id x) : Mirrored setup id x := by
  induction h with
  | pure a => exact .pure a
  | bind _ _ hx hk => exact hx.bind hk
  | get hsame _ hk => exact .get hsame hk
  | frame hsame _ hk => exact mirrored_frame hsame hk
  | poolOf => exact mirrored_poolOf
  | setPool pool => exact mirrored_setPool pool
  | onBuffer hchange => exact mirrored_onBuffer hchange.modest hchange.echoes
  | record hopening _ => exact mirrored_record _ _ hopening
  | renderDeclarations pattern held => exact mirrored_renderDeclarations pattern held
  | clearTemporaries => exact mirrored_clearTemporaries
  | expandText text => exact hre.expandText text
  | warn message => exact mirrored_warn message
  | note line => exact mirrored_note line

theorem mirrored_handle (event : BufferEvent) {handler : Handler} (h : handler.StaysOn id) :
    Mirrored setup id (handle re event handler) := (chore_handle re event h).mirrored hre

/-! ### Lines and templates -/

/-- All that is done for lines runs alike. -/
theorem Routine.mirrored {x : ExpandM α} (h : Routine setup re id x) : Mirrored setup id x := by
  induction h with
  | pure a => exact .pure a
  | throw he => exact .throw _
  | bind _ _ hx hf => exact hx.bind hf
  | template g => exact mirrored_template g
  | rules _ _ hk => exact mirrored_rules hk
  | count n => exact mirrored_count n
  | see sight => exact mirrored_see sight
  | emit => exact mirrored_emit _
  | cacheLambda => exact mirrored_cacheLambda _
  | setBoundary => exact (chore_setBoundary re id _ _).mirrored hre
  | nested template hoptions => exact hre.nested template hoptions
  | write text =>
      exact (mirrored_onTopBuffer (Buffer.modest_append _) (Buffer.echoes_writeToEnd text)).bind
        fun _ => mirrored_recordOnTop _ rfl

theorem mirrored_finishTop : Mirrored setup id (finishTop re) where
  mirrors := by
    intro j n fs fs' s s' t a h hrun
    obtain ⟨f, f', hf, hf', hid, hlocal, hembeds⟩ := h.top
    have hclosing : Mirrored setup id (f.buffer.takeHandlers.1.forM (handle re .close)) := by
      refine .forM fun handler hmem => mirrored_handle hre .close ?_
      exact hid ▸ hlocal.staysOn_of_mem_takeHandlers hmem
    have hrest := hclosing.bind fun _ =>
      mirrored_onTopBuffer Buffer.modest_close Buffer.echoes_close
    have htaken := h.withTop hf hf' hid hlocal (.ofTakeHandlers f)
      (hembeds.withBuffer hembeds.buffer.takeHandlers)
    rw [finishTop, bind_eq (topFrame_eq hf)] at hrun
    dsimp only at hrun
    rw [bind_eq (setFrame_eq hf (by rfl))] at hrun
    obtain ⟨t', hrun', ht⟩ := hrest.mirrors htaken hrun
    refine ⟨t', ?_, ht⟩
    have hhandlers : f'.buffer.takeHandlers.1 = f.buffer.takeHandlers.1 :=
      congrArg (List.map Prod.snd) hembeds.buffer.handlers
    rw [finishTop, bind_eq (topFrame_eq hf')]
    dsimp only
    rw [bind_eq (setFrame_eq hf' (by rfl)), hhandlers]
    exact hrun'

end Pools

end ExpandM

/-! ### Templates -/

theorem Frame.Embeds.equip {b : Backend} {D : Prop} {k : Nat} {f f' : Frame}
    (h : f.Embeds b D k f') (setup : Setup) : (f.equip setup).Embeds b D k (f'.equip setup) where
  id := h.id
  registry := by simp only [Frame.equip, h.id, h.pass]
  pass := h.pass
  template := h.template
  pool := by simp only [Frame.equip, h.buffer.nextHandler]
  buffer := by
    simp only [Frame.equip, h.id]
    exact h.buffer.register _

namespace NestedOptions

variable {b : Backend} {skipBlank : Bool} {k : Nat} {c : Buffer}

/-- An imported template is inside as many embeddings as the template around it. -/
theorem child_verbatim (h : c.style = b.literalStyle skipBlank k) :
    verbatim.child c = { style := b.literalStyle skipBlank k } := by
  rw [← h]
  rfl

/-- An embedded template is inside one more. -/
theorem child_stringLiteral (h : c.style = b.literalStyle skipBlank k) :
    (stringLiteral b).child c = { style := b.literalStyle skipBlank (k + 1) } := by
  simp [child, stringLiteral, Buffer.inheriting, Buffer.pushDecoration, Buffer.setFilter,
    LineStyle.push, Backend.literalStyle, h, List.replicate_succ]

/-- The buffers that a nested template starts with. -/
theorem child_embeds {options : NestedOptions}
    (h : options = .verbatim ∨ options = .stringLiteral b) {D : Prop} {c' : Buffer}
    (hc : c.Embeds b D k c') :
    ∃ skipBlank n, options.child c = { style := b.literalStyle skipBlank n } ∧
      options.child c' = { style := b.literalStyle skipBlank (n + 1) } := by
  obtain ⟨skipBlank, hstyle, hstyle'⟩ := hc.style
  rcases h with rfl | rfl
  · exact ⟨skipBlank, k, child_verbatim hstyle, child_verbatim hstyle'⟩
  · exact ⟨skipBlank, k + 1, child_stringLiteral hstyle, child_stringLiteral hstyle'⟩

end NestedOptions

/-- A template that is pushed inside an embedding is noted as decorated. -/
theorem State.decorated_opened {b : Backend} {j : Journal} {s : State} (hbase : j <:+ s.journal)
    (skipBlank : Bool) (k : Nat) (pass : Pass) (template : String) :
    k = 0 ∨ (s.opened { style := b.literalStyle skipBlank k } pass template).Decorated j := by
  cases k with
  | zero => exact Or.inl rfl
  | succ k =>
      obtain ⟨new, hnew⟩ := hbase
      exact Or.inr ⟨_ :: new, congrArg _ hnew.symm, rfl⟩

namespace ExpandM

variable {setup : Setup} {re : Reentry}

section Templates

variable (hpackages : setup.packages = []) (hgrows : re.Grows) (hre : re.Mirrored setup)

include hpackages hgrows hre

/-- A body runs alike on frames that are pushed inside some embeddings and inside one more. -/
theorem runFrame_mirrors {template body : String} {skipBlank : Bool} {k : Nat} {pass : Pass}
    {j : Journal} {s s' u : State} {count : Nat} (hmatches : s.Matches s') (hbase : j <:+ s.journal)
    (h : runFrame setup re s.stack.nextId pass template (Text.lines body)
      (s.opened { style := setup.backend.literalStyle skipBlank k } pass template) = .ok count u) :
    ∃ u', runFrame setup re s'.stack.nextId pass template (Text.lines body)
        (s'.opened { style := setup.backend.literalStyle skipBlank (k + 1) } pass template) =
          .ok count u' ∧
      u.Mirrors setup j s.stack.nextId k s.stack.frames s'.stack.frames u' := by
  set c : Buffer := { style := setup.backend.literalStyle skipBlank k }
  set c' : Buffer := { style := setup.backend.literalStyle skipBlank (k + 1) }
  let f : Frame := { id := s.stack.nextId, buffer := c, pass, template }
  let f' : Frame := { id := s'.stack.nextId, buffer := c', pass, template }
  have hf : (s.opened c pass template).stack.frames = f :: s.stack.frames := rfl
  have hf' : (s'.opened c' pass template).stack.frames = f' :: s'.stack.frames := rfl
  have hembeds : f.Embeds setup.backend ((s.opened c pass template).Decorated j) k f' :=
    ⟨hmatches.nextId, rfl, rfl, rfl, rfl, ⟨skipBlank, rfl, rfl⟩, .nil, .nil, rfl, rfl, rfl, rfl⟩
  have hstart : ((s.opened c pass template).withTop (f.equip setup)).Mirrors setup j
      s.stack.nextId k s.stack.frames s'.stack.frames
      ((s'.opened c' pass template).withTop (f'.equip setup)) := by
    refine ⟨(hmatches.opened c c' pass template).withTop _ _, hbase.trans (List.suffix_cons _ _),
      State.decorated_opened hbase skipBlank k pass template, ?_⟩
    exact ⟨_, _, rfl, rfl, rfl, f.isLocal_equip setup (by simp [f, c]), hembeds.equip setup⟩
  have hbody : Mirrored setup f.id
      (runBody setup (re.forLines f.id) template (Text.lines body)) := by
    refine composes_mirrored.runBody (fun line hline => ?_) (mirrored_finishTop hre)
    have hnewline := Text.newline_notMem_of_mem_lines hline
    exact (routine_writeLine setup hgrows f.id hnewline).mirrored hre
  rw [show s.stack.nextId = f.id from rfl, show pass = f.pass from rfl,
    runFrame_eq hpackages hf] at h
  obtain ⟨u', hrun, hu⟩ := hbody.mirrors hstart h
  rw [show f.id = f'.id from hmatches.nextId.symm, ← runFrame_eq hpackages hf'] at hrun
  exact ⟨u', hrun, hu⟩

/-- A template inside some embeddings and inside one more is expanded to the same lines but for
that. -/
theorem expandTemplate_mirrors {template : String} {skipBlank : Bool} {k : Nat} {pass : Pass}
    {j : Journal} {s s' t : State} {child : Buffer} {count : Nat} (hmatches : s.Matches s')
    (hbase : j <:+ s.journal)
    (h : expandTemplate setup re template { style := setup.backend.literalStyle skipBlank k } pass
      s = .ok (child, count) t) :
    ∃ child' t',
      expandTemplate setup re template { style := setup.backend.literalStyle skipBlank (k + 1) }
        pass s' = .ok (child', count) t' ∧
      t.Matches t' ∧ t.stack.frames = s.stack.frames ∧ t'.stack.frames = s'.stack.frames ∧
      child.Embeds setup.backend (t.Decorated j) k child' := by
  obtain ⟨text, header, body, u, g, gs, hload, hsplit, hvalid, hrun, hg, rfl, rfl⟩ :=
    expandTemplate_eq_ok_iff.1 h
  obtain ⟨u', hrun', hu⟩ := runFrame_mirrors hpackages hgrows hre hmatches hbase hrun
  obtain ⟨g₁, g', hg₁, hg', -, -, hembeds⟩ := hu.top
  cases hg.symm.trans hg₁
  refine ⟨g'.buffer, u'.popped.record s'.stack.nextId (.closed g'.buffer), ?_, ?_, ?_, ?_, ?_⟩
  · rw [← hmatches.files] at hload
    exact expandTemplate_eq_ok_iff.2 ⟨text, header, body, u', g', _, hload, hsplit, hvalid, hrun',
      hg', rfl, rfl⟩
  · exact hu.agree.popped.record _ _ _ _
  · exact congrArg List.tail hg₁
  · exact congrArg List.tail hg'
  · exact hembeds.buffer.mono fun hD => hD.of_suffix (List.suffix_cons _ _)

/-- A nested template runs alike: it starts with what the frames on top have come to, and its lines
are put at their ends. -/
theorem mirrored_expandNested {id : Nat} (template : String) {options : NestedOptions}
    (hoptions : options = .verbatim ∨ options = .stringLiteral setup.backend) :
    Mirrored setup id (expandNested setup re template options) where
  mirrors := by
    intro j k fs fs' s s' v count h hrun
    obtain ⟨f, f', hf, hf', hid, hlocal, hembeds⟩ := h.top
    obtain ⟨t, hsuspend, -, hrest⟩ := expandNested_ok hgrows hf hrun
    have hhandlers : Mirrored setup id
        (f.buffer.handlers.forM fun h => handle re .suspend h.2) :=
      .forM fun entry hentry => mirrored_handle hre .suspend (hid ▸ hlocal.handlers entry hentry)
    obtain ⟨t', hsuspend', ht⟩ := hhandlers.mirrors h hsuspend
    rw [← hembeds.buffer.handlers] at hsuspend'
    obtain ⟨g, g', hg, hg', hgid, hglocal, hgembeds⟩ := ht.top
    obtain ⟨child, u, w, hchild, hmerge, hrecord⟩ := hrest hg
    obtain ⟨skipBlank, n, hbuffer, hbuffer'⟩ := NestedOptions.child_embeds hoptions hgembeds.buffer
    have hgrown := (keeps_expandTemplate hgrows setup _ _ _).of_ok hchild
    rw [hbuffer] at hchild
    obtain ⟨child', u', hchild', hmatches, hframes, hframes', hlines⟩ :=
      expandTemplate_mirrors hpackages hgrows hre ht.agree ht.base hchild
    have hu := ht.of_frames hmatches hframes hframes' hgrown
    have hug := hframes.trans hg
    have hug' := hframes'.trans hg'
    rw [← hbuffer', ← hgembeds.pass] at hchild'
    obtain ⟨buffer, happend, rfl⟩ := onTopBuffer_ok hug hmerge
    have hlasts := (Buffer.modest_append fun _ => child.lines).lasts happend
    have hgembeds' := hgembeds.mono fun hD => hD.of_suffix hgrown
    obtain ⟨buffer', happend', hnew⟩ := hgembeds'.buffer.append hlines.lines happend
    refine ⟨_, expandNested_eq hf' hsuspend' hg' hchild' hug' happend', ?_⟩
    have htop := hu.withTop hug hug' hgid hglocal hlasts (hgembeds'.withBuffer hnew)
    rw [recordOnTop_ok (frames_withTop hug _) hrecord]
    exact htop.of_frames (htop.agree.record _ _ _ _) rfl rfl (List.suffix_cons _ _)

end Templates

end ExpandM

/-- At every depth, the ways back into expanding run alike. -/
theorem mirrored_reentry {setup : Setup} (hpackages : setup.packages = []) (depth : Nat) :
    (reentry setup depth).Mirrored setup := by
  induction depth with
  | zero => exact ⟨fun _ _ _ => .throw _, fun _ => .throw _⟩
  | succ depth ih =>
      have hgrows : (reentry setup depth).Grows := keeps_reentry setup depth
      exact ⟨ExpandM.mirrored_expandNested hpackages hgrows ih,
        fun text => (ExpandM.routine_expandText setup hgrows text).mirrored ih⟩

end TensorTemplate
