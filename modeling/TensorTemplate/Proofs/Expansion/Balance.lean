import TensorTemplate.Proofs.Expansion.Chores
import TensorTemplate.Proofs.Expansion.Session

/-!
The stack is balanced on every path.

With the built-in rules, the handlers and the rules of a frame work on that frame and
no other. So whatever is done for a template, whether it succeeds or fails, changes at
most the lines, the tag, the handlers and the pool of the frame on top; the frame that
a template pops is the one that it pushed; and no frame, rule table or pool that is
asked for is ever missing. Frames are numbered in the order in which they are pushed,
so no number is used twice.
-/

namespace TensorTemplate

open ExpandM

namespace Frame

/-- The frame has the built-in rules and a pool, and its handlers work on no other frame. -/
structure Local (setup : Setup) (f : Frame) : Prop where
  registry : f.registry = some (addRules {} (builtinRules setup.model f.id f.pass))
  pool : f.pool.isSome
  handlers : ∀ h ∈ f.buffer.handlers, h.2.StaysOn f.id

theorem Local.staysOn_of_mem_takeHandlers {setup : Setup} {f : Frame} (hf : f.Local setup)
    {handler : Handler} (h : handler ∈ f.buffer.takeHandlers.1) : handler.StaysOn f.id := by
  obtain ⟨entry, hentry, rfl⟩ := List.mem_map.1 h
  exact hf.handlers entry hentry

theorem isLocal_equip (setup : Setup) (f : Frame)
    (h : ∀ handler ∈ f.buffer.handlers, handler.2.StaysOn f.id) : (f.equip setup).Local setup where
  registry := rfl
  pool := rfl
  handlers := by
    intro handler hmem
    rcases List.mem_append.1 hmem with hmem | hmem
    · exact h handler hmem
    · rw [List.mem_singleton.1 hmem]
      rfl

/-- What a frame is known by: its number, pass, template and rules. -/
def identity (f : Frame) : Nat × Pass × String × Option Registry :=
  (f.id, f.pass, f.template, f.registry)

/-- The second frame is the first one later on: its lines, tag and pool may have changed, and
handlers may have gone. -/
structure Lasts (f f' : Frame) : Prop where
  id : f'.id = f.id
  pass : f'.pass = f.pass
  template : f'.template = f.template
  registry : f'.registry = f.registry
  style : f'.buffer.style = f.buffer.style
  handlers : f'.buffer.handlers ⊆ f.buffer.handlers
  pool : f.pool.isSome → f'.pool.isSome

namespace Lasts

variable {f g h : Frame}

protected theorem refl (f : Frame) : f.Lasts f :=
  ⟨rfl, rfl, rfl, rfl, rfl, List.Subset.refl _, fun h => h⟩

protected theorem trans (hfg : f.Lasts g) (hgh : g.Lasts h) : f.Lasts h where
  id := hgh.id.trans hfg.id
  pass := hgh.pass.trans hfg.pass
  template := hgh.template.trans hfg.template
  registry := hgh.registry.trans hfg.registry
  style := hgh.style.trans hfg.style
  handlers := List.Subset.trans hgh.handlers hfg.handlers
  pool := fun hf => hgh.pool (hfg.pool hf)

theorem identity_eq (h : f.Lasts g) : g.identity = f.identity := by
  simp only [identity, h.id, h.pass, h.template, h.registry]

theorem isLocal {setup : Setup} (h : f.Lasts g) (hf : f.Local setup) : g.Local setup where
  registry := by rw [h.registry, h.id, h.pass, hf.registry]
  pool := h.pool hf.pool
  handlers := by
    intro handler hmem
    rw [h.id]
    exact hf.handlers handler (h.handlers hmem)

/-- A frame with another pool. -/
theorem ofPool (f : Frame) (pool : Pool) : f.Lasts { f with pool := some pool } :=
  ⟨rfl, rfl, rfl, rfl, rfl, List.Subset.refl _, fun _ => rfl⟩

/-- A frame whose handlers have been taken off. -/
theorem ofTakeHandlers (f : Frame) : f.Lasts { f with buffer := f.buffer.takeHandlers.2 } :=
  ⟨rfl, rfl, rfl, rfl, rfl, List.nil_subset _, fun h => h⟩

end Lasts

end Frame

/-- The frame is on top, perhaps later on, and the others are below it. -/
def State.OnTop (f : Frame) (fs : List Frame) (s : State) : Prop :=
  ∃ f', s.stack.frames = f' :: fs ∧ f.Lasts f'

/-! ### Changes of a buffer -/

/-- The change leaves the style alone and adds no handler, and fails with basic errors only. -/
structure Buffer.Modest (change : Buffer → Except Error Buffer) : Prop where
  placed : ∀ b, Placed (change b)
  style : ∀ {b b'}, change b = .ok b' → b'.style = b.style
  handlers : ∀ {b b'}, change b = .ok b' → b'.handlers ⊆ b.handlers

namespace Buffer

theorem Modest.lasts {change : Buffer → Except Error Buffer} (h : Modest change) {f : Frame}
    {buffer : Buffer} (hbuffer : change f.buffer = .ok buffer) : f.Lasts { f with buffer } :=
  ⟨rfl, rfl, rfl, rfl, h.style hbuffer, h.handlers hbuffer, fun h => h⟩

theorem Modest.of_pure {change : Buffer → Buffer} (hstyle : ∀ b, (change b).style = b.style)
    (hhandlers : ∀ b, (change b).handlers ⊆ b.handlers) : Modest fun b => pure (change b) where
  placed := fun b => .ok _
  style := by
    intro b b' h
    cases h
    exact hstyle b
  handlers := by
    intro b b' h
    cases h
    exact hhandlers b

/-- Lines put at the end. -/
theorem modest_append (new : Buffer → List String) : Modest fun b => b.append (new b) where
  placed := by
    intro b
    unfold append
    split
    · exact .error rfl
    · exact .ok _
  style := by
    intro b b' h
    rw [(append_eq_ok_iff.1 h).2]
  handlers := by
    intro b b' h
    rw [(append_eq_ok_iff.1 h).2]
    exact List.Subset.refl _

theorem modest_close : Modest (pure ·.close) :=
  .of_pure (fun _ => rfl) fun _ => List.Subset.refl _

theorem modest_writeAllToTag (texts : List String) : Modest (·.writeAllToTag texts) where
  placed := by
    intro b
    unfold writeAllToTag insertAtTag
    split
    · exact .ok _
    · split
      · exact .error rfl
      · split
        · exact .ok _
        · exact .error rfl
  style := by
    intro b b' h
    rw [writeAllToTag_ok h]
  handlers := by
    intro b b' h
    rw [writeAllToTag_ok h]
    exact List.Subset.refl _

theorem PoolChange.modest {change : Buffer → Except Error Buffer} (h : PoolChange change) :
    Modest change := by
  cases h with
  | writeAllToTag texts => exact modest_writeAllToTag texts
  | setTagToEnd => exact .of_pure (fun _ => rfl) fun _ => List.Subset.refl _
  | setTagToStart => exact .of_pure (fun _ => rfl) fun _ => List.Subset.refl _
  | deregister handler => exact .of_pure (fun _ => rfl) fun _ => List.filter_sublist.subset

end Buffer

namespace ExpandM

/-! ### How actions end -/

/-- However the action ends, the state after it has the property, and a failure is not for want of
something around. -/
structure Ends {α : Type} (x : ExpandM α) (s : State) (P : State → Prop) : Prop where
  after : P (stateAfter x s)
  isMissing_eq_false : ∀ {e t}, x s = .error e t → e.isMissing = false

namespace Ends

variable {α β : Type} {x : ExpandM α} {k : α → ExpandM β} {s t : State} {P Q : State → Prop}

theorem of_ok {a : α} (hx : x s = .ok a t) (h : P t) : Ends x s P where
  after := by rwa [stateAfter, hx]
  isMissing_eq_false := by
    intro e u he
    rw [hx] at he
    cases he

theorem of_error {e : Error} (hx : x s = .error e t) (h : P t) (he : e.isMissing = false) :
    Ends x s P where
  after := by rwa [stateAfter, hx]
  isMissing_eq_false := by
    intro e' u he'
    rw [hx] at he'
    cases he'
    exact he

theorem mono (h : Ends x s P) (hPQ : ∀ t, P t → Q t) : Ends x s Q :=
  ⟨hPQ _ h.after, h.isMissing_eq_false⟩

theorem after_ok {a : α} (hx : x s = .ok a t) (h : Ends (k a) t P) : Ends (x >>= k) s P where
  after := by
    rw [stateAfter_bind hx]
    exact h.after
  isMissing_eq_false := by
    rw [bind_eq hx]
    exact h.isMissing_eq_false

protected theorem bind (hx : Ends x s P) (hPQ : ∀ t, P t → Q t)
    (hk : ∀ a t, x s = .ok a t → P t → Ends (k a) t Q) : Ends (x >>= k) s Q := by
  have hafter := hx.after
  cases hrun : x s with
  | ok a t =>
      rw [stateAfter, hrun] at hafter
      exact after_ok hrun (hk a t hrun hafter)
  | error e t =>
      rw [stateAfter, hrun] at hafter
      exact of_error (bind_eq_error hrun) (hPQ t hafter) (hx.isMissing_eq_false hrun)

/-- A result that is there, or a failure that is not for want of something around. -/
theorem bindExcept {r : Except Error α} (hr : ∀ e, r = .error e → e.isMissing = false) (hs : P s)
    (hk : ∀ a, r = .ok a → Ends (k a) s P) : Ends (ofExcept r >>= k) s P := by
  cases r with
  | ok a => exact hk a rfl
  | error e => exact of_error rfl hs (hr e rfl)

protected theorem within (h : Ends x s P) (template : String) (line : Nat) :
    Ends (within template line x) s P := by
  have hafter := h.after
  cases hx : x s with
  | ok a t =>
      have hwithin : within template line x s = .ok a t := by rw [ExpandM.within, hx]
      rw [stateAfter, hx] at hafter
      exact of_ok hwithin hafter
  | error e t =>
      have hwithin : within template line x s = .error (.within template line e) t := by
        rw [ExpandM.within, hx]
      have hcause := h.isMissing_eq_false hx
      rw [stateAfter, hx] at hafter
      exact of_error hwithin hafter hcause

/-- What comes of an attempt. -/
theorem attempt (h : Ends x s P) :
    ∃ outcome t, attempt x s = .ok outcome t ∧ P t ∧
      ∀ e, outcome = .error e → e.isMissing = false := by
  have hafter := h.after
  unfold ExpandM.attempt
  cases hx : x s with
  | ok a t =>
      rw [stateAfter, hx] at hafter
      refine ⟨.ok a, t, rfl, hafter, ?_⟩
      rintro _ ⟨⟩
  | error e t =>
      rw [stateAfter, hx] at hafter
      refine ⟨.error e, t, rfl, hafter, ?_⟩
      rintro _ ⟨⟩
      exact h.isMissing_eq_false hx

end Ends

/-- On a frame of this number that is local, the action ends with that frame on top, and the frames
below it are as they were. -/
structure Balances (setup : Setup) (id : Nat) {α : Type} (x : ExpandM α) : Prop where
  ends : ∀ {s : State} {f : Frame} {fs : List Frame}, s.stack.frames = f :: fs → f.id = id →
    f.Local setup → Ends x s (State.OnTop f fs)

end ExpandM

/-- The ways back into expanding are balanced. -/
structure Reentry.Balances (setup : Setup) (re : Reentry) : Prop where
  nested : ∀ {id} template options, ExpandM.Balances setup id (re.nested template options)
  expandText : ∀ {id} text, ExpandM.Balances setup id (re.expandText text)

namespace ExpandM

namespace Balances

variable {setup : Setup} {id : Nat} {α β : Type}

protected theorem pure (a : α) : Balances setup id (pure a) where
  ends := fun {_ f _} hframes _ _ => .of_ok rfl ⟨f, hframes, .refl f⟩

protected theorem throw {e : Error} (he : e.isMissing = false) :
    Balances setup id (throw e : ExpandM α) where
  ends := fun {_ f _} hframes _ _ => .of_error rfl ⟨f, hframes, .refl f⟩ he

protected theorem bind {x : ExpandM α} {k : α → ExpandM β} (hx : Balances setup id x)
    (hk : ∀ a, Balances setup id (k a)) : Balances setup id (x >>= k) where
  ends := by
    intro s f fs hframes hid hf
    refine (hx.ends hframes hid hf).bind (fun _ h => h) ?_
    rintro a t - ⟨g, hg, hfg⟩
    refine ((hk a).ends hg (hfg.id.trans hid) (hfg.isLocal hf)).mono ?_
    rintro u ⟨h, hh, hgh⟩
    exact ⟨h, hh, hfg.trans hgh⟩

protected theorem within {x : ExpandM α} (hx : Balances setup id x) (template : String)
    (line : Nat) : Balances setup id (within template line x) where
  ends := fun hframes hid hf => (hx.ends hframes hid hf).within template line

protected theorem forM {k : α → ExpandM PUnit} {as : List α}
    (hk : ∀ a ∈ as, Balances setup id (k a)) : Balances setup id (as.forM k) := by
  induction as with
  | nil => exact .pure _
  | cons a as ih =>
      exact (hk a List.mem_cons_self).bind fun _ => ih fun b hb => hk b (List.mem_cons_of_mem _ hb)

/-- An action that succeeds and leaves the stack alone. -/
theorem of_stack {x : ExpandM α} (h : ∀ s, ∃ a t, x s = .ok a t ∧ t.stack = s.stack) :
    Balances setup id x where
  ends := by
    intro s f fs hframes _ _
    obtain ⟨a, t, hx, hstack⟩ := h s
    exact .of_ok hx ⟨f, hstack ▸ hframes, .refl f⟩

protected theorem get : Balances setup id (get : ExpandM State) :=
  of_stack fun s => ⟨s, s, rfl, rfl⟩

protected theorem modify {g : State → State} (h : ∀ s, (g s).stack = s.stack) :
    Balances setup id (modify g : ExpandM Unit) :=
  of_stack fun s => ⟨(), g s, rfl, h s⟩

end Balances

section Actions

variable {setup : Setup} {id : Nat}

theorem balances_track (change : List Bookmark → List Bookmark) :
    Balances setup id (track change) :=
  .modify fun _ => rfl

theorem composes_balances : Composes fun _ x => Balances setup id x :=
  ⟨.pure, .bind, .within, balances_track⟩

theorem balances_record (event : FrameEvent) : Balances setup id (record id event) :=
  .modify fun _ => rfl

theorem stack_recordOnTop (s : State) (event : FrameEvent) :
    (s.recordOnTop event).stack = s.stack := by
  unfold State.recordOnTop
  split <;> rfl

theorem balances_recordOnTop (event : FrameEvent) : Balances setup id (recordOnTop event) :=
  .modify fun s => stack_recordOnTop s event

theorem balances_emit (e : Expr) : Balances setup id (emit e) :=
  .of_stack fun s => ⟨_, _, emit_eq e s, stack_recordOnTop _ _⟩

theorem balances_cacheLambda (l : Lambda) : Balances setup id (cacheLambda l) :=
  .of_stack fun s => ⟨_, _, cacheLambda_eq l s, stack_recordOnTop _ _⟩

theorem balances_topFrame : Balances setup id topFrame where
  ends := fun {_ f _} hframes _ _ => .of_ok (topFrame_eq hframes) ⟨f, hframes, .refl f⟩

theorem balances_frame : Balances setup id (frame id) where
  ends := by
    rintro s f fs hframes rfl _
    exact .of_ok (frame_eq hframes) ⟨f, hframes, .refl f⟩

/-- A pool that is asked for is there. -/
theorem balances_poolOf : Balances setup id (poolOf id) where
  ends := by
    rintro s f fs hframes rfl hf
    obtain ⟨pool, hpool⟩ := Option.isSome_iff_exists.1 hf.pool
    exact .of_ok (poolOf_eq hframes hpool) ⟨f, hframes, .refl f⟩

theorem balances_setPool (pool : Pool) : Balances setup id (setPool id pool) where
  ends := by
    rintro s f fs hframes rfl _
    exact .of_ok (setPool_eq hframes pool) ⟨_, frames_withTop hframes _, .ofPool f pool⟩

/-- The registry of the frame on top is that of the built-in rules. -/
theorem balances_rules {α : Type} {k : Registry → ExpandM α}
    (hk : ∀ pass, Balances setup id (k (addRules {} (builtinRules setup.model id pass)))) :
    Balances setup id (do k (← ofExcept (← get).stack.registry)) where
  ends := by
    rintro s f fs hframes rfl hf
    have hregistry : ofExcept s.stack.registry s =
        .ok (addRules {} (builtinRules setup.model f.id f.pass)) s := by
      rw [registry_eq hframes hf.registry]
      rfl
    exact .after_ok rfl (.after_ok hregistry ((hk f.pass).ends hframes rfl hf))

theorem changeBuffer_ends {s : State} {f : Frame} {fs : List Frame}
    (hframes : s.stack.frames = f :: fs) {change : Buffer → Except Error Buffer}
    (hchange : Buffer.Modest change) : Ends (changeBuffer f change) s (State.OnTop f fs) := by
  refine .bindExcept (hchange.placed f.buffer).isMissing_eq_false ⟨f, hframes, .refl f⟩ ?_
  intro buffer hbuffer
  exact .of_ok (setFrame_eq hframes rfl) ⟨_, frames_withTop hframes _, hchange.lasts hbuffer⟩

variable {change : Buffer → Except Error Buffer} (hchange : Buffer.Modest change)

include hchange

theorem balances_onTopBuffer : Balances setup id (onTopBuffer change) where
  ends := fun hframes _ _ => .after_ok (topFrame_eq hframes) (changeBuffer_ends hframes hchange)

theorem balances_onBuffer : Balances setup id (onBuffer id change) where
  ends := by
    rintro s f fs hframes rfl _
    exact .after_ok (frame_eq hframes) (changeBuffer_ends hframes hchange)

end Actions

/-! ### Pools and handlers -/

section Pools

variable {setup : Setup} {re : Reentry} {id : Nat} (hre : re.Balances setup)

include hre

/-- All that a pool does is balanced on its frame. -/
theorem Chore.balances {α : Type} {x : ExpandM α} (h : Chore re id x) : Balances setup id x := by
  induction h with
  | pure a => exact .pure a
  | bind _ _ hx hk => exact hx.bind hk
  | get _ _ hk => exact .bind .get hk
  | frame _ _ hk => exact balances_frame.bind hk
  | poolOf => exact balances_poolOf
  | setPool pool => exact balances_setPool pool
  | onBuffer hchange => exact balances_onBuffer hchange.modest
  | record => exact balances_record _
  | renderDeclarations pattern held =>
      refine .of_stack fun s => ?_
      obtain ⟨diagnostics, hrender⟩ := renderDeclarations_eq pattern held s
      exact ⟨_, _, hrender, rfl⟩
  | clearTemporaries => exact .modify fun _ => rfl
  | expandText text => exact hre.expandText text
  | warn message => exact .modify fun _ => rfl
  | note line => exact .modify fun _ => rfl

/-- A handler that stays on its frame is balanced there. -/
theorem balances_handle (event : BufferEvent) {handler : Handler} (h : handler.StaysOn id) :
    Balances setup id (handle re event handler) := (chore_handle re event h).balances hre

/-- The handlers of a frame run on it when a nested template starts. -/
theorem balances_suspend {f : Frame} (hf : f.Local setup) :
    Balances setup f.id (f.buffer.handlers.forM fun h => handle re .suspend h.2) :=
  .forM fun h hh => balances_handle hre .suspend (hf.handlers h hh)

/-! ### Lines and templates -/

/-- All that is done for lines is balanced. -/
theorem Routine.balances {α : Type} {x : ExpandM α} (h : Routine setup re id x) :
    Balances setup id x := by
  induction h with
  | pure a => exact .pure a
  | throw he => exact .throw (Error.isMissing_eq_false_of_isBasic he)
  | bind _ _ hx hk => exact hx.bind hk
  | template g => exact balances_topFrame.bind fun _ => .pure _
  | rules _ _ hk => exact balances_rules hk
  | count n => exact .modify fun _ => rfl
  | see sight => exact .modify fun _ => rfl
  | emit => exact balances_emit _
  | cacheLambda => exact balances_cacheLambda _
  | setBoundary => exact (chore_setBoundary re id _ _).balances hre
  | nested template _ => exact hre.nested template _
  | write text =>
      exact (balances_onTopBuffer (Buffer.modest_append _)).bind fun _ => balances_recordOnTop _

theorem balances_finishTop : Balances setup id (finishTop re) where
  ends := by
    intro s f fs hframes hid hf
    refine .after_ok (topFrame_eq hframes) (.after_ok (setFrame_eq hframes rfl) ?_)
    set g : Frame := { f with buffer := f.buffer.takeHandlers.2 }
    have hlasts : f.Lasts g := .ofTakeHandlers f
    have hclosing : Balances setup id (f.buffer.takeHandlers.1.forM (handle re .close)) := by
      refine .forM fun handler hmem => balances_handle hre .close ?_
      exact hid ▸ hf.staysOn_of_mem_takeHandlers hmem
    have hrest := hclosing.bind fun _ => balances_onTopBuffer Buffer.modest_close
    refine (hrest.ends (frames_withTop hframes g) hid (hlasts.isLocal hf)).mono ?_
    rintro t ⟨h, hh, hgh⟩
    exact ⟨h, hh, hlasts.trans hgh⟩

/-- A body is expanded on the frame that was pushed for it. -/
theorem runFrame_ends (hpackages : setup.packages = []) (hgrows : re.Grows) {s : State} {f : Frame}
    {fs : List Frame} (hframes : s.stack.frames = f :: fs)
    (hhandlers : ∀ h ∈ f.buffer.handlers, h.2.StaysOn f.id) (template text : String) :
    Ends (runFrame setup re f.id f.pass template (Text.lines text)) s
      (State.OnTop (f.equip setup) fs) := by
  have hlocal := f.isLocal_equip setup hhandlers
  have hbody : Balances setup f.id
      (runBody setup (re.forLines f.id) template (Text.lines text)) := by
    refine composes_balances.runBody (fun line hline => ?_) (balances_finishTop hre)
    have hnewline := Text.newline_notMem_of_mem_lines hline
    exact (routine_writeLine setup hgrows f.id hnewline).balances hre
  obtain ⟨hafter, herror⟩ := hbody.ends (frames_withTop hframes (f.equip setup)) rfl hlocal
  refine ⟨?_, ?_⟩
  · rw [stateAfter, runFrame_eq hpackages hframes]
    exact hafter
  · rw [runFrame_eq hpackages hframes]
    exact herror

end Pools

end ExpandM

theorem Source.placed_load (source : Source) (files : FileTree) (name : String) :
    Placed (source.load files name) := by
  unfold load
  split
  · split
    · exact .ok _
    · exact .error rfl
  · split
    · split
      · exact .ok _
      · exact .error rfl
    · exact .error rfl

namespace Header

theorem placed_split (template text : String) : Placed (split template text) := by
  unfold split
  dsimp only
  split
  · exact .ok _
  · exact .error rfl

theorem placed_validate (h : Header) (template backend : String) (available : Version) :
    Placed (h.validate template backend available) := by
  unfold validate
  split
  · exact .error rfl
  · split
    · exact .error rfl
    · exact .ok ()

end Header

namespace ExpandM

section Templates

variable {setup : Setup} {re : Reentry} (hpackages : setup.packages = []) (hgrows : re.Grows)
  (hre : re.Balances setup)

include hpackages hgrows hre

/-- The frame that is popped is the one that was pushed, and then all is as it was. -/
theorem popFrame_pushed {buffer : Buffer} (hbuffer : ∀ id, ∀ h ∈ buffer.handlers, h.2.StaysOn id)
    (s : State) (template : String) (pass : Pass) (text : String) :
    ∃ outcome t f, (∀ e, outcome = .error e → e.isMissing = false) ∧
      attempt (runFrame setup re s.stack.nextId pass template (Text.lines text))
        (s.opened buffer pass template) = .ok outcome t ∧
      popFrame t = .ok f { t with stack := { t.stack with frames := s.stack.frames } } ∧
      f.id = s.stack.nextId ∧ f.pass = pass ∧ f.template = template := by
  have hends := runFrame_ends hre hpackages hgrows (s := s.opened buffer pass template) rfl
    (hbuffer s.stack.nextId) template text
  obtain ⟨outcome, t, hattempt, ⟨f, hf, hlasts⟩, herror⟩ := hends.attempt
  exact ⟨outcome, t, f, herror, hattempt, popFrame_of_cons hf, hlasts.id, hlasts.pass,
    hlasts.template⟩

/-- A template leaves the frames as they were, also when it fails. -/
theorem expandTemplate_ends {buffer : Buffer}
    (hbuffer : ∀ id, ∀ h ∈ buffer.handlers, h.2.StaysOn id) (s : State) (template : String)
    (pass : Pass) :
    Ends (expandTemplate setup re template buffer pass) s (·.stack.frames = s.stack.frames) := by
  have hget : (get : ExpandM State) s = .ok s s := rfl
  have hpush : pushFrame buffer pass template s =
      .ok s.stack.nextId (s.opened buffer pass template) := rfl
  have hload := (setup.source.placed_load s.files template).isMissing_eq_false
  refine .after_ok hget (.bindExcept hload rfl fun text _ => ?_)
  refine .bindExcept (Header.placed_split _ _).isMissing_eq_false rfl ?_
  rintro ⟨header, body⟩ -
  refine .bindExcept (header.placed_validate _ _ _).isMissing_eq_false rfl fun _ _ => ?_
  obtain ⟨outcome, t, f, herror, hattempt, hpop, _⟩ :=
    popFrame_pushed hpackages hgrows hre hbuffer s template pass body
  refine .after_ok hpush (.after_ok hattempt ?_)
  refine .after_ok hpop (.bindExcept herror rfl fun count _ => ?_)
  exact .after_ok rfl (.of_ok rfl rfl)

/-- A template is balanced on whatever frame is on top. -/
theorem balances_expandTemplate {id : Nat} {buffer : Buffer}
    (hbuffer : ∀ id, ∀ h ∈ buffer.handlers, h.2.StaysOn id) (template : String) (pass : Pass) :
    Balances setup id (expandTemplate setup re template buffer pass) where
  ends := by
    intro s f fs hframes _ _
    refine (expandTemplate_ends hpackages hgrows hre hbuffer s template pass).mono ?_
    intro t ht
    exact ⟨f, ht.trans hframes, .refl f⟩

/-- A nested template is balanced on the frame on top. -/
theorem balances_expandNested {id : Nat} (template : String) (options : NestedOptions) :
    Balances setup id (expandNested setup re template options) where
  ends := by
    rintro s f fs hframes rfl hf
    have hchild : ∀ top : Frame, Balances setup f.id
        (expandTemplate setup re template (options.child top.buffer) top.pass) := fun top =>
      balances_expandTemplate hpackages hgrows hre (by simp [options.handlers_child]) template
        top.pass
    refine .after_ok (topFrame_eq hframes) ?_
    have hrest := (balances_suspend hre hf).bind fun _ => balances_topFrame.bind fun top =>
      (hchild top).bind fun result =>
        (balances_onTopBuffer (Buffer.modest_append fun _ => result.1.lines)).bind fun _ =>
          (balances_recordOnTop (.merged result.1.lines)).bind fun _ => .pure result.2
    exact hrest.ends hframes rfl hf

end Templates

end ExpandM

/-- At every depth, the ways back into expanding are balanced. -/
theorem balances_reentry {setup : Setup} (hpackages : setup.packages = []) (depth : Nat) :
    (reentry setup depth).Balances setup := by
  induction depth with
  | zero => exact ⟨fun _ _ => .throw rfl, fun _ => .throw rfl⟩
  | succ depth ih =>
      have hgrows : (reentry setup depth).Grows := keeps_reentry setup depth
      exact ⟨ExpandM.balances_expandNested hpackages hgrows ih,
        fun text => (ExpandM.routine_expandText setup hgrows text).balances ih⟩

/-! ### Numbers -/

/-- The numbers of the frames that were pushed, the latest first. -/
def Journal.pushed (j : Journal) : List Nat :=
  (j.filter fun entry => entry.2.isOpening).map (·.1)

/-- The frames that were pushed have the numbers from zero on, in their order. -/
def State.InSequence (s : State) : Prop :=
  s.journal.pushed = (List.range s.stack.nextId).reverse

/-- Numbers are given in sequence. -/
def Lasting.sequence : Lasting where
  Rel s t := s.InSequence → t.InSequence
  refl _ h := h
  trans hst htu h := htu (hst h)
  record s id event hevent h := by
    have hpushed : (s.record id event).journal.pushed = s.journal.pushed := by
      simp [Journal.pushed, State.record, hevent]
    exact hpushed.trans h
  setFrame _ _ h := h
  emit _ _ h := h
  cacheLambda _ _ h := h
  clear _ h := h
  aside _ _ _ _ h := h
  bookmarks _ _ h := h
  framed {s t} buffer pass template h hs := by
    apply h
    have hpushed : (s.opened buffer pass template).journal.pushed =
        s.stack.nextId :: s.journal.pushed := by
      simp [Journal.pushed, State.opened, State.see, State.record, FrameEvent.isOpening]
    show (s.opened buffer pass template).journal.pushed =
      (List.range (s.stack.nextId + 1)).reverse
    rw [hpushed, hs, List.range_succ, List.reverse_append]
    rfl

instance : Lasting.sequence.Uncounted := ⟨fun _ _ h => h, fun _ _ h => h⟩

/-- All frames are local, and their numbers were given in sequence. -/
structure State.Orderly (setup : Setup) (s : State) : Prop where
  frames : ∀ f ∈ s.stack.frames, f.Local setup
  inSequence : s.InSequence

theorem State.orderly_initial (setup : Setup) (files : FileTree) :
    (State.initial setup files).Orderly setup :=
  ⟨fun _ hf => (nomatch hf), rfl⟩

namespace ExpandM

/-- With the built-in rules, expanding a template leaves the frames exactly as they were, on every
path, and pops the frame that it has pushed; a nested template leaves all frames but the one on top
as they were, and that one in its place. Frame numbers are given in sequence, and nothing that is
asked for is missing. -/
theorem frames_balanced {setup : Setup} (hpackages : setup.packages = []) (depth : Nat) {s : State}
    (hs : s.Orderly setup) (template : String) :
    (∀ (buffer : Buffer) (pass : Pass), (∀ h ∈ buffer.handlers, ∃ name, h.2 = .note name) →
      let call := expandTemplate setup (reentry setup depth) template buffer pass
      (stateAfter call s).stack.frames = s.stack.frames ∧
      (stateAfter call s).Orderly setup ∧
      (∀ e t, call s = .error e t → e.isMissing = false) ∧
      ∀ text, ∃ id t outcome u f v, pushFrame buffer pass template s = .ok id t ∧
        attempt (runFrame setup (reentry setup depth) id pass template (Text.lines text)) t =
          .ok outcome u ∧
        popFrame u = .ok f v ∧ f.id = id ∧ f.pass = pass ∧ f.template = template ∧
        v.stack.frames = s.stack.frames) ∧
    ∀ options : NestedOptions,
      let call := expandNested setup (reentry setup depth) template options
      (stateAfter call s).stack.frames.map Frame.identity =
        s.stack.frames.map Frame.identity ∧
      (stateAfter call s).stack.frames.tail = s.stack.frames.tail ∧
      (stateAfter call s).Orderly setup ∧
      (s.stack.frames ≠ [] → ∀ e t, call s = .error e t → e.isMissing = false) := by
  have hgrows : (reentry setup depth).Grows := keeps_reentry setup depth
  have hre := balances_reentry hpackages depth
  constructor
  · intro buffer pass hnotes call
    have hbuffer : ∀ id, ∀ h ∈ buffer.handlers, h.2.StaysOn id := by
      intro id h hh
      obtain ⟨name, hname⟩ := hnotes h hh
      rw [hname]
      trivial
    have hends := expandTemplate_ends hpackages hgrows hre hbuffer s template pass
    have hkeeps : Keeps .sequence call := keeps_expandTemplate (keeps_reentry setup depth) _ _ _ _
    have hframes := hends.after
    refine ⟨hframes, ⟨?_, hkeeps s hs.inSequence⟩, fun e t he => hends.isMissing_eq_false he, ?_⟩
    · rw [hframes]
      exact hs.frames
    · intro text
      obtain ⟨outcome, t, f, _, hattempt, hpop, hid, hpass, htemplate⟩ :=
        popFrame_pushed hpackages hgrows hre hbuffer s template pass text
      exact ⟨_, _, outcome, t, f, _, rfl, hattempt, hpop, hid, hpass, htemplate, rfl⟩
  · intro options call
    have hkeeps : Keeps .sequence call := keeps_expandNested (keeps_reentry setup depth) _ _ _
    cases hframes : s.stack.frames with
    | nil =>
        -- there is no buffer to put the lines into
        have hfail : call s = .error (.missingContext .buffer) s := by
          have htop : topFrame s = .error (.missingContext .buffer) s := by
            show ofExcept s.stack.top s = _
            rw [Stack.top, hframes]
            rfl
          simp only [call, expandNested, bind, EStateM.bind, htop]
        have hafter : stateAfter call s = s := by rw [stateAfter, hfail]
        rw [hafter, hframes]
        exact ⟨rfl, rfl, hs, fun hne => absurd rfl hne⟩
    | cons f fs =>
        have hlocal : ∀ g ∈ f :: fs, g.Local setup := hframes ▸ hs.frames
        have hends := (balances_expandNested hpackages hgrows hre template options).ends hframes rfl
          (hlocal f List.mem_cons_self)
        obtain ⟨f', hf', hlasts⟩ := hends.after
        have horderly : (stateAfter call s).Orderly setup := by
          refine ⟨?_, hkeeps s hs.inSequence⟩
          rw [hf']
          exact List.forall_mem_cons.2 ⟨hlasts.isLocal (hlocal f List.mem_cons_self),
            fun g hg => hlocal g (List.mem_cons_of_mem _ hg)⟩
        rw [hf']
        refine ⟨?_, rfl, horderly, fun _ e t he => hends.isMissing_eq_false he⟩
        rw [List.map_cons, List.map_cons, hlasts.identity_eq]

/-- A template whose import fails on a line, and the failing import on its own. -/
theorem frames_balanced_failing :
    let setup := Request.squareSetup "cpp 0.1\n$IMPORT\x7binner\x7d\n" "cpp 0.1\n$V\n$NOPE\n"
    let outer : Frame := { id := 0, buffer := {}, pass := .core, template := "outer" }
    let s : State := .initial setup {}
    let t : State := (s.opened {} .core "outer").withTop (outer.equip setup)
    let call := expandTemplate setup (reentry setup 3) "outer" {} .core
    let inner := expandNested setup (reentry setup 3) "inner" .verbatim
    (∃ e, call s = .error e (stateAfter call s) ∧ e.isMissing = false) ∧
      (stateAfter call s).stack.frames = [] ∧
      (∃ e, inner t = .error e (stateAfter inner t) ∧ e.isMissing = false) ∧
      (stateAfter inner t).stack.frames.map Frame.identity = [(outer.equip setup).identity] := by
  intro setup outer s t call inner
  obtain ⟨hcall, -⟩ := frames_balanced (show setup.packages = [] from rfl) 3
    (State.orderly_initial setup {}) "outer"
  have hlocal := outer.isLocal_equip setup (by simp [outer])
  have horderly : t.Orderly setup := ⟨List.forall_mem_singleton.2 hlocal, rfl⟩
  obtain ⟨-, hinner⟩ := frames_balanced rfl 3 horderly "inner"
  obtain ⟨hframes, -, herror, -⟩ := hcall {} .core (by simp)
  obtain ⟨hidentity, -, -, herror'⟩ := hinner .verbatim
  obtain ⟨e, he⟩ := error_of_not_succeeds (x := call) (s := s) (by decide +kernel)
  obtain ⟨e', he'⟩ := error_of_not_succeeds (x := inner) (s := t) (by decide +kernel)
  exact ⟨⟨e, he, herror e _ he⟩, hframes, ⟨e', he', herror' (List.cons_ne_nil _ _) e' _ he'⟩,
    hidentity⟩

end ExpandM

end TensorTemplate
