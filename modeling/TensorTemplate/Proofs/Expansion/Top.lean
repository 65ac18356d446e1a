import TensorTemplate.Proofs.Expansion.Growth
import TensorTemplate.Proofs.PlainLine
import TensorTemplate.Proofs.Temporaries

/-!
What actions do to the frame on top.

On a stack whose frame on top is known, reading and writing that frame are equations.
From these follows what each action of a pool, and each part of expanding a template,
leaves behind when it succeeds: one lemma for each, which says all that can have
happened.
-/

namespace TensorTemplate

/-- The state with a frame in the place of the one on top. -/
def State.withTop (s : State) (f : Frame) : State :=
  { s with stack := { s.stack with frames := f :: s.stack.frames.tail } }

@[simp] theorem State.journal_track (s : State) (change : List Bookmark → List Bookmark) :
    (s.track change).journal = s.journal := rfl

namespace ExpandM

section Top

variable {s s' : State} {f : Frame} {fs : List Frame} (hframes : s.stack.frames = f :: fs)

include hframes

theorem frames_withTop (g : Frame) : (s.withTop g).stack.frames = g :: fs := by
  simp [State.withTop, hframes]

theorem withTop_self : s.withTop f = s := by
  rw [State.withTop, hframes, List.tail_cons, ← hframes]

theorem topFrame_eq : topFrame s = .ok f s := by
  have htop : s.stack.top = .ok f := by rw [Stack.top, hframes]
  show ofExcept s.stack.top s = .ok f s
  rw [htop]
  rfl

theorem frame_eq : frame f.id s = .ok f s := by
  have hfind : s.stack.frame? f.id = some f := by simp [Stack.frame?, hframes]
  rw [frame, get_bind, hfind]
  rfl

theorem setFrame_eq {g : Frame} (hid : g.id = f.id) : setFrame g s = .ok () (s.withTop g) := by
  have hset : s.stack.set g = { s.stack with frames := g :: s.stack.frames.tail } := by
    simp [Stack.set, hframes, Stack.replace, hid]
  show EStateM.Result.ok () { s with stack := s.stack.set g } = _
  rw [hset]
  rfl

theorem registry_eq {r : Registry} (hr : f.registry = some r) : s.stack.registry = .ok r := by
  simp [Stack.registry, Stack.top, hframes, hr, bind, Except.bind, pure, Except.pure]

theorem changeBuffer_ok {change : Buffer → Except Error Buffer}
    (h : changeBuffer f change s = .ok () s') :
    ∃ buffer, change f.buffer = .ok buffer ∧ s' = s.withTop { f with buffer } := by
  obtain ⟨buffer, hchange, hset⟩ := ofExcept_bind_ok h
  rw [setFrame_eq hframes (by rfl)] at hset
  cases hset
  exact ⟨buffer, hchange, rfl⟩

theorem onBuffer_ok {change : Buffer → Except Error Buffer}
    (h : onBuffer f.id change s = .ok () s') :
    ∃ buffer, change f.buffer = .ok buffer ∧ s' = s.withTop { f with buffer } := by
  rw [onBuffer, bind_eq (frame_eq hframes)] at h
  exact changeBuffer_ok hframes h

theorem onTopBuffer_ok {change : Buffer → Except Error Buffer}
    (h : onTopBuffer change s = .ok () s') :
    ∃ buffer, change f.buffer = .ok buffer ∧ s' = s.withTop { f with buffer } := by
  rw [onTopBuffer, bind_eq (topFrame_eq hframes)] at h
  exact changeBuffer_ok hframes h

theorem changeBuffer_eq {change : Buffer → Except Error Buffer} {buffer : Buffer}
    (h : change f.buffer = .ok buffer) :
    changeBuffer f change s = .ok () (s.withTop { f with buffer }) := by
  rw [changeBuffer, h]
  exact setFrame_eq hframes rfl

theorem onBuffer_eq {change : Buffer → Except Error Buffer} {buffer : Buffer}
    (h : change f.buffer = .ok buffer) :
    onBuffer f.id change s = .ok () (s.withTop { f with buffer }) :=
  (bind_eq (frame_eq hframes)).trans (changeBuffer_eq hframes h)

theorem onTopBuffer_eq {change : Buffer → Except Error Buffer} {buffer : Buffer}
    (h : change f.buffer = .ok buffer) :
    onTopBuffer change s = .ok () (s.withTop { f with buffer }) :=
  (bind_eq (topFrame_eq hframes)).trans (changeBuffer_eq hframes h)

theorem recordOnTop_eq (event : FrameEvent) : s.recordOnTop event = s.record f.id event := by
  rw [State.recordOnTop, hframes]

theorem recordOnTop_ok {event : FrameEvent} (h : recordOnTop event s = .ok () s') :
    s' = s.record f.id event := by
  rw [← recordOnTop_eq hframes]
  cases h
  rfl

/-- Lines put at the end of the buffer on top, and the event that tells of them. -/
theorem append_ok {t : State} {change : Buffer → Except Error Buffer} {new : List String}
    (hchange : change f.buffer = f.buffer.append new) {event : FrameEvent}
    (happend : onTopBuffer change s = .ok () t) (hrecord : recordOnTop event t = .ok () s') :
    s' =
      (s.withTop
        { f with buffer := { f.buffer with behind := new.reverse ++ f.buffer.behind } }).record
          f.id event := by
  obtain ⟨buffer, hbuffer, rfl⟩ := onTopBuffer_ok hframes happend
  rw [hchange] at hbuffer
  rw [(Buffer.append_eq_ok_iff.1 hbuffer).2] at hrecord
  exact recordOnTop_ok (frames_withTop hframes _) hrecord

end Top

theorem writeAllToTag_ok {buffer buffer' : Buffer} {texts : List String}
    (h : buffer.writeAllToTag texts = .ok buffer') :
    buffer' =
      { buffer with
        ahead := (texts.flatMap buffer.style.applyAll).reverse ++ buffer.ahead } := by
  unfold Buffer.writeAllToTag Buffer.insertAtTag at h
  split at h
  · rename_i hempty
    cases h
    simp [List.isEmpty_iff.1 hempty]
  · split at h
    · cases h
    · split at h
      · cases h
        rfl
      · cases h

end ExpandM

/-- The frame differs from the other at most in its lines and in what its pool holds. -/
structure Frame.Alike (f f' : Frame) : Prop where
  id : f'.id = f.id
  registry : f'.registry = f.registry
  pass : f'.pass = f.pass
  handlers : f'.buffer.handlers = f.buffer.handlers
  pool : f.pool.isSome → f'.pool.isSome

theorem Frame.Alike.refl (f : Frame) : f.Alike f := ⟨rfl, rfl, rfl, rfl, fun h => h⟩

theorem Frame.Alike.trans {f g h : Frame} (hfg : f.Alike g) (hgh : g.Alike h) : f.Alike h where
  id := hgh.id.trans hfg.id
  registry := hgh.registry.trans hfg.registry
  pass := hgh.pass.trans hfg.pass
  handlers := hgh.handlers.trans hfg.handlers
  pool := fun hf => hgh.pool (hfg.pool hf)

/-! ### Pools -/

namespace ExpandM

variable {re : Reentry} {s s' : State}

theorem renderDeclarations_eq (pattern : String) (held : List Declaration) (s : State) :
    ∃ diagnostics, renderDeclarations pattern held s =
      .ok (String.join ((held ++ s.temporaries.exprs.declarations).map
        fun d => d.instantiate pattern ++ "\n")) { s with diagnostics } := by
  unfold renderDeclarations ExprCache.renderDeclarations Declaration.renderAll
  cases Declaration.check pattern <;> exact ⟨_, rfl⟩

/-- The caches are cleared; then the declarations, if there are any, are expanded and written. -/
theorem writeDeclarations_ok {id : Nat} {pool : Pool}
    (h : writeDeclarations re id pool s = .ok () s') :
    ∃ text diagnostics,
      text =
        Text.unlines ((pool.held.lambdas ++ s.temporaries.lambdas.records).map
            (·.declare s.temporaries.lambdas.backend)) ++
          String.join ((pool.held.declarations ++ s.temporaries.exprs.declarations).map
            fun d => d.instantiate pool.pattern ++ "\n") ∧
      (text.isEmpty = true ∧ s' = { s with temporaries := s.temporaries.clear, diagnostics } ∨
        ∃ expanded t,
          re.expandText text { s with temporaries := s.temporaries.clear, diagnostics } =
            .ok expanded t ∧
          onBuffer id (·.writeAllToTag (Text.lines expanded)) t = .ok () s') := by
  obtain ⟨diagnostics, hrender⟩ := renderDeclarations_eq pool.pattern pool.held.declarations s
  rw [writeDeclarations, get_bind] at h
  simp only [] at h
  rw [bind_eq hrender] at h
  obtain ⟨_, t, hclear, h⟩ := bind_ok h
  cases hclear
  refine ⟨_, diagnostics, rfl, ?_⟩
  split at h
  · obtain ⟨expanded, t, hexpand, hwrite⟩ := bind_ok h
    exact Or.inr ⟨expanded, t, hexpand, hwrite⟩
  · rename_i hempty
    cases h
    exact Or.inl ⟨by simpa using hempty, rfl⟩

theorem warn_ok {message : String} (h : warn message s = .ok () s') :
    ∃ diagnostics, s' = { s with diagnostics } := by
  cases h
  exact ⟨_, rfl⟩

/-- After a deposit, the boundary is set at the end of the buffer. -/
theorem setBoundary_ok {backend : Backend} {id : Nat} {pattern line : String}
    (h : setBoundary backend re id pattern s = .ok line s') :
    ∃ t, deposit re id s = .ok () t ∧ t.journal <:+ s'.journal ∧
      ∀ {g gs pool}, t.stack.frames = g :: gs → g.id = id → g.pool = some pool →
        s' =
          (t.withTop
            { g with
              buffer := g.buffer.setTagToEnd
              pool := some { pool with pattern, isSet := true, sequence := pool.sequence + 1 }
              }).record g.id (.bounded pattern) := by
  obtain ⟨_, t, hdeposit, h⟩ := bind_ok h
  have hgrows : t.journal <:+ s'.journal :=
    Grows.of_ok (.bind (keeps_poolOf _) fun _ => .bind (keeps_setPool _ _) fun _ =>
      .bind (keeps_onBuffer _ _) fun _ => .bind (keeps_record _ _ rfl) fun _ => .pure _) h
  refine ⟨t, hdeposit, hgrows, ?_⟩
  rintro g gs pool hg rfl hpool
  have hpoolOf : poolOf g.id t = .ok pool t := by
    refine (bind_eq (frame_eq hg)).trans ?_
    rw [hpool]
    rfl
  rw [bind_eq hpoolOf] at h
  obtain ⟨_, u, hset, h⟩ := bind_ok h
  rw [setPool, bind_eq (frame_eq hg), setFrame_eq hg (by rfl)] at hset
  cases hset
  obtain ⟨_, v, htag, h⟩ := bind_ok h
  obtain ⟨buffer, hbuffer, rfl⟩ := onBuffer_ok (frames_withTop hg _) htag
  cases hbuffer
  cases h
  rfl

section Pool

variable {f : Frame} {fs : List Frame} {pool : Pool} (hframes : s.stack.frames = f :: fs)
  (hpool : f.pool = some pool)

include hframes hpool

theorem poolOf_eq : poolOf f.id s = .ok pool s := by
  refine (bind_eq (frame_eq hframes)).trans ?_
  rw [hpool]
  rfl

omit hpool in
theorem setPool_eq (pool : Pool) :
    setPool f.id pool s = .ok () (s.withTop { f with pool := some pool }) :=
  (bind_eq (frame_eq hframes)).trans (setFrame_eq hframes rfl)

theorem deposit_of_unset (hset : pool.isSet = false) : deposit re f.id s = .ok () s := by
  rw [deposit, bind_eq (poolOf_eq hframes hpool), hset]
  rfl

/-- At a boundary, what is held and what waits is noted as declared and then written. -/
theorem deposit_of_set (hset : pool.isSet = true) :
    deposit re f.id s =
      writeDeclarations re f.id pool
        ((s.withTop { f with pool := some { pool with held := {} } }).record f.id
          (.declares pool.pattern (pool.held.add s.temporaries.toHeld).lambdas
            (pool.held.add s.temporaries.toHeld).declarations)) := by
  rw [deposit, bind_eq (poolOf_eq hframes hpool), if_pos hset, bind_eq (setPool_eq hframes _),
    get_bind]
  exact bind_eq rfl

/-- With a boundary there is a deposit; without one, what waits is held. -/
theorem suspendPool_ok (h : suspendPool re f.id s = .ok () s') :
    pool.isSet = true ∧ deposit re f.id s = .ok () s' ∨
      pool.isSet = false ∧
        (s.temporaries.waiting = [] ∧ s' = s ∨
          s.temporaries.waiting ≠ [] ∧
            s' =
              { s.withTop
                  { f with pool := some { pool with held := pool.held.add s.temporaries.toHeld } }
                with temporaries := s.temporaries.clear }) := by
  rw [suspendPool, bind_eq (poolOf_eq hframes hpool)] at h
  split at h
  · rename_i hset
    exact Or.inl ⟨hset, h⟩
  · rename_i hset
    refine Or.inr ⟨Bool.eq_false_iff.2 hset, ?_⟩
    rw [get_bind] at h
    dsimp only at h
    split at h
    · rename_i hpending
      rw [bind_eq (setPool_eq hframes _)] at h
      cases h
      refine Or.inr ⟨fun hwaiting => ?_, rfl⟩
      rw [s.temporaries.isPending_eq_false_iff.2 hwaiting] at hpending
      cases hpending
    · rename_i hpending
      cases h
      exact Or.inl ⟨s.temporaries.isPending_eq_false_iff.1 (Bool.eq_false_iff.2 hpending), rfl⟩

/-- If something is left and there is no boundary, one is put at the start. -/
theorem ensureBoundary_ok (h : ensureBoundary f.id s = .ok () s') :
    pool.isSet = true ∧ s' = s ∨
      pool.isSet = false ∧
        ∃ diagnostics,
          pool.held.isEmpty = true ∧ s.temporaries.waiting = [] ∧ s' = { s with diagnostics } ∨
            s' =
              (State.withTop { s with diagnostics }
                { f with
                  buffer := f.buffer.setTagToStart
                  pool := some { pool with isSet := true } }).record f.id .boundedAtStart := by
  rw [ensureBoundary, bind_eq (poolOf_eq hframes hpool)] at h
  split at h
  · rename_i hset
    refine Or.inr ⟨by simpa using hset, ?_⟩
    rw [bind_eq (frame_eq hframes), get_bind] at h
    split at h
    · obtain ⟨_, t, hwarn, h⟩ := bind_ok h
      obtain ⟨diagnostics, rfl⟩ := warn_ok hwarn
      obtain ⟨_, u, htag, h⟩ := bind_ok h
      obtain ⟨buffer, hbuffer, rfl⟩ := onBuffer_ok (by exact hframes) htag
      cases hbuffer
      have htop := frames_withTop (s := { s with diagnostics }) hframes
        { f with buffer := f.buffer.setTagToStart }
      rw [bind_eq (setPool_eq htop _)] at h
      cases h
      exact ⟨diagnostics, Or.inr rfl⟩
    · rename_i hnone
      obtain ⟨hheld, hpending⟩ : pool.held.isEmpty = true ∧ s.temporaries.isPending = false := by
        simpa using hnone
      obtain ⟨diagnostics, rfl⟩ := warn_ok h
      exact ⟨diagnostics, Or.inl
        ⟨hheld, s.temporaries.isPending_eq_false_iff.1 hpending, rfl⟩⟩
  · rename_i hset
    cases h
    exact Or.inl ⟨by simpa using hset, rfl⟩

/-- On a buffer without handlers, only the pool's note of its handler goes. -/
theorem dropHandler_ok (hhandlers : f.buffer.handlers = []) (h : dropHandler f.id s = .ok () s') :
    s' = s.withTop { f with pool := some { pool with handler := none } } := by
  rw [dropHandler, bind_eq (poolOf_eq hframes hpool)] at h
  cases hhandler : pool.handler with
  | none =>
      simp only [hhandler] at h
      cases h
      have hself : { f with pool := some { pool with handler := none } } = f := by
        rw [← hhandler, ← hpool]
      rw [hself, withTop_self hframes]
  | some handler =>
      simp only [hhandler] at h
      rw [bind_eq (setPool_eq hframes _)] at h
      obtain ⟨buffer, hbuffer, rfl⟩ := onBuffer_ok (frames_withTop hframes _) h
      cases hbuffer
      have hsame : f.buffer.deregister handler = f.buffer := by
        rw [Buffer.deregister, hhandlers, List.filter_nil, ← hhandlers]
      simp [State.withTop, hsame]

end Pool

end ExpandM

/-! ### Templates -/

/-- The frame with the built-in rules, a new pool, and the handler of that pool. -/
def Frame.equip (setup : Setup) (f : Frame) : Frame :=
  { f with
    registry := some (ExpandM.addRules {} (ExpandM.builtinRules setup.model f.id f.pass))
    buffer := (f.buffer.register (.pool f.id)).2
    pool := some
      { pattern := setup.backend.defaultDeclaration, handler := some f.buffer.nextHandler } }

/-- The frame has the built-in rules, a pool, and the handler of that pool. -/
structure Frame.Equipped (setup : Setup) (f : Frame) : Prop where
  registry : f.registry = some (ExpandM.addRules {} (ExpandM.builtinRules setup.model f.id f.pass))
  pool : f.pool.isSome
  handlers : f.buffer.handlers.map (·.2) = [.pool f.id]

theorem Frame.equipped_equip (setup : Setup) {f : Frame} (h : f.buffer.handlers = []) :
    (f.equip setup).Equipped setup :=
  ⟨rfl, rfl, by simp [equip, Buffer.register, h]⟩

theorem Frame.Alike.equipped {setup : Setup} {f f' : Frame} (h : f.Alike f')
    (hf : f.Equipped setup) : f'.Equipped setup where
  registry := by rw [h.registry, h.id, h.pass, hf.registry]
  pool := h.pool hf.pool
  handlers := by rw [h.handlers, h.id, hf.handlers]

theorem NestedOptions.handlers_child (options : NestedOptions) (parent : Buffer) :
    (options.child parent).handlers = [] := by
  unfold child
  cases options.delimiters <;> cases options.filter <;> rfl

namespace ExpandM

variable {setup : Setup} {re : Reentry} {s s' : State}

/-- The pool is retired on the buffer without its handler, and the buffer is closed. -/
theorem finishTop_ok {f : Frame} {fs : List Frame} (hframes : s.stack.frames = f :: fs)
    (hhandlers : f.buffer.handlers.map (·.2) = [.pool f.id]) (h : finishTop re s = .ok () s') :
    ∃ t,
      retirePool re f.id (s.withTop { f with buffer := { f.buffer with handlers := [] } }) =
        .ok () t ∧
      onTopBuffer (pure ·.close) t = .ok () s' := by
  rw [finishTop, bind_eq (topFrame_eq hframes)] at h
  simp only [Buffer.takeHandlers, hhandlers] at h
  rw [bind_eq (setFrame_eq hframes (by rfl))] at h
  obtain ⟨_, t, hclosing, hclose⟩ := bind_ok h
  obtain ⟨_, u, hretire, hnil⟩ := bind_ok hclosing
  cases hnil
  exact ⟨t, hretire, hclose⟩

/-- Without packages, the registry of a frame is that of the built-in rules, and the frame gets a
new pool. -/
theorem buildRegistry_eq (hpackages : setup.packages = []) {f : Frame} {fs : List Frame}
    (hframes : s.stack.frames = f :: fs) :
    buildRegistry setup f.id f.pass s =
      .ok (addRules {} (builtinRules setup.model f.id f.pass))
        (s.withTop { f.equip setup with registry := f.registry }) := by
  have hbind : bindPool setup.backend f.id s =
      .ok () (s.withTop { f.equip setup with registry := f.registry }) :=
    (bind_eq (frame_eq hframes)).trans (setFrame_eq hframes rfl)
  rw [buildRegistry, bind_eq hbind, hpackages]
  rfl

/-- Finishing a frame expands none of its lines. -/
theorem finishTop_forLines (re : Reentry) (id : Nat) :
    finishTop (re.forLines id) = finishTop re := rfl

/-- Without packages, a body is expanded on a frame with the built-in rules. -/
theorem runFrame_eq (hpackages : setup.packages = []) {f : Frame} {fs : List Frame}
    (hframes : s.stack.frames = f :: fs) (template : String) (body : List String) :
    runFrame setup re f.id f.pass template body s =
      runBody setup (re.forLines f.id) template body (s.withTop (f.equip setup)) := by
  have htop := frames_withTop hframes { f.equip setup with registry := f.registry }
  have hset : setFrame (f.equip setup) (s.withTop { f.equip setup with registry := f.registry }) =
      .ok () (s.withTop (f.equip setup)) := setFrame_eq htop rfl
  exact (bind_eq (buildRegistry_eq hpackages hframes)).trans
    ((bind_eq (frame_eq htop)).trans (bind_eq hset))

/-- A template is loaded and accepted, its body runs on a frame of its own, and this is popped. -/
theorem expandTemplate_eq_ok_iff {template : String} {buffer child : Buffer} {pass : Pass}
    {count : Nat} {t : State} :
    expandTemplate setup re template buffer pass s = .ok (child, count) t ↔
      ∃ text header body u f fs, setup.source.load s.files template = .ok text ∧
        Header.split template text = .ok (header, body) ∧
        header.validate template setup.settings.backend setup.settings.version = .ok () ∧
        runFrame setup re s.stack.nextId pass template (Text.lines body)
          (s.opened buffer pass template) = .ok count u ∧
        u.stack.frames = f :: fs ∧ f.buffer = child ∧
        u.popped.record s.stack.nextId (.closed child) = t := by
  have hpush : pushFrame buffer pass template s =
      .ok s.stack.nextId (s.opened buffer pass template) := rfl
  constructor
  · intro h
    rw [expandTemplate, get_bind] at h
    obtain ⟨text, hload, h⟩ := ofExcept_bind_ok h
    obtain ⟨⟨header, body⟩, hsplit, h⟩ := ofExcept_bind_ok h
    obtain ⟨_, hvalid, h⟩ := ofExcept_bind_ok h
    rw [bind_eq hpush] at h
    obtain ⟨outcome, u, hattempt, h⟩ := bind_ok h
    obtain ⟨f, v, hpop, h⟩ := bind_ok h
    obtain ⟨n, rfl, h⟩ := ofExcept_bind_ok h
    cases h
    cases hframes : u.stack.frames with
    | nil =>
        rw [popFrame_eq, Stack.pop, hframes] at hpop
        cases hpop
    | cons g gs =>
        rw [popFrame_of_cons hframes] at hpop
        cases hpop
        refine ⟨text, header, body, u, f, gs, hload, hsplit, hvalid, attempt_ok hattempt, hframes,
          rfl, ?_⟩
        rw [State.popped, hframes, List.tail_cons]
  · rintro ⟨text, header, body, u, f, fs, hload, hsplit, hvalid, hrun, hframes, rfl, rfl⟩
    have hattempt : attempt (runFrame setup re s.stack.nextId pass template (Text.lines body))
        (s.opened buffer pass template) = .ok (.ok count) u := by rw [attempt, hrun]
    rw [expandTemplate, get_bind]
    refine (bind_eq (ofExcept_eq hload)).trans ((bind_eq (ofExcept_eq hsplit)).trans ?_)
    refine (bind_eq (ofExcept_eq hvalid)).trans ?_
    rw [bind_eq hpush, bind_eq hattempt, bind_eq (popFrame_of_cons hframes), State.popped, hframes]
    rfl

/-- The lines are written and then the buffer is finished, each with a bookmark of its own. -/
theorem runBody_eq_ok_iff {template : String} {body : List String} {count : Nat} :
    runBody setup re template body s = .ok count s' ↔
      ∃ t u,
        writeBody setup re template body (s.track (⟨template, [], false⟩ :: ·)) = .ok count t ∧
        finishTop re (t.track (List.modifyHead fun mark => { mark with finishing := true })) =
          .ok () u ∧
        s' = u.track List.tail := by
  constructor
  · intro h
    obtain ⟨_, _, hstart, h⟩ := bind_ok h
    cases hstart
    obtain ⟨n, t, hwrite, h⟩ := bind_ok h
    obtain ⟨_, _, hmark, h⟩ := bind_ok h
    cases hmark
    obtain ⟨_, u, hfinish, h⟩ := bind_ok h
    cases h
    exact ⟨t, u, hwrite, within_ok hfinish, rfl⟩
  · rintro ⟨t, u, hwrite, hfinish, rfl⟩
    have hwithin : within template (1 + body.length) (finishTop re)
        (t.track (List.modifyHead fun mark => { mark with finishing := true })) = .ok () u := by
      rw [within, hfinish]
    refine (bind_eq rfl).trans ((bind_eq hwrite).trans ((bind_eq rfl).trans ?_))
    exact (bind_eq hwithin).trans (bind_eq rfl)

/-- A template is expanded on a frame of its own: its lines are written, the frame is finished, and
then it is popped. -/
theorem expandTemplate_ok (hpackages : setup.packages = []) {template : String} {buffer : Buffer}
    {pass : Pass} {result : Buffer × Nat}
    (h : expandTemplate setup re template buffer pass s = .ok result s') :
    let f : Frame := { id := s.stack.nextId, buffer, pass, template }
    ∃ body count t u, (∀ line ∈ body, '\n' ∉ line.toList) ∧
      writeBody setup (re.forLines f.id) template body
        (((s.opened buffer pass template).withTop (f.equip setup)).track
          (⟨template, [], false⟩ :: ·)) = .ok count t ∧
      finishTop re (t.track (List.modifyHead fun mark => { mark with finishing := true })) =
        .ok () u ∧
      ∃ g gs, u.stack.frames = g :: gs ∧
        s' = (u.track List.tail).popped.record s.stack.nextId (.closed g.buffer) := by
  intro f
  obtain ⟨child, count⟩ := result
  obtain ⟨_, _, body, u, g, gs, _, _, _, hrun, hg, rfl, rfl⟩ := expandTemplate_eq_ok_iff.1 h
  have hframes : (s.opened buffer pass template).stack.frames = f :: s.stack.frames := rfl
  rw [show s.stack.nextId = f.id from rfl, show pass = f.pass from rfl,
    runFrame_eq hpackages hframes] at hrun
  obtain ⟨t, v, hwrite, hfinish, rfl⟩ := runBody_eq_ok_iff.1 hrun
  exact ⟨Text.lines body, count, t, v, fun _ => Text.newline_notMem_of_mem_lines, hwrite, hfinish,
    g, gs, hg, rfl⟩

/-- A nested template is expanded when the handlers of the buffer on top have run, and then its
lines are taken over. -/
theorem expandNested_ok (hre : re.Grows) {f : Frame} {fs : List Frame}
    (hframes : s.stack.frames = f :: fs) {template : String} {options : NestedOptions} {count : Nat}
    (h : expandNested setup re template options s = .ok count s') :
    ∃ t, f.buffer.handlers.forM (fun h => handle re .suspend h.2) s = .ok () t ∧
      t.journal <:+ s'.journal ∧
      ∀ {g gs}, t.stack.frames = g :: gs → ∃ child u v,
        expandTemplate setup re template (options.child g.buffer) g.pass t =
          .ok (child, count) u ∧
        onTopBuffer (·.merge child) u = .ok () v ∧
        recordOnTop (.merged child.lines) v = .ok () s' := by
  rw [expandNested, bind_eq (topFrame_eq hframes)] at h
  obtain ⟨_, t, hhandle, h⟩ := bind_ok h
  have hgrows : t.journal <:+ s'.journal :=
    Grows.of_ok (.bind keeps_topFrame fun _ => .bind (keeps_expandTemplate hre _ _ _ _)
      fun _ => .bind (keeps_onTopBuffer _) fun _ => .bind (keeps_recordOnTop _ rfl) fun _ => .pure _) h
  refine ⟨t, hhandle, hgrows, ?_⟩
  intro g gs hg
  rw [bind_eq (topFrame_eq hg)] at h
  obtain ⟨⟨child, n⟩, u, hchild, h⟩ := bind_ok h
  obtain ⟨_, v, hmerge, h⟩ := bind_ok h
  obtain ⟨_, w, hrecord, hpure⟩ := bind_ok h
  cases hpure
  exact ⟨child, u, v, hchild, hmerge, hrecord⟩

/-- A nested template, put together from what happens on the way. -/
theorem expandNested_eq {template : String} {options : NestedOptions} {t u : State} {f g : Frame}
    {fs gs : List Frame} {child buffer : Buffer} {count : Nat} (hf : s.stack.frames = f :: fs)
    (hsuspend : f.buffer.handlers.forM (fun h => handle re .suspend h.2) s = .ok () t)
    (hg : t.stack.frames = g :: gs)
    (hchild : expandTemplate setup re template (options.child g.buffer) g.pass t =
      .ok (child, count) u)
    (hu : u.stack.frames = g :: gs) (hmerge : g.buffer.merge child = .ok buffer) :
    expandNested setup re template options s =
      .ok count ((u.withTop { g with buffer }).record g.id (.merged child.lines)) := by
  rw [expandNested, bind_eq (topFrame_eq hf), bind_eq hsuspend, bind_eq (topFrame_eq hg),
    bind_eq hchild]
  refine (bind_eq (onTopBuffer_eq hu hmerge)).trans ?_
  have hrecord : recordOnTop (.merged child.lines) (u.withTop { g with buffer }) =
      .ok () ((u.withTop { g with buffer }).record g.id (.merged child.lines)) :=
    congrArg (EStateM.Result.ok ()) (recordOnTop_eq (frames_withTop hu _) _)
  exact bind_eq hrecord

end ExpandM

end TensorTemplate
