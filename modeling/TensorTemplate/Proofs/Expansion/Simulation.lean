import TensorTemplate.Proofs.Expansion.Pool
import TensorTemplate.Proofs.Expansion.Routine

/-!
Every successful expansion is a run of steps.

While a template is expanded, each frame of the stack has the built-in rules for
its own number, a pool, and the pool's handler on its buffer. An action follows
the steps if it keeps that and changes the view by a run of steps, for as long as
the journal shows plain patterns only. Actions that follow the steps can be put
one after another, so it is enough to look at each rule; nested templates are
covered by induction on the depth of nesting.
-/

namespace TensorTemplate

/-- All components have clean names. -/
def Tensor.Clean (t : Tensor) : Prop := ∀ values e, t.component values = some e → e.Clean

/-- Only the built-in rules, two different identifiers as kernels, and clean names in the
expressions of all tensors. -/
structure Setup.Plain (setup : Setup) : Prop where
  packages : setup.packages = []
  exprKernel : isIdentifier setup.settings.exprKernel = true
  lambdaKernel : isIdentifier setup.settings.lambdaKernel = true
  kernel_ne : setup.settings.exprKernel ≠ setup.settings.lambdaKernel
  tensors : ∀ entry ∈ setup.model.tensors.entries, entry.2.Clean

namespace State

/-- The frames of these numbers are being expanded. -/
structure Ready (setup : Setup) (ids : List Nat) (s : State) : Prop where
  ids : s.stack.frames.map (·.id) = ids
  equipped : ∀ f ∈ s.stack.frames, f.Equipped setup
  tidy : s.view.Tidy setup.backend

variable {setup : Setup} {id : Nat} {ids : List Nat} {s s' : State}

theorem Ready.top (h : s.Ready setup (id :: ids)) :
    ∃ f fs, s.stack.frames = f :: fs ∧ f.id = id ∧ f.Equipped setup := by
  obtain ⟨f, fs, hframes, hid, _⟩ := List.map_eq_cons_iff.1 h.ids
  exact ⟨f, fs, hframes, hid, h.equipped f (hframes ▸ List.mem_cons_self)⟩

theorem Ready.track (h : s.Ready setup ids) (change : List Bookmark → List Bookmark) :
    (s.track change).Ready setup ids :=
  ⟨h.ids, h.equipped, h.tidy⟩

theorem Ready.of_touches (h : s.Ready setup ids) (htouches : s.Touches setup.backend s')
    (hids : ids ≠ []) : s'.Ready setup ids := by
  cases ids with
  | nil => exact absurd rfl hids
  | cons id ids =>
      obtain ⟨f, fs, hframes, rfl, hf⟩ := h.top
      obtain ⟨f', hframes', halike⟩ := htouches.frames hframes
      refine ⟨?_, ?_, htouches.tidy h.tidy⟩
      · rw [← h.ids, hframes, hframes', List.map_cons, List.map_cons, halike.id]
      · rw [hframes']
        refine List.forall_mem_cons.2 ⟨halike.equipped hf, fun g hg => h.equipped g ?_⟩
        rw [hframes]
        exact List.mem_cons_of_mem _ hg

end State

namespace ExpandM

/-- While frames of these numbers are being expanded, the action is a run of steps, and they still
are afterwards. -/
structure Follows (setup : Setup) (ids : List Nat) {α : Type} (x : ExpandM α) : Prop where
  grows : Grows x
  moves : ∀ {s s' : State} {a : α}, x s = .ok a s' → s'.journal.PlainPatterns setup.backend →
    s.Ready setup ids → s'.Ready setup ids ∧ View.Run setup.backend s.view s'.view

namespace Follows

variable {setup : Setup} {id : Nat} {ids : List Nat} {α β : Type}

theorem of_unchanged {x : ExpandM α} (hx : Grows x)
    (h : ∀ {s s' : State} {a : α}, x s = .ok a s' → s' = s) : Follows setup ids x where
  grows := hx
  moves := by
    intro s s' a hrun _ hready
    rw [h hrun]
    exact ⟨hready, .refl⟩

theorem of_touches {x : ExpandM α} (hx : Grows x)
    (h : ∀ {s s' : State} {a : α} {f : Frame} {fs : List Frame}, s.stack.frames = f :: fs →
      f.id = id → f.Equipped setup → s.view.Tidy setup.backend → x s = .ok a s' →
        s'.journal.PlainPatterns setup.backend → s.Touches setup.backend s') :
    Follows setup (id :: ids) x where
  grows := hx
  moves := by
    intro s s' a hrun hplain hready
    obtain ⟨f, fs, hframes, hid, hf⟩ := hready.top
    have htouches := h hframes hid hf hready.tidy hrun hplain
    exact ⟨hready.of_touches htouches (List.cons_ne_nil _ _), htouches.run⟩

protected theorem pure (a : α) : Follows setup ids (pure a) :=
  of_unchanged (.pure a) fun h => by
    cases h
    rfl

protected theorem throw (e : Error) : Follows setup ids (throw e : ExpandM α) :=
  of_unchanged (.throw e) fun h => nomatch h

protected theorem bind {x : ExpandM α} {f : α → ExpandM β} (hx : Follows setup ids x)
    (hf : ∀ a, Follows setup ids (f a)) : Follows setup ids (x >>= f) where
  grows := hx.grows.bind fun a => (hf a).grows
  moves := by
    intro s s' b hrun hplain hready
    obtain ⟨a, t, hfirst, hsecond⟩ := bind_ok hrun
    obtain ⟨hready', hrun'⟩ :=
      hx.moves hfirst (hplain.of_suffix (Grows.of_ok (hf a).grows hsecond)) hready
    obtain ⟨hready'', hrun''⟩ := (hf a).moves hsecond hplain hready'
    exact ⟨hready'', hrun'.trans hrun''⟩

protected theorem within {x : ExpandM α} (hx : Follows setup ids x) (template : String)
    (line : Nat) :
    Follows setup ids (within template line x) where
  grows := hx.grows.within template line
  moves := by
    intro s s' a hrun
    exact hx.moves (within_ok hrun)

end Follows

end ExpandM

/-! ### What is done for lines -/

/-- A function value of a clean tensor, with labels of indices as parameters, is clean. -/
theorem Tensor.Clean.toLambda {t : Tensor} (ht : t.Clean) (kind : String) (ranges : Ranges)
    {indices : List Index} (hlabels : ∀ i ∈ indices, (IndexClass.ofLabel? i.label).isSome) :
    (t.toLambda kind ranges indices).Clean where
  tags := by
    intro tag htag
    obtain ⟨i, hi, rfl⟩ := List.mem_map.1 htag
    exact hlabels i hi
  body := by
    unfold Tensor.toLambda
    cases indices with
    | nil =>
        cases hcomponent : t.component [] with
        | none => simpa [hcomponent] using Expr.Clean.lit 0
        | some e => simpa [hcomponent] using ht [] e hcomponent
    | cons i is =>
        intro c hc
        obtain ⟨assignment, _, hcase⟩ := List.mem_filterMap.1 hc
        obtain ⟨e, hcomponent, rfl⟩ := Option.map_eq_some_iff.1 hcase
        exact ht _ e hcomponent

/-- The ways back into expanding add events, leave lines without calls alone, and follow the
steps. -/
structure Reentry.Faithful (setup : Setup) (re : Reentry) : Prop where
  grows : re.Grows
  quiet : re.Quiet
  nested : ∀ {id ids} template options,
    ExpandM.Follows setup (id :: ids) (re.nested template options)

namespace ExpandM

variable {setup : Setup} {re : Reentry} {id : Nat} {ids : List Nat}

theorem follows_topFrame : Follows setup ids topFrame :=
  .of_unchanged keeps_topFrame fun h => by
    rw [topFrame, get_bind] at h
    exact (ofExcept_ok h).2

theorem follows_rules {α : Type} {k : Registry → ExpandM α} (hgrows : ∀ r, Grows (k r))
    (hk : ∀ pass,
      Follows setup (id :: ids) (k (addRules {} (builtinRules setup.model id pass)))) :
    Follows setup (id :: ids) (do k (← ofExcept (← get).stack.registry)) where
  grows := .bind .get fun _ => .bind (.ofExcept _) hgrows
  moves := by
    intro s s' a h hplain hready
    obtain ⟨f, fs, hframes, rfl, hf⟩ := hready.top
    rw [get_bind, registry_eq hframes hf.registry] at h
    exact (hk f.pass).moves h hplain hready

theorem follows_count (n : Nat) :
    Follows setup (id :: ids) (modify fun s => { s with replacements := s.replacements + n }) := by
  refine .of_touches (.modify fun s => List.suffix_refl s.journal) ?_
  intro s s' _ f fs hframes _ _ _ h _
  cases h
  exact .of_run hframes hframes (.refl f) .refl

theorem follows_see (sight : Sight) : Follows setup (id :: ids) (see sight) := by
  refine .of_touches (.modify fun s => List.suffix_refl s.journal) ?_
  intro s s' _ f fs hframes _ _ _ h _
  cases h
  exact .of_run hframes hframes (.refl f) .refl

theorem follows_track (change : List Bookmark → List Bookmark) :
    Follows setup (id :: ids) (track change) := by
  refine .of_touches (keeps_track change) ?_
  intro s s' _ f fs hframes _ _ _ h _
  cases h
  exact .of_run hframes hframes (.refl f) .refl

theorem composes_follows : Composes fun _ x => Follows setup (id :: ids) x :=
  ⟨.pure, .bind, .within, follows_track⟩

theorem follows_emit {e : Expr} (he : e.Clean) : Follows setup (id :: ids) (emit e) := by
  refine .of_touches (keeps_emit e) ?_
  intro s s' text f fs hframes _ _ _ h _
  rw [emit_eq, recordOnTop_eq (by exact hframes)] at h
  cases h
  exact .of_step hframes hframes (.refl f)
    (.name (v := ⟨s.temporaries, f.live :: fs.map Frame.live, s.stack.nextId, s.journal⟩) rfl he)

theorem follows_cacheLambda {l : Lambda} (hl : l.Clean) :
    Follows setup (id :: ids) (cacheLambda l) := by
  refine .of_touches (keeps_cacheLambda l) ?_
  intro s s' text f fs hframes _ _ _ h _
  rw [cacheLambda_eq, recordOnTop_eq (by exact hframes)] at h
  cases h
  exact .of_step hframes hframes (.refl f)
    (.call (v := ⟨s.temporaries, f.live :: fs.map Frame.live, s.stack.nextId, s.journal⟩) rfl hl)

theorem follows_setBoundary (hre : re.Faithful setup) (backend : Backend) {pattern : String}
    (hpattern : '\n' ∉ pattern.toList) :
    Follows setup (id :: ids) (setBoundary backend re id pattern) := by
  refine .of_touches (keeps_setBoundary hre.grows backend id pattern) ?_
  intro s s' line f fs hframes hid hf htidy h hplain
  obtain ⟨pool, hpool⟩ := Option.isSome_iff_exists.1 hf.pool
  exact setBoundary_touches hre.grows hre.quiet hframes hpool htidy hpattern (hid ▸ h) hplain

/-! ### Templates -/

section Templates

variable {setup : Setup} (hsetup : setup.Plain) {re : Reentry} (hre : re.Faithful setup)
  {id : Nat} {ids : List Nat}

theorem follows_write (text : String) :
    Follows setup (id :: ids) (do
      onTopBuffer (·.writeToEnd text)
      recordOnTop (.wrote text)) := by
  refine .of_touches (.bind (keeps_onTopBuffer _) fun _ => keeps_recordOnTop _ rfl) ?_
  intro s s' _ f fs hframes _ _ _ h _
  obtain ⟨_, t, hwrite, hrecord⟩ := bind_ok h
  rw [append_ok hframes rfl hwrite hrecord]
  exact .of_step hframes (frames_withTop hframes _) ⟨rfl, rfl, rfl, rfl, fun h => h⟩
    (.write (v := ⟨s.temporaries, f.live :: fs.map Frame.live, s.stack.nextId, s.journal⟩) rfl text)

include hsetup hre

/-- All that is done for lines follows the steps. -/
theorem Routine.follows {α : Type} {x : ExpandM α} (h : Routine setup re id x) :
    Follows setup (id :: ids) x := by
  induction h with
  | pure a => exact .pure a
  | throw _ => exact .throw _
  | bind _ _ hx hf => exact hx.bind hf
  | template g => exact follows_topFrame.bind fun _ => .pure _
  | rules hgrows _ hk => exact follows_rules hgrows hk
  | count n => exact follows_count n
  | see sight => exact follows_see sight
  | emit ht he => exact follows_emit (hsetup.tensors _ ht _ _ he)
  | cacheLambda ht hlabels =>
      exact follows_cacheLambda ((hsetup.tensors _ ht).toLambda _ _ hlabels)
  | setBoundary hpattern => exact follows_setBoundary hre setup.backend hpattern
  | nested template _ => exact hre.nested template _
  | write text => exact follows_write text

omit hsetup in
/-- Finishing the frame on top leaves nothing to be declared. -/
theorem finishTop_drained {s s' : State} {f : Frame} {fs : List Frame}
    (hframes : s.stack.frames = f :: fs) (hf : f.Equipped setup) (htidy : s.view.Tidy setup.backend)
    (h : finishTop re s = .ok () s') (hplain : s'.journal.PlainPatterns setup.backend) :
    View.Run setup.backend s.view s'.view ∧ s'.view.Drained ∧
      ∃ f', s'.stack.frames = f' :: fs ∧ f'.id = f.id := by
  obtain ⟨t, hretire, hclose⟩ := finishTop_ok hframes hf.handlers h
  have htop := frames_withTop hframes { f with buffer := { f.buffer with handlers := [] } }
  have hview : (s.withTop { f with buffer := { f.buffer with handlers := [] } }).view = s.view :=
    view_withTop hframes rfl
  obtain ⟨pool, hpool⟩ := Option.isSome_iff_exists.1 hf.pool
  obtain ⟨htouches, hdrained⟩ := retirePool_touches hre.grows hre.quiet htop hpool (hview ▸ htidy)
    rfl hretire (hplain.of_suffix (Grows.of_ok (keeps_onTopBuffer _) hclose))
  obtain ⟨g, hg, halike⟩ := htouches.frames htop
  obtain ⟨buffer, hbuffer, rfl⟩ := onTopBuffer_ok hg hclose
  cases hbuffer
  have htop' := frames_withTop hg { g with buffer := g.buffer.close }
  have hview' : (t.withTop { g with buffer := g.buffer.close }).view = t.view := view_withTop hg rfl
  rw [hview', ← hview]
  exact ⟨htouches.run, hdrained, _, htop', halike.id⟩

/-- A template that is expanded while nothing waits goes through a frame of its own, and nothing
waits afterwards. -/
theorem expandTemplate_ready {s s' : State} (hready : s.Ready setup ids)
    (hwaiting : s.temporaries.waiting = []) {buffer : Buffer} (hbuffer : buffer.handlers = [])
    {template : String} {pass : Pass} {result : Buffer × Nat}
    (h : expandTemplate setup re template buffer pass s = .ok result s')
    (hplain : s'.journal.PlainPatterns setup.backend) :
    s'.Ready setup ids ∧ View.Run setup.backend s.view s'.view ∧ s'.temporaries.waiting = [] := by
  obtain ⟨body, count, t, u, hbody, hwrite, hfinish, g, gs, hg, rfl⟩ :=
    expandTemplate_ok hsetup.packages h
  set f : Frame := { id := s.stack.nextId, buffer, pass, template } with hf
  -- a frame is opened
  have hopened : (s.opened buffer pass template).stack.frames = f :: s.stack.frames := rfl
  have htop := frames_withTop hopened (f.equip setup)
  have henter : View.Step setup.backend s.view
      ((s.opened buffer pass template).withTop (f.equip setup)).view :=
    .enter (v := s.view) hwaiting buffer
  have hready₁ : ((s.opened buffer pass template).withTop (f.equip setup)).Ready setup
      (s.stack.nextId :: ids) := by
    refine ⟨?_, ?_, henter.tidy hready.tidy⟩
    · rw [htop, List.map_cons, hready.ids]
      rfl
    · rw [htop]
      exact List.forall_mem_cons.2 ⟨Frame.equipped_equip setup hbuffer, hready.equipped⟩
  -- its lines are written
  have hplain : u.journal.PlainPatterns setup.backend := hplain.of_suffix (List.suffix_cons _ _)
  have hlines : Follows setup (s.stack.nextId :: ids)
      (writeBody setup (re.forLines f.id) template body) :=
    composes_follows.writeBody fun line hline =>
      (routine_writeLine setup hre.grows f.id (hbody line hline)).follows hsetup hre
  have hgrown := Grows.of_ok (keeps_finishTop hre.grows) hfinish
  rw [State.journal_track] at hgrown
  obtain ⟨hready₂, hrun⟩ := hlines.moves hwrite (hplain.of_suffix hgrown) (hready₁.track _)
  obtain ⟨k, ks, hk, hid, hequipped⟩ := hready₂.top
  -- it is finished and popped
  obtain ⟨hfinished, hdrained, g', hg', hid'⟩ :=
    finishTop_drained hre (by exact hk) hequipped (by exact hready₂.tidy) hfinish hplain
  obtain ⟨rfl, rfl⟩ := List.cons.inj (hg.symm.trans hg')
  have hpopped : u.popped.stack.frames = gs := by
    show u.stack.frames.tail = gs
    rw [hg, List.tail_cons]
  have hleave : View.Step setup.backend u.view
      { u.view with
        frames := gs.map Frame.live
        journal := (s.stack.nextId, .closed g.buffer) :: u.journal } :=
    (hid'.trans hid) ▸ .leave (view_frames hg) (hdrained.held (view_frames hg)) hdrained.waiting
      ⟨rfl, rfl⟩
  rw [← hpopped] at hleave
  have hrun := ((hrun.head henter).trans hfinished).tail hleave
  refine ⟨⟨?_, ?_, View.Run.keeps View.Step.tidy hrun hready.tidy⟩, hrun, hdrained.waiting⟩
  · have hids := hready₂.ids
    rw [hk, List.map_cons] at hids
    show u.popped.stack.frames.map (·.id) = ids
    rw [hpopped]
    exact (List.cons.inj hids).2
  · show ∀ k ∈ u.popped.stack.frames, k.Equipped setup
    rw [hpopped]
    exact fun k' hk' => hready₂.equipped k' (hk ▸ List.mem_cons_of_mem _ hk')

/-- A nested template starts when nothing waits, and its lines go to the end of the buffer. -/
theorem follows_expandNested (template : String) (options : NestedOptions) :
    Follows setup (id :: ids) (expandNested setup re template options) where
  grows := keeps_expandNested hre.grows setup template options
  moves := by
    intro s s' count h hplain hready
    obtain ⟨f, fs, hframes, rfl, hf⟩ := hready.top
    obtain ⟨⟨n, handler⟩, hhandlers, rfl⟩ := List.map_eq_singleton_iff.1 hf.handlers
    obtain ⟨pool, hpool⟩ := Option.isSome_iff_exists.1 hf.pool
    obtain ⟨t, hhandle, hgrows, hrest⟩ := expandNested_ok hre.grows hframes h
    -- the pool on top is suspended
    rw [hhandlers] at hhandle
    obtain ⟨_, _, hsuspend, hnil⟩ := bind_ok hhandle
    cases hnil
    obtain ⟨htouches, hwaiting⟩ := suspendPool_touches hre.grows hre.quiet hframes hpool hready.tidy
      hsuspend (hplain.of_suffix hgrows)
    have hready₁ := hready.of_touches htouches (List.cons_ne_nil _ _)
    -- the nested template is expanded
    obtain ⟨g, hg, _⟩ := htouches.frames hframes
    obtain ⟨child, u, v, hchild, hmerge, hrecord⟩ := hrest hg
    have hgrows : u.journal <:+ s'.journal :=
      (Grows.of_ok (keeps_onTopBuffer _) hmerge).trans (Grows.of_ok (keeps_recordOnTop _ rfl) hrecord)
    obtain ⟨hready₂, hrun, _⟩ := expandTemplate_ready hsetup hre hready₁ hwaiting
      (options.handlers_child g.buffer) hchild (hplain.of_suffix hgrows)
    -- its lines are taken over
    obtain ⟨k, ks, hk, _, _⟩ := hready₂.top
    have hmerged : u.Touches setup.backend s' := by
      rw [append_ok hk rfl hmerge hrecord]
      exact .of_step hk (frames_withTop hk _) ⟨rfl, rfl, rfl, rfl, fun h => h⟩
        (.merge (v := ⟨u.temporaries, k.live :: ks.map Frame.live, u.stack.nextId, u.journal⟩) rfl
          child.lines)
    exact ⟨hready₂.of_touches hmerged (List.cons_ne_nil _ _),
      (htouches.run.trans hrun).trans hmerged.run⟩

end Templates

end ExpandM

/-- At every depth, the ways back into expanding follow the steps. -/
theorem faithful_reentry {setup : Setup} (hsetup : setup.Plain) (depth : Nat) :
    (reentry setup depth).Faithful setup := by
  induction depth with
  | zero => exact ⟨keeps_reentry setup 0, fun _ h => (nomatch h), fun _ _ => .throw _⟩
  | succ depth ih =>
      refine ⟨keeps_reentry setup (depth + 1), ?_, ?_⟩
      · intro ts out s s' hts h
        cases (ExpandM.expandText_unlines setup (reentry setup depth) hts s).symm.trans h
        exact ⟨rfl, Segment.lines_unlines_expanded hts⟩
      · exact ExpandM.follows_expandNested hsetup ih

end TensorTemplate
