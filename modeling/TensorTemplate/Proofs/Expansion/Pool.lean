import TensorTemplate.Proofs.Expansion.Step
import TensorTemplate.Proofs.Expansion.Top

/-!
What pools do, as steps of the view.

A pool that belongs to the frame on top changes that frame's lines and what the
pool holds, and nothing else of the stack. A deposit is one step, provided that
the declarations it writes are plain lines; so are setting a boundary and holding
what waits.
-/

namespace TensorTemplate

namespace ExpandM

section View

variable {s : State} {f : Frame} {fs : List Frame} (hframes : s.stack.frames = f :: fs)

include hframes

theorem view_frames : s.view.frames = f.live :: fs.map Frame.live := by
  simp [State.view, hframes]

theorem view_withTop {g : Frame} (h : g.live = f.live) : (s.withTop g).view = s.view := by
  simp only [State.view, frames_withTop hframes, hframes, List.map_cons, h]
  rfl

end View

end ExpandM

/-! ### What a pool may touch -/

namespace State

/-- The second state comes from the first by steps, and the stacks differ at most in the lines and
the pool of the frame on top. -/
structure Touches (b : Backend) (s s' : State) : Prop where
  frames : ∀ {f fs}, s.stack.frames = f :: fs → ∃ f', s'.stack.frames = f' :: fs ∧ f.Alike f'
  run : View.Run b s.view s'.view

variable {b : Backend} {s t u : State}

theorem Touches.refl (s : State) : s.Touches b s where
  frames := fun {f _} hf => ⟨f, hf, .refl f⟩
  run := .refl

theorem Touches.trans (hst : Touches b s t) (htu : Touches b t u) : Touches b s u where
  frames := by
    intro f fs hf
    obtain ⟨g, hg, hfg⟩ := hst.frames hf
    obtain ⟨h, hh, hgh⟩ := htu.frames hg
    exact ⟨h, hh, hfg.trans hgh⟩
  run := hst.run.trans htu.run

theorem Touches.of_run {f f' : Frame} {fs : List Frame} (hframes : s.stack.frames = f :: fs)
    (hframes' : t.stack.frames = f' :: fs) (halike : f.Alike f') (h : View.Run b s.view t.view) :
    s.Touches b t where
  frames := by
    intro g gs hg
    rw [hframes] at hg
    cases hg
    exact ⟨f', hframes', halike⟩
  run := h

theorem Touches.of_step {f f' : Frame} {fs : List Frame} (hframes : s.stack.frames = f :: fs)
    (hframes' : t.stack.frames = f' :: fs) (halike : f.Alike f')
    (h : View.Step b ⟨s.temporaries, f.live :: fs.map Frame.live, s.stack.nextId, s.journal⟩
      ⟨t.temporaries, f'.live :: fs.map Frame.live, t.stack.nextId, t.journal⟩) :
    s.Touches b t := by
  refine .of_run hframes hframes' halike (.single ?_)
  rwa [view, view, hframes, hframes']

theorem Touches.tidy (h : s.Touches b t) (hs : s.view.Tidy b) : t.view.Tidy b :=
  View.Run.keeps View.Step.tidy h.run hs

end State

/-- Texts of lines without calls are expanded line by line, and nothing else happens. -/
def Reentry.Quiet (re : Reentry) : Prop :=
  ∀ {ts : List String} {out : String} {s s' : State},
    (∀ t ∈ ts, Segment.NoCalls t ∧ '\n' ∉ t.toList) →
      re.expandText (Text.unlines ts) s = .ok out s' →
        s' = s ∧ Text.lines out = ts.map Segment.shown

/-- A pattern that declarations were written by, if it is not the backend's own, shows name and
target and makes no calls. -/
def FrameEvent.PlainPattern (b : Backend) : FrameEvent → Prop
  | declares pattern _ declarations =>
    pattern ≠ b.defaultDeclaration → ∀ d ∈ declarations,
      Text.contains pattern "$1" = true ∧ Text.contains pattern "$2" = true ∧
        Segment.NoCalls (d.instantiate pattern)
  | _ => True

instance (b : Backend) : DecidablePred (FrameEvent.PlainPattern b)
  | .declares pattern _ declarations =>
    inferInstanceAs (Decidable (pattern ≠ b.defaultDeclaration → ∀ d ∈ declarations,
      Text.contains pattern "$1" = true ∧ Text.contains pattern "$2" = true ∧
        Segment.NoCalls (d.instantiate pattern)))
  | .opened _ | .named _ | .called _ | .bounded _ | .boundedAtStart | .wrote _ | .merged _
  | .closed _ => isTrue trivial

/-- All patterns that declarations were written by are plain. -/
def Journal.PlainPatterns (b : Backend) (journal : Journal) : Prop :=
  ∀ e ∈ journal, e.2.PlainPattern b

instance (b : Backend) (journal : Journal) : Decidable (journal.PlainPatterns b) :=
  inferInstanceAs (Decidable (∀ e ∈ journal, e.2.PlainPattern b))

theorem Journal.PlainPatterns.of_suffix {b : Backend} {journal journal' : Journal}
    (h : journal'.PlainPatterns b) (hsuffix : journal <:+ journal') : journal.PlainPatterns b :=
  fun e he => h e (hsuffix.subset he)

/-! ### Deposits -/

namespace Held

/-- What is held with clean texts is declared by plain lines. -/
theorem Clean.plainLine_texts {h : Held} (hh : h.Clean) {b : Backend} {pattern : String}
    (hnewline : '\n' ∉ pattern.toList)
    (hpattern : (FrameEvent.declares pattern h.lambdas h.declarations).PlainPattern b) :
    ∀ t ∈ h.texts b pattern, Segment.PlainLine t.2 := by
  intro t ht
  rcases List.mem_append.1 ht with ht | ht
  · obtain ⟨r, hr, rfl⟩ := List.mem_map.1 ht
    exact (hh.lambdas r hr).plainLine_declare b
  · obtain ⟨d, hd, rfl⟩ := List.mem_map.1 ht
    have hclean := hh.declarations d hd
    by_cases hdefault : pattern = b.defaultDeclaration
    · subst hdefault
      exact hclean.plainLine_instantiate (Declaration.check_defaultDeclaration b) hnewline
        (hclean.noCalls_instantiate b)
    · obtain ⟨hname, htarget, hcalls⟩ := hpattern hdefault d hd
      exact hclean.plainLine_instantiate (Declaration.check_eq_ok hname htarget) hnewline hcalls

theorem names_of_isEmpty {h : Held} (hempty : h.isEmpty = true) : h.names = [] := by
  simpa [isEmpty, names] using hempty

theorem unlines_texts (b : Backend) (pattern : String) (h : Held) :
    Text.unlines (h.lambdas.map (·.declare b)) ++
        String.join (h.declarations.map fun d => d.instantiate pattern ++ "\n") =
      Text.unlines ((h.texts b pattern).map (·.2)) := by
  simp [Text.unlines, texts, Function.comp_def]

end Held

namespace ExpandM

variable {re : Reentry} {b : Backend} {s s' : State} {f : Frame} {fs : List Frame} {pool : Pool}

/-- Plain declarations are written at the boundary, one after the other, and the caches are
cleared. -/
theorem writeDeclarations_of_plain (hquiet : re.Quiet) (hframes : s.stack.frames = f :: fs)
    (hbackend : s.temporaries.lambdas.backend = b)
    (hlines : ∀ t ∈ (pool.held.add s.temporaries.toHeld).texts b pool.pattern,
      Segment.PlainLine t.2)
    (h : writeDeclarations re f.id pool s = .ok () s') :
    ∃ diagnostics,
      s' = State.withTop { s with temporaries := s.temporaries.clear, diagnostics }
        { f with
          buffer :=
            { f.buffer with
              ahead := (((pool.held.add s.temporaries.toHeld).texts b pool.pattern).flatMap fun t =>
                f.buffer.style.applyAll (Segment.shown t.2)).reverse ++ f.buffer.ahead } } := by
  obtain ⟨text, diagnostics, htext, hcases⟩ := writeDeclarations_ok h
  refine ⟨diagnostics, ?_⟩
  have htexts : text =
      Text.unlines (((pool.held.add s.temporaries.toHeld).texts b pool.pattern).map (·.2)) := by
    rw [htext, hbackend]
    exact Held.unlines_texts b pool.pattern (pool.held.add s.temporaries.toHeld)
  generalize (pool.held.add s.temporaries.toHeld).texts b pool.pattern = texts at hlines htexts ⊢
  rcases hcases with ⟨hempty, rfl⟩ | ⟨expanded, t, hexpand, hwrite⟩
  · rw [htexts] at hempty
    have hnil : texts = [] := by simpa using Text.isEmpty_unlines.1 hempty
    rw [hnil]
    exact (withTop_self (by exact hframes)).symm
  · rw [htexts] at hexpand
    obtain ⟨rfl, hcut⟩ := hquiet (by
      intro text htext
      obtain ⟨t, ht, rfl⟩ := List.mem_map.1 htext
      exact ⟨(hlines t ht).noCalls, (hlines t ht).newline_notMem⟩) hexpand
    obtain ⟨buffer, hbuffer, rfl⟩ := onBuffer_ok (by exact hframes) hwrite
    rw [hcut] at hbuffer
    rw [writeAllToTag_ok hbuffer]
    simp [List.flatMap_map]

/-- At a boundary, a deposit is one step that leaves nothing to be declared. -/
theorem deposit_touches_of_set (hre : re.Grows) (hquiet : re.Quiet)
    (hframes : s.stack.frames = f :: fs) (hpool : f.pool = some pool) (hset : pool.isSet = true)
    (htidy : s.view.Tidy b) (h : deposit re f.id s = .ok () s')
    (hplain : s'.journal.PlainPatterns b) : s.Touches b s' ∧ s'.view.Drained := by
  have hlive : f.live ∈ s.view.frames := view_frames hframes ▸ List.mem_cons_self
  have hpattern := htidy.pattern _ hlive
  have hheld := htidy.held _ hlive
  rw [Frame.live_eq hpool] at hpattern hheld
  rw [deposit_of_set hframes hpool hset] at h
  -- the event is in the journal by the time that the declarations are written
  have hevent := (Grows.of_ok (keeps_writeDeclarations hre _ _) h).subset List.mem_cons_self
  have hlines : ∀ u ∈ (pool.held.add s.temporaries.toHeld).texts b pool.pattern,
      Segment.PlainLine u.2 :=
    (hheld.add htidy.sound.clean_toHeld).plainLine_texts hpattern (hplain _ hevent)
  have htop : ((s.withTop { f with pool := some { pool with held := {} } }).record f.id
      (.declares pool.pattern (pool.held.add s.temporaries.toHeld).lambdas
        (pool.held.add s.temporaries.toHeld).declarations)).stack.frames =
      { f with pool := some { pool with held := {} } } :: fs := frames_withTop hframes _
  obtain ⟨diagnostics, rfl⟩ := writeDeclarations_of_plain hquiet htop htidy.backend hlines h
  have htop' := frames_withTop
    (s := { s.withTop { f with pool := some { pool with held := {} } } with diagnostics }) htop
  refine ⟨.of_step hframes (htop' _) ⟨rfl, rfl, rfl, rfl, fun _ => rfl⟩ ?_, ?_, ?_⟩
  · rw [Frame.live_eq hpool]
    exact .deposit (v := ⟨s.temporaries, _, s.stack.nextId, s.journal⟩) (f := f.liveWith pool) rfl
      hset hlines
  · exact Temporaries.waiting_clear _
  · intro f' fs' hframes'
    cases (view_frames (htop' _)).symm.trans hframes'
    rfl

section Pools

variable (hre : re.Grows) (hquiet : re.Quiet) (hframes : s.stack.frames = f :: fs)
  (hpool : f.pool = some pool) (htidy : s.view.Tidy b)

include hre hquiet hframes hpool htidy

theorem deposit_touches (h : deposit re f.id s = .ok () s') (hplain : s'.journal.PlainPatterns b) :
    s.Touches b s' ∧ (pool.isSet = false ∧ s' = s ∨ s'.view.Drained) := by
  cases hset : pool.isSet with
  | false =>
      rw [deposit_of_unset hframes hpool hset] at h
      cases h
      exact ⟨.refl s, Or.inl ⟨rfl, rfl⟩⟩
  | true =>
      obtain ⟨htouches, hdrained⟩ := deposit_touches_of_set hre hquiet hframes hpool hset htidy h hplain
      exact ⟨htouches, Or.inr hdrained⟩

/-- A boundary is set after a deposit at the one before it. -/
theorem setBoundary_touches {backend : Backend} {pattern line : String}
    (hpattern : '\n' ∉ pattern.toList) (h : setBoundary backend re f.id pattern s = .ok line s')
    (hplain : s'.journal.PlainPatterns b) : s.Touches b s' := by
  obtain ⟨t, hdeposit, hgrows, hset⟩ := setBoundary_ok h
  obtain ⟨htouches, hdone⟩ :=
    deposit_touches hre hquiet hframes hpool htidy hdeposit (hplain.of_suffix hgrows)
  obtain ⟨g, hg, halike⟩ := htouches.frames hframes
  obtain ⟨pool', hpool'⟩ := Option.isSome_iff_exists.1 (halike.pool (hpool ▸ rfl))
  have hdrained : pool'.isSet = true → pool'.held.names = [] ∧ t.temporaries.waiting = [] := by
    intro hset
    rcases hdone with ⟨hunset, rfl⟩ | hdrained
    · rw [hframes] at hg
      cases hg
      rw [hpool] at hpool'
      cases hpool'
      rw [hunset] at hset
      cases hset
    · have hheld := hdrained.held (view_frames hg)
      rw [Frame.live_eq hpool'] at hheld
      exact ⟨hheld, hdrained.waiting⟩
  rw [hset hg halike.id hpool']
  refine htouches.trans (.of_step hg (frames_withTop hg _) ⟨rfl, rfl, rfl, rfl, fun _ => rfl⟩ ?_)
  rw [Frame.live_eq hpool']
  have hstep := View.Step.bound (b := b)
    (v := ⟨t.temporaries, g.liveWith pool' :: fs.map Frame.live, t.stack.nextId, t.journal⟩) rfl
    hpattern hdrained
  simp only [Frame.liveWith, ← Buffer.newest_eq] at hstep
  exact hstep

/-- When a nested template starts, nothing waits in the caches. -/
theorem suspendPool_touches (h : suspendPool re f.id s = .ok () s')
    (hplain : s'.journal.PlainPatterns b) :
    s.Touches b s' ∧ s'.temporaries.waiting = [] := by
  rcases suspendPool_ok hframes hpool h with ⟨hset, h⟩ | ⟨hunset, ⟨hwaiting, rfl⟩ | ⟨_, rfl⟩⟩
  · obtain ⟨htouches, hdrained⟩ :=
      deposit_touches_of_set hre hquiet hframes hpool hset htidy h hplain
    exact ⟨htouches, hdrained.waiting⟩
  · exact ⟨.refl s', hwaiting⟩
  · refine ⟨.of_step hframes (frames_withTop hframes _) ⟨rfl, rfl, rfl, rfl, fun _ => rfl⟩ ?_,
      Temporaries.waiting_clear _⟩
    rw [Frame.live_eq hpool]
    exact .hold (v := ⟨s.temporaries, _, s.stack.nextId, s.journal⟩) (f := f.liveWith pool) rfl
      hunset

omit hre hquiet htidy in
/-- Afterwards there is a boundary, or nothing to be declared. -/
theorem ensureBoundary_touches (h : ensureBoundary f.id s = .ok () s') :
    s.Touches b s' ∧ ∃ f' pool', s'.stack.frames = f' :: fs ∧ f'.pool = some pool' ∧
      (pool'.isSet = true ∨ s'.view.Drained) := by
  rcases ensureBoundary_ok hframes hpool h with
    ⟨hset, rfl⟩ | ⟨hunset, diagnostics, ⟨hheld, hwaiting, rfl⟩ | rfl⟩
  · exact ⟨.refl s', f, pool, hframes, hpool, Or.inl hset⟩
  · refine ⟨.of_run hframes hframes (.refl f) .refl, f, pool, hframes, hpool,
      Or.inr ⟨hwaiting, ?_⟩⟩
    intro g gs hg
    rw [view_frames (by exact hframes)] at hg
    cases hg
    rw [Frame.live_eq hpool]
    exact Held.names_of_isEmpty hheld
  · have htop := frames_withTop (s := { s with diagnostics }) hframes
    refine ⟨.of_step hframes (htop _) ⟨rfl, rfl, rfl, rfl, fun _ => rfl⟩ ?_, _, _, htop _, rfl,
      Or.inl rfl⟩
    rw [Frame.live_eq hpool]
    have hstep := View.Step.boundAtStart (b := b)
      (v := ⟨s.temporaries, f.liveWith pool :: fs.map Frame.live, s.stack.nextId, s.journal⟩) rfl
      hunset
    simp only [Frame.liveWith, ← Buffer.newest_eq] at hstep
    exact hstep

/-- When a buffer is finished, nothing is left to be declared. -/
theorem retirePool_touches (hhandlers : f.buffer.handlers = [])
    (h : retirePool re f.id s = .ok () s') (hplain : s'.journal.PlainPatterns b) :
    s.Touches b s' ∧ s'.view.Drained := by
  obtain ⟨_, t, hensure, h⟩ := bind_ok h
  obtain ⟨_, u, hdeposit, hdrop⟩ := bind_ok h
  have hgrows := Grows.of_ok (keeps_dropHandler f.id) hdrop
  obtain ⟨hst, g, pool₁, hg, hpool₁, hdone⟩ := ensureBoundary_touches (b := b) hframes hpool hensure
  obtain ⟨_, hg', halike₁⟩ := hst.frames hframes
  obtain rfl := (List.cons.inj (hg.symm.trans hg')).1
  rw [← halike₁.id] at hdeposit hdrop
  obtain ⟨htu, hdeposited⟩ := deposit_touches hre hquiet hg hpool₁ (hst.tidy htidy) hdeposit
    (hplain.of_suffix hgrows)
  have hdrained : u.view.Drained := by
    rcases hdeposited with ⟨hunset, rfl⟩ | hdrained
    · rw [hunset] at hdone
      exact hdone.resolve_left Bool.false_ne_true
    · exact hdrained
  obtain ⟨f₂, hframes₂, halike₂⟩ := htu.frames hg
  obtain ⟨pool₂, hpool₂⟩ := Option.isSome_iff_exists.1 (halike₂.pool (hpool₁ ▸ rfl))
  rw [← halike₂.id] at hdrop
  obtain rfl := dropHandler_ok hframes₂ hpool₂
    ((halike₁.trans halike₂).handlers.trans hhandlers) hdrop
  have hview : (u.withTop { f₂ with pool := some { pool₂ with handler := none } }).view = u.view :=
    view_withTop hframes₂ (Frame.live_eq hpool₂).symm
  refine ⟨(hst.trans htu).trans (.of_run hframes₂ (frames_withTop hframes₂ _)
    ⟨rfl, rfl, rfl, rfl, fun _ => rfl⟩ (hview ▸ .refl)), hview ▸ hdrained⟩

end Pools

end ExpandM

end TensorTemplate
