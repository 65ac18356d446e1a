import TensorTemplate.Proofs.Expansion.Balance
import TensorTemplate.Proofs.Expansion.Gate

/-!
Where errors are placed.

A bookmark for each template that is being expanded shows which of its lines have been
begun. An error comes wrapped once for each of them, from the innermost one out, with the
number of the line begun last, or of the last line if the template is being finished; the
header is line 1. What is inside the wrappers is no wrapper.
-/

namespace TensorTemplate

open ExpandM

namespace Bookmark

/-- The number of the line begun last; the header is line 1. -/
def line (mark : Bookmark) : Nat := mark.begun.length + 1

/-- The bookmark stands in the text: the lines begun are the first ones behind the header. The one
begun last is being expanded, or none is left and the text is being finished. -/
structure StandsIn (mark : Bookmark) (text : String) : Prop where
  begun : ∃ header, header :: mark.begun.reverse <+: Text.lines text
  current : mark.finishing = false →
    ∃ line, mark.begun.head? = some line ∧ (Text.lines text)[mark.line - 1]? = some line
  last : mark.finishing = true → mark.line = (Text.lines text).length

variable {template text header line : String} {begun body : List String}

theorem standsIn_line (h : Text.lines text = header :: (begun.reverse ++ line :: body)) :
    StandsIn ⟨template, line :: begun, false⟩ text where
  begun := ⟨header, body, by simp [h]⟩
  current := fun _ => ⟨line, rfl, by simp [h, Bookmark.line]⟩
  last := nofun

theorem standsIn_end (h : Text.lines text = header :: body) :
    StandsIn ⟨template, body.reverse, true⟩ text where
  begun := ⟨header, by simp [h]⟩
  current := nofun
  last := fun _ => by simp [h, Bookmark.line]

/-- The bookmark stands in the text of its template. -/
def Shows (setup : Setup) (files : FileTree) (mark : Bookmark) : Prop :=
  ∃ text, setup.source.load files mark.template = .ok text ∧ mark.StandsIn text

end Bookmark

namespace Error

/-- The error wrapped in the places that bookmarks show, the innermost first. -/
def placedAt (cause : Error) (path : List Bookmark) : Error :=
  path.foldl (fun e mark => .within mark.template mark.line e) cause

theorem placedAt_append (cause : Error) (path : List Bookmark) (mark : Bookmark) :
    cause.placedAt (path ++ [mark]) = .within mark.template mark.line (cause.placedAt path) := by
  simp [placedAt]

theorem root_placedAt (cause : Error) (path : List Bookmark) :
    (cause.placedAt path).root = cause.root := by
  induction path using List.reverseRecOn with
  | nil => rfl
  | append_singleton path mark ih =>
      rw [placedAt_append]
      exact ih

theorem root_of_isBasic {e : Error} (h : e.isBasic = true) : e.root = e := by
  cases e with
  | within template line cause => cases h
  | _ => rfl

end Error

namespace State

/-- The bookmarks and the files are the same. -/
structure SamePlace (s t : State) : Prop where
  bookmarks : t.bookmarks = s.bookmarks
  files : t.files = s.files

theorem SamePlace.trans {s t u : State} (hst : s.SamePlace t) (htu : t.SamePlace u) :
    s.SamePlace u :=
  ⟨htu.bookmarks.trans hst.bookmarks, htu.files.trans hst.files⟩

theorem samePlace_temporaries (s : State) (temporaries : Temporaries) :
    s.SamePlace { s with temporaries } := ⟨rfl, rfl⟩

theorem samePlace_recordOnTop (s : State) (event : FrameEvent) :
    s.SamePlace (s.recordOnTop event) := by
  unfold recordOnTop
  split <;> exact ⟨rfl, rfl⟩

/-- The bookmarks left behind by a failure, on top of those that were there before, are where the
error is placed. -/
structure Traces (setup : Setup) (s : State) (path : List Bookmark) (e : Error) (t : State) :
    Prop where
  bookmarks : t.bookmarks = path ++ s.bookmarks
  error : ∃ cause : Error, cause.isBasic = true ∧ e = cause.placedAt path
  shows : ∀ mark ∈ path, mark.Shows setup s.files

namespace Traces

variable {setup : Setup} {s s' t : State} {path : List Bookmark} {e : Error}

theorem here (h : s.SamePlace t) (he : e.isBasic = true) : s.Traces setup [] e t :=
  ⟨h.bookmarks, ⟨e, he, rfl⟩, nofun⟩

theorem of_samePlace (h : s.SamePlace s') (hfail : s'.Traces setup path e t) :
    s.Traces setup path e t where
  bookmarks := h.bookmarks ▸ hfail.bookmarks
  error := hfail.error
  shows := h.files ▸ hfail.shows

/-- A failure on a line of the template that the bookmark stands in. -/
theorem wrap {mark : Bookmark} (hmarks : s'.bookmarks = mark :: s.bookmarks)
    (hfiles : s'.files = s.files) (hmark : mark.Shows setup s.files)
    (hfail : s'.Traces setup path e t) :
    s.Traces setup (path ++ [mark]) (.within mark.template mark.line e) t where
  bookmarks := by rw [hfail.bookmarks, hmarks, List.append_cons]
  error := by
    obtain ⟨cause, hcause, rfl⟩ := hfail.error
    exact ⟨cause, hcause, (cause.placedAt_append path mark).symm⟩
  shows := by
    intro m hm
    rcases List.mem_append.1 hm with hm | hm
    · exact hfiles ▸ hfail.shows m hm
    · exact List.mem_singleton.1 hm ▸ hmark

end Traces

/-- The failure is placed in this template, perhaps far inside. -/
def FailsIn (setup : Setup) (s : State) (template : String) (e : Error) (t : State) : Prop :=
  ∃ path mark, mark.template = template ∧ s.Traces setup (path ++ [mark]) e t

end State

namespace ExpandM

/-- After a success the state has the first property; an error and the state after it have the
second one. -/
structure Concludes {α : Type} (x : ExpandM α) (s : State) (P : State → Prop)
    (E : Error → State → Prop) : Prop where
  ok : ∀ {a t}, x s = .ok a t → P t
  error : ∀ {e t}, x s = .error e t → E e t

namespace Concludes

variable {α β : Type} {x : ExpandM α} {k : α → ExpandM β} {s t : State} {P Q : State → Prop}
  {E F : Error → State → Prop}

theorem of_ok {a : α} (hx : x s = .ok a t) (h : P t) : Concludes x s P E where
  ok := by
    intro b u hb
    cases hx.symm.trans hb
    exact h
  error := fun he => nomatch hx.symm.trans he

theorem of_error {e : Error} (hx : x s = .error e t) (h : E e t) : Concludes x s P E where
  ok := fun ha => nomatch hx.symm.trans ha
  error := by
    intro e' u he
    cases hx.symm.trans he
    exact h

theorem of_eq {y : ExpandM α} (h : x s = y t) (hy : Concludes y t P E) : Concludes x s P E :=
  ⟨fun hx => hy.ok (h.symm.trans hx), fun hx => hy.error (h.symm.trans hx)⟩

theorem mono (h : Concludes x s P E) (hP : ∀ t, P t → Q t) (hE : ∀ e t, E e t → F e t) :
    Concludes x s Q F :=
  ⟨fun hx => hP _ (h.ok hx), fun hx => hE _ _ (h.error hx)⟩

theorem after_ok {a : α} (hx : x s = .ok a t) (h : Concludes (k a) t P E) :
    Concludes (x >>= k) s P E := by
  refine ⟨?_, ?_⟩
  · rw [bind_eq hx]
    exact h.ok
  · rw [bind_eq hx]
    exact h.error

protected theorem bind (hx : Concludes x s P E)
    (hk : ∀ a t, x s = .ok a t → P t → Concludes (k a) t Q E) : Concludes (x >>= k) s Q E := by
  cases hrun : x s with
  | ok a t => exact after_ok hrun (hk a t hrun (hx.ok hrun))
  | error e t =>
      exact of_error (bind_eq_error hrun) (hx.error hrun)

/-- What comes of an attempt. -/
theorem attempt (h : Concludes x s P E) {outcome : Except Error α}
    (hx : attempt x s = .ok outcome t) :
    (∀ a, outcome = .ok a → P t) ∧ ∀ e, outcome = .error e → E e t := by
  unfold ExpandM.attempt at hx
  cases hrun : x s with
  | ok a u =>
      rw [hrun] at hx
      cases hx
      exact ⟨fun _ _ => h.ok hrun, nofun⟩
  | error e u =>
      rw [hrun] at hx
      cases hx
      refine ⟨nofun, ?_⟩
      rintro _ ⟨⟩
      exact h.error hrun

end Concludes

/-- A success leaves the bookmarks as they were, and a failure is placed where they show. -/
def Located (setup : Setup) {α : Type} (x : ExpandM α) (s : State) : Prop :=
  Concludes x s s.SamePlace fun e t => ∃ path, s.Traces setup path e t

theorem Located.of_samePlace {setup : Setup} {α : Type} {x : ExpandM α} {s t : State}
    (h : s.SamePlace t) (hx : Located setup x t) :
    Concludes x t s.SamePlace fun e u => ∃ path, s.Traces setup path e u :=
  hx.mono (fun _ hu => h.trans hu) fun _ _ ⟨path, hpath⟩ => ⟨path, hpath.of_samePlace h⟩

/-- On a local frame of this number, the action is balanced and its failures are placed. -/
structure Locates (setup : Setup) (id : Nat) {α : Type} (x : ExpandM α) : Prop
    extends Balances setup id x where
  located : ∀ {s : State} {f : Frame} {fs : List Frame}, s.stack.frames = f :: fs → f.id = id →
    f.Local setup → Located setup x s

end ExpandM

/-- Failures on the ways back into expanding are placed. -/
structure Reentry.Locates (setup : Setup) (re : Reentry) : Prop where
  nested : ∀ {id} template options, ExpandM.Locates setup id (re.nested template options)
  expandText : ∀ {id} text, ExpandM.Locates setup id (re.expandText text)

theorem Reentry.Locates.balances {setup : Setup} {re : Reentry} (hre : re.Locates setup) :
    re.Balances setup :=
  ⟨fun template options => (hre.nested template options).toBalances,
    fun text => (hre.expandText text).toBalances⟩

namespace ExpandM

namespace Locates

variable {setup : Setup} {id : Nat} {α β : Type}

protected theorem pure (a : α) : Locates setup id (pure a) :=
  ⟨.pure a, fun _ _ _ => .of_ok rfl ⟨rfl, rfl⟩⟩

protected theorem throw {e : Error} (he : e.isBasic = true) :
    Locates setup id (throw e : ExpandM α) :=
  ⟨.throw (Error.isMissing_eq_false_of_isBasic he),
    fun _ _ _ => .of_error rfl ⟨[], .here ⟨rfl, rfl⟩ he⟩⟩

protected theorem get : Locates setup id (get : ExpandM State) :=
  ⟨.get, fun _ _ _ => .of_ok rfl ⟨rfl, rfl⟩⟩

protected theorem bind {x : ExpandM α} {k : α → ExpandM β} (hx : Locates setup id x)
    (hk : ∀ a, Locates setup id (k a)) : Locates setup id (x >>= k) where
  toBalances := hx.toBalances.bind fun a => (hk a).toBalances
  located := by
    intro s f fs hframes hid hf
    refine (hx.located hframes hid hf).bind fun a t hrun hplace => ?_
    obtain ⟨g, hg, hfg⟩ := (hx.ends hframes hid hf).after
    rw [stateAfter, hrun] at hg
    exact Located.of_samePlace hplace ((hk a).located hg (hfg.id.trans hid) (hfg.isLocal hf))

protected theorem forM {k : α → ExpandM PUnit} {as : List α}
    (hk : ∀ a ∈ as, Locates setup id (k a)) : Locates setup id (as.forM k) := by
  induction as with
  | nil => exact .pure _
  | cons a as ih =>
      exact (hk a List.mem_cons_self).bind fun _ => ih fun b hb => hk b (List.mem_cons_of_mem _ hb)

/-- An action that succeeds and leaves the stack, the bookmarks and the files alone. -/
theorem of_stack {x : ExpandM α}
    (h : ∀ s, ∃ a t, x s = .ok a t ∧ t.stack = s.stack ∧ s.SamePlace t) : Locates setup id x where
  toBalances := .of_stack fun s => by
    obtain ⟨a, t, hx, hstack, -⟩ := h s
    exact ⟨a, t, hx, hstack⟩
  located := by
    intro s f fs _ _ _
    obtain ⟨a, t, hx, -, hplace⟩ := h s
    exact .of_ok hx hplace

protected theorem modify {g : State → State} (hstack : ∀ s, (g s).stack = s.stack)
    (hplace : ∀ s : State, s.SamePlace (g s)) : Locates setup id (modify g : ExpandM Unit) :=
  of_stack fun s => ⟨(), g s, rfl, hstack s, hplace s⟩

end Locates

section Actions

variable {setup : Setup} {id : Nat}

theorem locates_recordOnTop (event : FrameEvent) : Locates setup id (recordOnTop event) :=
  .modify (fun s => stack_recordOnTop s event) fun s => s.samePlace_recordOnTop event

theorem locates_emit (e : Expr) : Locates setup id (emit e) := by
  refine .of_stack fun s => ⟨_, _, emit_eq e s, stack_recordOnTop _ _, ?_⟩
  exact (State.samePlace_temporaries s _).trans (State.samePlace_recordOnTop _ _)

theorem locates_cacheLambda (l : Lambda) : Locates setup id (cacheLambda l) := by
  refine .of_stack fun s => ⟨_, _, cacheLambda_eq l s, stack_recordOnTop _ _, ?_⟩
  exact (State.samePlace_temporaries s _).trans (State.samePlace_recordOnTop _ _)

theorem locates_topFrame : Locates setup id topFrame :=
  ⟨balances_topFrame, fun hframes _ _ => .of_ok (topFrame_eq hframes) ⟨rfl, rfl⟩⟩

theorem locates_frame : Locates setup id (frame id) where
  toBalances := balances_frame
  located := by
    rintro s f fs hframes rfl _
    exact .of_ok (frame_eq hframes) ⟨rfl, rfl⟩

theorem locates_poolOf : Locates setup id (poolOf id) where
  toBalances := balances_poolOf
  located := by
    rintro s f fs hframes rfl hf
    obtain ⟨pool, hpool⟩ := Option.isSome_iff_exists.1 hf.pool
    exact .of_ok (poolOf_eq hframes hpool) ⟨rfl, rfl⟩

theorem locates_setPool (pool : Pool) : Locates setup id (setPool id pool) where
  toBalances := balances_setPool pool
  located := by
    rintro s f fs hframes rfl _
    exact .of_ok (setPool_eq hframes pool) ⟨rfl, rfl⟩

theorem locates_rules {α : Type} {k : Registry → ExpandM α}
    (hk : ∀ pass, Locates setup id (k (addRules {} (builtinRules setup.model id pass)))) :
    Locates setup id (do k (← ofExcept (← get).stack.registry)) where
  toBalances := balances_rules fun pass => (hk pass).toBalances
  located := by
    rintro s f fs hframes rfl hf
    have hregistry : ofExcept s.stack.registry s =
        .ok (addRules {} (builtinRules setup.model f.id f.pass)) s := by
      rw [registry_eq hframes hf.registry]
      rfl
    exact .after_ok rfl (.after_ok hregistry ((hk f.pass).located hframes rfl hf))

theorem changeBuffer_located {s : State} {f : Frame} {fs : List Frame}
    (hframes : s.stack.frames = f :: fs) {change : Buffer → Except Error Buffer}
    (hchange : Buffer.Modest change) : Located setup (changeBuffer f change) s := by
  unfold changeBuffer
  cases hbuffer : change f.buffer with
  | ok buffer => exact .of_ok (setFrame_eq hframes rfl) ⟨rfl, rfl⟩
  | error e =>
      have hbasic := (hchange.placed f.buffer).isBasic e hbuffer
      exact .of_error rfl ⟨[], .here ⟨rfl, rfl⟩ hbasic⟩

variable {change : Buffer → Except Error Buffer} (hchange : Buffer.Modest change)

include hchange

theorem locates_onTopBuffer : Locates setup id (onTopBuffer change) where
  toBalances := balances_onTopBuffer hchange
  located := fun hframes _ _ =>
    .after_ok (topFrame_eq hframes) (changeBuffer_located hframes hchange)

theorem locates_onBuffer : Locates setup id (onBuffer id change) where
  toBalances := balances_onBuffer hchange
  located := by
    rintro s f fs hframes rfl _
    exact .after_ok (frame_eq hframes) (changeBuffer_located hframes hchange)

end Actions

/-! ### Pools, handlers and lines -/

section Lines

variable {setup : Setup} {re : Reentry} {id : Nat} (hre : re.Locates setup)

include hre

theorem Chore.locates {α : Type} {x : ExpandM α} (h : Chore re id x) : Locates setup id x := by
  induction h with
  | pure a => exact .pure a
  | bind _ _ hx hk => exact hx.bind hk
  | get _ _ hk => exact .bind .get hk
  | frame _ _ hk => exact locates_frame.bind hk
  | poolOf => exact locates_poolOf
  | setPool pool => exact locates_setPool pool
  | onBuffer hchange => exact locates_onBuffer hchange.modest
  | record => exact .modify (fun _ => rfl) fun _ => ⟨rfl, rfl⟩
  | renderDeclarations pattern held =>
      refine .of_stack fun s => ?_
      obtain ⟨diagnostics, hrender⟩ := renderDeclarations_eq pattern held s
      exact ⟨_, _, hrender, rfl, ⟨rfl, rfl⟩⟩
  | clearTemporaries => exact .modify (fun _ => rfl) fun _ => ⟨rfl, rfl⟩
  | expandText text => exact hre.expandText text
  | warn message => exact .modify (fun _ => rfl) fun _ => ⟨rfl, rfl⟩
  | note line => exact .modify (fun _ => rfl) fun _ => ⟨rfl, rfl⟩

theorem Routine.locates {α : Type} {x : ExpandM α} (h : Routine setup re id x) :
    Locates setup id x := by
  induction h with
  | pure a => exact .pure a
  | throw he => exact .throw he
  | bind _ _ hx hk => exact hx.bind hk
  | template g => exact locates_topFrame.bind fun _ => .pure _
  | rules _ _ hk => exact locates_rules hk
  | count n => exact .modify (fun _ => rfl) fun _ => ⟨rfl, rfl⟩
  | see sight => exact .modify (fun _ => rfl) fun _ => ⟨rfl, rfl⟩
  | emit => exact locates_emit _
  | cacheLambda => exact locates_cacheLambda _
  | setBoundary => exact (chore_setBoundary re id _ _).locates hre
  | nested template _ => exact hre.nested template _
  | write text =>
      exact (locates_onTopBuffer (Buffer.modest_append _)).bind fun _ => locates_recordOnTop _

theorem locates_finishTop : Locates setup id (finishTop re) where
  toBalances := balances_finishTop hre.balances
  located := by
    intro s f fs hframes hid hf
    set g : Frame := { f with buffer := f.buffer.takeHandlers.2 }
    have hclosing : Locates setup id (f.buffer.takeHandlers.1.forM (handle re .close)) := by
      refine .forM fun handler hmem => (chore_handle re .close ?_).locates hre
      exact hid ▸ hf.staysOn_of_mem_takeHandlers hmem
    have hrest := hclosing.bind fun _ => locates_onTopBuffer Buffer.modest_close
    refine .after_ok (topFrame_eq hframes) (.after_ok (setFrame_eq hframes rfl) ?_)
    have hplace : s.SamePlace (s.withTop g) := ⟨rfl, rfl⟩
    exact Located.of_samePlace hplace (hrest.located (frames_withTop hframes g) hid
      ((Frame.Lasts.ofTakeHandlers f).isLocal hf))

end Lines

end ExpandM

/-! ### Bodies -/

namespace State

/-- The frame is on top, perhaps later on, and the bookmark is the innermost one, above those of the
first state. -/
structure InBody (base : State) (f : Frame) (fs : List Frame) (mark : Bookmark) (s : State) :
    Prop where
  onTop : s.OnTop f fs
  bookmarks : s.bookmarks = mark :: base.bookmarks
  files : s.files = base.files

theorem InBody.trackTop {base s : State} {f : Frame} {fs : List Frame} {mark : Bookmark}
    (h : base.InBody f fs mark s) (change : Bookmark → Bookmark) :
    base.InBody f fs (change mark) (s.track (List.modifyHead change)) where
  onTop := h.onTop
  bookmarks := by
    rw [track, h.bookmarks]
    rfl
  files := h.files

end State

namespace ExpandM

section Bodies

variable {setup : Setup} {re : Reentry} {base : State} {f : Frame} {fs : List Frame}
  (hf : f.Local setup)

include hf

/-- What goes wrong for a line, or at the end, is placed where the bookmark stands. -/
theorem within_concludes {α : Type} {x : ExpandM α} (hx : Locates setup f.id x) {mark : Bookmark}
    (hmark : mark.Shows setup base.files) {s : State} (hs : base.InBody f fs mark s) :
    Concludes (within mark.template mark.line x) s (base.InBody f fs mark)
      (base.FailsIn setup mark.template) := by
  obtain ⟨⟨g, hg, hfg⟩, hmarks, hfiles⟩ := hs
  have hafter := (hx.ends hg hfg.id (hfg.isLocal hf)).after
  have hlocated := hx.located hg hfg.id (hfg.isLocal hf)
  cases hrun : x s with
  | ok a t =>
      have hwithin : within mark.template mark.line x s = .ok a t := by rw [within, hrun]
      have hplace := hlocated.ok hrun
      rw [stateAfter, hrun] at hafter
      obtain ⟨h, hh, hgh⟩ := hafter
      exact .of_ok hwithin ⟨⟨h, hh, hfg.trans hgh⟩, hplace.bookmarks.trans hmarks,
        hplace.files.trans hfiles⟩
  | error e t =>
      have hwithin : within mark.template mark.line x s =
          .error (.within mark.template mark.line e) t := by rw [within, hrun]
      obtain ⟨path, hpath⟩ := hlocated.error hrun
      exact .of_error hwithin ⟨path, mark, rfl, hpath.wrap hmarks hfiles hmark⟩

variable {template text header : String} (hload : setup.source.load base.files template = .ok text)

include hload

/-- The lines that are left of a template are counted on from those begun. -/
theorem writeLines_concludes {begun body : List String}
    (htext : Text.lines text = header :: (begun.reverse ++ body))
    (hlines : ∀ line ∈ body, Locates setup f.id (writeLine setup re line)) {s : State}
    (hs : base.InBody f fs ⟨template, begun, false⟩ s) :
    Concludes ((body.zipIdx (begun.length + 2)).mapM fun (line, number) => do
        trackTop fun mark => { mark with begun := line :: mark.begun }
        within template number (writeLine setup re line)) s
      (base.InBody f fs ⟨template, body.reverse ++ begun, false⟩)
      (base.FailsIn setup template) := by
  induction body generalizing begun s with
  | nil => exact .of_ok rfl hs
  | cons line body ih =>
      obtain ⟨hline, hbody⟩ := List.forall_mem_cons.1 hlines
      -- the number counted for the line is that of the bookmark once the line is begun
      have hmark : Bookmark.Shows setup base.files ⟨template, line :: begun, false⟩ :=
        ⟨text, hload, Bookmark.standsIn_line htext⟩
      have hstep := within_concludes hf hline hmark
        (hs.trackTop fun mark => { mark with begun := line :: mark.begun })
      have hrest : Text.lines text = header :: ((line :: begun).reverse ++ body) := by simp [htext]
      rw [List.zipIdx_cons, List.mapM_cons]
      refine .bind (.after_ok rfl hstep) fun _ t _ ht => .bind (ih hrest hbody ht) ?_
      intro _ u _ hu
      rw [List.reverse_cons, List.append_assoc]
      exact .of_ok rfl hu

/-- A body fails in its own template. -/
theorem runBody_concludes {body : List String} (htext : Text.lines text = header :: body)
    (hlines : ∀ line ∈ body, Locates setup f.id (writeLine setup re line))
    (hfinish : Locates setup f.id (finishTop re)) {s : State} (hs : s.stack.frames = f :: fs)
    (hplace : base.SamePlace s) :
    Concludes (runBody setup re template body) s base.SamePlace (base.FailsIn setup template) := by
  have hstart : base.InBody f fs ⟨template, [], false⟩ (s.track (⟨template, [], false⟩ :: ·)) :=
    ⟨⟨f, hs, .refl f⟩, congrArg _ hplace.bookmarks, hplace.files⟩
  have hend : Bookmark.Shows setup base.files ⟨template, body.reverse, true⟩ :=
    ⟨text, hload, Bookmark.standsIn_end htext⟩
  have hlength : 1 + body.length = Bookmark.line ⟨template, body.reverse, true⟩ := by
    simp [Bookmark.line, Nat.add_comm]
  refine .after_ok rfl (.bind (P := base.InBody f fs ⟨template, body.reverse, false⟩) ?_ ?_)
  · refine .bind (writeLines_concludes hf hload htext hlines hstart) fun _ t _ ht => .of_ok rfl ?_
    rwa [List.append_nil] at ht
  · intro count t _ ht
    refine .after_ok rfl ?_
    have hfinished := within_concludes hf hfinish hend
      (ht.trackTop fun mark => { mark with finishing := true })
    rw [hlength]
    refine .bind hfinished fun _ u _ hu => .after_ok rfl (.of_ok rfl ⟨?_, hu.files⟩)
    show u.bookmarks.tail = base.bookmarks
    rw [hu.bookmarks]
    rfl

end Bodies

/-! ### Templates -/

theorem isBasic_of_rejects {template backend line : String} {available : Version} {e : Error}
    (h : Header.Rejects template backend available line e) : e.isBasic = true := by
  cases h <;> rfl

section Templates

variable {setup : Setup} {re : Reentry} (hpackages : setup.packages = []) (hgrows : re.Grows)
  (hre : re.Locates setup)

include hpackages hgrows hre

/-- A template whose first line fits fails in its own lines. -/
theorem expandTemplate_concludes {buffer : Buffer}
    (hbuffer : ∀ id, ∀ h ∈ buffer.handlers, h.2.StaysOn id) {s : State}
    {template text line body : String} (hload : setup.source.load s.files template = .ok text)
    (hcut : Header.Cut text line body)
    (hfits : Header.Fits setup.settings.backend setup.settings.version line) (pass : Pass) :
    Concludes (expandTemplate setup re template buffer pass) s s.SamePlace
      (s.FailsIn setup template) := by
  obtain ⟨v, hasks, -⟩ := id hfits
  obtain ⟨header, htext⟩ := Header.exists_lines_eq hcut (Header.ne_empty_of_asks hasks)
  set opened := s.opened buffer pass template
  let f : Frame := { id := s.stack.nextId, buffer, pass, template }
  have hf : opened.stack.frames = f :: s.stack.frames := rfl
  have hlines : ∀ line ∈ Text.lines body,
      Locates setup f.id (writeLine setup (re.forLines f.id) line) := fun line hline =>
    (routine_writeLine setup hgrows f.id (Text.newline_notMem_of_mem_lines hline)).locates hre
  have hfinish : Locates setup f.id (finishTop (re.forLines f.id)) := by
    rw [finishTop_forLines]
    exact locates_finishTop hre
  have hrun : Concludes (runFrame setup re s.stack.nextId pass template (Text.lines body)) opened
      s.SamePlace (s.FailsIn setup template) :=
    .of_eq (runFrame_eq hpackages hf template (Text.lines body))
      (runBody_concludes (f.isLocal_equip setup (hbuffer _)) hload htext hlines hfinish
        (frames_withTop hf _) ⟨rfl, rfl⟩)
  obtain ⟨outcome, t, g, -, hattempt, hpop, -⟩ :=
    popFrame_pushed hpackages hgrows hre.balances hbuffer s template pass body
  obtain ⟨hok, herror⟩ := hrun.attempt hattempt
  refine .of_eq (expandTemplate_of_fits hload hcut hfits) (.after_ok hattempt (.after_ok hpop ?_))
  cases outcome with
  | ok count => exact .of_ok rfl ((hok count rfl).trans ⟨rfl, rfl⟩)
  | error e =>
      obtain ⟨path, mark, htemplate, hpath⟩ := herror e rfl
      exact .of_error rfl ⟨path, mark, htemplate, hpath.bookmarks, hpath.error, hpath.shows⟩

theorem expandTemplate_located {buffer : Buffer}
    (hbuffer : ∀ id, ∀ h ∈ buffer.handlers, h.2.StaysOn id) (s : State) (template : String)
    (pass : Pass) : Located setup (expandTemplate setup re template buffer pass) s := by
  cases hload : setup.source.load s.files template with
  | error e =>
      have hfail : expandTemplate setup re template buffer pass s = .error e s := by
        rw [expandTemplate, get_bind, hload]
        rfl
      have hbasic := (setup.source.placed_load s.files template).isBasic e hload
      exact .of_error hfail ⟨[], .here ⟨rfl, rfl⟩ hbasic⟩
  | ok text =>
      obtain ⟨line, body, hcut⟩ : ∃ line body, Header.Cut text line body :=
        ⟨_, _, Header.splitFirst_eq_iff.1 rfl⟩
      by_cases hfits : Header.Fits setup.settings.backend setup.settings.version line
      · refine (expandTemplate_concludes hpackages hgrows hre hbuffer hload hcut hfits pass).mono
          (fun _ h => h) ?_
        rintro e t ⟨path, mark, -, hpath⟩
        exact ⟨_, hpath⟩
      · obtain ⟨e, he⟩ := Header.exists_rejects template hfits
        exact .of_error (expandTemplate_of_rejects hload hcut he)
          ⟨[], .here ⟨rfl, rfl⟩ (isBasic_of_rejects he)⟩

theorem locates_expandNested {id : Nat} (template : String) (options : NestedOptions) :
    Locates setup id (expandNested setup re template options) where
  toBalances := balances_expandNested hpackages hgrows hre.balances template options
  located := by
    rintro s f fs hframes rfl hf
    have hsuspend : Locates setup f.id (f.buffer.handlers.forM fun h => handle re .suspend h.2) :=
      .forM fun h hh => (chore_handle re .suspend (hf.handlers h hh)).locates hre
    have hchild : ∀ top : Frame, Locates setup f.id
        (expandTemplate setup re template (options.child top.buffer) top.pass) := by
      intro top
      have hnone : ∀ id, ∀ h ∈ (options.child top.buffer).handlers, h.2.StaysOn id := by
        simp [options.handlers_child]
      exact ⟨balances_expandTemplate hpackages hgrows hre.balances hnone template top.pass,
        fun _ _ _ => expandTemplate_located hpackages hgrows hre hnone _ template top.pass⟩
    have hrest := hsuspend.bind fun _ => locates_topFrame.bind fun top =>
      (hchild top).bind fun result =>
        (locates_onTopBuffer (Buffer.modest_append fun _ => result.1.lines)).bind fun _ =>
          (locates_recordOnTop (.merged result.1.lines)).bind fun _ => .pure result.2
    exact .after_ok (topFrame_eq hframes) (hrest.located hframes rfl hf)

end Templates

end ExpandM

/-- At every depth, failures on the ways back into expanding are placed. -/
theorem locates_reentry {setup : Setup} (hpackages : setup.packages = []) (depth : Nat) :
    (reentry setup depth).Locates setup := by
  induction depth with
  | zero => exact ⟨fun _ _ => .throw rfl, fun _ => .throw rfl⟩
  | succ depth ih =>
      have hgrows : (reentry setup depth).Grows := keeps_reentry setup depth
      exact ⟨ExpandM.locates_expandNested hpackages hgrows ih,
        fun text => (ExpandM.routine_expandText setup hgrows text).locates ih⟩

/-- An expansion with the built-in rules that fails behind the gate fails with an error that is
wrapped once for every template that was being expanded, from the innermost one out to the one asked
for, with the number of the line that was begun last in it or, if it was being finished, of its last
line. Inside the wrappers is an error that is none itself. -/
theorem Setup.error_placedAt {setup : Setup} (hpackages : setup.packages = []) {buffer : Buffer}
    (hbuffer : ∀ h ∈ buffer.handlers, ∃ name, h.2 = .note name) (pass : Pass) {s t : State}
    {template text line body : String} (hload : setup.source.load s.files template = .ok text)
    (hcut : Header.Cut text line body)
    (hfits : Header.Fits setup.settings.backend setup.settings.version line) {e : Error}
    (hfail : setup.expandToBuffer template buffer pass s = .error e t) :
    ∃ path, t.bookmarks = path ++ s.bookmarks ∧
      path.getLast?.map (·.template) = some template ∧
      e = e.root.placedAt path ∧ (∀ place number cause, e.root ≠ .within place number cause) ∧
      ∀ mark ∈ path, ∃ text, setup.source.load s.files mark.template = .ok text ∧
        mark.StandsIn text := by
  have hnotes : ∀ id, ∀ h ∈ buffer.handlers, h.2.StaysOn id := by
    intro id h hh
    obtain ⟨name, hname⟩ := hbuffer h hh
    rw [hname]
    trivial
  rw [expandToBuffer_eq] at hfail
  obtain ⟨path, mark, htemplate, hpath⟩ := (expandTemplate_concludes hpackages
    (keeps_reentry setup _) (locates_reentry hpackages _) hnotes hload hcut hfits pass).error hfail
  obtain ⟨cause, hcause, rfl⟩ := hpath.error
  have hroot : (cause.placedAt (path ++ [mark])).root = cause :=
    (cause.root_placedAt _).trans (Error.root_of_isBasic hcause)
  refine ⟨path ++ [mark], hpath.bookmarks, ?_, ?_, ?_, hpath.shows⟩
  · rw [List.getLast?_concat, Option.map_some, htemplate]
  · rw [hroot]
  · rw [hroot]
    rintro place number inner rfl
    cases hcause

/-- An import on line 3 of a template whose pool declares by a rule that is not there: the error
arises when that template, which has four lines, is being finished. -/
theorem Setup.error_placedAt_import :
    let setup := Request.squareSetup "cpp 0.1\nx\n$IMPORT\x7binner\x7d\ny\n"
      "cpp 0.1\n$TEMP_POOL\x7b\"$1=$2 $NOPE\"\x7d\n$V\n\n"
    let s : State := .initial setup {}
    let call := setup.expandToBuffer "outer" {} .core
    ∃ cause, call s = .error (.within "outer" 3 (.within "inner" 4 cause)) (stateAfter call s) ∧
      ∀ place number inner, cause ≠ .within place number inner := by
  intro setup s call
  have hload : setup.source.load s.files "outer" =
      .ok "cpp 0.1\nx\n$IMPORT\x7binner\x7d\ny\n" := rfl
  have hcut : Header.Cut "cpp 0.1\nx\n$IMPORT\x7binner\x7d\ny\n" "cpp 0.1"
      "x\n$IMPORT\x7binner\x7d\ny\n" := ⟨by decide, Or.inr rfl⟩
  have hasks : Header.Asks "cpp 0.1" "cpp" ⟨0, 1, 0⟩ :=
    Header.ofLine?_eq_some_iff.1 (show _ = some ⟨"cpp", ⟨0, 1, 0⟩⟩ by decide +kernel)
  obtain ⟨e, hfail⟩ := error_of_not_succeeds (x := call) (s := s) (by decide +kernel)
  obtain ⟨path, hmarks, -, he, hroot, -⟩ :=
    Setup.error_placedAt rfl (by simp) .core hload hcut ⟨_, hasks, le_refl _⟩ hfail
  have hpath : path = [⟨"inner", ["", "$V", "$TEMP_POOL\x7b\"$1=$2 $NOPE\"\x7d"], true⟩,
      ⟨"outer", ["$IMPORT\x7binner\x7d", "x"], false⟩] := by
    rw [← path.append_nil]
    exact hmarks.symm.trans (by decide +kernel)
  rw [hpath] at he
  exact ⟨e.root, hfail.trans (congrArg (EStateM.Result.error · _) he), hroot⟩

end TensorTemplate
