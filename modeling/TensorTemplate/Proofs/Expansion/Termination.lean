import TensorTemplate.Proofs.Expansion.Tame
import TensorTemplate.Proofs.Imports

/-!
Templates that do not lead back to themselves.

Two runs that differ only in the depth to which they may nest end alike, as
long as that depth is enough for the templates that lead to each other: what a deposit
expands makes no calls, and a template that is imported or embedded leads to fewer
templates than the one that does so. Main statement: how deep a run may nest makes no
difference to it when that is deeper than there are templates, it never fails for being
nested too deep, and there are never more frames than there were, and one for each
template.
-/

namespace TensorTemplate

open ExpandM

namespace ExpandM

/-! ### Actions that agree -/

/-- From this state both actions end alike: with a value and a state as `P` says, or with a failure
for another reason than that the nesting is too deep. -/
def AgreeAt (setup : Setup) (room : Room) (s : State) {α : Type} (x x' : ExpandM α)
    (P : α → State → Prop) : Prop :=
  x' s = x s ∧
    match x s with
    | .ok a t => P a t
    | .error e t => e.isDeep = false ∧ t.Calm setup room

/-- On tame states both actions end alike, and values are as `Q` says. -/
def Agree (setup : Setup) (room : Room) (id : Nat) (below : List Frame) {α : Type}
    (x x' : ExpandM α) (Q : α → Prop) : Prop :=
  ∀ s, s.Tame setup room id below →
    AgreeAt setup room s x x' fun a t => Q a ∧ t.Tame setup room id below

variable {setup : Setup} {room : Room} {id : Nat} {below : List Frame}

namespace AgreeAt

variable {α β : Type} {x x' : ExpandM α} {s t : State} {P : α → State → Prop}

theorem of_ok {a : α} (hx : x s = .ok a t) (hx' : x' s = .ok a t) (h : P a t) :
    AgreeAt setup room s x x' P := by
  refine ⟨hx'.trans hx.symm, ?_⟩
  rw [hx]
  exact h

theorem of_error {e : Error} (hx : x s = .error e t) (hx' : x' s = .error e t)
    (he : e.isDeep = false) (h : t.Calm setup room) : AgreeAt setup room s x x' P := by
  refine ⟨hx'.trans hx.symm, ?_⟩
  rw [hx]
  exact ⟨he, h⟩

/-- The two ways in which both actions can end. -/
theorem cases (h : AgreeAt setup room s x x' P) :
    (∃ a t, x s = .ok a t ∧ x' s = .ok a t ∧ P a t) ∨
      ∃ e t, x s = .error e t ∧ x' s = .error e t ∧ e.isDeep = false ∧ t.Calm setup room := by
  obtain ⟨hsame, hend⟩ := h
  cases hrun : x s with
  | ok a t =>
      rw [hrun] at hsame hend
      exact Or.inl ⟨a, t, rfl, hsame, hend⟩
  | error e t =>
      rw [hrun] at hsame hend
      exact Or.inr ⟨e, t, rfl, hsame, hend⟩

theorem mono {R : α → State → Prop} (h : AgreeAt setup room s x x' P)
    (hPR : ∀ a t, P a t → R a t) : AgreeAt setup room s x x' R := by
  rcases h.cases with ⟨a, t, hrun, hrun', h⟩ | ⟨e, t, hrun, hrun', he, hcalm⟩
  · exact of_ok hrun hrun' (hPR a t h)
  · exact of_error hrun hrun' he hcalm

protected theorem bind {k k' : α → ExpandM β} {R : β → State → Prop}
    (hx : AgreeAt setup room s x x' P)
    (hk : ∀ a t, P a t → AgreeAt setup room t (k a) (k' a) R) :
    AgreeAt setup room s (x >>= k) (x' >>= k') R := by
  rcases hx.cases with ⟨a, t, hrun, hrun', h⟩ | ⟨e, t, hrun, hrun', he, hcalm⟩
  · have hrest := hk a t h
    rw [AgreeAt, bind_eq hrun, bind_eq hrun']
    exact hrest
  · exact of_error (bind_eq_error hrun) (bind_eq_error hrun') he hcalm

/-- Both actions start alike. -/
theorem after_ok {a : α} {k k' : α → ExpandM β} {R : β → State → Prop} (hx : x s = .ok a t)
    (hk : AgreeAt setup room t (k a) (k' a) R) :
    AgreeAt setup room s (x >>= k) (x >>= k') R :=
  AgreeAt.bind (P := fun b u => b = a ∧ u = t) (of_ok hx hx ⟨rfl, rfl⟩) (by
    rintro b u ⟨rfl, rfl⟩
    exact hk)

/-- A result that is there, or a failure that has nothing to do with nesting. -/
theorem bindExcept {r : Except Error α} (hr : ∀ e, r = .error e → e.isDeep = false)
    (hs : s.Calm setup room) {k k' : α → ExpandM β} {R : β → State → Prop}
    (hk : ∀ a, r = .ok a → AgreeAt setup room s (k a) (k' a) R) :
    AgreeAt setup room s (ofExcept r >>= k) (ofExcept r >>= k') R := by
  cases r with
  | ok a => exact hk a rfl
  | error e => exact of_error rfl rfl (hr e rfl) hs

/-- What comes of an attempt. -/
protected theorem attempt (h : AgreeAt setup room s x x' P) :
    AgreeAt setup room s (attempt x) (attempt x') fun outcome t =>
      match outcome with
      | .ok a => P a t
      | .error e => e.isDeep = false ∧ t.Calm setup room := by
  rcases h.cases with ⟨a, t, hrun, hrun', h⟩ | ⟨e, t, hrun, hrun', h⟩
  · refine of_ok (a := .ok a) ?_ ?_ h
    · rw [ExpandM.attempt, hrun]
    · rw [ExpandM.attempt, hrun']
  · refine of_ok (a := .error e) ?_ ?_ h
    · rw [ExpandM.attempt, hrun]
    · rw [ExpandM.attempt, hrun']

end AgreeAt

namespace Agree

variable {α β : Type} {x x' : ExpandM α} {Q : α → Prop}

protected theorem pure {a : α} (h : Q a) : Agree setup room id below (pure a) (pure a) Q :=
  fun _ hs => .of_ok rfl rfl ⟨h, hs⟩

/-- An action that does not come back to expanding. -/
theorem same (hx : Tames setup room id below x Q) : Agree setup room id below x x Q :=
  fun s hs => ⟨rfl, hx s hs⟩

protected theorem bind {k k' : α → ExpandM β} {R : β → Prop}
    (hx : Agree setup room id below x x' Q)
    (hk : ∀ a, Q a → Agree setup room id below (k a) (k' a) R) :
    Agree setup room id below (x >>= k) (x' >>= k') R :=
  fun s hs => (hx s hs).bind fun a t h => hk a h.1 t h.2

protected theorem within (hx : Agree setup room id below x x' Q) (template : String)
    (line : Nat) :
    Agree setup room id below (within template line x) (within template line x') Q := by
  intro s hs
  rcases (hx s hs).cases with ⟨a, t, hrun, hrun', h⟩ | ⟨e, t, hrun, hrun', he, hcalm⟩
  · refine .of_ok ?_ ?_ h
    · rw [ExpandM.within, hrun]
    · rw [ExpandM.within, hrun']
  · refine .of_error (e := .within template line e) ?_ ?_ he hcalm
    · rw [ExpandM.within, hrun]
    · rw [ExpandM.within, hrun']

protected theorem mapM {f f' : α → ExpandM β} {as : List α}
    (h : ∀ a ∈ as, Agree setup room id below (f a) (f' a) fun _ => True) :
    Agree setup room id below (as.mapM f) (as.mapM f') fun _ => True := by
  induction as with
  | nil => exact .pure trivial
  | cons a as ih =>
      rw [List.mapM_cons, List.mapM_cons]
      exact .bind (h a List.mem_cons_self) fun _ _ =>
        .bind (ih fun a' ha' => h a' (List.mem_cons_of_mem _ ha')) fun _ _ => .pure trivial

protected theorem forM {f f' : α → ExpandM PUnit} {as : List α}
    (h : ∀ a ∈ as, Agree setup room id below (f a) (f' a) fun _ => True) :
    Agree setup room id below (as.forM f) (as.forM f') fun _ => True := by
  induction as with
  | nil => exact .pure trivial
  | cons a as ih =>
      exact .bind (h a List.mem_cons_self) fun _ _ =>
        ih fun a' ha' => h a' (List.mem_cons_of_mem _ ha')

end Agree

end ExpandM

/-! ### Texts without calls -/

/-- Texts of lines without calls are expanded line by line, and nothing else happens. -/
def Reentry.Reads (re : Reentry) : Prop :=
  ∀ {ts : List String}, (∀ t ∈ ts, Segment.NoCalls t ∧ '\n' ∉ t.toList) → ∀ s,
    re.expandText (Text.unlines ts) s =
      .ok (Text.unlines ((ts.map Text.dropReturn).map Segment.expanded)) s

theorem reads_reentry (setup : Setup) (depth : Nat) : (reentry setup (depth + 1)).Reads :=
  fun h s => ExpandM.expandText_unlines setup (reentry setup depth) h s

namespace ExpandM

variable {setup : Setup} {room : Room} {id : Nat} {below : List Frame} {re re' : Reentry}

section Pools

variable (hreads : re.Reads) (hreads' : re'.Reads)

include hreads hreads'

theorem agree_expandText {ts : List String}
    (hts : ∀ t ∈ ts, Segment.NoCalls t ∧ '\n' ∉ t.toList) :
    Agree setup room id below (re.expandText (Text.unlines ts)) (re'.expandText (Text.unlines ts))
      fun _ => True :=
  fun s hs => .of_ok (hreads hts s) (hreads' hts s) ⟨trivial, hs⟩

variable (hsetup : setup.Clean)

include hsetup

/-- Expanding what a pool holds makes no calls. -/
theorem agree_writeDeclarations {pool : Pool} (hpool : pool.Tame setup) :
    Agree setup room id below (writeDeclarations re id pool) (writeDeclarations re' id pool)
      fun _ => True := by
  refine .bind (.same .get) fun s hs => ?_
  refine .bind (.same (tames_renderDeclarations hsetup _ _)) ?_
  rintro _ ⟨ds, hds, rfl⟩
  refine .bind (.same tames_clearTemporaries) fun _ _ => ?_
  have hheld : setup.Holds (pool.held.add ⟨s.temporaries.lambdas.records, ds⟩) :=
    hpool.holds.add ⟨(hs.drawn.holds hsetup).lambdas, hds⟩
  have hexpand : Agree setup room id below _ _ fun _ => True := agree_expandText hreads hreads'
    (hheld.noCalls_texts hsetup hpool.quiet s.temporaries.lambdas.backend)
  rw [← Held.unlines_texts] at hexpand
  dsimp only
  split
  · exact .bind hexpand fun _ _ => .same (tames_onBuffer (Buffer.modest_writeAllToTag _))
  · exact .pure trivial

theorem agree_deposit :
    Agree setup room id below (deposit re id) (deposit re' id) fun _ => True := by
  refine .bind (.same tames_poolOf) fun pool hpool => ?_
  split
  · exact .bind (.same (tames_setPool ⟨hpool.quiet, ⟨by simp, by simp⟩⟩)) fun _ _ =>
      .bind (.same .get) fun s _ => .bind (.same (tames_record _ _)) fun _ _ =>
        agree_writeDeclarations hreads hreads' hsetup hpool
  · exact .pure trivial

theorem agree_setBoundary {pattern : String} (hpattern : setup.Quiet pattern) :
    Agree setup room id below (setBoundary setup.backend re id pattern)
      (setBoundary setup.backend re' id pattern) fun _ => True :=
  .bind (agree_deposit hreads hreads' hsetup) fun _ _ => .bind (.same tames_poolOf) fun _ hpool =>
    .bind (.same (tames_setPool ⟨hpattern, hpool.holds⟩)) fun _ _ =>
      .bind (.same (tames_onBuffer Buffer.PoolChange.setTagToEnd.modest)) fun _ _ =>
        .bind (.same (tames_record _ _)) fun _ _ => .pure trivial

theorem agree_suspendPool :
    Agree setup room id below (suspendPool re id) (suspendPool re' id) fun _ => True := by
  refine .bind (.same tames_poolOf) fun pool hpool => ?_
  split
  · exact agree_deposit hreads hreads' hsetup
  · refine .bind (.same .get) fun s hs => ?_
    dsimp only
    split
    · have hheld : setup.Holds (pool.held.add s.temporaries.toHeld) :=
        hpool.holds.add (hs.drawn.holds hsetup)
      exact .bind (.same (tames_setPool ⟨hpool.quiet, hheld⟩)) fun _ _ =>
        .same tames_clearTemporaries
    · exact .pure trivial

theorem agree_handle (event : BufferEvent) {handler : Handler} (h : handler.StaysOn id) :
    Agree setup room id below (handle re event handler) (handle re' event handler)
      fun _ => True := by
  cases handler with
  | pool frame =>
      cases h
      cases event with
      | close =>
          exact .bind (.same tames_ensureBoundary) fun _ _ =>
            .bind (agree_deposit hreads hreads' hsetup) fun _ _ => .same tames_dropHandler
      | suspend => exact agree_suspendPool hreads hreads' hsetup
  | note name => exact .same (tames_note _)
  | script name onClose onSuspend => exact h.elim

theorem agree_finishTop :
    Agree setup room id below (finishTop re) (finishTop re') fun _ => True := by
  refine .bind (.same tames_topFrame) ?_
  rintro top ⟨rfl, htop⟩
  have htaken : Frame.Tame setup { top with buffer := top.buffer.takeHandlers.2 } :=
    ⟨(Frame.Lasts.ofTakeHandlers top).isLocal htop.toLocal, htop.tame⟩
  refine .bind (.same (tames_setFrame rfl htaken)) fun _ _ => .bind (.forM fun handler hmem => ?_)
    fun _ _ => .same (tames_onTopBuffer Buffer.modest_close)
  exact agree_handle hreads hreads' hsetup .close (htop.staysOn_of_mem_takeHandlers hmem)

end Pools

end ExpandM

/-! ### Calls -/

namespace ExpandM

variable {model : Model} {id : Nat} {pass : Pass} {keyword : String}

/-- The rules that set boundaries or expand templates are called by their keywords, with one
argument. -/
theorem keyword_of_mem : ∀ entry ∈ builtinRules model id pass,
    entry.2.body.keyword? = some keyword → entry.1 = keyword ∧ entry.2.arity = 1 := by
  refine forall_builtinRules ?_ (fun name t _ => nofun) fun name t _ => nofun
  simp [fundamentalRules, embedRules, Rule.simple, Rule.indexed, RuleBody.keyword?]

theorem keyword_of_validate {d : Directive} {rule : Rule}
    (h : (addRules {} (builtinRules model id pass)).validate d = .ok rule)
    (hkeyword : rule.body.keyword? = some keyword) :
    d.name = keyword ∧ ∃ argument, d.args = [argument] := by
  obtain ⟨hget, hlength⟩ := Registry.of_validate h
  obtain ⟨hname, harity⟩ := keyword_of_mem _ (mem_of_get?_addRules hget) hkeyword
  exact ⟨hname, List.length_eq_one_iff.1 (hlength.trans harity)⟩

end ExpandM

/-- A pattern that the call sets makes no calls, and a template that it expands leads to no more
than `height` at a time. -/
structure Directive.Allowed (setup : Setup) (texts : Table String) (height : Nat)
    (d : Directive) : Prop where
  pattern : ∀ pattern, d.name = "TEMP_POOL" → d.args = [pattern] → setup.Quiet pattern
  nested : ∀ inner, d.name = "IMPORT" ∨ d.name = "EMBED_STRING" → d.args = [inner] →
    texts.Shallow height inner

/-- Texts without calls are only read, and templates that lead to no more than `height` at a time
are expanded alike, as long as there is room for their frames. -/
structure Reentry.Agree (setup : Setup) (texts : Table String) (room : Room) (height : Nat)
    (re re' : Reentry) : Prop where
  frame : re'.frame = re.frame
  reads : re.Reads
  reads' : re'.Reads
  nested : ∀ {id below template} options, below.length + 1 + height ≤ room.limit →
    texts.Shallow height template →
      ExpandM.Agree setup room id below (re.nested template options) (re'.nested template options)
        fun _ => True

namespace ExpandM

variable {setup : Setup} {texts : Table String} {room : Room} {height id : Nat} {below : List Frame}
  {re re' : Reentry}

section Lines

variable (hsetup : setup.Clean) (hre : re.Agree setup texts room height re')
  (hroom : below.length + 1 + height ≤ room.limit)

include hsetup hre hroom

theorem agree_invoke (pass : Pass) (assignment : List Index) {d : Directive}
    (hd : d.Allowed setup texts height)
    (hlabels : ∀ i ∈ d.indices, (IndexClass.ofLabel? i.label).isSome) :
    Agree setup room id below
      (invoke setup re (addRules {} (builtinRules setup.model id pass)) assignment d)
      (invoke setup re' (addRules {} (builtinRules setup.model id pass)) assignment d)
      fun _ => True := by
  refine .bind (.same (.ofExcept (Registry.placed_validate _ d) fun _ h => h)) fun rule hrule => ?_
  have hbody := builtin_of_validate hrule
  have hkeyword : ∀ keyword, rule.body.keyword? = some keyword →
      d.name = keyword ∧ ∃ argument, d.args = [argument] := fun _ => keyword_of_validate hrule
  -- only the rules with a keyword come back to expanding
  generalize rule.body = body at hbody hkeyword
  cases body with
  | setPool frame =>
      cases hbody
      obtain ⟨hname, pattern, hargs⟩ := hkeyword _ rfl
      rw [hargs]
      exact agree_setBoundary hre.reads hre.reads' hsetup (hd.pattern pattern hname hargs)
  | importTemplate =>
      obtain ⟨hname, inner, hargs⟩ := hkeyword _ rfl
      rw [hargs]
      exact .bind (hre.nested _ hroom (hd.nested inner (Or.inl hname) hargs)) fun _ _ =>
        .pure trivial
  | embedString =>
      obtain ⟨hname, inner, hargs⟩ := hkeyword _ rfl
      rw [hargs]
      exact .bind (hre.nested _ hroom (hd.nested inner (Or.inr hname) hargs)) fun _ _ =>
        .pure trivial
  | script actions => exact hbody.elim
  | _ =>
      refine .same (tames_evaluate re _ hbody rfl _ fun i hi => ?_)
      obtain ⟨j, hj, rfl⟩ := List.mem_map.1 hi
      rw [Index.label_valued]
      exact hlabels j hj

theorem agree_expandLine {line : String}
    (hline : ∀ d ∈ Segment.callsOn line, d.Allowed setup texts height) :
    Agree setup room id below (expandLine setup re line) (expandLine setup re' line)
      fun _ => True := by
  refine .bind (.same (.ofExcept (Segment.placed_scan line) fun _ h => h)) fun segments hscan => ?_
  split
  · refine .bind (.same .get) fun s hs => ?_
    obtain ⟨f, hframes, rfl, hf⟩ := hs.top
    rw [registry_eq hframes hf.registry]
    refine .bind (.same (.ofExcept (.ok _) fun _ h => h)) ?_
    rintro _ ⟨⟩
    refine .bind (.same (.ofExcept (LinePlan.placed_ofSegments _ _ _) fun _ _ => trivial))
      fun plan _ => .bind (Q := fun _ => True) ?_ fun lines _ =>
        .bind (.same (.modify fun _ => ⟨rfl, rfl, rfl⟩)) fun _ _ => .pure trivial
    rw [LinePlan.mapAssignments_eq, LinePlan.mapAssignments_eq]
    refine .mapM fun assignment _ => .bind (.mapM fun segment hsegment => ?_) fun _ _ =>
      .pure trivial
    cases segment with
    | text t => exact .pure trivial
    | directive d =>
        obtain ⟨call, hcall, hname, hargs, hindices⟩ := Segment.mem_of_mem_detachSubscript hsegment
        have hallowed := hline call (Segment.mem_callsOn.2 ⟨segments, hscan, hcall⟩)
        refine .bind (agree_invoke hsetup hre hroom f.pass assignment ⟨?_, ?_⟩ fun i hi => ?_)
          fun _ _ => ?_
        · rw [hname, hargs]
          exact hallowed.pattern
        · rw [hname, hargs]
          exact hallowed.nested
        · exact Index.isSome_of_ofLabel? ((Segment.madeOf_scan hscan hcall).indices i (hindices hi))
        · rw [hre.frame]
          exact .bind (.same (tames_see _)) fun _ _ => .pure trivial
  · exact .pure trivial

theorem agree_writeLine {line : String}
    (hline : ∀ d ∈ Segment.callsOn line, d.Allowed setup texts height) :
    Agree setup room id below (writeLine setup re line) (writeLine setup re' line)
      fun _ => True := by
  refine .bind (agree_expandLine hsetup hre hroom hline) fun out _ => ?_
  refine .bind (.same (.forM (fun text => ?_) _)) fun _ _ => .pure trivial
  exact .bind (tames_onTopBuffer (Buffer.modest_append _)) fun _ _ => tames_recordOnTop _

theorem agree_runBody (template : String) {body : List String}
    (hbody : ∀ line ∈ body, ∀ d ∈ Segment.callsOn line, d.Allowed setup texts height) :
    Agree setup room id below (runBody setup re template body) (runBody setup re' template body)
      fun _ => True := by
  refine .bind (.same (tames_track _)) fun _ _ => .bind (Q := fun _ => True) ?_ fun _ _ =>
    .bind (.same (tames_track _)) fun _ _ =>
      .bind ((agree_finishTop hre.reads hre.reads' hsetup).within _ _) fun _ _ =>
        .bind (.same (tames_track _)) fun _ _ => .pure trivial
  refine .bind (.mapM fun entry hentry => .bind (.same (tames_track _)) fun _ _ => ?_) fun _ _ =>
    .pure trivial
  have hline := hbody entry.1 (List.fst_mem_of_mem_zipIdx hentry)
  exact (agree_writeLine hsetup hre hroom hline).within _ _

end Lines

end ExpandM

/-! ### Templates -/

/-- Templates in memory that do not lead back to themselves, with patterns that make no calls. There
are no packages, kernels are identifiers, and names in expressions are clean. -/
structure Setup.Layered (setup : Setup) (texts : Table String) : Prop extends setup.Clean where
  packages : setup.packages = []
  source : setup.source = .memory texts
  acyclic : ∀ template, ¬Relation.TransGen texts.Imports template template
  patterns : ∀ {template pattern}, ∀ d ∈ texts.calls template, d.name = "TEMP_POOL" →
    d.args = [pattern] → ∀ declaration, setup.Declares declaration →
      Segment.NoCalls (declaration.instantiate pattern)

theorem Source.get?_of_load {texts : Table String} {files : FileTree} {template text : String}
    (h : (Source.memory texts).load files template = .ok text) :
    texts.get? template = some text := by
  unfold load at h
  split at h
  · rename_i hmemory
    cases hmemory
    split at h
    · cases h
      assumption
    · cases h
  · rename_i hdirectories
    cases hdirectories

/-- The calls on the lines of a template are allowed. -/
theorem Setup.Layered.allowed {setup : Setup} {texts : Table String} (hsetup : setup.Layered texts)
    {height : Nat} {template text body : String} {header : Header}
    (hshallow : texts.Shallow (height + 1) template) (htext : texts.get? template = some text)
    (hsplit : Header.split template text = .ok (header, body)) :
    ∀ line ∈ Text.lines body, ∀ d ∈ Segment.callsOn line, d.Allowed setup texts height := by
  intro line hline d hd
  have hcall : d ∈ texts.calls template := by
    rw [Table.calls_eq htext hsplit]
    exact List.mem_flatMap.2 ⟨line, hline, hd⟩
  refine ⟨fun pattern hname hargs => ⟨fun hmem => ?_, hsetup.patterns d hcall hname hargs⟩,
    fun inner hname hargs => hshallow inner ⟨d, hcall, hname, hargs⟩⟩
  obtain ⟨segments, hscan, hd⟩ := Segment.mem_callsOn.1 hd
  have hpattern := (Segment.madeOf_scan hscan hd).args pattern
    (hargs ▸ List.mem_singleton_self pattern)
  exact Text.newline_notMem_of_mem_lines hline (hpattern hmem)

namespace ExpandM

variable {setup : Setup} {texts : Table String} {room : Room} {height id : Nat} {below : List Frame}
  {re re' : Reentry} {s : State}

theorem agreeAt_popFrame (hs : s.Calm setup room) :
    AgreeAt setup room s popFrame popFrame fun _ t => t.Calm setup room := by
  refine ⟨rfl, ?_⟩
  rw [popFrame_eq]
  cases s.stack.pop with
  | none => exact ⟨rfl, hs⟩
  | some popped => exact ⟨hs.drawn, hs.depth_le⟩

/-- A body is expanded alike on a frame of its own. -/
theorem agreeAt_runFrame (hsetup : setup.Layered texts)
    (hre : re.Agree setup texts room height re') {buffer : Buffer}
    (hbuffer : ∀ id, ∀ h ∈ buffer.handlers, h.2.StaysOn id) (pass : Pass) (template : String)
    {body : List String}
    (hbody : ∀ line ∈ body, ∀ d ∈ Segment.callsOn line, d.Allowed setup texts height)
    (hs : s.Calm setup room) (hroom : s.stack.depth + 1 + height ≤ room.limit) :
    AgreeAt setup room (s.opened buffer pass template)
      (runFrame setup re s.stack.nextId pass template body)
      (runFrame setup re' s.stack.nextId pass template body)
      fun _ t => True ∧ t.Tame setup room s.stack.nextId s.stack.frames := by
  let f : Frame := { id := s.stack.nextId, buffer, pass, template }
  have hframes : (s.opened buffer pass template).stack.frames = f :: s.stack.frames := rfl
  have hopened : (s.opened buffer pass template).Calm setup room := by
    refine State.Calm.see ?_ ?_
    · exact ⟨hs.drawn, hs.depth_le⟩
    · rintro depth ⟨⟩
      exact Nat.le_trans (Nat.le_add_right _ height) hroom
  have htame : State.Tame setup room f.id s.stack.frames
      ((s.opened buffer pass template).withTop (f.equip setup)) :=
    ⟨⟨hopened.drawn, hopened.depth_le⟩, f.equip setup, frames_withTop hframes _, rfl,
      f.tame_equip hsetup.toClean (hbuffer f.id)⟩
  have hlines : (re.forLines f.id).Agree setup texts room height (re'.forLines f.id) :=
    ⟨rfl, hre.reads, hre.reads', hre.nested⟩
  have hrun := agree_runBody hsetup.toClean hlines hroom template hbody _ htame
  rw [AgreeAt, ← runFrame_eq hsetup.packages hframes, ← runFrame_eq hsetup.packages hframes] at hrun
  exact hrun

section Templates

variable (hsetup : setup.Layered texts)
  (hre : ∀ k, height = k + 1 → re.Agree setup texts room k re')

include hsetup hre

/-- A template is expanded alike as long as there is room for the frames of all that it leads to,
and then the frames are as they were. -/
theorem agreeAt_expandTemplate {template : String} (hshallow : texts.Shallow height template)
    {buffer : Buffer} (hbuffer : ∀ id, ∀ h ∈ buffer.handlers, h.2.StaysOn id) (pass : Pass)
    (hs : s.Calm setup room) (hroom : s.stack.depth + height ≤ room.limit) :
    AgreeAt setup room s (expandTemplate setup re template buffer pass)
      (expandTemplate setup re' template buffer pass)
      fun _ t => t.stack.frames = s.stack.frames ∧ t.Calm setup room := by
  refine .after_ok rfl (.bindExcept (Source.placed_load _ _ _).isDeep_eq_false hs ?_)
  intro text hload
  rw [hsetup.source] at hload
  have htext := Source.get?_of_load hload
  refine .bindExcept (Header.placed_split _ _).isDeep_eq_false hs ?_
  rintro ⟨header, body⟩ hsplit
  refine .bindExcept (header.placed_validate _ _ _).isDeep_eq_false hs fun _ _ => ?_
  -- the template is there, so it may lead to others, and there is a level left for them
  obtain ⟨k, rfl⟩ : ∃ k, height = k + 1 := by
    cases height with
    | zero =>
        rw [Table.Shallow, htext] at hshallow
        cases hshallow
    | succ k => exact ⟨k, rfl⟩
  have hrun := agreeAt_runFrame hsetup (hre k rfl) hbuffer pass template
    (hsetup.allowed hshallow htext hsplit) hs (by omega)
  have hpush : pushFrame buffer pass template s =
      .ok s.stack.nextId (s.opened buffer pass template) := rfl
  refine .after_ok hpush (.bind hrun.attempt ?_)
  rintro (e | count) t hend
  · -- whatever is on the stack after a failure, popping it is no failure of nesting
    exact .bind (agreeAt_popFrame hend.2) fun _ _ hcalm => .of_error rfl rfl hend.1 hcalm
  · obtain ⟨-, htame⟩ := hend
    obtain ⟨g, hframes, -⟩ := htame.top
    refine .after_ok (popFrame_of_cons hframes) (.after_ok rfl (.after_ok rfl ?_))
    exact .of_ok rfl rfl ⟨rfl, htame.drawn, htame.depth_le⟩

/-- A nested template is expanded alike. -/
theorem agree_expandNested (hreads : re.Reads) (hreads' : re'.Reads) {template : String}
    (options : NestedOptions) (hroom : below.length + 1 + height ≤ room.limit)
    (hshallow : texts.Shallow height template) :
    Agree setup room id below (expandNested setup re template options)
      (expandNested setup re' template options) fun _ => True := by
  refine .bind (.same tames_topFrame) ?_
  rintro top ⟨rfl, htop⟩
  refine .bind (.forM fun h hh => agree_handle hreads hreads' hsetup.toClean .suspend
    (htop.handlers h hh)) fun _ _ => .bind (.same tames_topFrame) fun top' _ => ?_
  have hchild : Agree setup room top.id below
      (expandTemplate setup re template (options.child top'.buffer) top'.pass)
      (expandTemplate setup re' template (options.child top'.buffer) top'.pass)
      fun _ => True := by
    intro s hs
    obtain ⟨f, hframes, -⟩ := hs.top
    have hdepth : s.stack.depth = below.length + 1 := by
      rw [Stack.depth, hframes, List.length_cons]
    have hbare : ∀ id, ∀ h ∈ (options.child top'.buffer).handlers, h.2.StaysOn id := by
      simp [options.handlers_child]
    refine (agreeAt_expandTemplate hsetup hre hshallow hbare top'.pass hs.toCalm (by omega)).mono ?_
    rintro _ t ⟨hsame, hcalm⟩
    exact ⟨trivial, hs.congr hsame hcalm⟩
  exact .bind hchild fun result _ =>
    .bind (.same (tames_onTopBuffer (Buffer.modest_append fun _ => result.1.lines))) fun _ _ =>
      .bind (.same (tames_recordOnTop _)) fun _ _ => .pure trivial

end Templates

end ExpandM

section Depths

variable {setup : Setup} {texts : Table String} (hsetup : setup.Layered texts) {room : Room}

include hsetup

theorem agree_reentry_succ {height depth depth' : Nat} (hreads : (reentry setup depth).Reads)
    (hreads' : (reentry setup depth').Reads)
    (hre : ∀ k, height = k + 1 →
      (reentry setup depth).Agree setup texts room k (reentry setup depth')) :
    (reentry setup (depth + 1)).Agree setup texts room height (reentry setup (depth' + 1)) where
  frame := (frame_reentry setup _).trans (frame_reentry setup _).symm
  reads := reads_reentry setup depth
  reads' := reads_reentry setup depth'
  nested := agree_expandNested hsetup hre hreads hreads'

/-- Two depths that are enough for the templates make no difference. -/
theorem agree_reentry {height depth depth' : Nat} (h : height + 2 ≤ depth)
    (h' : height + 2 ≤ depth') :
    (reentry setup depth).Agree setup texts room height (reentry setup depth') := by
  induction height using Nat.strongRecOn generalizing depth depth' with
  | ind height ih =>
      -- one level is for the template, and one for what its deposits expand
      obtain ⟨n, rfl⟩ : ∃ n, depth = n + 2 := ⟨depth - 2, by omega⟩
      obtain ⟨n', rfl⟩ : ∃ n, depth' = n + 2 := ⟨depth' - 2, by omega⟩
      exact agree_reentry_succ hsetup (reads_reentry setup n) (reads_reentry setup n')
        fun k hk => ih k (by omega) (by omega) (by omega)

/-- A template that is expanded first needs room for no more frames than there are templates. -/
theorem agreeAt_of_size_lt {s : State} (hs : setup.Drawn s.temporaries) (template : String)
    {buffer : Buffer} (hbuffer : ∀ id, ∀ h ∈ buffer.handlers, h.2.StaysOn id) (pass : Pass)
    {depth depth' : Nat} (h : texts.size < depth) (h' : texts.size < depth') :
    AgreeAt setup ⟨s.stack.depth + texts.size, s.sights⟩ s
      (expandTemplate setup (reentry setup depth) template buffer pass)
      (expandTemplate setup (reentry setup depth') template buffer pass)
      fun _ t => t.stack.frames = s.stack.frames ∧
        t.Calm setup ⟨s.stack.depth + texts.size, s.sights⟩ := by
  refine agreeAt_expandTemplate hsetup (fun k hk => ?_)
    (texts.shallow_size hsetup.acyclic template) hbuffer pass ⟨hs, [], rfl, nofun⟩ le_rfl
  exact agree_reentry hsetup (by omega) (by omega)

end Depths

namespace Setup

/-- A run over templates that do not lead back to themselves is the same for all depths to which it
may nest that are greater than the number of templates: it ends, and not for being nested too deep.
There are never more frames than there were before, and one for each template. -/
theorem depth_le_of_acyclic {setup : Setup} {texts : Table String} (hsetup : setup.Layered texts)
    {s : State} (hs : setup.Drawn s.temporaries) (template : String) {buffer : Buffer}
    (hbuffer : ∀ h ∈ buffer.handlers, ∃ name, h.2 = .note name) (pass : Pass) :
    let call := setup.expandToBuffer template buffer pass
    (∀ depth, texts.size < depth →
      expandTemplate setup (reentry setup depth) template buffer pass s = call s) ∧
    (∀ e t, call s = .error e t → e.root ≠ .nestedTooDeep) ∧
    setup.Drawn (stateAfter call s).temporaries ∧
    ∃ sights, (stateAfter call s).sights = sights ++ s.sights ∧
      ∀ depth, .pushed depth ∈ sights → depth ≤ s.stack.depth + texts.size := by
  intro call
  have hstays : ∀ id, ∀ h ∈ buffer.handlers, h.2.StaysOn id := by
    intro id h hh
    obtain ⟨name, hname⟩ := hbuffer h hh
    rw [hname]
    trivial
  have hlimit : texts.size < setup.depthLimit s.files := by
    rw [depthLimit, hsetup.source, Source.size]
    omega
  have hcall : call s =
      expandTemplate setup (reentry setup (setup.depthLimit s.files)) template buffer pass s := rfl
  refine ⟨fun depth hdepth => ?_, ?_⟩
  · exact (agreeAt_of_size_lt hsetup hs template hstays pass hlimit hdepth).1
  · have hagree := agreeAt_of_size_lt hsetup hs template hstays pass hlimit hlimit
    rw [stateAfter, hcall]
    rcases hagree.cases with ⟨out, t, hrun, -, -, hcalm⟩ | ⟨e, t, hrun, -, he, hcalm⟩
    · rw [hrun]
      refine ⟨?_, hcalm.drawn, hcalm.depth_le⟩
      rintro _ _ ⟨⟩
    · rw [hrun]
      refine ⟨?_, hcalm.drawn, hcalm.depth_le⟩
      rintro _ _ ⟨⟩
      exact Error.root_ne_of_isDeep he

/-- A template that sets a boundary and imports another one: whatever is more than two levels is
enough, and there are two frames at a time. -/
theorem depth_le_of_acyclic_import :
    let outer := "cpp 0.1\n$TEMP_POOL\x7b\"const auto $1 = $2;\"\x7d\n$V\n$IMPORT\x7binner\x7d\n"
    let inner := "cpp 0.1\n$V\n"
    let setup := Request.squareSetup outer inner
    let s := State.initial setup {}
    let seen := (stateAfter (setup.expandToBuffer "outer" setup.newBuffer .core) s).sights
    setup.Layered ⟨[("outer", outer), ("inner", inner)]⟩ ∧
      (∀ depth, 2 < depth →
        expandTemplate setup (reentry setup depth) "outer" setup.newBuffer .core s =
          setup.expandToBuffer "outer" setup.newBuffer .core s) ∧
      .pushed 2 ∈ seen ∧ ∀ depth, .pushed depth ∈ seen → depth ≤ 2 := by
  intro outer inner setup s seen
  let texts : Table String := ⟨[("outer", outer), ("inner", inner)]⟩
  have hplain := Request.plain_squareSetup outer inner
  have houter : ∀ d ∈ texts.calls "outer",
      (d.name = "IMPORT" ∨ d.name = "EMBED_STRING" → d.args = ["inner"]) ∧
        (d.name = "TEMP_POOL" → d.args = [setup.backend.defaultDeclaration]) := by decide +kernel
  have hinner : ∀ d ∈ texts.calls "inner",
      d.name ≠ "IMPORT" ∧ d.name ≠ "EMBED_STRING" ∧ d.name ≠ "TEMP_POOL" := by decide +kernel
  have himports : ∀ {template name}, texts.Imports template name →
      template = "outer" ∧ name = "inner" := by
    rintro template name ⟨d, hd, hname, hargs⟩
    rcases List.mem_pair.1 (Table.mem_names_of_mem_calls hd) with rfl | rfl
    · cases hargs.symm.trans ((houter d hd).1 hname)
      exact ⟨rfl, rfl⟩
    · exact absurd hname (not_or.2 ⟨(hinner d hd).1, (hinner d hd).2.1⟩)
  have hclean : setup.Clean := ⟨hplain.exprKernel, hplain.lambdaKernel, hplain.tensors⟩
  have hlayered : setup.Layered texts := by
    refine ⟨hclean, rfl, rfl, fun template hcycle => ?_, ?_⟩
    · obtain ⟨_, hfirst, -⟩ := Relation.TransGen.head'_iff.1 hcycle
      obtain ⟨_, -, hlast⟩ := Relation.TransGen.tail'_iff.1 hcycle
      exact absurd ((himports hfirst).1.symm.trans (himports hlast).2) (by decide)
    · intro template pattern d hd hname hargs
      rcases List.mem_pair.1 (Table.mem_names_of_mem_calls hd) with rfl | rfl
      · cases hargs.symm.trans ((houter d hd).2 hname)
        exact (quiet_defaultDeclaration hclean).noCalls
      · exact absurd hname (hinner d hd).2.2
  have hbare : ∀ h ∈ setup.newBuffer.handlers, ∃ name, h.2 = .note name := by
    simp [newBuffer, Buffer.setSkipBlank]
  obtain ⟨hsame, -, -, sights, hsights, hdepth⟩ :=
    depth_le_of_acyclic hlayered (s := s) .new "outer" hbare .core
  rw [show s.sights = [] from rfl, List.append_nil] at hsights
  refine ⟨hlayered, hsame, by decide +kernel, ?_⟩
  rw [show seen = sights from hsights]
  exact hdepth

end Setup

end TensorTemplate
