import Mathlib.Algebra.GroupWithZero.Nat
import TensorTemplate.Proofs.Expansion.Session

/-!
The count of replacements.

A line adds its calls to the count when all of them have been evaluated, and by then
the templates and texts that its rules expand have added theirs. `Tally` keeps the
account between two moments of a run: the evaluations that were made for the lines of
one frame, and how many of them have been counted. Whatever else is evaluated in
between is counted in between. Main statement: a run adds to the count the number of
all evaluations, and gives the number of those for the lines of its own frame.
-/

namespace TensorTemplate

def Sight.isEvaluation : Sight → Bool
  | evaluated _ => true
  | pushed _ => false

/-- From `s` to `t` there are the sights `new`, with `made` evaluations for the lines of the frame,
of which `counted` have been counted; all others were counted, and none was for a line of another
frame that there was before. -/
structure State.Tally (frame : Option Nat) (made counted : Nat) (new : List Sight)
    (s t : State) : Prop where
  sights : t.sights = new ++ s.sights
  balance : s.replacements + new.countP Sight.isEvaluation + counted = t.replacements + made
  nextId_le : s.stack.nextId ≤ t.stack.nextId
  madeFor : ∀ i < s.stack.nextId,
    new.count (.evaluated (some i)) = if frame = some i then made else 0

namespace State.Tally

variable {frame : Option Nat} {made counted : Nat} {new : List Sight} {s t u : State}

/-- Nothing is seen and nothing is counted. -/
theorem of_eq (hsights : t.sights = s.sights) (hcount : t.replacements = s.replacements)
    (hnextId : s.stack.nextId ≤ t.stack.nextId) : Tally frame 0 0 [] s t :=
  ⟨hsights, hcount.symm, hnextId, fun i _ => by simp⟩

theorem trans {made' counted' : Nat} {new' : List Sight} (h : Tally frame made counted new s t)
    (h' : Tally frame made' counted' new' t u) :
    Tally frame (made + made') (counted + counted') (new' ++ new) s u := by
  refine ⟨?_, ?_, Nat.le_trans h.nextId_le h'.nextId_le, fun i hi => ?_⟩
  · rw [h'.sights, h.sights, List.append_assoc]
  · have hfirst := h.balance
    have hsecond := h'.balance
    rw [List.countP_append]
    omega
  · rw [List.count_append, h.madeFor i hi,
      h'.madeFor i (Nat.lt_of_lt_of_le hi h.nextId_le)]
    split <;> omega

/-- What is expanded for no frame leaves the account of every frame as it is. -/
theorem settled (h : Tally none made made new s t) (frame : Option Nat) :
    Tally frame 0 0 new s t := by
  refine ⟨h.sights, ?_, h.nextId_le, fun i hi => ?_⟩
  · have hbalance := h.balance
    omega
  · simpa using h.madeFor i hi

/-- A frame that is pushed and popped has a number of its own. -/
theorem framed {buffer : Buffer} {pass : Pass} {template : String}
    (h : Tally (some s.stack.nextId) made made new (s.opened buffer pass template) t) :
    Tally none 0 0 (new ++ [.pushed (s.stack.push buffer pass template).2.depth]) s t.popped ∧
      new.count (.evaluated (some s.stack.nextId)) = made := by
  have hnew : s.stack.nextId < (s.opened buffer pass template).stack.nextId := Nat.lt_succ_self _
  refine ⟨⟨?_, ?_, Nat.le_trans (Nat.le_of_lt hnew) h.nextId_le, fun i hi => ?_⟩, ?_⟩
  · rw [List.append_assoc]
    exact h.sights
  · have hbalance : s.replacements + _ + made = t.replacements + made := h.balance
    rw [List.countP_append, show List.countP Sight.isEvaluation [_] = 0 from rfl]
    exact Nat.add_right_cancel hbalance
  · rw [List.count_append, h.madeFor i (Nat.lt_trans hi hnew), List.count_singleton]
    simp [Nat.ne_of_gt hi]
  · rw [h.madeFor _ hnew, if_pos rfl]

end State.Tally

/-- Whatever is evaluated is counted. -/
def Lasting.settled : Lasting where
  Rel s t := ∃ new, State.Tally none 0 0 new s t
  refl _ := ⟨[], .of_eq rfl rfl (Nat.le_refl _)⟩
  trans := fun ⟨_, h⟩ ⟨_, h'⟩ => ⟨_, h.trans h'⟩
  record _ _ _ _ := ⟨[], .of_eq rfl rfl (Nat.le_refl _)⟩
  setFrame _ _ := ⟨[], .of_eq rfl rfl (Nat.le_refl _)⟩
  emit _ _ := ⟨[], .of_eq rfl rfl (Nat.le_refl _)⟩
  cacheLambda _ _ := ⟨[], .of_eq rfl rfl (Nat.le_refl _)⟩
  clear _ := ⟨[], .of_eq rfl rfl (Nat.le_refl _)⟩
  aside _ _ _ _ := ⟨[], .of_eq rfl rfl (Nat.le_refl _)⟩
  bookmarks _ _ := ⟨[], .of_eq rfl rfl (Nat.le_refl _)⟩
  framed _ _ _ := fun ⟨_, h⟩ => ⟨_, (h.settled _).framed.1⟩

/-- No way back into expanding. -/
def Reentry.none : Reentry where
  nested _ _ := throw .nestedTooDeep
  expandText _ := throw .nestedTooDeep

theorem Reentry.keeps_none {R : Lasting} : Reentry.none.Keeps R :=
  ⟨fun _ _ => .throw _, fun _ => .throw _⟩

namespace ExpandM

open State (Tally)

/-! ### Actions -/

/-- Where the action succeeds, `P` holds of its value and of what it has made and counted for the
lines of the frame. -/
def Tallies (frame : Option Nat) {α : Type} (x : ExpandM α) (P : α → Nat → Nat → Prop) : Prop :=
  ∀ s a t, x s = .ok a t →
    ∃ made counted new, P a made counted ∧ Tally frame made counted new s t

/-- The action counts whatever it evaluates. -/
abbrev Settles {α : Type} (x : ExpandM α) : Prop :=
  Tallies none x fun _ made counted => made = counted

section Tallies

variable {α β : Type} {frame : Option Nat} {x : ExpandM α} {k : α → ExpandM β}

/-- An action that does not come back to expanding evaluates nothing. -/
theorem Keeps.settles (hx : Keeps .settled x) : Settles x := by
  intro s a t hrun
  obtain ⟨new, htally⟩ := hx.of_ok hrun
  exact ⟨0, 0, new, rfl, htally⟩

theorem Tallies.pure {P : α → Nat → Nat → Prop} {a : α} (h : P a 0 0) :
    Tallies frame (pure a) P := by
  intro s a' t hrun
  cases hrun
  exact ⟨0, 0, [], h, .of_eq rfl rfl (Nat.le_refl _)⟩

theorem Tallies.throw (e : Error) {P : α → Nat → Nat → Prop} :
    Tallies frame (throw e : ExpandM α) P := by
  intro s a t hrun
  cases hrun

theorem Tallies.bind {P : α → Nat → Nat → Prop} {Q : β → Nat → Nat → Prop}
    (hx : Tallies frame x P) (hk : ∀ a made counted, P a made counted →
      Tallies frame (k a) fun b made' counted' => Q b (made + made') (counted + counted')) :
    Tallies frame (x >>= k) Q := by
  intro s b u hrun
  obtain ⟨a, t, hfirst, hrun⟩ := bind_ok hrun
  obtain ⟨made, counted, new, hP, htally⟩ := hx s a t hfirst
  obtain ⟨made', counted', new', hQ, htally'⟩ := hk a made counted hP t b u hrun
  exact ⟨_, _, _, hQ, htally.trans htally'⟩

/-- What is expanded for no frame does not show in the account of any. -/
theorem Settles.into {P : α → Nat → Nat → Prop} (hx : Settles x) (h : ∀ a, P a 0 0) :
    Tallies frame x P := by
  intro s a t hrun
  obtain ⟨made, _, new, rfl, htally⟩ := hx s a t hrun
  exact ⟨0, 0, new, h a, htally.settled frame⟩

theorem Tallies.after {P : β → Nat → Nat → Prop} (hx : Settles x)
    (hk : ∀ a, Tallies frame (k a) P) : Tallies frame (x >>= k) P := by
  refine .bind (P := fun _ made counted => made = 0 ∧ counted = 0)
    (hx.into fun _ => ⟨rfl, rfl⟩) fun a made counted hzero => ?_
  obtain ⟨rfl, rfl⟩ := hzero
  simpa only [Nat.zero_add] using hk a

theorem Tallies.within {P : α → Nat → Nat → Prop} (hx : Tallies frame x P) (template : String)
    (line : Nat) : Tallies frame (within template line x) P :=
  fun s a t hrun => hx s a t (within_ok hrun)

/-- Actions on the items of a list, each of which counts whatever it evaluates. -/
theorem Settles.mapM {f : α → ExpandM β} (hf : ∀ a, Settles (f a)) (as : List α) :
    Settles (as.mapM f) := by
  induction as with
  | nil => exact .pure rfl
  | cons a as ih =>
      rw [List.mapM_cons]
      exact .after (hf a) fun _ => .after ih fun _ => .pure rfl

theorem Settles.forM {f : α → ExpandM PUnit} (hf : ∀ a, Settles (f a)) (as : List α) :
    Settles (as.forM f) := by
  induction as with
  | nil => exact .pure rfl
  | cons a as ih => exact .after (hf a) fun _ => ih

/-- Actions on the items of a list, each of which has an account that its value gives. -/
theorem Tallies.mapM {f : α → ExpandM β} (made counted : β → Nat)
    (hf : ∀ a, Tallies frame (f a) fun b n m => n = made b ∧ m = counted b) (as : List α) :
    Tallies frame (as.mapM f) fun bs n m => n = (bs.map made).sum ∧ m = (bs.map counted).sum := by
  induction as with
  | nil => exact .pure ⟨rfl, rfl⟩
  | cons a as ih =>
      rw [List.mapM_cons]
      refine .bind (hf a) fun b n m hb => .bind ih fun bs n' m' hbs => .pure ?_
      rw [List.map_cons, List.map_cons, List.sum_cons, List.sum_cons, hb.1, hb.2, hbs.1, hbs.2]
      exact ⟨rfl, rfl⟩

end Tallies

end ExpandM

/-- Both ways back into expanding count whatever they evaluate. -/
structure Reentry.Settles (re : Reentry) : Prop where
  nested : ∀ template options, ExpandM.Settles (re.nested template options)
  expandText : ∀ text, ExpandM.Settles (re.expandText text)

namespace ExpandM

variable {re : Reentry} (hre : re.Settles)

include hre

/-! ### Pools and scripts -/

theorem settles_writeDeclarations (id : Nat) (pool : Pool) :
    Settles (writeDeclarations re id pool) := by
  refine .after Keeps.get.settles fun s => .after (keeps_renderDeclarations _ _).settles
    fun declarations => .after keeps_clearTemporaries.settles fun _ => ?_
  dsimp only
  split
  · exact .after (hre.expandText _) fun _ => (keeps_onBuffer _ _).settles
  · exact .pure rfl

theorem settles_deposit (id : Nat) : Settles (deposit re id) := by
  refine .after (keeps_poolOf id).settles fun pool => ?_
  split
  · exact .after (keeps_setPool _ _).settles fun _ => .after Keeps.get.settles fun s =>
      .after (keeps_record _ _ rfl).settles fun _ => settles_writeDeclarations hre id pool
  · exact .pure rfl

theorem settles_setBoundary (backend : Backend) (id : Nat) (pattern : String) :
    Settles (setBoundary backend re id pattern) :=
  .after (settles_deposit hre id) fun _ => .after (keeps_poolOf id).settles fun _ =>
    .after (keeps_setPool _ _).settles fun _ => .after (keeps_onBuffer _ _).settles fun _ =>
      .after (keeps_record _ _ rfl).settles fun _ => .pure rfl

theorem settles_suspendPool (id : Nat) : Settles (suspendPool re id) := by
  refine .after (keeps_poolOf id).settles fun pool => ?_
  split
  · exact settles_deposit hre id
  · refine .after Keeps.get.settles fun s => ?_
    dsimp only
    split
    · exact .after (keeps_setPool _ _).settles fun _ => keeps_clearTemporaries.settles
    · exact .pure rfl

theorem settles_retirePool (id : Nat) : Settles (retirePool re id) :=
  .after (keeps_ensureBoundary id).settles fun _ => .after (settles_deposit hre id) fun _ =>
    (keeps_dropHandler id).settles

theorem settles_act (args : List String) (indices : List Index) (action : Action) :
    Settles (act re args indices action) := by
  -- what does not come back to expanding is the same when there is no way back
  have hact := keeps_act (R := .settled) Reentry.keeps_none args indices action
  cases action with
  | nested template options => exact .after (hre.nested _ _) fun _ => .pure rfl
  | expand t => exact hre.expandText _
  | _ => exact Keeps.settles hact

theorem settles_perform (args : List String) (indices : List Index) (script : Script) :
    Settles (perform re args indices script) :=
  .after (.mapM (settles_act hre args indices) script) fun _ => .pure rfl

theorem settles_handle (event : BufferEvent) (handler : Handler) :
    Settles (handle re event handler) := by
  cases handler with
  | pool id =>
      cases event with
      | close => exact settles_retirePool hre id
      | suspend => exact settles_suspendPool hre id
  | note name => exact (keeps_note _).settles
  | script name onClose onSuspend =>
      exact .after keeps_topFrame.settles fun _ => .after (settles_perform hre _ _ _) fun _ =>
        (keeps_note _).settles

/-! ### Lines -/

theorem settles_evaluate (setup : Setup) (name : String) (body : RuleBody) (args : List String)
    (indices : List Index) : Settles (evaluate setup re name body args indices) := by
  have hbody := keeps_evaluate (R := .settled) Reentry.keeps_none setup name body args indices
  cases body with
  | setPool id => exact settles_setBoundary hre _ _ _
  | importTemplate => exact .after (hre.nested _ _) fun _ => .pure rfl
  | embedString => exact .after (hre.nested _ _) fun _ => .pure rfl
  | script actions => exact settles_perform hre _ _ _
  | _ => exact Keeps.settles hbody

omit hre in
/-- An evaluation is made when it is noted. -/
theorem tallies_see (frame : Option Nat) :
    Tallies frame (see (.evaluated frame)) fun _ made counted => made = 1 ∧ counted = 0 := by
  intro s a t hrun
  cases hrun
  refine ⟨1, 0, [.evaluated frame], ⟨rfl, rfl⟩, rfl, rfl, Nat.le_refl _, fun i _ => ?_⟩
  simp [List.count_singleton]

/-- Every call of the line is evaluated once. -/
theorem tallies_segments (setup : Setup) (r : Registry) (assignment : List Index)
    (segments : List Segment) :
    Tallies re.frame (segments.mapM (expandSegment setup re r assignment)) fun _ made counted =>
      made = (segments.filter Segment.isDirective).length ∧ counted = 0 := by
  induction segments with
  | nil => exact .pure ⟨rfl, rfl⟩
  | cons segment segments ih =>
      rw [List.mapM_cons]
      cases segment with
      | text t => exact .after (.pure rfl) fun _ => .bind ih fun _ _ _ h => .pure h
      | directive d =>
          have hcall : Tallies re.frame (expandSegment setup re r assignment (.directive d))
              fun _ made counted => made = 1 ∧ counted = 0 :=
            .after (.after (Keeps.ofExcept _).settles fun _ => settles_evaluate hre setup _ _ _ _)
              fun _ => .bind (tallies_see re.frame) fun _ _ _ h => .pure h
          refine .bind hcall fun _ _ _ hone => .bind ih fun _ _ _ hrest => .pure ?_
          rw [List.filter_cons_of_pos rfl, List.length_cons]
          simp [hone.1, hone.2, hrest.1, hrest.2, Nat.add_comm]

omit hre in
theorem tallies_count (frame : Option Nat) (count : Nat) :
    Tallies frame (modify fun s => { s with replacements := s.replacements + count })
      fun _ made counted => made = 0 ∧ counted = count := by
  intro s a t hrun
  cases hrun
  exact ⟨0, count, [], ⟨rfl, rfl⟩, rfl, rfl, Nat.le_refl _, fun i _ => by simp⟩

/-- The calls of a line are evaluated for every assignment, and then they are counted. -/
theorem tallies_expandLine (setup : Setup) (line : String) :
    Tallies re.frame (expandLine setup re line) fun out made counted =>
      made = out.2 ∧ counted = out.2 := by
  refine .after (Keeps.ofExcept _).settles fun segments => ?_
  split
  · refine .after Keeps.get.settles fun s => .after (Keeps.ofExcept _).settles fun r =>
      .after (Keeps.ofExcept _).settles fun plan => ?_
    have hassignment : ∀ assignment, Tallies re.frame
        (expandSegments setup re r (segments.flatMap (Segment.detachSubscript r)) assignment)
        fun _ made counted => made = _ ∧ counted = 0 := fun assignment =>
      .bind (tallies_segments hre setup r assignment _) fun _ _ _ h => .pure h
    rw [LinePlan.mapAssignments_eq]
    refine .bind (.mapM _ (fun _ => 0) hassignment _) fun lines made counted hlines => ?_
    refine .bind (tallies_count _ _) fun _ made' counted' hcount => .pure ?_
    simp [hlines.1, hlines.2, hcount.1, hcount.2]
  · exact .pure ⟨rfl, rfl⟩

theorem settles_expandText (hframe : re.frame = none) (setup : Setup) (text : String) :
    Settles (expandText setup re text) := by
  have hline : ∀ line, Settles (expandLine setup re line) := by
    intro line s out t hrun
    obtain ⟨made, counted, new, hcount, htally⟩ := tallies_expandLine hre setup line s out t hrun
    exact ⟨made, counted, new, hcount.1.trans hcount.2.symm, hframe ▸ htally⟩
  exact .after (.after (.mapM hline _) fun _ => .pure rfl) fun _ => .pure rfl

/-! ### Templates -/

theorem tallies_writeLine (setup : Setup) (line : String) :
    Tallies re.frame (writeLine setup re line) fun count made counted =>
      made = count ∧ counted = count := by
  refine .bind (tallies_expandLine hre setup line) fun out made counted hout => ?_
  exact .after (Keeps.forM (fun _ => .bind (keeps_onTopBuffer _) fun _ =>
    keeps_recordOnTop _ rfl) _).settles fun _ => .pure hout

theorem tallies_writeBody (setup : Setup) (template : String) (body : List String) :
    Tallies re.frame (writeBody setup re template body) fun count made counted =>
      made = count ∧ counted = count := by
  refine .bind (.mapM id id (fun line => .after (keeps_track _).settles
    fun _ => (tallies_writeLine hre setup _).within _ _) _) fun counts made counted hcounts =>
      .pure ?_
  simp [hcounts.1, hcounts.2, List.sum_eq_foldl]

theorem settles_finishTop : Settles (finishTop re) :=
  .after keeps_topFrame.settles fun _ => .after (keeps_setFrame _).settles fun _ =>
    .after (.forM (settles_handle hre .close) _) fun _ => (keeps_onTopBuffer _).settles

theorem tallies_runBody (setup : Setup) (template : String) (body : List String) :
    Tallies re.frame (runBody setup re template body) fun count made counted =>
      made = count ∧ counted = count :=
  .after (keeps_track _).settles fun _ => .bind (tallies_writeBody hre setup template body)
    fun _ _ _ hcount => .after (keeps_track _).settles fun _ =>
      .after ((settles_finishTop hre).within _ _) fun _ =>
        .after (keeps_track _).settles fun _ => .pure hcount

theorem tallies_runFrame (setup : Setup) (id : Nat) (pass : Pass) (template : String)
    (body : List String) :
    Tallies (some id) (runFrame setup re id pass template body) fun count made counted =>
      made = count ∧ counted = count := by
  have hlines : (re.forLines id).Settles := ⟨hre.nested, hre.expandText⟩
  have hregistry : Keeps .settled (buildRegistry setup id pass) :=
    .bind (keeps_bindPool _ _) fun _ => .foldlM (keeps_installPackage id pass) _ _
  exact .after hregistry.settles fun _ => .after (keeps_frame id).settles fun _ =>
    .after (keeps_setFrame _).settles fun _ => tallies_runBody hlines setup template body

/-- Above a frame with a new number, the lines of no other frame are expanded. -/
theorem tally_expandTemplate {setup : Setup} {template : String} {buffer : Buffer} {pass : Pass}
    {s t : State} {out : Buffer × Nat}
    (hrun : expandTemplate setup re template buffer pass s = .ok out t) :
    ∃ new, s.Tally none 0 0 new t ∧ out.2 = new.count (.evaluated (some s.stack.nextId)) := by
  obtain ⟨child, count⟩ := out
  obtain ⟨_, _, _, u, _, _, -, -, -, hbody, -, -, rfl⟩ := expandTemplate_eq_ok_iff.1 hrun
  obtain ⟨_, _, new, ⟨rfl, rfl⟩, htally⟩ :=
    tallies_runFrame hre setup _ pass template _ _ _ _ hbody
  obtain ⟨hframed, hmade⟩ := htally.framed
  refine ⟨_, ⟨hframed.sights, hframed.balance, hframed.nextId_le, hframed.madeFor⟩, ?_⟩
  simp [List.count_append, hmade]

theorem settles_expandNested (setup : Setup) (template : String) (options : NestedOptions) :
    Settles (expandNested setup re template options) := by
  have htemplate : ∀ buffer pass, Settles (expandTemplate setup re template buffer pass) := by
    intro buffer pass s out t hrun
    obtain ⟨new, htally, -⟩ := tally_expandTemplate hre hrun
    exact ⟨0, 0, new, rfl, htally⟩
  refine .after keeps_topFrame.settles fun _ => .after (.forM (fun _ => settles_handle hre _ _) _)
    fun _ => .after keeps_topFrame.settles fun _ => .after (htemplate _ _) fun _ => ?_
  exact .after (keeps_onTopBuffer _).settles fun _ => .after (keeps_recordOnTop _ rfl).settles
    fun _ => .pure rfl

end ExpandM

theorem settles_reentry (setup : Setup) (depth : Nat) : (reentry setup depth).Settles := by
  induction depth with
  | zero => exact ⟨fun _ _ => .throw _, fun _ => .throw _⟩
  | succ depth ih =>
      exact ⟨ExpandM.settles_expandNested ih setup,
        ExpandM.settles_expandText ih (frame_reentry setup depth) setup⟩

/-- A run that succeeds adds to the count of replacements the number of all evaluations in it, and
gives the number of those for the lines of its own frame. -/
theorem Setup.replacements_eq_evaluations {setup : Setup} {template : String} {buffer : Buffer}
    {pass : Pass} {s t : State} {out : Buffer × Nat}
    (h : setup.expandToBuffer template buffer pass s = .ok out t) :
    ∃ sights, t.sights = sights ++ s.sights ∧
      t.replacements = s.replacements + sights.countP Sight.isEvaluation ∧
      out.2 = sights.count (.evaluated (some s.stack.nextId)) := by
  obtain ⟨new, htally, hown⟩ := ExpandM.tally_expandTemplate (settles_reentry setup _) h
  exact ⟨new, htally.sights, htally.balance.symm, hown⟩

/-- Calls on the lines of both templates, and one in the pattern of the boundary that is expanded
with every declaration. -/
theorem Setup.replacements_eq_evaluations_import :
    let setup := Request.squareSetup
      "cpp 0.1\n$TEMP_POOL\x7b\"$1=$2 $MODEL\"\x7d\n$V $V\n$IMPORT\x7binner\x7d\n" "cpp 0.1\n$V\n"
    ∃ out t, setup.expandToBuffer "outer" setup.newBuffer .core (.initial setup {}) = .ok out t ∧
      t.sights.countP Sight.isEvaluation = 6 ∧ out.2 = t.sights.count (.evaluated (some 0)) := by
  intro setup
  obtain ⟨out, t, hok, ht⟩ := ExpandM.exists_ok_of_succeeds
    (x := setup.expandToBuffer "outer" setup.newBuffer .core) (s := .initial setup {})
    (p := fun t => t.replacements = 6) (by decide +kernel)
  obtain ⟨sights, hsights, htotal, hown⟩ := replacements_eq_evaluations hok
  rw [show (State.initial setup {}).sights = [] from rfl, List.append_nil] at hsights
  rw [ht, show (State.initial setup {}).replacements = 0 from rfl, Nat.zero_add] at htotal
  exact ⟨out, t, hok, hsights ▸ htotal.symm, hsights ▸ hown⟩

end TensorTemplate
