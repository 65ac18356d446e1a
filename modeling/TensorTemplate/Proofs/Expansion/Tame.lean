import TensorTemplate.Proofs.Expansion.Balance
import TensorTemplate.Proofs.Expansion.Simulation

/-!
Runs in which declarations make no calls.

What waits in the caches of a run comes from the model. If no such declaration makes a
call with the pattern of a pool, then expanding the text of a deposit never comes back
to the rules. A state is tame if the pool of the frame on top is of this kind, and there
was room for all frames; whatever pools and rules do without coming back to expanding
leaves the state tame.
-/

namespace TensorTemplate

/-! ### What can be declared -/

namespace Setup

/-- Caches that a run can have: new ones, after components of tensors and tensors as function values
have gone through them, and after they were cleared. -/
inductive Drawn (setup : Setup) : Temporaries → Prop where
  | new :
      Drawn setup (.new setup.backend setup.settings.exprKernel setup.settings.lambdaKernel)
  | emit {t : Temporaries} (ht : Drawn setup t) {name : String} {tensor : Tensor}
      (htensor : (name, tensor) ∈ setup.model.tensors.entries) {values : List Nat} {e : Expr}
      (he : tensor.component values = some e) : Drawn setup (t.emit e).2
  | cacheLambda {t : Temporaries} (ht : Drawn setup t) {kind : String} {tensor : Tensor}
      (htensor : (kind, tensor) ∈ setup.model.tensors.entries) {indices : List Index}
      (hlabels : ∀ i ∈ indices, (IndexClass.ofLabel? i.label).isSome) :
      Drawn setup (t.cacheLambda (tensor.toLambda kind setup.model.ranges indices)).2
  | clear {t : Temporaries} (ht : Drawn setup t) : Drawn setup t.clear

/-- The declaration can wait in the caches of a run. -/
def Declares (setup : Setup) (d : Declaration) : Prop :=
  ∃ t, setup.Drawn t ∧ d ∈ t.exprs.declarations

/-- The pattern is one line, and no declaration of a run makes a call with it. -/
structure Quiet (setup : Setup) (pattern : String) : Prop where
  newline_notMem : '\n' ∉ pattern.toList
  noCalls : ∀ d, setup.Declares d → Segment.NoCalls (d.instantiate pattern)

/-- All that is held can be declared in a run. -/
structure Holds (setup : Setup) (held : Held) : Prop where
  lambdas : ∀ r ∈ held.lambdas, r.Clean
  declarations : ∀ d ∈ held.declarations, setup.Declares d

/-- Identifiers as kernels, and clean names in the expressions of all tensors. -/
structure Clean (setup : Setup) : Prop where
  exprKernel : isIdentifier setup.settings.exprKernel = true
  lambdaKernel : isIdentifier setup.settings.lambdaKernel = true
  tensors : ∀ entry ∈ setup.model.tensors.entries, entry.2.Clean

variable {setup : Setup} (hsetup : setup.Clean)

include hsetup

theorem Drawn.neat {t : Temporaries} (ht : setup.Drawn t) : t.Neat := by
  induction ht with
  | new => exact Temporaries.neat_new _ hsetup.exprKernel hsetup.lambdaKernel
  | emit _ htensor he ih => exact ih.emit (hsetup.tensors _ htensor _ _ he)
  | cacheLambda _ htensor hlabels ih =>
      exact ih.cacheLambda ((hsetup.tensors _ htensor).toLambda _ _ hlabels)
  | clear _ ih => exact ih.clear

theorem Drawn.holds {t : Temporaries} (ht : setup.Drawn t) : setup.Holds t.toHeld where
  lambdas := (ht.neat hsetup).clean_toHeld.lambdas
  declarations := fun _ hd => ⟨t, ht, hd⟩

theorem Declares.clean {d : Declaration} (hd : setup.Declares d) : d.Clean := by
  obtain ⟨t, ht, hd⟩ := hd
  exact (ht.neat hsetup).clean_toHeld.declarations d hd

theorem quiet_defaultDeclaration : setup.Quiet setup.backend.defaultDeclaration where
  newline_notMem := by cases setup.backend <;> decide
  noCalls := fun _ hd => (hd.clean hsetup).noCalls_instantiate setup.backend

omit hsetup in
theorem Holds.add {h k : Held} (hh : setup.Holds h) (hk : setup.Holds k) :
    setup.Holds (h.add k) where
  lambdas := fun r hr => (List.mem_append.1 hr).elim (hh.lambdas r) (hk.lambdas r)
  declarations := fun d hd => (List.mem_append.1 hd).elim (hh.declarations d) (hk.declarations d)

/-- What is held is declared by lines without calls. -/
theorem Holds.noCalls_texts {held : Held} (hheld : setup.Holds held) {pattern : String}
    (hpattern : setup.Quiet pattern) (b : Backend) :
    ∀ text ∈ (held.texts b pattern).map (·.2), Segment.NoCalls text ∧ '\n' ∉ text.toList := by
  intro text htext
  obtain ⟨entry, hentry, rfl⟩ := List.mem_map.1 htext
  rcases List.mem_append.1 hentry with hentry | hentry
  · obtain ⟨r, hr, rfl⟩ := List.mem_map.1 hentry
    have hline := (hheld.lambdas r hr).plainLine_declare b
    exact ⟨hline.noCalls, hline.newline_notMem⟩
  · obtain ⟨d, hd, rfl⟩ := List.mem_map.1 hentry
    have hdeclares := hheld.declarations d hd
    exact ⟨hpattern.noCalls d hdeclares,
      (hdeclares.clean hsetup).newline_notMem_instantiate hpattern.newline_notMem⟩

end Setup

/-! ### Tame states -/

/-- The pattern makes no calls, and all that is held can be declared in a run. -/
structure Pool.Tame (setup : Setup) (pool : Pool) : Prop where
  quiet : setup.Quiet pool.pattern
  holds : setup.Holds pool.held

/-- The frame has the built-in rules and a tame pool, and its handlers work on no other frame. -/
structure Frame.Tame (setup : Setup) (f : Frame) : Prop extends f.Local setup where
  tame : ∀ pool, f.pool = some pool → pool.Tame setup

/-- How many frames there may be, from the time on when all there was to be seen was `seen`. -/
structure Room where
  limit : Nat
  seen : List Sight

/-- The caches are those of a run, and since there was room there were never more frames than there
is room for. -/
structure State.Calm (setup : Setup) (room : Room) (s : State) : Prop where
  drawn : setup.Drawn s.temporaries
  depth_le : ∃ new, s.sights = new ++ room.seen ∧
    ∀ depth, Sight.pushed depth ∈ new → depth ≤ room.limit

/-- The frame on top is tame and has this number, and there are these frames below it. -/
structure State.Tame (setup : Setup) (room : Room) (id : Nat) (below : List Frame)
    (s : State) : Prop extends s.Calm setup room where
  top : ∃ f, s.stack.frames = f :: below ∧ f.id = id ∧ f.Tame setup

theorem Frame.tame_equip {setup : Setup} (hsetup : setup.Clean) (f : Frame)
    (h : ∀ handler ∈ f.buffer.handlers, handler.2.StaysOn f.id) : (f.equip setup).Tame setup where
  toLocal := f.isLocal_equip setup h
  tame := by
    rintro pool ⟨⟩
    exact ⟨setup.quiet_defaultDeclaration hsetup, ⟨by simp, by simp⟩⟩

variable {setup : Setup} {room : Room} {id : Nat} {below : List Frame} {s t : State}

theorem State.Calm.see (hs : s.Calm setup room) {sight : Sight}
    (hdepth : ∀ depth, sight = .pushed depth → depth ≤ room.limit) :
    (s.see sight).Calm setup room := by
  obtain ⟨new, hsights, hnew⟩ := hs.depth_le
  refine ⟨hs.drawn, sight :: new, congrArg _ hsights, fun depth hmem => ?_⟩
  rcases List.mem_cons.1 hmem with hmem | hmem
  · exact hdepth depth hmem.symm
  · exact hnew depth hmem

/-- The frame on top changes at most its lines, tag and handlers. -/
theorem State.Tame.withTop (hs : s.Tame setup room id below) {f g : Frame} {fs : List Frame}
    (hframes : s.stack.frames = f :: fs) (hlasts : f.Lasts g)
    (hpool : ∀ pool, g.pool = some pool → pool.Tame setup) :
    (s.withTop g).Tame setup room id below := by
  obtain ⟨f', hframes', hid, hf⟩ := hs.top
  cases hframes.symm.trans hframes'
  have hg : g.Tame setup := ⟨hlasts.isLocal hf.toLocal, hpool⟩
  exact ⟨⟨hs.drawn, hs.depth_le⟩, g, ExpandM.frames_withTop hframes g, hlasts.id.trans hid, hg⟩

theorem State.Tame.congr (hs : s.Tame setup room id below)
    (hframes : t.stack.frames = s.stack.frames) (hcalm : t.Calm setup room) :
    t.Tame setup room id below := by
  obtain ⟨f, hf⟩ := hs.top
  exact ⟨hcalm, f, hframes ▸ hf⟩

namespace ExpandM

/-- On a tame state the action leaves a tame state and a value with `Q`, or it fails for another
reason than that the nesting is too deep. -/
def Tames (setup : Setup) (room : Room) (id : Nat) (below : List Frame) {α : Type}
    (x : ExpandM α) (Q : α → Prop) : Prop :=
  ∀ s, s.Tame setup room id below →
    match x s with
    | .ok a t => Q a ∧ t.Tame setup room id below
    | .error e t => e.isDeep = false ∧ t.Calm setup room

namespace Tames

variable {α β : Type} {x : ExpandM α} {Q : α → Prop}

theorem of_eq
    (h : ∀ s, s.Tame setup room id below →
      ∃ a t, x s = .ok a t ∧ Q a ∧ t.Tame setup room id below) :
    Tames setup room id below x Q := by
  intro s hs
  obtain ⟨a, t, hx, h⟩ := h s hs
  rw [hx]
  exact h

protected theorem pure {a : α} (h : Q a) : Tames setup room id below (pure a) Q :=
  fun _ hs => ⟨h, hs⟩

protected theorem throw {e : Error} (h : e.isDeep = false) :
    Tames setup room id below (throw e : ExpandM α) Q := fun _ hs => ⟨h, hs.toCalm⟩

protected theorem bind {k : α → ExpandM β} {R : β → Prop} (hx : Tames setup room id below x Q)
    (hk : ∀ a, Q a → Tames setup room id below (k a) R) :
    Tames setup room id below (x >>= k) R := by
  intro s hs
  have hfirst := hx s hs
  cases hrun : x s with
  | ok a t =>
      rw [hrun] at hfirst
      rw [bind_eq hrun]
      exact hk a hfirst.1 t hfirst.2
  | error e t =>
      rw [hrun] at hfirst
      rw [bind_eq_error hrun]
      exact hfirst

protected theorem ofExcept {r : Except Error α} (hr : Placed r) (h : ∀ a, r = .ok a → Q a) :
    Tames setup room id below (ofExcept r) Q := by
  cases r with
  | ok a => exact .pure (h a rfl)
  | error e => exact .throw (hr.isDeep_eq_false e rfl)

protected theorem get : Tames setup room id below get (State.Tame setup room id below) :=
  fun _ hs => ⟨hs, hs⟩

/-- A change of what is neither on the stack nor in the caches, and is not seen. -/
theorem modify {g : State → State} (h : ∀ s, (g s).stack.frames = s.stack.frames ∧
      (g s).temporaries = s.temporaries ∧ (g s).sights = s.sights) :
    Tames setup room id below (modify g : ExpandM Unit) fun _ => True := by
  intro s hs
  obtain ⟨hframes, htemporaries, hsights⟩ := h s
  exact ⟨trivial, hs.congr hframes ⟨htemporaries ▸ hs.drawn, hsights ▸ hs.depth_le⟩⟩

protected theorem forM {k : α → ExpandM PUnit}
    (hk : ∀ a, Tames setup room id below (k a) fun _ => True) (as : List α) :
    Tames setup room id below (as.forM k) fun _ => True := by
  induction as with
  | nil => exact .pure trivial
  | cons a as ih => exact .bind (hk a) fun _ _ => ih

end Tames

/-! ### Frames and caches -/

theorem tames_record (number : Nat) (event : FrameEvent) :
    Tames setup room id below (record number event) fun _ => True :=
  .modify fun _ => ⟨rfl, rfl, rfl⟩

theorem tames_recordOnTop (event : FrameEvent) :
    Tames setup room id below (recordOnTop event) fun _ => True := by
  intro s hs
  obtain ⟨f, hframes, -⟩ := hs.top
  rw [show recordOnTop event s = .ok () (s.recordOnTop event) from rfl, recordOnTop_eq hframes]
  exact ⟨trivial, hs.congr rfl ⟨hs.drawn, hs.depth_le⟩⟩

theorem tames_track (change : List Bookmark → List Bookmark) :
    Tames setup room id below (track change) fun _ => True := .modify fun _ => ⟨rfl, rfl, rfl⟩

theorem tames_warn (message : String) : Tames setup room id below (warn message) fun _ => True :=
  .modify fun _ => ⟨rfl, rfl, rfl⟩

theorem tames_note (line : String) : Tames setup room id below (note line) fun _ => True :=
  .modify fun _ => ⟨rfl, rfl, rfl⟩

/-- A note of an evaluation takes no room. -/
theorem tames_see (frame : Option Nat) :
    Tames setup room id below (see (.evaluated frame)) fun _ => True :=
  fun _ hs => ⟨trivial, hs.congr rfl (hs.toCalm.see nofun)⟩

theorem tames_topFrame :
    Tames setup room id below topFrame fun f => f.id = id ∧ f.Tame setup := by
  refine .of_eq fun s hs => ?_
  obtain ⟨f, hframes, hf⟩ := hs.top
  exact ⟨f, s, topFrame_eq hframes, hf, hs⟩

theorem tames_frame : Tames setup room id below (frame id) fun f => f.id = id ∧ f.Tame setup := by
  refine .of_eq fun s hs => ?_
  obtain ⟨f, hframes, rfl, hf⟩ := hs.top
  exact ⟨f, s, frame_eq hframes, ⟨rfl, hf⟩, hs⟩

theorem tames_setFrame {g : Frame} (hid : g.id = id) (hg : g.Tame setup) :
    Tames setup room id below (setFrame g) fun _ => True := by
  refine .of_eq fun s hs => ?_
  obtain ⟨f, hframes, hf, -⟩ := hs.top
  exact ⟨_, _, setFrame_eq hframes (hid.trans hf.symm), trivial,
    ⟨hs.drawn, hs.depth_le⟩, g, frames_withTop hframes g, hid, hg⟩

theorem tames_poolOf : Tames setup room id below (poolOf id) (Pool.Tame setup) := by
  refine .of_eq fun s hs => ?_
  obtain ⟨f, hframes, rfl, hf⟩ := hs.top
  obtain ⟨pool, hpool⟩ := Option.isSome_iff_exists.1 hf.pool
  exact ⟨pool, s, poolOf_eq hframes hpool, hf.tame pool hpool, hs⟩

theorem tames_setPool {pool : Pool} (hpool : pool.Tame setup) :
    Tames setup room id below (setPool id pool) fun _ => True := by
  refine .of_eq fun s hs => ?_
  obtain ⟨f, hframes, rfl, hf⟩ := hs.top
  refine ⟨_, _, setPool_eq hframes pool, trivial, hs.withTop hframes (.ofPool f pool) ?_⟩
  rintro pool' ⟨⟩
  exact hpool

section Buffers

variable {change : Buffer → Except Error Buffer} (hchange : Buffer.Modest change)

include hchange

/-- The frame is the one on top. -/
theorem tames_changeBuffer {s : State} (hs : s.Tame setup room id below) {f : Frame}
    (hframes : s.stack.frames = f :: below) :
    match changeBuffer f change s with
    | .ok _ t => t.Tame setup room id below
    | .error e t => e.isDeep = false ∧ t.Calm setup room := by
  cases hbuffer : change f.buffer with
  | error e =>
      have hfail : changeBuffer f change s = .error e s := by
        rw [changeBuffer, hbuffer]
        rfl
      rw [hfail]
      exact ⟨(hchange.placed f.buffer).isDeep_eq_false e hbuffer, hs.toCalm⟩
  | ok buffer =>
      rw [changeBuffer_eq hframes hbuffer]
      obtain ⟨f', hframes', -, hf⟩ := hs.top
      cases hframes.symm.trans hframes'
      exact hs.withTop hframes (hchange.lasts hbuffer) hf.tame

theorem tames_onTopBuffer : Tames setup room id below (onTopBuffer change) fun _ => True := by
  intro s hs
  obtain ⟨f, hframes, -, -⟩ := hs.top
  have hend := tames_changeBuffer hchange hs hframes
  rw [onTopBuffer, bind_eq (topFrame_eq hframes)]
  cases hrun : changeBuffer f change s <;> simp_all

theorem tames_onBuffer : Tames setup room id below (onBuffer id change) fun _ => True := by
  intro s hs
  obtain ⟨f, hframes, rfl, -⟩ := hs.top
  have hend := tames_changeBuffer hchange hs hframes
  rw [onBuffer, bind_eq (frame_eq hframes)]
  cases hrun : changeBuffer f change s <;> simp_all

end Buffers

theorem tames_emit {name : String} {tensor : Tensor}
    (htensor : (name, tensor) ∈ setup.model.tensors.entries) {values : List Nat} {e : Expr}
    (he : tensor.component values = some e) :
    Tames setup room id below (emit e) fun _ => True := by
  refine .of_eq fun s hs => ⟨_, _, emit_eq e s, trivial, ?_⟩
  obtain ⟨f, hframes, -⟩ := hs.top
  rw [recordOnTop_eq (by exact hframes)]
  exact hs.congr rfl ⟨hs.drawn.emit htensor he, hs.depth_le⟩

theorem tames_cacheLambda {kind : String} {tensor : Tensor}
    (htensor : (kind, tensor) ∈ setup.model.tensors.entries) {indices : List Index}
    (hlabels : ∀ i ∈ indices, (IndexClass.ofLabel? i.label).isSome) :
    Tames setup room id below (cacheLambda (tensor.toLambda kind setup.model.ranges indices))
      fun _ => True := by
  refine .of_eq fun s hs => ⟨_, _, cacheLambda_eq _ s, trivial, ?_⟩
  obtain ⟨f, hframes, -⟩ := hs.top
  rw [recordOnTop_eq (by exact hframes)]
  exact hs.congr rfl ⟨hs.drawn.cacheLambda htensor hlabels, hs.depth_le⟩

theorem tames_clearTemporaries : Tames setup room id below clearTemporaries fun _ => True :=
  fun _ hs => ⟨trivial, hs.congr rfl ⟨hs.drawn.clear, hs.depth_le⟩⟩

/-- The declarations that are rendered are those given and some of a run. -/
theorem tames_renderDeclarations (hsetup : setup.Clean) (pattern : String)
    (held : List Declaration) :
    Tames setup room id below (renderDeclarations pattern held) fun text =>
      ∃ ds, (∀ d ∈ ds, setup.Declares d) ∧
        text = String.join ((held ++ ds).map fun d => d.instantiate pattern ++ "\n") := by
  refine .of_eq fun s hs => ?_
  obtain ⟨diagnostics, hrender⟩ := renderDeclarations_eq pattern held s
  exact ⟨_, _, hrender, ⟨_, (hs.drawn.holds hsetup).declarations, rfl⟩,
    hs.congr rfl ⟨hs.drawn, hs.depth_le⟩⟩

/-! ### Pools without a deposit -/

theorem tames_ensureBoundary : Tames setup room id below (ensureBoundary id) fun _ => True := by
  refine .bind tames_poolOf fun pool hpool => ?_
  split
  · refine .bind tames_frame fun f _ => .bind .get fun s _ => ?_
    split
    · exact .bind (tames_warn _) fun _ _ =>
        .bind (tames_onBuffer Buffer.PoolChange.setTagToStart.modest) fun _ _ =>
          .bind (tames_setPool ⟨hpool.quiet, hpool.holds⟩) fun _ _ => tames_record _ _
    · exact tames_warn _
  · exact .pure trivial

theorem tames_dropHandler : Tames setup room id below (dropHandler id) fun _ => True := by
  refine .bind tames_poolOf fun pool hpool => ?_
  split
  · exact .pure trivial
  · exact .bind (tames_setPool ⟨hpool.quiet, hpool.holds⟩) fun _ _ =>
      tames_onBuffer (Buffer.PoolChange.deregister _).modest

end ExpandM

/-! ### Rules that do not come back to expanding -/

/-- The keyword of a rule that sets a boundary or expands a template. -/
def RuleBody.keyword? : RuleBody → Option String
  | .setPool _ => some "TEMP_POOL"
  | .importTemplate => some "IMPORT"
  | .embedString => some "EMBED_STRING"
  | _ => none

namespace ExpandM

theorem tames_evaluate (re : Reentry) (name : String) {body : RuleBody}
    (hbody : body.Builtin setup.model id) (hkeyword : body.keyword? = none) (args : List String)
    {indices : List Index} (hlabels : ∀ i ∈ indices, (IndexClass.ofLabel? i.label).isSome) :
    Tames setup room id below (evaluate setup re name body args indices) fun _ => True := by
  cases body with
  | template => exact .bind tames_topFrame fun _ _ => .pure trivial
  | guard => exact .bind tames_topFrame fun _ _ => .pure trivial
  | fieldName =>
      exact .bind (.ofExcept (placed_pick _ _ _) fun _ _ => trivial) fun _ _ => .pure trivial
  | parameter => exact .ofExcept (placed_pick _ _ _) fun _ _ => trivial
  | coordinate =>
      exact .bind (.ofExcept (placed_pick _ _ _) fun _ _ => trivial) fun _ _ => .pure trivial
  | tensor t =>
      obtain ⟨tensor, ht⟩ := hbody
      refine .bind (.ofExcept (placed_valuesFor _ _) fun _ _ => trivial) fun values _ => ?_
      split
      · rename_i e he
        exact tames_emit ht he
      · exact .throw rfl
  | tensorLambda kind t => exact tames_cacheLambda hbody hlabels
  | setPool frame => cases hkeyword
  | importTemplate => cases hkeyword
  | embedString => cases hkeyword
  | script actions => exact hbody.elim
  | _ => exact .pure trivial

end ExpandM

end TensorTemplate
