import TensorTemplate.Expansion.State
import TensorTemplate.Proofs.Expansion.Page
import Mathlib.Logic.Relation

/-!
What a run can do to its temporaries.

The view of a state keeps what matters to the declaration of temporaries: the
caches, the lines and the pool of every frame, and the journal. A run changes its
view in steps of ten kinds, each of which concerns the frame on top.
-/

namespace TensorTemplate

/-- A frame as its temporaries see it. -/
structure Live where
  id : Nat
  style : LineStyle
  /-- The lines ahead of the boundary, the last one first. -/
  ahead : List String
  /-- The lines behind the boundary, the last one first. -/
  behind : List String
  pattern : String
  /-- Whether there is a boundary. -/
  isSet : Bool
  held : Held

/-- A state as its temporaries see it. -/
structure View where
  temporaries : Temporaries
  /-- The frame on top first. -/
  frames : List Live
  nextId : Nat
  journal : Journal

/-- The frame as its temporaries see it, with this pool. -/
def Frame.liveWith (f : Frame) (pool : Pool) : Live where
  id := f.id
  style := f.buffer.style
  ahead := f.buffer.ahead
  behind := f.buffer.behind
  pattern := pool.pattern
  isSet := pool.isSet
  held := pool.held

/-- The frame as its temporaries see it, with an empty pool if it has none. -/
def Frame.live (f : Frame) : Live := f.liveWith (f.pool.getD { pattern := "" })

theorem Frame.live_eq {f : Frame} {pool : Pool} (h : f.pool = some pool) :
    f.live = f.liveWith pool := by
  rw [live, h, Option.getD_some]

def State.view (s : State) : View where
  temporaries := s.temporaries
  frames := s.stack.frames.map Frame.live
  nextId := s.stack.nextId
  journal := s.journal

namespace View

variable (b : Backend)

/-- The steps by which a run changes its view. -/
inductive Step : View → View → Prop where
  /-- A rule prints an expression. -/
  | name {v : View} {f : Live} {fs : List Live} (hframes : v.frames = f :: fs) {e : Expr}
      (he : e.Clean) :
      Step v { v with
        temporaries := (v.temporaries.emit e).2
        journal := (f.id, .named (v.temporaries.named e)) :: v.journal }
  /-- A rule calls a function value. -/
  | call {v : View} {f : Live} {fs : List Live} (hframes : v.frames = f :: fs) {l : Lambda}
      (hl : l.Clean) :
      Step v { v with
        temporaries := (v.temporaries.cacheLambda l).2
        journal := (f.id, .called (v.temporaries.called l)) :: v.journal }
  /-- A line is written to the end. -/
  | write {v : View} {f : Live} {fs : List Live} (hframes : v.frames = f :: fs) (text : String) :
      Step v { v with
        frames := { f with behind := (f.style.applyAll text).reverse ++ f.behind } :: fs
        journal := (f.id, .wrote text) :: v.journal }
  /-- The lines of a nested template are taken over. -/
  | merge {v : View} {f : Live} {fs : List Live} (hframes : v.frames = f :: fs)
      (lines : List String) :
      Step v { v with
        frames := { f with behind := lines.reverse ++ f.behind } :: fs
        journal := (f.id, .merged lines) :: v.journal }
  /-- What is held and what waits is declared at the boundary. -/
  | deposit {v : View} {f : Live} {fs : List Live} (hframes : v.frames = f :: fs)
      (hset : f.isSet = true)
      (hlines : ∀ t ∈ (f.held.add v.temporaries.toHeld).texts b f.pattern, Segment.PlainLine t.2) :
      Step v { v with
        temporaries := v.temporaries.clear
        frames :=
          { f with
            held := {}
            ahead := (((f.held.add v.temporaries.toHeld).texts b f.pattern).flatMap fun t =>
              f.style.applyAll (Segment.shown t.2)).reverse ++ f.ahead } :: fs
        journal :=
          (f.id, .declares f.pattern (f.held.lambdas ++ v.temporaries.lambdas.records)
            (f.held.declarations ++ v.temporaries.exprs.declarations)) :: v.journal }
  /-- What waits is held until there is a boundary. -/
  | hold {v : View} {f : Live} {fs : List Live} (hframes : v.frames = f :: fs)
      (hset : f.isSet = false) :
      Step v { v with
        temporaries := v.temporaries.clear
        frames := { f with held := f.held.add v.temporaries.toHeld } :: fs }
  /-- A boundary is set at the end; if there was one, nothing is left for it. -/
  | bound {v : View} {f : Live} {fs : List Live} (hframes : v.frames = f :: fs) {pattern : String}
      (hpattern : '\n' ∉ pattern.toList)
      (hdrained : f.isSet = true → f.held.names = [] ∧ v.temporaries.waiting = []) :
      Step v { v with
        frames :=
          { f with pattern, isSet := true, ahead := f.behind ++ f.ahead, behind := [] } :: fs
        journal := (f.id, .bounded pattern) :: v.journal }
  /-- A boundary is put at the start. -/
  | boundAtStart {v : View} {f : Live} {fs : List Live} (hframes : v.frames = f :: fs)
      (hset : f.isSet = false) :
      Step v { v with
        frames := { f with isSet := true, ahead := [], behind := f.behind ++ f.ahead } :: fs
        journal := (f.id, .boundedAtStart) :: v.journal }
  /-- A frame is opened while nothing waits. -/
  | enter {v : View} (hwaiting : v.temporaries.waiting = []) (buffer : Buffer) :
      Step v { v with
        frames :=
          { id := v.nextId, style := buffer.style, ahead := buffer.ahead, behind := buffer.behind
            pattern := b.defaultDeclaration, isSet := false, held := {} } :: v.frames
        nextId := v.nextId + 1
        journal := (v.nextId, .opened buffer) :: v.journal }
  /-- A frame is closed for which nothing is left to be declared. -/
  | leave {v : View} {f : Live} {fs : List Live} (hframes : v.frames = f :: fs)
      (hheld : f.held.names = []) (hwaiting : v.temporaries.waiting = []) {buffer : Buffer}
      (hbuffer : buffer.ahead = f.ahead ∧ buffer.behind = f.behind) :
      Step v { v with frames := fs, journal := (f.id, .closed buffer) :: v.journal }

/-- A run of steps. -/
abbrev Run : View → View → Prop := Relation.ReflTransGen (Step b)

/-- What is true of the texts in the view of every run on clean expressions. -/
structure Tidy (v : View) : Prop where
  sound : v.temporaries.Sound
  backend : v.temporaries.lambdas.backend = b
  pattern : ∀ f ∈ v.frames, '\n' ∉ f.pattern.toList
  held : ∀ f ∈ v.frames, f.held.Clean

/-- Nothing waits in the caches, and the pool on top holds nothing. -/
structure Drained (v : View) : Prop where
  waiting : v.temporaries.waiting = []
  held : ∀ {f fs}, v.frames = f :: fs → f.held.names = []

variable {b} {v v' : View}

/-- The frame on top changes and the others stay. -/
theorem forall_mem_top {P : Live → Prop} {f f' : Live} {fs : List Live}
    (hframes : v.frames = f :: fs) (h : ∀ g ∈ v.frames, P g) (hf' : P f → P f') :
    ∀ g ∈ f' :: fs, P g := by
  rw [hframes] at h
  intro g hg
  rcases List.mem_cons.1 hg with rfl | hg
  · exact hf' (h f List.mem_cons_self)
  · exact h g (List.mem_cons_of_mem _ hg)

theorem Step.tidy (h : Step b v v') (hv : v.Tidy b) : v'.Tidy b := by
  induction h with
  | name hframes he => exact ⟨hv.sound.emit he, hv.backend, hv.pattern, hv.held⟩
  | call hframes hl =>
      exact ⟨hv.sound.cacheLambda hl, (Temporaries.backend_cacheLambda _ _).trans hv.backend,
        hv.pattern, hv.held⟩
  | write hframes text =>
      exact ⟨hv.sound, hv.backend, forall_mem_top hframes hv.pattern id,
        forall_mem_top hframes hv.held id⟩
  | merge hframes lines =>
      exact ⟨hv.sound, hv.backend, forall_mem_top hframes hv.pattern id,
        forall_mem_top hframes hv.held id⟩
  | deposit hframes hset hlines =>
      exact ⟨hv.sound.clear, (Temporaries.backend_clear _).trans hv.backend,
        forall_mem_top hframes hv.pattern id,
        forall_mem_top hframes hv.held fun _ => Held.clean_empty⟩
  | hold hframes hset =>
      exact ⟨hv.sound.clear, (Temporaries.backend_clear _).trans hv.backend,
        forall_mem_top hframes hv.pattern id,
        forall_mem_top hframes hv.held fun hf => hf.add hv.sound.clean_toHeld⟩
  | bound hframes hpattern hdrained =>
      exact ⟨hv.sound, hv.backend, forall_mem_top hframes hv.pattern fun _ => hpattern,
        forall_mem_top hframes hv.held id⟩
  | boundAtStart hframes hset =>
      exact ⟨hv.sound, hv.backend, forall_mem_top hframes hv.pattern id,
        forall_mem_top hframes hv.held id⟩
  | enter hwaiting buffer =>
      have hdefault : '\n' ∉ b.defaultDeclaration.toList := by cases b <;> decide
      exact ⟨hv.sound, hv.backend, List.forall_mem_cons.2 ⟨hdefault, hv.pattern⟩,
        List.forall_mem_cons.2 ⟨Held.clean_empty, hv.held⟩⟩
  | leave hframes hheld hwaiting hbuffer =>
      have hpattern := hv.pattern
      have hheld := hv.held
      rw [hframes] at hpattern hheld
      exact ⟨hv.sound, hv.backend, (List.forall_mem_cons.1 hpattern).2,
        (List.forall_mem_cons.1 hheld).2⟩

/-- What every step keeps is kept by every run. -/
theorem Run.keeps {P : View → Prop} (hstep : ∀ {v v'}, Step b v v' → P v → P v')
    (h : Run b v v') (hv : P v) : P v' := by
  induction h with
  | refl => exact hv
  | tail _ h ih => exact hstep h ih

end View

end TensorTemplate
