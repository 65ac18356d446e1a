import TensorTemplate.Buffer
import TensorTemplate.Declaration
import TensorTemplate.LambdaCache
import TensorTemplate.Registry

/-!
Frames: the templates that are being expanded, the innermost on top. Frames are
numbered in the order in which they are pushed, and no number is used twice.
-/

namespace TensorTemplate

/-- The two kinds of pass over a template. -/
inductive Pass where
  | core
  | implementation
deriving DecidableEq, Repr

namespace Pass

def render : Pass → String
  | core => "core"
  | implementation => "implementation"

def ofName? (s : String) : Option Pass :=
  if s = "core" then some core else if s = "implementation" then some implementation else none

/-- What is said of a text that names no pass. -/
def unknownMessage (s : String) : String := "unknown process kind " ++ s

end Pass

/-- Temporaries that wait for a place in the output. -/
structure Held where
  lambdas : List LambdaRecord := []
  declarations : List Declaration := []

def Held.isEmpty (h : Held) : Bool := h.lambdas.isEmpty && h.declarations.isEmpty

/-- Where and how the temporaries of a frame are declared. -/
structure Pool where
  /-- The pattern that declarations are written by. -/
  pattern : String
  /-- Whether a boundary has been set. -/
  isSet : Bool := false
  /-- The number of boundaries set. -/
  sequence : Nat := 0
  /-- The number of the pool's own handler, until it has run. -/
  handler : Option Nat := none
  held : Held := {}

/-- A template that is being expanded. -/
structure Frame where
  id : Nat
  buffer : Buffer
  registry : Option Registry := none
  pass : Pass
  template : String
  pool : Option Pool := none

structure Stack where
  /-- The top frame first. -/
  frames : List Frame := []
  nextId : Nat := 0

namespace Stack

instance : Inhabited Stack := ⟨{}⟩

/-- Pushes a frame without rules and gives its number. -/
def push (s : Stack) (buffer : Buffer) (pass : Pass) (template : String) : Nat × Stack :=
  (s.nextId, ⟨{ id := s.nextId, buffer, pass, template } :: s.frames, s.nextId + 1⟩)

def pop (s : Stack) : Option (Frame × Stack) :=
  match s.frames with
  | [] => none
  | f :: fs => some (f, { s with frames := fs })

def depth (s : Stack) : Nat := s.frames.length

/-- The top frame. -/
def top (s : Stack) : Except Error Frame :=
  match s.frames with
  | [] => .error (.missingContext .buffer)
  | f :: _ => .ok f

/-- The rules of the top frame. -/
def registry (s : Stack) : Except Error Registry := do
  match (← s.top).registry with
  | some r => pure r
  | none => throw (.missingContext .registry)

/-- The frame with this number. -/
def frame? (s : Stack) (id : Nat) : Option Frame := s.frames.find? fun f => f.id = id

/-- The frames with `new` in place of the first one with this number. -/
def replace (id : Nat) (new : Frame) : List Frame → List Frame
  | [] => []
  | f :: fs => if f.id = id then new :: fs else f :: replace id new fs

/-- The stack with `new` in place of the frame of its number. -/
def set (s : Stack) (new : Frame) : Stack := { s with frames := replace new.id new s.frames }

end Stack

end TensorTemplate
