import TensorTemplate.Journal
import TensorTemplate.Source

/-!
What an expansion works from and what it works on.

The setup stays as it is during a run. The state holds the temporaries, the stack
of frames, warnings and counts; an action that fails keeps the changes made before
the failure, so an error comes with the state in which it arose.
-/

namespace TensorTemplate

/-- Settings of a run. -/
structure Settings where
  /-- The backend that templates have to name. -/
  backend : String := "cpp"
  exprKernel : String := "__cse"
  lambdaKernel : String := "__lambda"
  skipBlank : Bool := false
  /-- The version that templates are checked against. -/
  version : Version := .current
deriving DecidableEq, Repr

/-- Rules and handlers added to those of every frame. -/
structure Package where
  /-- The only pass that the package is for. -/
  only : Option Pass := none
  /-- Words of refusal, if it cannot be installed. -/
  refusal : Option String := none
  rules : List (String × Rule) := []
  handlers : List Handler := []

/-- What a run works from. -/
structure Setup where
  settings : Settings
  backend : Backend
  model : Model
  source : Source
  packages : List Package := []

namespace Setup

/-- The setup for these settings, if they name a backend. -/
def new (settings : Settings) (model : Model) (source : Source) (packages : List Package) :
    Except Error Setup :=
  match Backend.ofName? settings.backend with
  | some backend => .ok { settings, backend, model, source, packages }
  | none => .error (.unknownBackend settings.backend)

end Setup

/-- What a run works on. -/
structure State where
  temporaries : Temporaries
  stack : Stack := {}
  diagnostics : Diagnostics := {}
  /-- How many calls have been replaced. -/
  replacements : Nat := 0
  /-- Notes of handlers and scripts, the latest first. -/
  log : List String := []
  files : FileTree := {}
  journal : Journal := []
  /-- One for each template that is being expanded, the innermost first. A run that fails leaves
  them where they are. -/
  bookmarks : List Bookmark := []
  /-- What has been seen of the run, the latest first. -/
  sights : List Sight := []

namespace State

/-- The state at the start of a run. -/
def initial (setup : Setup) (files : FileTree) : State where
  temporaries :=
    .new setup.backend setup.settings.exprKernel setup.settings.lambdaKernel
  files

/-- The state with an event of the frame with this number in its journal. -/
def record (s : State) (id : Nat) (event : FrameEvent) : State :=
  { s with journal := (id, event) :: s.journal }

/-- The state with an event of the frame on top, if there is one. -/
def recordOnTop (s : State) (event : FrameEvent) : State :=
  match s.stack.frames with
  | [] => s
  | f :: _ => s.record f.id event

/-- The state with its bookmarks moved. -/
def track (s : State) (change : List Bookmark → List Bookmark) : State :=
  { s with bookmarks := change s.bookmarks }

/-- The state with one sight more. -/
def see (s : State) (sight : Sight) : State := { s with sights := sight :: s.sights }

end State

/-- An action on the state of a run, which may fail. -/
abbrev ExpandM := EStateM Error State

namespace ExpandM

def ofExcept {α : Type} : Except Error α → ExpandM α
  | .ok a => pure a
  | .error e => throw e

/-- The outcome of an action as a value; its changes stay. -/
def attempt {α : Type} (x : ExpandM α) : ExpandM (Except Error α) := fun s =>
  match x s with
  | .ok a s => .ok (.ok a) s
  | .error e s => .ok (.error e) s

/-- An action whose errors are wrapped in a place. -/
def within {α : Type} (template : String) (line : Nat) (x : ExpandM α) : ExpandM α := fun s =>
  match x s with
  | .ok a s => .ok a s
  | .error e s => .error (.within template line e) s

def warn (message : String) : ExpandM Unit :=
  modify fun s => { s with diagnostics := s.diagnostics.warn message }

def note (line : String) : ExpandM Unit :=
  modify fun s => { s with log := line :: s.log }

/-- Enters an event of the frame with this number into the journal. -/
def record (id : Nat) (event : FrameEvent) : ExpandM Unit := modify (·.record id event)

/-- Enters an event of the frame on top into the journal. -/
def recordOnTop (event : FrameEvent) : ExpandM Unit := modify (·.recordOnTop event)

/-- Moves the bookmarks. -/
def track (change : List Bookmark → List Bookmark) : ExpandM Unit := modify (·.track change)

/-- Moves the bookmark of the innermost template. -/
def trackTop (change : Bookmark → Bookmark) : ExpandM Unit := track (List.modifyHead change)

def see (sight : Sight) : ExpandM Unit := modify (·.see sight)

/-! ### Frames -/

/-- The frame on top. -/
def topFrame : ExpandM Frame := do ofExcept (← get).stack.top

/-- The frame with this number. -/
def frame (id : Nat) : ExpandM Frame := do
  match (← get).stack.frame? id with
  | some f => pure f
  | none => throw (.missingContext .buffer)

/-- Puts a frame in place of the one with its number. -/
def setFrame (f : Frame) : ExpandM Unit :=
  modify fun s => { s with stack := s.stack.set f }

/-- Changes the buffer of a frame, unless the change fails. -/
def changeBuffer (f : Frame) (change : Buffer → Except Error Buffer) : ExpandM Unit := do
  let buffer ← ofExcept (change f.buffer)
  setFrame { f with buffer }

/-- Changes the buffer on top, unless the change fails. -/
def onTopBuffer (change : Buffer → Except Error Buffer) : ExpandM Unit := do
  changeBuffer (← topFrame) change

/-- Changes the buffer of the frame with this number, unless the change fails. -/
def onBuffer (id : Nat) (change : Buffer → Except Error Buffer) : ExpandM Unit := do
  changeBuffer (← frame id) change

/-! ### Temporaries -/

/-- Prints an expression through the cache. -/
def emit (e : Expr) : ExpandM String :=
  modifyGet fun s =>
    let parsed := s.temporaries.parse e
    let (text, used, exprs) := parsed.exprs.substituteAndDeclare e
    (text, { s with temporaries := { parsed with exprs } }.recordOnTop (.named used))

/-- Calls a cached function value. -/
def cacheLambda (l : Lambda) : ExpandM String :=
  modifyGet fun s =>
    let t := s.temporaries
    let (r, lambdas) := t.lambdas.enter t.generation l
    (t.lambdas.backend.invocation r.name l.params,
      { s with temporaries := { t with lambdas } }.recordOnTop (.called r))

/-- The declarations of the cache by a pattern, after the ones given. -/
def renderDeclarations (pattern : String) (held : List Declaration) : ExpandM String :=
  modifyGet fun s =>
    let (text, diagnostics) :=
      s.temporaries.exprs.renderDeclarations pattern held s.diagnostics
    (text, { s with diagnostics })

end ExpandM

/-- The two ways in which a rule or a handler comes back to expanding: a template nested in the one
on top, and a text that holds directives. -/
structure Reentry where
  nested : String → NestedOptions → ExpandM Nat
  expandText : String → ExpandM String
  /-- The number of the frame if it is its lines that are being expanded, and not a text. It is read
  for the sights only. -/
  frame : Option Nat := none

/-- The same ways, for the lines of the frame with this number. -/
def Reentry.forLines (re : Reentry) (id : Nat) : Reentry := { re with frame := some id }

end TensorTemplate
