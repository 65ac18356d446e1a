import TensorTemplate.Error
import TensorTemplate.Script
import TensorTemplate.Text.Lines

/-!
Output buffers: lines in their final form, with a tag among them.

A text is cut into rows, and each row is filtered and decorated when it is
written. Rows go to the end of the buffer, or to its tag: there they stand after
what was written to the tag before, and ahead of what has been written to the end
since the tag was set. A closed buffer takes no rows.
-/

namespace TensorTemplate

/-- What is put around every line. -/
structure Decoration where
  opening : String
  closing : String
deriving DecidableEq, Repr

/-- How lines are changed on their way into a buffer. -/
structure LineStyle where
  /-- The innermost decoration first. -/
  decorations : List Decoration := []
  skipBlank : Bool := false
  filter : Option Filter := none

namespace LineStyle

/-- Adds an innermost decoration. -/
def push (s : LineStyle) (opening closing : String) : LineStyle :=
  { s with decorations := ⟨opening, closing⟩ :: s.decorations }

/-- The line inside all decorations. -/
def surround (decorations : List Decoration) (line : String) : String :=
  decorations.foldl (fun line d => d.opening ++ line ++ d.closing) line

/-- The line as it enters the buffer, unless blank lines are skipped and it is one. Blankness is
tested before the filter and the decorations. -/
def apply (s : LineStyle) (line : String) : Option String :=
  if s.skipBlank && Text.blank line then none
  else
    let filtered := match s.filter with
      | some f => f line
      | none => line
    some (surround s.decorations filtered)

/-- The rows of a text as they enter the buffer. -/
def applyAll (s : LineStyle) (text : String) : List String :=
  (Text.rows text).filterMap s.apply

end LineStyle

structure Buffer where
  /-- The lines ahead of the tag, the last one first. Without a tag there are none. -/
  ahead : List String := []
  /-- The lines behind the tag, the last one first. Without a tag these are all lines. -/
  behind : List String := []
  tagged : Bool := false
  style : LineStyle := {}
  /-- Handlers and the numbers they were given, in order of registration. -/
  handlers : List (Nat × Handler) := []
  nextHandler : Nat := 0
  closed : Bool := false

namespace Buffer

instance : Inhabited Buffer := ⟨{}⟩

/-- The lines, the last one first. -/
def newest (b : Buffer) : List String :=
  match b.ahead with
  | [] => b.behind
  | line :: rest => b.behind ++ line :: rest

theorem newest_eq (b : Buffer) : b.newest = b.behind ++ b.ahead := by
  unfold newest
  split <;> simp_all

/-- The lines, from first to last. -/
def lines (b : Buffer) : List String := b.newest.reverse

theorem lines_eq (b : Buffer) : b.lines = b.ahead.reverse ++ b.behind.reverse := by
  rw [lines, newest_eq, List.reverse_append]

/-- The number of lines ahead of the tag. -/
def tag (b : Buffer) : Option Nat := if b.tagged then some b.ahead.length else none

/-- An empty buffer with the line style of another. -/
def inheriting (parent : Buffer) : Buffer := { style := parent.style }

def inheritStyle (b other : Buffer) : Buffer := { b with style := other.style }

def pushDecoration (b : Buffer) (opening closing : String) : Buffer :=
  { b with style := b.style.push opening closing }

/-- Takes off the innermost decoration. -/
def popDecoration (b : Buffer) : Option Decoration × Buffer :=
  (b.style.decorations.head?,
    { b with style := { b.style with decorations := b.style.decorations.tail } })

def setSkipBlank (b : Buffer) (on : Bool) : Buffer :=
  { b with style := { b.style with skipBlank := on } }

def setFilter (b : Buffer) (filter : Option Filter) : Buffer :=
  { b with style := { b.style with filter } }

/-- Puts finished lines at the end. -/
def append (b : Buffer) (new : List String) : Except Error Buffer :=
  if b.closed then .error .bufferClosed
  else .ok { b with behind := new.reverse ++ b.behind }

theorem append_eq_ok_iff {b b' : Buffer} {new : List String} :
    b.append new = .ok b' ↔
      b.closed = false ∧ b' = { b with behind := new.reverse ++ b.behind } := by
  unfold append
  cases b.closed <;> simp [eq_comm]

theorem lines_append {b b' : Buffer} {new : List String} (h : b.append new = .ok b') :
    b'.lines = b.lines ++ new := by
  rw [(append_eq_ok_iff.1 h).2]
  simp [lines_eq]

/-- Puts finished lines at the tag, which moves behind them. -/
def insertAtTag (b : Buffer) (new : List String) : Except Error Buffer :=
  if b.closed then .error .bufferClosed
  else if b.tagged then .ok { b with ahead := new.reverse ++ b.ahead }
  else .error .noTag

/-- Writes the rows of a text at the end. -/
def writeToEnd (b : Buffer) (text : String) : Except Error Buffer :=
  b.append (b.style.applyAll text)

/-- Writes the rows of a text at the tag. -/
def writeToTag (b : Buffer) (text : String) : Except Error Buffer :=
  b.insertAtTag (b.style.applyAll text)

/-- Writes the rows of each text at the tag, the first text first. -/
def writeAllToTag (b : Buffer) (texts : List String) : Except Error Buffer :=
  if texts.isEmpty then .ok b else b.insertAtTag (texts.flatMap b.style.applyAll)

def setTagToEnd (b : Buffer) : Buffer :=
  { b with ahead := b.newest, behind := [], tagged := true }

def setTagToStart (b : Buffer) : Buffer :=
  { b with ahead := [], behind := b.newest, tagged := true }

/-- Registers a handler and gives its number. -/
def register (b : Buffer) (h : Handler) : Nat × Buffer :=
  (b.nextHandler,
    { b with handlers := b.handlers ++ [(b.nextHandler, h)], nextHandler := b.nextHandler + 1 })

/-- Takes the handler with this number away, if it is there. -/
def deregister (b : Buffer) (id : Nat) : Buffer :=
  { b with handlers := b.handlers.filter fun h => h.1 ≠ id }

/-- The handlers, and the buffer without them. -/
def takeHandlers (b : Buffer) : List Handler × Buffer :=
  (b.handlers.map (·.2), { b with handlers := [] })

def close (b : Buffer) : Buffer := { b with closed := true }

/-- Puts the lines of another buffer at the end, as they are. -/
def merge (b child : Buffer) : Except Error Buffer := b.append child.lines

/-- The lines as one text. -/
def render (b : Buffer) : String := Text.unlines b.lines

end Buffer

end TensorTemplate
