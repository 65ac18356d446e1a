import TensorTemplate.Expansion.Line
import TensorTemplate.Header

/-!
Expanding whole templates.

A template is expanded into a buffer, on a frame of its own. Its lines are counted
from the header line, which is the first, and an error on a line is wrapped in
template and line. When all lines are written the buffer's handlers run and the
buffer is closed; the frame goes in any case.
-/

namespace TensorTemplate

/-- What happens to a buffer that its handlers wait for: it is finished, or a nested template starts
on top of it. -/
inductive BufferEvent where
  | close
  | suspend
deriving DecidableEq, Repr

namespace BufferEvent

def render : BufferEvent → String
  | close => "close"
  | suspend => "suspend"

/-- The script for the event. -/
def choose (onClose onSuspend : Script) : BufferEvent → Script
  | close => onClose
  | suspend => onSuspend

end BufferEvent

namespace NestedOptions

/-- An empty buffer for a template nested in the one that fills `parent`. -/
def child (options : NestedOptions) (parent : Buffer) : Buffer :=
  let decorated := match options.delimiters with
    | some (opening, closing) => (Buffer.inheriting parent).pushDecoration opening closing
    | none => Buffer.inheriting parent
  match options.filter with
  | some filter => decorated.setFilter (some filter)
  | none => decorated

end NestedOptions

namespace ExpandM

/-- Runs a handler; a script is noted with the template on top and the text it gave. -/
def handle (re : Reentry) (event : BufferEvent) : Handler → ExpandM Unit
  | .pool id =>
    match event with
    | .close => retirePool re id
    | .suspend => suspendPool re id
  | .note name => note (name ++ ":" ++ event.render)
  | .script name onClose onSuspend => do
    let template := (← topFrame).template
    let text ← perform re [] [] (event.choose onClose onSuspend)
    note (":".intercalate [name, event.render, template, text])

/-- Writes the expansion of a line to the top buffer and gives the number of calls replaced. -/
def writeLine (setup : Setup) (re : Reentry) (line : String) : ExpandM Nat := do
  let (lines, count) ← expandLine setup re line
  lines.forM fun out => do
    onTopBuffer (·.writeToEnd out)
    recordOnTop (.wrote out)
  pure count

/-- Writes the lines of a body, of which the first is line 2 of the template, and gives the number
of calls replaced. -/
def writeBody (setup : Setup) (re : Reentry) (template : String) (body : List String) :
    ExpandM Nat := do
  let counts ← (body.zipIdx 2).mapM fun (line, number) => do
    trackTop fun mark => { mark with begun := line :: mark.begun }
    within template number (writeLine setup re line)
  pure (counts.foldl (· + ·) 0)

/-- Runs the handlers of the top buffer and closes it. -/
def finishTop (re : Reentry) : ExpandM Unit := do
  let top ← topFrame
  let (handlers, buffer) := top.buffer.takeHandlers
  setFrame { top with buffer }
  handlers.forM (handle re .close)
  onTopBuffer (pure ·.close)

/-- Expands a body on the frame on top, which has its rules. -/
def runBody (setup : Setup) (re : Reentry) (template : String) (body : List String) :
    ExpandM Nat := do
  track (⟨template, [], false⟩ :: ·)
  let count ← writeBody setup re template body
  trackTop fun mark => { mark with finishing := true }
  within template (1 + body.length) (finishTop re)
  track List.tail
  pure count

/-- Expands a body on the frame with this number. -/
def runFrame (setup : Setup) (re : Reentry) (id : Nat) (pass : Pass) (template : String)
    (body : List String) : ExpandM Nat := do
  let registry ← buildRegistry setup id pass
  setFrame { ← frame id with registry := some registry }
  runBody setup (re.forLines id) template body

def pushFrame (buffer : Buffer) (pass : Pass) (template : String) : ExpandM Nat :=
  modifyGet fun s =>
    let (id, stack) := s.stack.push buffer pass template
    (id, ({ s with stack }.record id (.opened buffer)).see (.pushed stack.depth))

def popFrame : ExpandM Frame := do
  let s ← get
  match s.stack.pop with
  | some (f, stack) =>
    set { s with stack }
    pure f
  | none => throw (.missingContext .buffer)

/-- Expands a template into a buffer. Gives the closed buffer and the number of calls replaced on
the template's own lines. -/
def expandTemplate (setup : Setup) (re : Reentry) (template : String) (buffer : Buffer)
    (pass : Pass) : ExpandM (Buffer × Nat) := do
  let text ← ofExcept (setup.source.load (← get).files template)
  let (header, body) ← ofExcept (Header.split template text)
  ofExcept (header.validate template setup.settings.backend setup.settings.version)
  let id ← pushFrame buffer pass template
  let outcome ← attempt (runFrame setup re id pass template (Text.lines body))
  let popped ← popFrame
  let count ← ofExcept outcome
  record id (.closed popped.buffer)
  pure (popped.buffer, count)

/-- Expands a template on top of the present one, into a buffer of the same style, and puts the
lines at the end of the present buffer. -/
def expandNested (setup : Setup) (re : Reentry) (template : String) (options : NestedOptions) :
    ExpandM Nat := do
  let handlers := (← topFrame).buffer.handlers
  handlers.forM fun h => handle re .suspend h.2
  let top ← topFrame
  let (child, count) ← expandTemplate setup re template (options.child top.buffer) top.pass
  onTopBuffer (·.merge child)
  recordOnTop (.merged child.lines)
  pure count

/-- Expands the directives of a text by the rules of the top frame. -/
def expandText (setup : Setup) (re : Reentry) (text : String) : ExpandM String := do
  let lines ← expandLines setup re (Text.lines text)
  pure (Text.unlines lines)

end ExpandM

end TensorTemplate
