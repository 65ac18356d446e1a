import TensorTemplate.Proofs.Expansion.Growth

/-!
Lines with a stored tag.

Here a buffer is one list of lines, and its tag is a number that is kept beside them:
how many lines stand ahead of the tag. Every operation is a sequence of steps on the
stored values, and whatever has been changed when a step stops the operation stays
changed. Besides the errors of buffers there is another reason to stop, a splice at a
place that the list does not have.
-/

namespace TensorTemplate

/-- What can be done to a buffer of type `β`. -/
inductive BufferCall (β : Type) where
  | decorate (opening closing : String)
  | undecorate
  | setFilter (filter : Option Filter)
  | skipBlank (on : Bool)
  /-- Takes over the style of another buffer. -/
  | inherit (other : β)
  | tagToEnd
  | tagToStart
  | writeEnd (text : String)
  | writeTag (text : String)
  | merge (child : β)
  | close

namespace BufferCall

variable {β γ : Type}

/-- The same call, with other buffers seen in another way. -/
def map (f : β → γ) : BufferCall β → BufferCall γ
  | decorate opening closing => decorate opening closing
  | undecorate => undecorate
  | setFilter filter => setFilter filter
  | skipBlank on => skipBlank on
  | inherit other => inherit (f other)
  | tagToEnd => tagToEnd
  | tagToStart => tagToStart
  | writeEnd text => writeEnd text
  | writeTag text => writeTag text
  | merge child => merge (f child)
  | close => close

/-- Whether the tag is set. -/
def movesTag : BufferCall β → Bool
  | tagToEnd => true
  | tagToStart => true
  | _ => false

/-- Whether lines are put at the tag. -/
def writesTag : BufferCall β → Bool
  | writeTag _ => true
  | _ => false

/-- Whether lines are put at the end. -/
def writesEnd : BufferCall β → Bool
  | writeEnd _ => true
  | merge _ => true
  | _ => false

/-- No call does both. -/
theorem writesTag_and_writesEnd (call : BufferCall β) :
    (call.writesTag && call.writesEnd) = false := by
  cases call <;> rfl

/-- Whether lines are put into the buffer. -/
def writes (call : BufferCall β) : Bool := call.writesTag || call.writesEnd

theorem movesTag_of_writes {call : BufferCall β} (h : call.writes = true) :
    call.movesTag = false := by
  cases call with
  | tagToEnd => cases h
  | tagToStart => cases h
  | _ => rfl

end BufferCall

/-- Lines, and a tag among them. -/
structure TaggedLines where
  lines : List String := []
  /-- How many lines stand ahead of the tag, once it has been set. -/
  tag : Option Nat := none
  style : LineStyle := {}
  closed : Bool := false

/-- Why an operation stops. -/
inductive Stop where
  | error (e : Error)
  /-- There is no such place among the lines. -/
  | outOfRange
deriving Repr

namespace TaggedLines

/-- A sequence of steps on lines with a tag; what has been changed before it stops stays changed. -/
abbrev Steps := EStateM Stop TaggedLines

def checkOpen : Steps Unit := do
  if (← get).closed then throw (.error .bufferClosed)

/-- The place of the tag. -/
def place : Steps Nat := do
  match (← get).tag with
  | some n => pure n
  | none => throw (.error .noTag)

def setTag (n : Nat) : Steps Unit := modify fun t => { t with tag := some n }

def restyle (change : LineStyle → LineStyle) : Steps Unit :=
  modify fun t => { t with style := change t.style }

/-- Puts lines behind all others. -/
def extend (new : List String) : Steps Unit := modify fun t => { t with lines := t.lines ++ new }

/-- Puts lines behind the first `n`, if there are so many. -/
def splice (n : Nat) (new : List String) : Steps Unit := do
  let t ← get
  if n ≤ t.lines.length then set { t with lines := t.lines.take n ++ new ++ t.lines.drop n }
  else throw .outOfRange

/-- The rows of a text as they enter the buffer. -/
def dress (text : String) : Steps (List String) := do
  pure ((← get).style.applyAll text)

/-- What a call does, step by step. -/
def exec : BufferCall TaggedLines → Steps Unit
  | .decorate opening closing => restyle (·.push opening closing)
  | .undecorate => restyle fun style => { style with decorations := style.decorations.tail }
  | .setFilter filter => restyle fun style => { style with filter }
  | .skipBlank on => restyle fun style => { style with skipBlank := on }
  | .inherit other => restyle fun _ => other.style
  | .tagToEnd => do setTag (← get).lines.length
  | .tagToStart => setTag 0
  | .writeEnd text => do
    checkOpen
    extend (← dress text)
  | .writeTag text => do
    checkOpen
    let n ← place
    let new ← dress text
    splice n new
    setTag (n + new.length)
  | .merge child => do
    checkOpen
    extend child.lines
  | .close => modify fun t => { t with closed := true }

/-- The lines and the tag when a call is done or has been stopped. -/
def next (t : TaggedLines) (call : BufferCall TaggedLines) : TaggedLines :=
  match exec call t with
  | .ok _ t' => t'
  | .error _ t' => t'

/-- The lines and the tag after some calls. -/
def after (t : TaggedLines) (calls : List (BufferCall TaggedLines)) : TaggedLines :=
  calls.foldl next t

end TaggedLines

/-- The lines that a call puts into a buffer of this style. -/
def BufferCall.brings (style : LineStyle) : BufferCall TaggedLines → List String
  | writeEnd text => style.applyAll text
  | writeTag text => style.applyAll text
  | merge child => child.lines
  | _ => []

namespace TaggedLines

open ExpandM (bind_eq)

variable {t : TaggedLines} {call : BufferCall TaggedLines}

/-! ### One call -/

theorem splice_eq {n : Nat} (h : n ≤ t.lines.length) (new : List String) :
    splice n new t = .ok () { t with lines := t.lines.take n ++ new ++ t.lines.drop n } := by
  show (if n ≤ t.lines.length then _ else _ : Steps Unit) t = _
  rw [if_pos h]
  rfl

theorem exec_of_writesEnd (h : call.writesEnd = true) :
    exec call t =
      if t.closed then .error (.error .bufferClosed) t
      else .ok () { t with lines := t.lines ++ call.brings t.style } := by
  obtain ⟨lines, tag, style, closed⟩ := t
  cases call with
  | writeEnd text => cases closed <;> rfl
  | merge child => cases closed <;> rfl
  | _ => cases h

/-- Lines are put at a tag that is among the lines, and the tag moves behind them. -/
theorem exec_of_writesTag (h : call.writesTag = true) {n : Nat} (htag : t.tag = some n)
    (hn : n ≤ t.lines.length) :
    exec call t =
      if t.closed then .error (.error .bufferClosed) t
      else .ok ()
        { t with
          lines := t.lines.take n ++ call.brings t.style ++ t.lines.drop n
          tag := some (n + (call.brings t.style).length) } := by
  obtain ⟨lines, tag, style, closed⟩ := t
  cases htag
  cases call with
  | writeTag text =>
      cases closed with
      | true => rfl
      | false => exact bind_eq (splice_eq hn (style.applyAll text))
  | _ => cases h

theorem exec_of_writesTag_of_tag_eq_none (h : call.writesTag = true) (htag : t.tag = none) :
    exec call t = .error (.error (if t.closed then .bufferClosed else .noTag)) t := by
  obtain ⟨lines, tag, style, closed⟩ := t
  cases htag
  cases call with
  | writeTag text => cases closed <;> rfl
  | _ => cases h

end TaggedLines

end TensorTemplate
