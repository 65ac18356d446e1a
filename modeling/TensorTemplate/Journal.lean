import TensorTemplate.Stack
import TensorTemplate.Temporaries

/-!
The journal of a run: what happened to which frame. A run writes it and never reads
it; it tells afterwards which temporaries the rules named while a frame was on top,
and where every line of the frame's buffer comes from.

A run also keeps bookmarks and sights, which it never reads either. Bookmarks say how
far it has come in each of the templates that are being expanded; sights tell of every
evaluation of a rule and of every frame that was pushed.
-/

namespace TensorTemplate

/-- What happens to a frame. -/
inductive FrameEvent where
  /-- The frame is pushed, with this buffer. -/
  | opened (buffer : Buffer)
  /-- A rule gave a text that holds the names of these symbols. -/
  | named (symbols : List Symbol)
  /-- A rule gave a text that calls this function value. -/
  | called (record : LambdaRecord)
  /-- A boundary was set at the end of the buffer. -/
  | bounded (pattern : String)
  /-- The buffer was finished without a boundary, so one was put at its start. -/
  | boundedAtStart
  /-- These temporaries are declared at the boundary, by this pattern. -/
  | declares (pattern : String) (lambdas : List LambdaRecord) (declarations : List Declaration)
  /-- A line of the expansion of the frame's own lines was written. -/
  | wrote (text : String)
  /-- The lines of a nested template were put at the end. -/
  | merged (lines : List String)
  /-- The frame is popped, with this buffer. -/
  | closed (buffer : Buffer)

/-- Events with the numbers of their frames, the latest first. -/
abbrev Journal := List (Nat × FrameEvent)

/-- How far a run has come in a template. -/
structure Bookmark where
  template : String
  /-- The lines behind the header that have been begun, the latest first. -/
  begun : List String := []
  /-- Whether all lines are done and the buffer is being finished. -/
  finishing : Bool := false
deriving DecidableEq, Repr

/-- What is seen of a run. -/
inductive Sight where
  /-- A rule has been evaluated for a line of the frame with this number, or for a text that a rule
  or a handler expands. -/
  | evaluated (frame : Option Nat)
  /-- A frame has been pushed, and now there are this many. -/
  | pushed (depth : Nat)
deriving DecidableEq, Repr

end TensorTemplate
