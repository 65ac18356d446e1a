import TensorTemplate.Expansion.Rule
import TensorTemplate.Segment

/-!
Expanding one template line.

All calls of a line are checked before the first one runs. A line with indices is
repeated, once for every choice of values for its labels, unless one of its rules
forbids that; then the indices have no values. A line without calls stays as it
is, and a line with calls that shows nothing is left out.
-/

namespace TensorTemplate

namespace Segment

/-- Brackets after a simple rule without arguments are text of the output. -/
def detachSubscript (r : Registry) : Segment → List Segment
  | .text t => [.text t]
  | .directive d =>
    if !d.indices.isEmpty && d.args.isEmpty && r.isSimple d.name then
      [.directive { d with indices := [] }, .text d.subscript]
    else [.directive d]

def isDirective : Segment → Bool
  | .directive _ => true
  | .text _ => false

/-- The text of the segments that are text. -/
def plainText (segments : List Segment) : String :=
  String.join (segments.map fun
    | .text t => t
    | .directive _ => "")

end Segment

/-- How a line is repeated: over the values of these indices, or not at all. -/
structure LinePlan where
  labels : List Index := []
  unroll : Bool := true
deriving DecidableEq, Repr

namespace LinePlan

/-- The plan with the labels that are new in it. -/
def addLabels (p : LinePlan) (indices : List Index) : LinePlan :=
  { p with
    labels := indices.foldl
      (fun labels i => if labels.any (fun l => l.label = i.label) then labels else labels ++ [i])
      p.labels }

/-- The plan after a call of the rule with these indices. -/
def call (p : LinePlan) (rule : Rule) (indices : List Index) : LinePlan :=
  match rule.shape with
  | .simple => p
  | .indexed _ unroll => { p.addLabels indices with unroll := p.unroll && unroll }

/-- Checks the calls of a line from left to right and collects its labels. -/
def ofSegments (r : Registry) : LinePlan → List Segment → Except Error LinePlan
  | p, [] => .ok p
  | p, .text _ :: rest => ofSegments r p rest
  | p, .directive d :: rest => do
    let rule ← r.validate d
    ofSegments r (p.call rule d.indices) rest

/-- The choices of values for the labels; a single one without values if the line is not repeated. -/
def assignments (p : LinePlan) (ranges : Ranges) : List (List Index) :=
  if p.unroll && !p.labels.isEmpty then ranges.assignments p.labels else [p.labels]

/-- Does something with each of the choices in turn and gives the results. -/
@[specialize]
def mapAssignments {m : Type → Type} [Monad m] {β : Type} (p : LinePlan) (ranges : Ranges)
    (f : List Index → m β) : m (List β) :=
  if p.unroll && !p.labels.isEmpty then ranges.mapAssignments p.labels f else [p.labels].mapM f

theorem mapAssignments_eq {m : Type → Type} [Monad m] [LawfulMonad m] {β : Type} (p : LinePlan)
    (ranges : Ranges) (f : List Index → m β) :
    p.mapAssignments ranges f = (p.assignments ranges).mapM f := by
  unfold mapAssignments assignments
  split
  · exact ranges.mapAssignments_eq p.labels f
  · rfl

end LinePlan

/-- The index with the value that the assignment has for its label. -/
def Index.valued (assignment : List Index) (i : Index) : Index :=
  match (assignment.find? (fun a => a.label = i.label)).bind (·.value) with
  | some v => i.withValue v
  | none => i

namespace ExpandM

/-- Calls a directive's rule with the values of an assignment. -/
def invoke (setup : Setup) (re : Reentry) (r : Registry) (assignment : List Index)
    (d : Directive) : ExpandM String := do
  let rule ← ofExcept (r.validate d)
  evaluate setup re d.name rule.body d.args (d.indices.map (Index.valued assignment))

/-- What stands for a segment in the output. -/
def expandSegment (setup : Setup) (re : Reentry) (r : Registry) (assignment : List Index) :
    Segment → ExpandM String
  | .text t => pure t
  | .directive d => do
    let text ← invoke setup re r assignment d
    see (.evaluated re.frame)
    pure text

/-- The line for one assignment. -/
def expandSegments (setup : Setup) (re : Reentry) (r : Registry) (segments : List Segment)
    (assignment : List Index) : ExpandM String := do
  pure (String.join (← segments.mapM (expandSegment setup re r assignment)))

/-- The output lines of a template line, and the number of calls replaced in them. -/
def expandLine (setup : Setup) (re : Reentry) (line : String) : ExpandM (List String × Nat) := do
  let segments ← ofExcept (Segment.scan line)
  if segments.any Segment.isDirective then
    let r ← ofExcept (← get).stack.registry
    let segments := segments.flatMap (Segment.detachSubscript r)
    let plan ← ofExcept (LinePlan.ofSegments r {} segments)
    let lines ← plan.mapAssignments setup.model.ranges (expandSegments setup re r segments)
    let count := lines.length * (segments.filter Segment.isDirective).length
    modify fun s => { s with replacements := s.replacements + count }
    pure (lines.filter fun line => !Text.blank line, count)
  else pure ([Segment.plainText segments], 0)

/-- A text with the directives of its lines expanded. -/
def expandLines (setup : Setup) (re : Reentry) (lines : List String) : ExpandM (List String) := do
  let outs ← lines.mapM (expandLine setup re)
  pure (outs.flatMap (·.1))

end ExpandM

end TensorTemplate
