/-!
Warnings of a run: each is kept once, in the order of its first appearance.
-/

namespace TensorTemplate

structure Diagnostics where
  /-- The warnings, the latest first. -/
  newest : List String := []
deriving DecidableEq, Repr

namespace Diagnostics

/-- The warnings, in the order of their first appearance. -/
def warnings (d : Diagnostics) : List String := d.newest.reverse

/-- Adds a warning, unless it has been given before. -/
def warn (d : Diagnostics) (message : String) : Diagnostics :=
  if message ∈ d.newest then d else ⟨message :: d.newest⟩

end Diagnostics

end TensorTemplate
