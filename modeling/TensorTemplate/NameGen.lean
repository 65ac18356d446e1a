/-!
Fresh names. A name holds the generator's kernel, the generation in which it was
made, and the generator's count, so that no two names of a run are the same.
-/

namespace TensorTemplate

/-- A source of names: the kernel they share, and how many it has given. -/
structure NameGen where
  kernel : String
  count : Nat := 0
deriving DecidableEq, Repr

namespace NameGen

/-- The name with this kernel, generation and count. -/
def nameOf (kernel : String) (generation count : Nat) : String :=
  kernel ++ "_" ++ toString generation ++ "_" ++ toString count

/-- A name made in this generation, and the generator after it. -/
def fresh (g : NameGen) (generation : Nat) : String × NameGen :=
  (nameOf g.kernel generation g.count, { g with count := g.count + 1 })

/-- The generator as it was at its start. -/
def reset (g : NameGen) : NameGen := { g with count := 0 }

end NameGen

end TensorTemplate
