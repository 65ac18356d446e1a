import TensorTemplate.Expansion.State

/-!
The report on a run.
-/

namespace TensorTemplate

/-- What is reported of a run. -/
structure Report where
  replacements : Nat
  exprHits : Nat
  exprMisses : Nat
  lambdaHits : Nat
  lambdaMisses : Nat
  warnings : List String
deriving DecidableEq, Repr

namespace Report

/-- The report on the run so far. -/
def ofState (s : State) : Report where
  replacements := s.replacements
  exprHits := s.temporaries.exprs.hits
  exprMisses := s.temporaries.exprs.misses
  lambdaHits := s.temporaries.lambdas.hits
  lambdaMisses := s.temporaries.lambdas.misses
  warnings := s.diagnostics.warnings

/-- The use of a cache, in a line. -/
def cacheLine (cache : String) (hits misses : Nat) : String :=
  cache ++ " cache: " ++ toString hits ++ " hits, " ++ toString misses ++ " misses"

/-- The warnings with their number, if there are any. -/
def warningLines (r : Report) : List String :=
  if r.warnings.isEmpty then []
  else (toString r.warnings.length ++ " warning(s):") :: r.warnings.map ("  " ++ ·)

/-- The report as text. -/
def render (r : Report) : String :=
  Text.unlines <|
    ["Macro replacements: " ++ toString r.replacements,
      cacheLine "Expression" r.exprHits r.exprMisses,
      cacheLine "Lambda" r.lambdaHits r.lambdaMisses] ++ r.warningLines

end Report

end TensorTemplate
