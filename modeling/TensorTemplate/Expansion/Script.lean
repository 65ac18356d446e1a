import TensorTemplate.Expansion.State

/-!
Running scripts.
-/

namespace TensorTemplate.ExpandM

/-- What a script says of the frame on top: its template and pass, and the depth and the
replacements of the run. -/
def describeTop : ExpandM String := do
  let top ← topFrame
  let s ← get
  pure ("/".intercalate
    [top.template, top.pass.render, toString s.stack.depth, toString s.replacements])

/-- Runs one action of a script and gives its text. -/
def act (re : Reentry) (args : List String) (indices : List Index) : Action → ExpandM String
  | .text t => pure (fill t)
  | .writeEnd t => quietly (onTopBuffer (·.writeToEnd (fill t)))
  | .writeTag t => quietly (onTopBuffer (·.writeToTag (fill t)))
  | .tagEnd => quietly (onTopBuffer (pure ·.setTagToEnd))
  | .tagStart => quietly (onTopBuffer (pure ·.setTagToStart))
  | .decorate opening closing =>
    quietly (onTopBuffer (pure <| ·.pushDecoration (fill opening) (fill closing)))
  | .undecorate => quietly (onTopBuffer (pure ·.popDecoration.2))
  | .skipBlank on => quietly (onTopBuffer (pure <| ·.setSkipBlank on))
  | .setFilter filter => quietly (onTopBuffer (pure <| ·.setFilter filter))
  | .nested template options => do pure (toString (← re.nested (fill template) options))
  | .expand t => re.expandText (fill t)
  | .emit e => emit e
  | .lambda l => cacheLambda l
  | .warn t => quietly (warn (fill t))
  | .fail t => throw (.refused (fill t))
  | .log t => quietly (note (fill t))
  | .frame => describeTop
where
  fill : String → String := Script.fill args indices
  quietly (x : ExpandM Unit) : ExpandM String := do
    x
    pure ""

/-- Runs a script and gives the texts of its actions, joined. -/
def perform (re : Reentry) (args : List String) (indices : List Index) (script : Script) :
    ExpandM String := do
  pure (String.join (← script.mapM (act re args indices)))

end TensorTemplate.ExpandM
