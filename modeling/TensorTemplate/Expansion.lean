import TensorTemplate.Expansion.Template

/-!
Expansion from the outside. Rules and handlers come back to expanding, so nesting
is bounded: by the number of templates there are, and ample room for rules that
expand texts of their own.
-/

namespace TensorTemplate

/-- The ways back into expanding that are left to a run which may nest `depth` deep. -/
def reentry (setup : Setup) : Nat → Reentry
  | 0 =>
    { nested := fun _ _ => throw .nestedTooDeep
      expandText := fun _ => throw .nestedTooDeep }
  | depth + 1 =>
    { nested := fun template options =>
        ExpandM.expandNested setup (reentry setup depth) template options
      expandText := fun text => ExpandM.expandText setup (reentry setup depth) text }

namespace Setup

/-- How deep templates and texts may be nested. -/
def depthLimit (setup : Setup) (files : FileTree) : Nat := 1000000000 + setup.source.size files

/-- The ways back into expanding, in the present state. -/
def reentries (setup : Setup) : ExpandM Reentry := do
  pure (reentry setup (setup.depthLimit (← get).files))

/-- An empty buffer by the settings. -/
def newBuffer (setup : Setup) : Buffer := Buffer.setSkipBlank {} setup.settings.skipBlank

/-- Expands a template into a buffer. -/
def expandToBuffer (setup : Setup) (template : String) (buffer : Buffer) (pass : Pass) :
    ExpandM (Buffer × Nat) := do
  ExpandM.expandTemplate setup (← setup.reentries) template buffer pass

/-- The text of an expanded template. -/
def expandToText (setup : Setup) (template : String) (pass : Pass) : ExpandM String := do
  let (buffer, _) ← setup.expandToBuffer template setup.newBuffer pass
  pure buffer.render

/-- Writes a text to a file. -/
def writeFile (path text : String) : ExpandM Unit := do
  let s ← get
  match s.files.write path text with
  | .ok files => set { s with files }
  | .error fault => throw (.file path fault)

/-- Expands a template into a file and gives the number of calls replaced. -/
def expandToFile (setup : Setup) (template path : String) (pass : Pass) : ExpandM Nat := do
  let (buffer, count) ← setup.expandToBuffer template setup.newBuffer pass
  writeFile path buffer.render
  pure count

/-- Expands a template on top of the present one. -/
def expandNested (setup : Setup) (template : String) (options : NestedOptions) : ExpandM Nat := do
  (← setup.reentries).nested template options

/-- Expands the directives of a text. -/
def expandText (setup : Setup) (text : String) : ExpandM String := do
  (← setup.reentries).expandText text

/-- Runs a script. -/
def perform (setup : Setup) (script : Script) : ExpandM String := do
  ExpandM.perform (← setup.reentries) [] [] script

end Setup

end TensorTemplate
