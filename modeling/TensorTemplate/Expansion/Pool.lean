import TensorTemplate.Expansion.State

/-!
Where temporaries are declared.

Each frame has a pool. A boundary marks a place in the frame's buffer, and the
temporaries used from then on are declared there: when the next boundary is set,
when a nested template starts, and when the buffer is finished. Temporaries used
before the first boundary wait for it; a nested template does not see them, since
the pool takes them out of the caches. A buffer that is finished without a
boundary gets its declarations at its start, under a warning.
-/

namespace TensorTemplate.ExpandM

/-- The pool of the frame with this number. -/
def poolOf (id : Nat) : ExpandM Pool := do
  match (← frame id).pool with
  | some pool => pure pool
  | none => throw (.missingContext .buffer)

def setPool (id : Nat) (pool : Pool) : ExpandM Unit := do
  setFrame { ← frame id with pool := some pool }

/-- Gives a frame its pool, with a handler on its buffer. -/
def bindPool (backend : Backend) (id : Nat) : ExpandM Unit := do
  let f ← frame id
  let (handler, buffer) := f.buffer.register (.pool id)
  let pool : Pool := { pattern := backend.defaultDeclaration, handler := some handler }
  setFrame { f with buffer, pool := some pool }

/-- Forgets the temporaries that wait in the caches. -/
def clearTemporaries : ExpandM Unit :=
  modify fun s => { s with temporaries := s.temporaries.clear }

/-- Takes what waits out of the caches and writes its declarations at the boundary, after those that
the pool holds. -/
def writeDeclarations (re : Reentry) (id : Nat) (pool : Pool) : ExpandM Unit := do
  let t := (← get).temporaries
  let lambdas := (pool.held.lambdas ++ t.lambdas.records).map (·.declare t.lambdas.backend)
  let declarations ← renderDeclarations pool.pattern pool.held.declarations
  clearTemporaries
  let text := Text.unlines lambdas ++ declarations
  if !text.isEmpty then
    let expanded ← re.expandText text
    onBuffer id (·.writeAllToTag (Text.lines expanded))

/-- Writes held and waiting declarations at the boundary and clears the caches. Does nothing without
a boundary. -/
def deposit (re : Reentry) (id : Nat) : ExpandM Unit := do
  let pool ← poolOf id
  if pool.isSet then
    setPool id { pool with held := {} }
    let t := (← get).temporaries
    record id (.declares pool.pattern (pool.held.lambdas ++ t.lambdas.records)
      (pool.held.declarations ++ t.exprs.declarations))
    writeDeclarations re id pool

/-- Sets a boundary at the end of the buffer, with a pattern for the declarations there, and gives
the line that marks it. -/
def setBoundary (backend : Backend) (re : Reentry) (id : Nat) (pattern : String) :
    ExpandM String := do
  deposit re id
  let pool ← poolOf id
  let sequence := pool.sequence + 1
  setPool id { pool with pattern, isSet := true, sequence }
  onBuffer id (pure ·.setTagToEnd)
  record id (.bounded pattern)
  pure (backend.comment ("temporary pool " ++ toString sequence))

/-- A nested template is about to start: what waits in the caches is declared, or held until there
is a boundary. -/
def suspendPool (re : Reentry) (id : Nat) : ExpandM Unit := do
  let pool ← poolOf id
  if pool.isSet then deposit re id
  else
    let temporaries := (← get).temporaries
    if temporaries.isPending then
      let held : Held :=
        { lambdas := pool.held.lambdas ++ temporaries.lambdas.records
          declarations := pool.held.declarations ++ temporaries.exprs.declarations }
      setPool id { pool with held }
      clearTemporaries

/-- Without a boundary, puts one at the start of the buffer if something waits, and warns. -/
def ensureBoundary (id : Nat) : ExpandM Unit := do
  let pool ← poolOf id
  if !pool.isSet then
    let template := (← frame id).template
    if !pool.held.isEmpty || (← get).temporaries.isPending then
      warn (template ++ ": temporaries were generated but no $TEMP_POOL was set; " ++
        "they are declared at the start of the output")
      onBuffer id (pure ·.setTagToStart)
      setPool id { pool with isSet := true }
      record id .boundedAtStart
    else warn (template ++ ": no $TEMP_POOL was set")

/-- Takes the pool's handler off the buffer. -/
def dropHandler (id : Nat) : ExpandM Unit := do
  let pool ← poolOf id
  match pool.handler with
  | none => pure ()
  | some handler =>
    setPool id { pool with handler := none }
    onBuffer id (pure <| ·.deregister handler)

/-- The buffer is finished: what is left is declared, and the pool's handler goes. -/
def retirePool (re : Reentry) (id : Nat) : ExpandM Unit := do
  ensureBoundary id
  deposit re id
  dropHandler id

end TensorTemplate.ExpandM
