import TensorTemplate.Proofs.Expansion.Routine

/-!
What the pools of frames do.

Whatever a pool does for its frame is put together from few actions on that frame, on the
caches and on the warnings. A property of actions that holds of these and is kept by
putting them together holds of all that pools and handlers do.
-/

namespace TensorTemplate

/-- Whether a function value is called. -/
def FrameEvent.isCall : FrameEvent → Bool
  | .called _ => true
  | _ => false

/-- Whether the handler works on no frame but the one with this number. -/
def Handler.StaysOn (id : Nat) : Handler → Prop
  | .pool frame => frame = id
  | .note _ => True
  | .script _ _ _ => False

/-- The changes that a pool makes in the buffer of its frame. -/
inductive Buffer.PoolChange : (Buffer → Except Error Buffer) → Prop where
  | writeAllToTag (texts : List String) : PoolChange (·.writeAllToTag texts)
  | setTagToEnd : PoolChange (pure ·.setTagToEnd)
  | setTagToStart : PoolChange (pure ·.setTagToStart)
  | deregister (handler : Nat) : PoolChange (pure <| ·.deregister handler)

namespace ExpandM

/-- An action that is put together from what is done for the pool of the frame with this number. -/
inductive Chore (re : Reentry) (id : Nat) : {α : Type} → ExpandM α → Prop where
  | pure {α : Type} (a : α) : Chore re id (pure a)
  | bind {α β : Type} {x : ExpandM α} {k : α → ExpandM β} (hx : Chore re id x)
      (hk : ∀ a, Chore re id (k a)) : Chore re id (x >>= k)
  /-- The caches are looked at. -/
  | get {α : Type} {k : State → ExpandM α}
      (hsame : ∀ s s' : State, s'.temporaries = s.temporaries → k s' = k s)
      (hk : ∀ s, Chore re id (k s)) : Chore re id (get >>= k)
  /-- The name of the frame's template is asked for. -/
  | frame {α : Type} {k : Frame → ExpandM α}
      (hsame : ∀ f f' : Frame, f'.template = f.template → k f' = k f)
      (hk : ∀ f, Chore re id (k f)) : Chore re id (frame id >>= k)
  | poolOf : Chore re id (poolOf id)
  | setPool (pool : Pool) : Chore re id (setPool id pool)
  | onBuffer {change : Buffer → Except Error Buffer} (h : Buffer.PoolChange change) :
      Chore re id (onBuffer id change)
  | record {event : FrameEvent} (hopening : event.isOpening = false)
      (hcall : event.isCall = false) : Chore re id (record id event)
  | renderDeclarations (pattern : String) (held : List Declaration) :
      Chore re id (renderDeclarations pattern held)
  | clearTemporaries : Chore re id clearTemporaries
  | expandText (text : String) : Chore re id (re.expandText text)
  | warn (message : String) : Chore re id (warn message)
  | note (line : String) : Chore re id (note line)

variable (re : Reentry) (id : Nat)

theorem chore_writeDeclarations (pool : Pool) : Chore re id (writeDeclarations re id pool) := by
  refine .get ?_ fun s => .bind (.renderDeclarations _ _) fun declarations =>
    .bind .clearTemporaries fun _ => ?_
  · intro s s' h
    simp only [h]
  · dsimp only
    split
    · exact .bind (.expandText _) fun expanded => .onBuffer (.writeAllToTag _)
    · exact .pure _

theorem chore_deposit : Chore re id (deposit re id) := by
  refine .bind .poolOf fun pool => ?_
  split
  · refine .bind (.setPool _) fun _ => .get ?_ fun s => ?_
    · intro s s' h
      simp only [h]
    · exact .bind (.record rfl rfl) fun _ => chore_writeDeclarations re id pool
  · exact .pure _

theorem chore_setBoundary (backend : Backend) (pattern : String) :
    Chore re id (setBoundary backend re id pattern) :=
  .bind (chore_deposit re id) fun _ => .bind .poolOf fun _ => .bind (.setPool _) fun _ =>
    .bind (.onBuffer .setTagToEnd) fun _ => .bind (.record rfl rfl) fun _ => .pure _

theorem chore_suspendPool : Chore re id (suspendPool re id) := by
  refine .bind .poolOf fun pool => ?_
  split
  · exact chore_deposit re id
  · refine .get ?_ fun s => ?_
    · intro s s' h
      simp only [h]
    · dsimp only
      split
      · exact .bind (.setPool _) fun _ => .clearTemporaries
      · exact .pure _

theorem chore_ensureBoundary : Chore re id (ensureBoundary id) := by
  refine .bind .poolOf fun pool => ?_
  split
  · refine .frame ?_ fun f => .get ?_ fun s => ?_
    · intro f f' h
      simp only [h]
    · intro s s' h
      simp only [h]
    · split
      · exact .bind (.warn _) fun _ => .bind (.onBuffer .setTagToStart) fun _ =>
          .bind (.setPool _) fun _ => .record rfl rfl
      · exact .warn _
  · exact .pure _

theorem chore_dropHandler : Chore re id (dropHandler id) := by
  refine .bind .poolOf fun pool => ?_
  split
  · exact .pure _
  · exact .bind (.setPool _) fun _ => .onBuffer (.deregister _)

/-- All that a handler does which stays on its frame. -/
theorem chore_handle {id : Nat} (event : BufferEvent) {handler : Handler}
    (h : handler.StaysOn id) : Chore re id (handle re event handler) := by
  cases handler with
  | pool frame =>
      cases h
      cases event with
      | close =>
          exact .bind (chore_ensureBoundary re id) fun _ => .bind (chore_deposit re id) fun _ =>
            chore_dropHandler re id
      | suspend => exact chore_suspendPool re id
  | note name => exact .note _
  | script name onClose onSuspend => exact h.elim

end ExpandM

end TensorTemplate
