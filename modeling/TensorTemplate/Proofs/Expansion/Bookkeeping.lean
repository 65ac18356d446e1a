import TensorTemplate.Proofs.Expansion.Account
import TensorTemplate.Proofs.Expansion.Routine
import TensorTemplate.Proofs.Expansion.Top

/-!
Every successful expansion keeps its account.

The account of a state has its caches and what the pools of its frames hold. With the
built-in rules only, an action that succeeds moves the account along, and the journal
has the events of the moves. Nothing is assumed about the patterns that declarations
are written by: expanding a declaration is one more action on the frame on top, which
may name temporaries, set boundaries and expand nested templates. Once a frame has a
boundary, its pool does not hold anything again, so a frame that is finished leaves
nothing held behind.
-/

namespace TensorTemplate

namespace Frame

/-- What the pool of the frame holds. -/
def held (f : Frame) : Held := (f.pool.map (·.held)).getD {}

theorem held_eq {f : Frame} {pool : Pool} (h : f.pool = some pool) : f.held = pool.held := by
  rw [held, h]
  rfl

/-- The frame has a boundary, and its pool holds nothing. -/
def Settled (f : Frame) : Prop :=
  ∃ pool, f.pool = some pool ∧ pool.isSet = true ∧ pool.held = {}

theorem Settled.entries_held {f : Frame} (h : f.Settled) : f.held.entries = [] := by
  obtain ⟨pool, hpool, _, hheld⟩ := h
  rw [held_eq hpool, hheld]
  rfl

/-- The frame differs from the other at most in its lines and in what its pool holds, and what is
settled stays so. -/
structure Akin (f f' : Frame) : Prop extends f.Alike f' where
  settled : f.Settled → f'.Settled

theorem Akin.refl (f : Frame) : f.Akin f := ⟨.refl f, fun h => h⟩

theorem Akin.trans {f g h : Frame} (hfg : f.Akin g) (hgh : g.Akin h) : f.Akin h :=
  ⟨hfg.toAlike.trans hgh.toAlike, fun hf => hgh.settled (hfg.settled hf)⟩

/-- A frame with another buffer that has the same handlers. -/
theorem akin_buffer (f : Frame) (buffer : Buffer) (h : buffer.handlers = f.buffer.handlers) :
    f.Akin { f with buffer } :=
  ⟨⟨rfl, rfl, rfl, h, fun h => h⟩, fun h => h⟩

/-- A frame with another pool that has a boundary and holds nothing if that was so before. -/
theorem akin_pool {f : Frame} {pool : Pool} (hpool : f.pool = some pool) (buffer : Buffer)
    (pool' : Pool) (hbuffer : buffer.handlers = f.buffer.handlers)
    (h : pool.isSet = true → pool'.isSet = true ∧ (pool.held = {} → pool'.held = {})) :
    f.Akin { f with buffer, pool := some pool' } := by
  refine ⟨⟨rfl, rfl, rfl, hbuffer, fun _ => rfl⟩, ?_⟩
  rintro ⟨pool₁, hpool₁, hset, hheld⟩
  cases hpool.symm.trans hpool₁
  exact ⟨pool', rfl, (h hset).1, (h hset).2 hheld⟩

/-- The frame has the built-in rules and a pool, and no handler but that of the pool. -/
structure Furnished (setup : Setup) (f : Frame) : Prop where
  registry : f.registry = some (ExpandM.addRules {} (ExpandM.builtinRules setup.model f.id f.pass))
  pool : f.pool.isSome
  handlers : f.buffer.handlers = [] ∨ f.buffer.handlers.map (·.2) = [.pool f.id]

theorem Equipped.furnished {setup : Setup} {f : Frame} (h : f.Equipped setup) :
    f.Furnished setup :=
  ⟨h.registry, h.pool, Or.inr h.handlers⟩

theorem Alike.furnished {setup : Setup} {f f' : Frame} (h : f.Alike f') (hf : f.Furnished setup) :
    f'.Furnished setup where
  registry := by rw [h.registry, h.id, h.pass, hf.registry]
  pool := h.pool hf.pool
  handlers := by
    rw [h.handlers, h.id]
    exact hf.handlers

end Frame

namespace State

def account (s : State) : Account where
  temporaries := s.temporaries
  held := s.stack.frames.flatMap (·.held.entries)

/-- The second state comes from the first by moves of the account, of which the journal has the
events, and the stacks differ at most in the frame on top. -/
structure Proceeds (s : State) (new : Journal) (s' : State) : Prop where
  frames : ∀ {f fs}, s.stack.frames = f :: fs → ∃ f', s'.stack.frames = f' :: fs ∧ f.Akin f'
  journal : s'.journal = new ++ s.journal
  run : Account.Run s.account new s'.account

variable {s t u : State} {f f' : Frame} {fs : List Frame} {j k : Journal}

theorem account_eq (hframes : s.stack.frames = f :: fs) :
    s.account = ⟨s.temporaries, f.held.entries ++ fs.flatMap (·.held.entries)⟩ := by
  rw [account, hframes, List.flatMap_cons]

theorem Proceeds.refl (s : State) : s.Proceeds [] s where
  frames := fun {f _} hf => ⟨f, hf, .refl f⟩
  journal := rfl
  run := .refl

theorem Proceeds.trans (hst : s.Proceeds j t) (htu : t.Proceeds k u) : s.Proceeds (k ++ j) u where
  frames := by
    intro f fs hf
    obtain ⟨g, hg, hfg⟩ := hst.frames hf
    obtain ⟨h, hh, hgh⟩ := htu.frames hg
    exact ⟨h, hh, hfg.trans hgh⟩
  journal := by rw [htu.journal, hst.journal, List.append_assoc]
  run := hst.run.trans htu.run

/-- An event that neither returns nor declares leaves the account as it is. -/
theorem Proceeds.record (h : s.Proceeds j t) {id : Nat} {event : FrameEvent}
    (hreturned : event.returned = []) (hdeposit : event.isDeposit = false) :
    s.Proceeds ((id, event) :: j) (t.record id event) where
  frames := h.frames
  journal := congrArg _ h.journal
  run := h.run.tail (.tell t.account id hreturned hdeposit)

section OnTop

variable (hframes : s.stack.frames = f :: fs) (hframes' : t.stack.frames = f' :: fs)
  (hakin : f.Akin f')

include hframes hframes' hakin

/-- The frame on top changes with a move of the account. -/
theorem Proceeds.of_move (hjournal : t.journal = j ++ s.journal)
    (h : Account.Move ⟨s.temporaries, f.held.entries ++ fs.flatMap (·.held.entries)⟩ j
      ⟨t.temporaries, f'.held.entries ++ fs.flatMap (·.held.entries)⟩) : s.Proceeds j t where
  frames := by
    intro g gs hg
    rw [hframes] at hg
    cases hg
    exact ⟨f', hframes', hakin⟩
  journal := hjournal
  run := by
    rw [account_eq hframes, account_eq hframes']
    exact .single h

/-- The frame on top changes, and the account does not. -/
theorem Proceeds.of_same (hjournal : t.journal = s.journal)
    (htemporaries : t.temporaries = s.temporaries) (hheld : f'.held = f.held) : s.Proceeds [] t where
  frames := by
    intro g gs hg
    rw [hframes] at hg
    cases hg
    exact ⟨f', hframes', hakin⟩
  journal := hjournal
  run := by
    rw [account_eq hframes, account_eq hframes', htemporaries, hheld]
    exact .refl

end OnTop

end State

namespace ExpandM

/-- On a frame of this number with the built-in rules, the action proceeds by moves. -/
structure Advances (setup : Setup) (id : Nat) {α : Type} (x : ExpandM α) : Prop where
  proceeds : ∀ {s s' : State} {a : α} {f : Frame} {fs : List Frame}, s.stack.frames = f :: fs →
    f.id = id → f.Furnished setup → x s = .ok a s' → ∃ new, s.Proceeds new s'

end ExpandM

/-- The ways back into expanding add events and proceed by moves. -/
structure Reentry.Advances (setup : Setup) (re : Reentry) : Prop where
  grows : re.Grows
  nested : ∀ {id} template options, ExpandM.Advances setup id (re.nested template options)
  expandText : ∀ {id} text, ExpandM.Advances setup id (re.expandText text)

/-! ### Pools -/

namespace ExpandM

variable {setup : Setup} {re : Reentry} {s s' : State} {f : Frame} {fs : List Frame} {pool : Pool}

section Pools

variable (hre : re.Advances setup) (hframes : s.stack.frames = f :: fs) (hf : f.Furnished setup)
  (hpool : f.pool = some pool)

include hre hframes hf hpool

/-- At a boundary, a deposit is a move, and then the declarations are expanded. -/
theorem deposit_proceeds_of_set (hset : pool.isSet = true) (h : deposit re f.id s = .ok () s') :
    ∃ new, s.Proceeds new s' ∧ new.hasDeposit = true ∧
      ∃ f', s'.stack.frames = f' :: fs ∧ f'.Settled := by
  rw [deposit_of_set hframes hpool hset] at h
  set g : Frame := { f with pool := some { pool with held := {} } }
  set event : FrameEvent := .declares pool.pattern (pool.held.add s.temporaries.toHeld).lambdas
    (pool.held.add s.temporaries.toHeld).declarations with hevent
  have hakin : f.Akin g := Frame.akin_pool hpool _ _ rfl fun _ => ⟨hset, fun _ => rfl⟩
  have hsettled : g.Settled := ⟨_, rfl, hset, rfl⟩
  obtain ⟨text, diagnostics, _, hcases⟩ := writeDeclarations_ok h
  set t : State := { (s.withTop g).record f.id event with
    temporaries := s.temporaries.clear, diagnostics }
  have htop : t.stack.frames = g :: fs := frames_withTop hframes g
  have hmove : s.Proceeds [(f.id, event)] t := by
    refine .of_move hframes htop hakin rfl ?_
    rw [Frame.held_eq hpool]
    exact .deposit s.temporaries pool.held _ f.id pool.pattern
  rcases hcases with ⟨_, rfl⟩ | ⟨expanded, u, hexpand, hwrite⟩
  · exact ⟨_, hmove, rfl, g, htop, hsettled⟩
  · obtain ⟨new, hexpanded⟩ := (hre.expandText text).proceeds htop rfl (hakin.furnished hf) hexpand
    obtain ⟨k, hk, hgk⟩ := hexpanded.frames htop
    have hid : f.id = k.id := hgk.id.symm
    rw [hid] at hwrite
    obtain ⟨buffer, hbuffer, rfl⟩ := onBuffer_ok hk hwrite
    have hwritten := k.akin_buffer buffer (by rw [writeAllToTag_ok hbuffer])
    have hsame := State.Proceeds.of_same hk (frames_withTop hk _) hwritten rfl rfl rfl
    refine ⟨_, (hmove.trans hexpanded).trans hsame, ?_, _, frames_withTop hk _,
      hwritten.settled (hgk.settled hsettled)⟩
    simp [Journal.hasDeposit, hevent, FrameEvent.isDeposit]

theorem deposit_proceeds (h : deposit re f.id s = .ok () s') :
    ∃ new, s.Proceeds new s' ∧
      (pool.isSet = false ∧ s' = s ∨
        new.hasDeposit = true ∧ ∃ f', s'.stack.frames = f' :: fs ∧ f'.Settled) := by
  cases hset : pool.isSet with
  | false =>
      rw [deposit_of_unset hframes hpool hset] at h
      cases h
      exact ⟨[], .refl s, Or.inl ⟨rfl, rfl⟩⟩
  | true =>
      obtain ⟨new, hproceeds, hdone⟩ := deposit_proceeds_of_set hre hframes hf hpool hset h
      exact ⟨new, hproceeds, Or.inr hdone⟩

theorem setBoundary_proceeds {backend : Backend} {pattern line : String}
    (h : setBoundary backend re f.id pattern s = .ok line s') : ∃ new, s.Proceeds new s' := by
  obtain ⟨t, hdeposit, _, hset⟩ := setBoundary_ok h
  obtain ⟨new, hproceeds, _⟩ := deposit_proceeds hre hframes hf hpool hdeposit
  obtain ⟨g, hg, hakin⟩ := hproceeds.frames hframes
  obtain ⟨pool', hpool'⟩ := Option.isSome_iff_exists.1 (hakin.pool (hpool ▸ rfl))
  rw [hset hg hakin.id hpool']
  have hbounded := Frame.akin_pool hpool' g.buffer.setTagToEnd
    { pool' with pattern, isSet := true, sequence := pool'.sequence + 1 } rfl
    fun _ => ⟨rfl, fun h => h⟩
  exact ⟨_, (hproceeds.trans (.of_same hg (frames_withTop hg _) hbounded rfl rfl
    (Frame.held_eq hpool').symm)).record rfl rfl⟩

/-- With a boundary there is a deposit; without one, what waits is held. -/
theorem suspendPool_proceeds (h : suspendPool re f.id s = .ok () s') :
    ∃ new, s.Proceeds new s' := by
  rcases suspendPool_ok hframes hpool h with ⟨hset, h⟩ | ⟨hunset, ⟨_, rfl⟩ | ⟨hwaiting, rfl⟩⟩
  · obtain ⟨new, hproceeds, _⟩ := deposit_proceeds_of_set hre hframes hf hpool hset h
    exact ⟨new, hproceeds⟩
  · exact ⟨[], .refl s'⟩
  · refine ⟨[], .of_move hframes (frames_withTop hframes _) ?_ rfl ?_⟩
    · apply Frame.akin_pool hpool _ _ rfl
      intro hset
      rw [hunset] at hset
      cases hset
    · rw [Frame.held_eq hpool]
      exact .hold s.temporaries pool.held _ hwaiting

omit hre hf in
/-- Afterwards there is a boundary, or nothing to be declared. -/
theorem ensureBoundary_proceeds (h : ensureBoundary f.id s = .ok () s') :
    ∃ new f' pool', s.Proceeds new s' ∧ s'.stack.frames = f' :: fs ∧ f.Akin f' ∧
      f'.pool = some pool' ∧
        (pool'.isSet = true ∨ f'.held.entries = [] ∧ s'.temporaries.waiting = []) := by
  rcases ensureBoundary_ok hframes hpool h with
    ⟨hset, rfl⟩ | ⟨hunset, diagnostics, ⟨hheld, hwaiting, rfl⟩ | rfl⟩
  · exact ⟨[], f, pool, .refl s', hframes, .refl f, hpool, Or.inl hset⟩
  · refine ⟨[], f, pool, .of_same hframes hframes (.refl f) rfl rfl rfl, hframes, .refl f, hpool,
      Or.inr ⟨?_, hwaiting⟩⟩
    rw [Frame.held_eq hpool]
    exact Held.entries_of_isEmpty hheld
  · have htop := frames_withTop (s := { s with diagnostics }) hframes
    have hakin := Frame.akin_pool hpool f.buffer.setTagToStart { pool with isSet := true } rfl
      fun _ => ⟨rfl, fun h => h⟩
    have hsame := State.Proceeds.of_same hframes (htop _) hakin rfl rfl (Frame.held_eq hpool).symm
    exact ⟨_, _, _, hsame.record rfl rfl, htop _, hakin, rfl, Or.inl rfl⟩

/-- When a buffer is finished, its pool holds nothing; and if there was no deposit, then nothing
waits. -/
theorem retirePool_proceeds (hhandlers : f.buffer.handlers = [])
    (h : retirePool re f.id s = .ok () s') :
    ∃ new f', s.Proceeds new s' ∧ s'.stack.frames = f' :: fs ∧ f'.held.entries = [] ∧
      (s'.temporaries.waiting = [] ∨ new.hasDeposit = true) := by
  obtain ⟨_, t, hensure, h⟩ := bind_ok h
  obtain ⟨_, u, hdeposit, hdrop⟩ := bind_ok h
  obtain ⟨j, g, pool₁, hst, hg, hfg, hpool₁, hdone⟩ := ensureBoundary_proceeds hframes hpool hensure
  rw [← hfg.id] at hdeposit hdrop
  obtain ⟨k, htu, hdeposited⟩ := deposit_proceeds hre hg (hfg.furnished hf) hpool₁ hdeposit
  obtain ⟨f₂, hframes₂, hg₂⟩ := htu.frames hg
  have hheld : f₂.held.entries = [] ∧ (u.temporaries.waiting = [] ∨ k.hasDeposit = true) := by
    rcases hdeposited with ⟨hunset, rfl⟩ | ⟨hdeposits, f', hf', hsettled⟩
    · rw [hunset] at hdone
      obtain ⟨hheld, hwaiting⟩ := hdone.resolve_left Bool.false_ne_true
      obtain rfl := (List.cons.inj (hg.symm.trans hframes₂)).1
      exact ⟨hheld, Or.inl hwaiting⟩
    · obtain rfl := (List.cons.inj (hf'.symm.trans hframes₂)).1
      exact ⟨hsettled.entries_held, Or.inr hdeposits⟩
  obtain ⟨pool₂, hpool₂⟩ := Option.isSome_iff_exists.1 (hg₂.pool (hpool₁ ▸ rfl))
  rw [← hg₂.id] at hdrop
  obtain rfl := dropHandler_ok hframes₂ hpool₂ ((hfg.trans hg₂).handlers.trans hhandlers) hdrop
  have hsame : ({ f₂ with pool := some { pool₂ with handler := none } } : Frame).held = f₂.held :=
    (Frame.held_eq hpool₂).symm
  have hakin : f₂.Akin { f₂ with pool := some { pool₂ with handler := none } } :=
    Frame.akin_pool hpool₂ _ _ rfl fun hset => ⟨hset, fun h => h⟩
  refine ⟨_, _, (hst.trans htu).trans (.of_same hframes₂ (frames_withTop hframes₂ _) hakin rfl rfl
    hsame), frames_withTop hframes₂ _, hsame ▸ hheld.1, hheld.2.imp_right fun hdeposits => ?_⟩
  simp [hdeposits]

end Pools

/-! ### Lines -/

namespace Advances

variable {id : Nat} {α β : Type}

protected theorem pure (a : α) : Advances setup id (pure a) where
  proceeds := by
    intro s s' a' f fs _ _ _ h
    cases h
    exact ⟨[], .refl s⟩

protected theorem throw (e : Error) : Advances setup id (throw e : ExpandM α) where
  proceeds := fun _ _ _ h => nomatch h

protected theorem bind {x : ExpandM α} {k : α → ExpandM β} (hx : Advances setup id x)
    (hk : ∀ a, Advances setup id (k a)) : Advances setup id (x >>= k) where
  proceeds := by
    intro s s' b f fs hframes hid hf h
    obtain ⟨a, t, hfirst, hsecond⟩ := bind_ok h
    obtain ⟨j, hst⟩ := hx.proceeds hframes hid hf hfirst
    obtain ⟨g, hg, hakin⟩ := hst.frames hframes
    obtain ⟨j', hts⟩ := (hk a).proceeds hg (hakin.id.trans hid) (hakin.furnished hf) hsecond
    exact ⟨_, hst.trans hts⟩

protected theorem within {x : ExpandM α} (hx : Advances setup id x) (template : String)
    (line : Nat) : Advances setup id (within template line x) where
  proceeds := fun hframes hid hf h => hx.proceeds hframes hid hf (within_ok h)

end Advances

theorem advances_topFrame {id : Nat} : Advances setup id topFrame where
  proceeds := by
    intro s s' g f fs hframes _ _ h
    rw [topFrame_eq hframes] at h
    cases h
    exact ⟨[], .refl s⟩

theorem advances_rules {id : Nat} {α : Type} {k : Registry → ExpandM α}
    (hk : ∀ pass, Advances setup id (k (addRules {} (builtinRules setup.model id pass)))) :
    Advances setup id (do k (← ofExcept (← get).stack.registry)) where
  proceeds := by
    intro s s' a f fs hframes hid hf h
    subst hid
    rw [get_bind, registry_eq hframes hf.registry] at h
    exact (hk f.pass).proceeds hframes rfl hf h

theorem advances_count {id : Nat} (n : Nat) :
    Advances setup id (modify fun s => { s with replacements := s.replacements + n }) where
  proceeds := by
    intro s s' _ f fs hframes _ _ h
    cases h
    exact ⟨[], .of_same hframes hframes (.refl f) rfl rfl rfl⟩

theorem advances_see {id : Nat} (sight : Sight) : Advances setup id (see sight) where
  proceeds := by
    intro s s' _ f fs hframes _ _ h
    cases h
    exact ⟨[], .of_same hframes hframes (.refl f) rfl rfl rfl⟩

theorem advances_track {id : Nat} (change : List Bookmark → List Bookmark) :
    Advances setup id (track change) where
  proceeds := by
    intro s s' _ f fs hframes _ _ h
    cases h
    exact ⟨[], .of_same hframes hframes (.refl f) rfl rfl rfl⟩

theorem composes_advances {id : Nat} : Composes fun _ x => Advances setup id x :=
  ⟨.pure, .bind, .within, advances_track⟩

theorem advances_emit {id : Nat} (e : Expr) : Advances setup id (emit e) where
  proceeds := by
    intro s s' text f fs hframes _ _ h
    rw [emit_eq, recordOnTop_eq (by exact hframes)] at h
    cases h
    exact ⟨[(f.id, .named (s.temporaries.named e))],
      .of_move hframes hframes (.refl f) rfl (.name s.temporaries _ f.id e)⟩

theorem advances_cacheLambda {id : Nat} (l : Lambda) : Advances setup id (cacheLambda l) where
  proceeds := by
    intro s s' text f fs hframes _ _ h
    rw [cacheLambda_eq, recordOnTop_eq (by exact hframes)] at h
    cases h
    exact ⟨[(f.id, .called (s.temporaries.called l))],
      .of_move hframes hframes (.refl f) rfl (.call s.temporaries _ f.id l)⟩

theorem advances_setBoundary {id : Nat} (hre : re.Advances setup) (backend : Backend)
    (pattern : String) : Advances setup id (setBoundary backend re id pattern) where
  proceeds := by
    intro s s' line f fs hframes hid hf h
    subst hid
    obtain ⟨pool, hpool⟩ := Option.isSome_iff_exists.1 hf.pool
    exact setBoundary_proceeds hre hframes hf hpool h

/-- Lines are put at the end of the buffer on top. -/
theorem append_proceeds {t : State} (hframes : s.stack.frames = f :: fs)
    {change : Buffer → Except Error Buffer} {new : List String}
    (hchange : change f.buffer = f.buffer.append new) {event : FrameEvent}
    (hreturned : event.returned = []) (hdeposit : event.isDeposit = false)
    (happend : onTopBuffer change s = .ok () t) (hrecord : recordOnTop event t = .ok () s') :
    s.Proceeds [(f.id, event)] s' := by
  rw [append_ok hframes hchange happend hrecord]
  have hakin := f.akin_buffer { f.buffer with behind := new.reverse ++ f.buffer.behind } rfl
  exact (State.Proceeds.of_same hframes (frames_withTop hframes _) hakin rfl rfl rfl).record
    hreturned hdeposit

theorem advances_write {id : Nat} (text : String) :
    Advances setup id (do
      onTopBuffer (·.writeToEnd text)
      recordOnTop (.wrote text)) where
  proceeds := by
    intro s s' _ f fs hframes _ _ h
    obtain ⟨_, t, hwrite, hrecord⟩ := bind_ok h
    exact ⟨_, append_proceeds hframes rfl rfl rfl hwrite hrecord⟩

/-- All that is done for lines proceeds by moves. -/
theorem Routine.advances {id : Nat} (hre : re.Advances setup) {α : Type} {x : ExpandM α}
    (h : Routine setup re id x) : Advances setup id x := by
  induction h with
  | pure a => exact .pure a
  | throw _ => exact .throw _
  | bind _ _ hx hk => exact hx.bind hk
  | template g => exact advances_topFrame.bind fun _ => .pure _
  | rules _ _ hk => exact advances_rules hk
  | count n => exact advances_count n
  | see sight => exact advances_see sight
  | emit => exact advances_emit _
  | cacheLambda => exact advances_cacheLambda _
  | setBoundary => exact advances_setBoundary hre _ _
  | nested template _ => exact hre.nested template _
  | write text => exact advances_write text

/-! ### Templates -/

section Templates

variable (hpackages : setup.packages = []) (hre : re.Advances setup)

include hre

/-- Finishing the frame on top leaves nothing held by its pool; and if there was no deposit, then
nothing waits. -/
theorem finishTop_proceeds (hframes : s.stack.frames = f :: fs) (hf : f.Equipped setup)
    (h : finishTop re s = .ok () s') :
    ∃ new f', s'.stack.frames = f' :: fs ∧ f'.held.entries = [] ∧
      s'.journal = new ++ s.journal ∧ Account.Run s.account new s'.account ∧
      (s'.temporaries.waiting = [] ∨ new.hasDeposit = true) := by
  obtain ⟨t, hretire, hclose⟩ := finishTop_ok hframes hf.handlers h
  set g : Frame := { f with buffer := { f.buffer with handlers := [] } }
  have htop := frames_withTop hframes g
  have hg : g.Furnished setup := ⟨hf.registry, hf.pool, Or.inl rfl⟩
  have haccount : (s.withTop g).account = s.account :=
    (State.account_eq htop).trans (State.account_eq hframes).symm
  obtain ⟨pool, hpool⟩ := Option.isSome_iff_exists.1 hf.pool
  obtain ⟨new, k, hproceeds, hk, hheld, hdone⟩ :=
    retirePool_proceeds hre htop hg hpool rfl hretire
  obtain ⟨buffer, hbuffer, rfl⟩ := onTopBuffer_ok hk hclose
  cases hbuffer
  have hclosed : (t.withTop { k with buffer := k.buffer.close }).account = t.account :=
    (State.account_eq (frames_withTop hk _)).trans (State.account_eq hk).symm
  refine ⟨new, _, frames_withTop hk _, hheld, hproceeds.journal, ?_, hdone⟩
  rw [hclosed, ← haccount]
  exact hproceeds.run

include hpackages

/-- A template is expanded on a frame that comes and goes. If there was no deposit, then nothing
waits afterwards. -/
theorem expandTemplate_run {buffer : Buffer} (hbuffer : buffer.handlers = []) {template : String}
    {pass : Pass} {result : Buffer × Nat}
    (h : expandTemplate setup re template buffer pass s = .ok result s') :
    ∃ new, s'.stack.frames = s.stack.frames ∧ s'.journal = new ++ s.journal ∧
      Account.Run s.account new s'.account ∧
      (s'.temporaries.waiting = [] ∨ new.hasDeposit = true) := by
  obtain ⟨body, count, t, u, hbody, hwrite, hfinish, g, gs, hg, rfl⟩ :=
    expandTemplate_ok hpackages h
  set f : Frame := { id := s.stack.nextId, buffer, pass, template }
  -- a frame is opened
  have hopened : (s.opened buffer pass template).stack.frames = f :: s.stack.frames := rfl
  have htop := frames_withTop hopened (f.equip setup)
  have hequipped : (f.equip setup).Equipped setup := Frame.equipped_equip setup hbuffer
  have henter : Account.Move s.account [(s.stack.nextId, .opened buffer)]
      ((s.opened buffer pass template).withTop (f.equip setup)).account := by
    rw [State.account_eq htop]
    exact .tell s.account _ rfl rfl
  -- its lines are written
  have hlines : Advances setup s.stack.nextId (writeBody setup (re.forLines f.id) template body) :=
    composes_advances.writeBody fun line hline =>
      (routine_writeLine setup hre.grows f.id (hbody line hline)).advances hre
  obtain ⟨j, hwritten⟩ := hlines.proceeds (by exact htop) rfl hequipped.furnished hwrite
  obtain ⟨k, hk, hakin⟩ := hwritten.frames htop
  -- it is finished and popped
  obtain ⟨j', g', hg', hheld, hjournal, hrun, hdone⟩ :=
    finishTop_proceeds hre (by exact hk) (hakin.equipped hequipped) hfinish
  obtain ⟨rfl, rfl⟩ := List.cons.inj (hg.symm.trans hg')
  have hpopped : u.popped.stack.frames = s.stack.frames := by
    show u.stack.frames.tail = s.stack.frames
    rw [hg, List.tail_cons]
  have hleave : Account.Move u.account [(s.stack.nextId, .closed g.buffer)]
      (u.popped.record s.stack.nextId (.closed g.buffer)).account := by
    have haccount : u.popped.account = u.account := by
      rw [State.account_eq hg, State.account, hpopped, hheld]
      rfl
    rw [← haccount]
    exact .tell u.popped.account _ rfl rfl
  refine ⟨_, hpopped, ?_, (((Account.Run.single henter).trans hwritten.run).trans hrun).tail hleave,
    hdone.imp_right fun hdeposits => ?_⟩
  · show _ :: u.journal = _
    rw [hjournal, State.journal_track, hwritten.journal]
    simp [State.withTop, State.opened, State.record, State.see]
  · simp only [Journal.hasDeposit_append, hdeposits, Bool.true_or, Bool.or_true]

/-- A nested template starts when the pool on top, if it has its handler, has been suspended. -/
theorem advances_expandNested {id : Nat} (template : String) (options : NestedOptions) :
    Advances setup id (expandNested setup re template options) where
  proceeds := by
    intro s s' count f fs hframes hid hf h
    subst hid
    obtain ⟨t, hhandle, _, hrest⟩ := expandNested_ok hre.grows hframes h
    have hsuspended : ∃ new, s.Proceeds new t := by
      rcases hf.handlers with hhandlers | hhandlers
      · rw [hhandlers] at hhandle
        cases hhandle
        exact ⟨[], .refl s⟩
      · obtain ⟨⟨n, handler⟩, hhandlers, rfl⟩ := List.map_eq_singleton_iff.1 hhandlers
        obtain ⟨pool, hpool⟩ := Option.isSome_iff_exists.1 hf.pool
        rw [hhandlers] at hhandle
        obtain ⟨_, _, hsuspend, hnil⟩ := bind_ok hhandle
        cases hnil
        exact suspendPool_proceeds hre hframes hf hpool hsuspend
    obtain ⟨j, hst⟩ := hsuspended
    obtain ⟨g, hg, hakin⟩ := hst.frames hframes
    obtain ⟨child, u, v, hchild, hmerge, hrecord⟩ := hrest hg
    obtain ⟨j', hframes', hjournal, hrun, _⟩ :=
      expandTemplate_run hpackages hre (options.handlers_child g.buffer) hchild
    have htu : t.Proceeds j' u := by
      refine ⟨?_, hjournal, hrun⟩
      intro k ks hk
      exact ⟨k, hframes'.trans hk, .refl k⟩
    exact ⟨_, (hst.trans htu).trans
      (append_proceeds (hframes'.trans hg) rfl rfl rfl hmerge hrecord)⟩

end Templates

end ExpandM

/-- At every depth, the ways back into expanding proceed by moves. -/
theorem advances_reentry {setup : Setup} (hpackages : setup.packages = []) (depth : Nat) :
    (reentry setup depth).Advances setup := by
  induction depth with
  | zero => exact ⟨keeps_reentry setup 0, fun _ _ => .throw _, fun _ => .throw _⟩
  | succ depth ih =>
      exact ⟨keeps_reentry setup (depth + 1), ExpandM.advances_expandNested hpackages ih,
        fun text => (ExpandM.routine_expandText setup ih.grows text).advances ih⟩

end TensorTemplate
