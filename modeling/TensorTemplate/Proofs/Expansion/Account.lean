import TensorTemplate.Journal
import TensorTemplate.Proofs.Temporaries

/-!
What is still to be declared, as an account.

Temporaries are owed a declaration while they wait in the caches or are held by a
pool. Every move of the account comes with what the journal tells of it. Along a
run of moves, nothing is declared or owed but what was owed before and what the
journal refers to; what was owed is declared, held, or waits without a deposit
since; and unless something is held, what waits at the end is what the names that
were returned since the last deposit need.

These facts need no assumption about names and patterns, so they also cover what
rules do while declarations themselves are expanded.
-/

namespace TensorTemplate

/-- A temporary as its declaration shows it. -/
inductive Entry where
  | lambda (r : LambdaRecord)
  | declaration (d : Declaration)

def Temporary.entry : Temporary → Entry
  | symbol s => .declaration s.declaration
  | lambda r => .lambda r

/-- What is held, in the order of declaration. -/
def Held.entries (h : Held) : List Entry :=
  h.lambdas.map .lambda ++ h.declarations.map .declaration

theorem Held.mem_entries_add {h k : Held} {e : Entry} :
    e ∈ (h.add k).entries ↔ e ∈ h.entries ∨ e ∈ k.entries := by
  simp only [entries, add, List.map_append, List.mem_append]
  tauto

theorem Held.entries_of_isEmpty {h : Held} (hempty : h.isEmpty = true) : h.entries = [] := by
  simpa [isEmpty, entries] using hempty

theorem Temporaries.entries_toHeld (t : Temporaries) :
    t.toHeld.entries = t.waiting.map Temporary.entry := by
  simp [toHeld, Held.entries, waiting, ExprCache.declarations, Function.comp_def, Temporary.entry]

/-! ### What the journal tells -/

namespace FrameEvent

/-- The temporaries whose names a rule returned. -/
def returned : FrameEvent → List Temporary
  | named symbols => symbols.map .symbol
  | called record => [.lambda record]
  | _ => []

/-- What is declared at a boundary. -/
def declared : FrameEvent → List Entry
  | declares _ lambdas declarations => Held.entries ⟨lambdas, declarations⟩
  | _ => []

def isDeposit : FrameEvent → Bool
  | declares _ _ _ => true
  | _ => false

theorem declared_of_not_isDeposit {event : FrameEvent} (h : event.isDeposit = false) :
    event.declared = [] := by
  cases event with
  | declares pattern lambdas declarations => cases h
  | _ => rfl

end FrameEvent

namespace Journal

def returned (j : Journal) : List Temporary := j.flatMap (·.2.returned)

def declared (j : Journal) : List Entry := j.flatMap (·.2.declared)

def hasDeposit (j : Journal) : Bool := j.any (·.2.isDeposit)

/-- The temporaries whose names rules have returned since the last deposit. -/
def outstanding (j : Journal) : List Temporary := returned (j.takeWhile (!·.2.isDeposit))

/-- The entry is for a temporary whose name a rule returned, or for one that such a temporary
needs. -/
def Refers (j : Journal) (e : Entry) : Prop := ∃ x ∈ j.returned, ∃ y, x.Needs y ∧ y.entry = e

variable {j k : Journal}

@[simp]
theorem returned_append : (k ++ j).returned = k.returned ++ j.returned := List.flatMap_append

@[simp]
theorem declared_append : (k ++ j).declared = k.declared ++ j.declared := List.flatMap_append

@[simp]
theorem hasDeposit_append : (k ++ j).hasDeposit = (k.hasDeposit || j.hasDeposit) := List.any_append

theorem outstanding_cons_of_deposit {id : Nat} {event : FrameEvent}
    (h : event.isDeposit = true) : outstanding ((id, event) :: j) = [] := by
  simp [outstanding, returned, h]

theorem outstanding_cons {id : Nat} {event : FrameEvent} (h : event.isDeposit = false) :
    outstanding ((id, event) :: j) = event.returned ++ outstanding j := by
  simp [outstanding, returned, h]

theorem Refers.append_left {e : Entry} (h : j.Refers e) (k : Journal) : (k ++ j).Refers e := by
  obtain ⟨x, hx, hneeds⟩ := h
  exact ⟨x, returned_append ▸ List.mem_append_right _ hx, hneeds⟩

theorem Refers.append_right {e : Entry} (h : k.Refers e) (j : Journal) : (k ++ j).Refers e := by
  obtain ⟨x, hx, hneeds⟩ := h
  exact ⟨x, returned_append ▸ List.mem_append_left _ hx, hneeds⟩

end Journal

/-! ### Moves -/

/-- The caches, and what the pools of all frames hold. -/
structure Account where
  temporaries : Temporaries
  held : List Entry

namespace Account

/-- What is still to be declared. -/
def owed (a : Account) : List Entry := a.held ++ a.temporaries.waiting.map Temporary.entry

theorem mem_owed_iff {a : Account} {e : Entry} :
    e ∈ a.owed ↔ e ∈ a.held ∨ ∃ x ∈ a.temporaries.waiting, x.entry = e := by
  rw [owed, List.mem_append, List.mem_map]

/-- The ways in which an account changes, with the events that tell of the change. -/
inductive Move : Account → Journal → Account → Prop where
  /-- A rule prints an expression. -/
  | name (t : Temporaries) (held : List Entry) (id : Nat) (e : Expr) :
      Move ⟨t, held⟩ [(id, .named (t.named e))] ⟨(t.emit e).2, held⟩
  /-- A rule calls a function value. -/
  | call (t : Temporaries) (held : List Entry) (id : Nat) (l : Lambda) :
      Move ⟨t, held⟩ [(id, .called (t.called l))] ⟨(t.cacheLambda l).2, held⟩
  /-- Something else happens to a frame. -/
  | tell (a : Account) (id : Nat) {event : FrameEvent} (hreturned : event.returned = [])
      (hdeposit : event.isDeposit = false) : Move a [(id, event)] a
  /-- What a pool holds and what waits is declared. -/
  | deposit (t : Temporaries) (h : Held) (rest : List Entry) (id : Nat) (pattern : String) :
      Move ⟨t, h.entries ++ rest⟩
        [(id, .declares pattern (h.add t.toHeld).lambdas (h.add t.toHeld).declarations)]
        ⟨t.clear, rest⟩
  /-- What waits is held. -/
  | hold (t : Temporaries) (h : Held) (rest : List Entry) (hwaiting : t.waiting ≠ []) :
      Move ⟨t, h.entries ++ rest⟩ [] ⟨t.clear, (h.add t.toHeld).entries ++ rest⟩

/-- Moves one after another, with all events, the latest first. -/
inductive Run (a : Account) : Journal → Account → Prop where
  | refl : Run a [] a
  | tail {j k : Journal} {b c : Account} (h : Run a j b) (hmove : Move b k c) : Run a (k ++ j) c

variable {a b c : Account} {j k : Journal}

theorem Run.single (h : Move a j b) : Run a j b := by
  have hrun := Run.refl.tail h
  rwa [List.append_nil] at hrun

theorem Run.trans (h : Run a j b) (h' : Run b k c) : Run a (k ++ j) c := by
  induction h' with
  | refl => exact h
  | tail _ hmove ih =>
      rw [List.append_assoc]
      exact ih.tail hmove

theorem Move.steady (h : Move a j b) (ha : a.temporaries.Steady) : b.temporaries.Steady := by
  induction h with
  | name t held id e => exact ha.emit e
  | call t held id l => exact ⟨ha.valid, ha.listed⟩
  | tell a id hreturned hdeposit => exact ha
  | deposit t h rest id pattern => exact t.steady_clear
  | hold t h rest hwaiting => exact t.steady_clear

theorem Run.steady (h : Run a j b) (ha : a.temporaries.Steady) : b.temporaries.Steady := by
  induction h with
  | refl => exact ha
  | tail _ hmove ih => exact hmove.steady ih

/-! ### Where declarations come from -/

/-- Whatever is owed or declared was owed before, or is referred to. -/
theorem Move.source (h : Move a j b) (ha : a.temporaries.Steady) {e : Entry}
    (he : e ∈ b.owed ∨ e ∈ j.declared) : e ∈ a.owed ∨ j.Refers e := by
  induction h with
  | name t held id d =>
      rcases mem_owed_iff.1 (he.resolve_right List.not_mem_nil) with he | ⟨x, hx, rfl⟩
      · exact Or.inl (mem_owed_iff.2 (Or.inl he))
      · rcases (ha.mem_waiting_emit d).1 hx with hx | ⟨s, hs, hneeds⟩
        · exact Or.inl (mem_owed_iff.2 (Or.inr ⟨x, hx, rfl⟩))
        · refine Or.inr ⟨.symbol s, ?_, x, hneeds, rfl⟩
          simpa [Journal.returned, FrameEvent.returned] using hs
  | call t held id l =>
      rcases mem_owed_iff.1 (he.resolve_right List.not_mem_nil) with he | ⟨x, hx, rfl⟩
      · exact Or.inl (mem_owed_iff.2 (Or.inl he))
      · rcases (t.mem_waiting_cacheLambda l).1 hx with hx | rfl
        · exact Or.inl (mem_owed_iff.2 (Or.inr ⟨x, hx, rfl⟩))
        · exact Or.inr ⟨_, List.mem_singleton.2 rfl, _, .refl _, rfl⟩
  | tell a id hreturned hdeposit =>
      refine Or.inl (he.resolve_right ?_)
      simp [Journal.declared, FrameEvent.declared_of_not_isDeposit hdeposit]
  | deposit t h rest id pattern =>
      left
      simp only [owed, List.mem_append, ← Temporaries.entries_toHeld]
      rcases he with he | he
      · rw [owed, t.waiting_clear, List.map_nil, List.append_nil] at he
        exact Or.inl (Or.inr he)
      · have he : e ∈ (h.add t.toHeld).entries := by
          simpa [Journal.declared, FrameEvent.declared] using he
        exact (Held.mem_entries_add.1 he).imp_left Or.inl
  | hold t h rest hwaiting =>
      left
      simp only [owed, List.mem_append, ← Temporaries.entries_toHeld]
      have he := he.resolve_right List.not_mem_nil
      rw [owed, t.waiting_clear, List.map_nil, List.append_nil, List.mem_append,
        Held.mem_entries_add] at he
      tauto

theorem Run.source (h : Run a j b) (ha : a.temporaries.Steady) {e : Entry}
    (he : e ∈ b.owed ∨ e ∈ j.declared) : e ∈ a.owed ∨ j.Refers e := by
  induction h with
  | refl => exact Or.inl (he.resolve_right List.not_mem_nil)
  | @tail j k b c hrun hmove ih =>
      -- what the last move did not refer to was there before it
      have hbefore : (e ∈ b.owed ∨ e ∈ j.declared) ∨ k.Refers e := by
        rw [Journal.declared_append, List.mem_append] at he
        rcases he with he | he | he
        · exact (hmove.source (hrun.steady ha) (Or.inl he)).imp_left Or.inl
        · exact (hmove.source (hrun.steady ha) (Or.inr he)).imp_left Or.inl
        · exact Or.inl (Or.inr he)
      rcases hbefore with he | he
      · exact (ih he).imp_right (·.append_left k)
      · exact Or.inr (he.append_right j)

/-! ### What becomes of what waits -/

/-- What is held stays so until it is declared. -/
theorem Move.carries_held (h : Move a j b) {e : Entry} (he : e ∈ a.held) :
    e ∈ j.declared ∨ e ∈ b.held := by
  induction h with
  | name t held id d => exact Or.inr he
  | call t held id l => exact Or.inr he
  | tell a id hreturned hdeposit => exact Or.inr he
  | deposit t h rest id pattern =>
      refine (List.mem_append.1 he).imp_left fun he => ?_
      simpa [Journal.declared, FrameEvent.declared] using Held.mem_entries_add.2 (Or.inl he)
  | hold t h rest hwaiting =>
      right
      apply List.mem_append.2
      exact (List.mem_append.1 he).imp_left fun he => Held.mem_entries_add.2 (Or.inl he)

/-- What waits does so until the next deposit, unless it is held. -/
theorem Move.carries_waiting (h : Move a j b) (ha : a.temporaries.Steady) {x : Temporary}
    (hx : x ∈ a.temporaries.waiting) :
    x.entry ∈ j.declared ∨ x.entry ∈ b.held ∨ j.hasDeposit = false ∧ x ∈ b.temporaries.waiting := by
  induction h with
  | name t held id d => exact Or.inr (Or.inr ⟨rfl, (ha.mem_waiting_emit d).2 (Or.inl hx)⟩)
  | call t held id l => exact Or.inr (Or.inr ⟨rfl, (t.mem_waiting_cacheLambda l).2 (Or.inl hx)⟩)
  | tell a id hreturned hdeposit =>
      refine Or.inr (Or.inr ⟨?_, hx⟩)
      simp [Journal.hasDeposit, hdeposit]
  | deposit t h rest id pattern =>
      have hentry : x.entry ∈ t.toHeld.entries := t.entries_toHeld ▸ List.mem_map_of_mem hx
      left
      simpa [Journal.declared, FrameEvent.declared] using Held.mem_entries_add.2 (Or.inr hentry)
  | hold t h rest hwaiting =>
      have hentry : x.entry ∈ t.toHeld.entries := t.entries_toHeld ▸ List.mem_map_of_mem hx
      right
      left
      exact List.mem_append_left _ (Held.mem_entries_add.2 (Or.inr hentry))

/-- What waited is declared or held at the end, unless there was no deposit. -/
theorem Run.carries_waiting (h : Run a j b) (ha : a.temporaries.Steady) {x : Temporary}
    (hx : x ∈ a.temporaries.waiting) :
    x.entry ∈ j.declared ∨ x.entry ∈ b.held ∨ j.hasDeposit = false ∧ x ∈ b.temporaries.waiting := by
  induction h with
  | refl => exact Or.inr (Or.inr ⟨rfl, hx⟩)
  | @tail j k b c hrun hmove ih =>
      rw [Journal.declared_append, Journal.hasDeposit_append, List.mem_append]
      rcases ih with hdeclared | hheld | ⟨hnone, hwaits⟩
      · exact Or.inl (Or.inr hdeclared)
      · exact (hmove.carries_held hheld).imp Or.inl Or.inl
      · rcases hmove.carries_waiting (hrun.steady ha) hwaits with hdeclared | hheld | ⟨hnone', hwaits⟩
        · exact Or.inl (Or.inl hdeclared)
        · exact Or.inr (Or.inl hheld)
        · exact Or.inr (Or.inr ⟨by rw [hnone, hnone', Bool.false_or], hwaits⟩)

/-! ### What waits at the end -/

/-- Something is held, or what waits is what the names returned since the last deposit need. -/
def Balanced (j : Journal) (b : Account) : Prop :=
  b.held ≠ [] ∨ ∀ x, x ∈ b.temporaries.waiting ↔ ∃ y ∈ j.outstanding, y.Needs x

theorem Move.balanced (h : Move b k c) (hb : b.temporaries.Steady) (hj : Balanced j b) :
    Balanced (k ++ j) c := by
  induction h with
  | name t held id d =>
      refine hj.imp_right fun hj x => ?_
      rw [List.singleton_append, Journal.outstanding_cons rfl, hb.mem_waiting_emit, hj]
      simp only [FrameEvent.returned, List.mem_append, List.mem_map]
      constructor
      · rintro (⟨y, hy, hneeds⟩ | ⟨s, hs, hneeds⟩)
        · exact ⟨y, Or.inr hy, hneeds⟩
        · exact ⟨_, Or.inl ⟨s, hs, rfl⟩, hneeds⟩
      · rintro ⟨y, ⟨s, hs, rfl⟩ | hy, hneeds⟩
        · exact Or.inr ⟨s, hs, hneeds⟩
        · exact Or.inl ⟨y, hy, hneeds⟩
  | call t held id l =>
      refine hj.imp_right fun hj x => ?_
      rw [List.singleton_append, Journal.outstanding_cons rfl, t.mem_waiting_cacheLambda, hj]
      simp [FrameEvent.returned, Temporary.needs_lambda_iff, or_comm]
  | tell a id hreturned hdeposit =>
      refine hj.imp_right fun hj x => ?_
      rw [List.singleton_append, Journal.outstanding_cons hdeposit, hreturned, List.nil_append]
      exact hj x
  | deposit t h rest id pattern =>
      refine Or.inr fun x => ?_
      rw [List.singleton_append, Journal.outstanding_cons_of_deposit rfl, t.waiting_clear]
      simp
  | hold t h rest hwaiting =>
      -- what waited is held now
      left
      obtain ⟨x, hx⟩ := List.exists_mem_of_ne_nil _ hwaiting
      have hentry : x.entry ∈ t.toHeld.entries := t.entries_toHeld ▸ List.mem_map_of_mem hx
      exact List.ne_nil_of_mem
        (List.mem_append_left _ (Held.mem_entries_add.2 (Or.inr hentry)))

theorem Run.balanced (h : Run a j b) (ha : a.temporaries.Steady)
    (hwaiting : a.temporaries.waiting = []) : Balanced j b := by
  induction h with
  | refl =>
      right
      simp [hwaiting, Journal.outstanding, Journal.returned]
  | tail hrun hmove ih => exact hmove.balanced (hrun.steady ha) ih

end Account

end TensorTemplate
