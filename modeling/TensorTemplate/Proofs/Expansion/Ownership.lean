import TensorTemplate.Proofs.Expansion.Layout

/-!
Whose temporaries are declared where.

At every moment of a run, a frame has declared some temporaries, holds some, and
owns all that waits in the caches while it is on top. Together these are exactly
what the temporaries need whose names rules returned on the frame. What is declared
or held has a name of an earlier generation, so no later name is the same, and a
name is declared or held once, by one frame.
-/

namespace TensorTemplate

open NameGen

namespace View

/-- The names that the frame of this number holds. -/
def heldNames (fs : List Live) (id : Nat) : List String :=
  fs.flatMap fun f => if f.id = id then f.held.names else []

/-- The names that the frame of this number has declared or holds. -/
def settled (b : Backend) (v : View) (id : Nat) : List String :=
  (v.journal.page b id).declared ++ heldNames v.frames id

/-- The names that wait in the caches for the frame of this number. -/
def waitingNames (v : View) (id : Nat) : List String :=
  match v.frames with
  | [] => []
  | f :: _ => if f.id = id then v.temporaries.waiting.map Temporary.name else []

/-- What is true of declared, held and waiting names in every run. -/
structure Owned (b : Backend) (v : View) : Prop where
  sound : v.temporaries.Sound
  older : ∀ id, ∀ name ∈ v.settled b id, ∃ g < v.temporaries.generation, MadeIn g name
  nodup : ∀ id, (v.settled b id).Nodup
  disjoint : ∀ id id', id ≠ id' → (v.settled b id).Disjoint (v.settled b id')
  owes_iff : ∀ id name, name ∈ v.settled b id ∨ name ∈ v.waitingNames id ↔
    ∃ x ∈ (v.journal.page b id).returned, ∃ y, x.Needs y ∧ y.name = name

variable {b : Backend} {v v' : View}

theorem heldNames_cons (f : Live) (fs : List Live) (id : Nat) :
    heldNames (f :: fs) id = (if f.id = id then f.held.names else []) ++ heldNames fs id := rfl

theorem waitingNames_eq_nil (v : View) (h : v.temporaries.waiting = []) (id : Nat) :
    v.waitingNames id = [] := by
  unfold waitingNames
  split
  · rfl
  · simp [h]

theorem mem_waiting_of_mem_waitingNames {id : Nat} {name : String} (h : name ∈ v.waitingNames id) :
    ∃ x ∈ v.temporaries.waiting, x.name = name := by
  unfold waitingNames at h
  split at h
  · cases h
  · split at h
    · exact List.mem_map.1 h
    · cases h

/-- Only one frame has something in the caches. -/
theorem eq_of_mem_waitingNames {id id' : Nat} {name name' : String} (h : name ∈ v.waitingNames id)
    (h' : name' ∈ v.waitingNames id') : id = id' := by
  unfold waitingNames at h h'
  split at h
  · cases h
  · rename_i f fs hframes
    simp only [hframes] at h'
    split at h
    · rename_i hid
      split at h'
      · rename_i hid'
        exact hid.symm.trans hid'
      · cases h'
    · cases h

namespace Owned

/-- Steps that leave all names where they are. -/
theorem same (hv : v.Owned b) (ht : v'.temporaries = v.temporaries)
    (hsettled : ∀ id, v'.settled b id = v.settled b id)
    (hwaiting : ∀ id, v'.waitingNames id = v.waitingNames id)
    (hreturned : ∀ id, (v'.journal.page b id).returned = (v.journal.page b id).returned) :
    v'.Owned b := by
  refine ⟨ht ▸ hv.sound, ?_, ?_, ?_, ?_⟩
  · intro id name hname
    rw [ht]
    exact hv.older id name (hsettled id ▸ hname)
  · intro id
    rw [hsettled]
    exact hv.nodup id
  · intro id id' hne
    rw [hsettled, hsettled]
    exact hv.disjoint id id' hne
  · intro id name
    rw [hsettled, hwaiting, hreturned]
    exact hv.owes_iff id name

theorem notMem_settled (hv : v.Owned b) {id id' : Nat} {name : String}
    (hname : name ∈ v.waitingNames id) : name ∉ v.settled b id' := by
  intro hsettled
  obtain ⟨x, hx, rfl⟩ := mem_waiting_of_mem_waitingNames hname
  obtain ⟨g, hlt, hmade⟩ := hv.older id' x.name hsettled
  exact absurd (hmade.unique (hv.sound.madeIn hx)) hlt.ne

theorem waitingNames_nodup (hv : v.Owned b) (id : Nat) : (v.waitingNames id).Nodup := by
  unfold waitingNames
  split
  · exact List.nodup_nil
  · split
    · exact hv.sound.waiting_nodup
    · exact List.nodup_nil

/-- Steps that take what waits out of the caches. -/
theorem settle (hv : v.Owned b) (ht : v'.temporaries = v.temporaries.clear)
    (hsettled : ∀ id, (v'.settled b id).Perm (v.settled b id ++ v.waitingNames id))
    (hreturned : ∀ id, (v'.journal.page b id).returned = (v.journal.page b id).returned) :
    v'.Owned b := by
  have hmem : ∀ {id name}, name ∈ v'.settled b id ↔
      name ∈ v.settled b id ∨ name ∈ v.waitingNames id := by
    intro id name
    rw [(hsettled id).mem_iff, List.mem_append]
  have hlt := v.temporaries.generation_lt_clear
  have hwaiting : v'.temporaries.waiting = [] := by rw [ht, Temporaries.waiting_clear]
  refine ⟨ht ▸ hv.sound.clear, ?_, ?_, ?_, ?_⟩
  · intro id name hname
    rw [ht]
    rcases hmem.1 hname with hname | hname
    · obtain ⟨g, hg, hmade⟩ := hv.older id name hname
      exact ⟨g, hg.trans hlt, hmade⟩
    · obtain ⟨x, hx, rfl⟩ := mem_waiting_of_mem_waitingNames hname
      exact ⟨_, hlt, hv.sound.madeIn hx⟩
  · intro id
    refine (hsettled id).nodup_iff.2
      (List.nodup_append.2 ⟨hv.nodup id, hv.waitingNames_nodup id, ?_⟩)
    rintro name hname _ hname' rfl
    exact hv.notMem_settled hname' hname
  · intro id id' hne name hname hname'
    rcases hmem.1 hname with hname | hname <;> rcases hmem.1 hname' with hname' | hname'
    · exact hv.disjoint id id' hne hname hname'
    · exact hv.notMem_settled hname' hname
    · exact hv.notMem_settled hname hname'
    · exact hne (eq_of_mem_waitingNames hname hname')
  · intro id name
    rw [hmem, waitingNames_eq_nil v' hwaiting, hreturned, ← hv.owes_iff id name]
    simp

/-- Steps in which a rule on the frame on top returns names of temporaries. -/
theorem returns (hv : v.Owned b) {f : Live} {fs : List Live} (hframes : v.frames = f :: fs)
    (new : List Temporary) {event : FrameEvent} {t : Temporaries} (hsound : t.Sound)
    (hgeneration : t.generation = v.temporaries.generation)
    (hwaiting : ∀ x, x ∈ t.waiting ↔ x ∈ v.temporaries.waiting ∨ ∃ z ∈ new, z.Needs x)
    (hevent : ∀ p : Page, (p.after b event).declared = p.declared ∧
      (p.after b event).returned = new ++ p.returned) :
    Owned b { v with temporaries := t, journal := (f.id, event) :: v.journal } := by
  have hsettled : ∀ id,
      settled b { v with temporaries := t, journal := (f.id, event) :: v.journal } id =
        v.settled b id := by
    intro id
    by_cases hid : f.id = id
    · subst hid
      simp only [settled, Page.page_cons_self, (hevent _).1]
    · simp only [settled, Page.page_cons_of_ne b hid]
  refine ⟨hsound, ?_, ?_, ?_, ?_⟩
  · intro id name hname
    rw [hsettled] at hname
    simp only [hgeneration]
    exact hv.older id name hname
  · intro id
    rw [hsettled]
    exact hv.nodup id
  · intro id id' hne
    rw [hsettled, hsettled]
    exact hv.disjoint id id' hne
  · intro id name
    have howes := hv.owes_iff id name
    rw [hsettled]
    simp only [waitingNames, hframes] at howes ⊢
    by_cases hid : f.id = id
    · subst hid
      simp only [if_true, Page.page_cons_self, (hevent _).2, List.mem_map, hwaiting,
        List.mem_append] at howes ⊢
      constructor
      · rintro (hname | ⟨x, hx | ⟨z, hz, hneeds⟩, rfl⟩)
        · obtain ⟨x, hx, hrest⟩ := howes.1 (Or.inl hname)
          exact ⟨x, Or.inr hx, hrest⟩
        · obtain ⟨z, hz, hrest⟩ := howes.1 (Or.inr ⟨x, hx, rfl⟩)
          exact ⟨z, Or.inr hz, hrest⟩
        · exact ⟨z, Or.inl hz, x, hneeds, rfl⟩
      · rintro ⟨x, hx | hx, y, hneeds, rfl⟩
        · exact Or.inr ⟨y, Or.inr ⟨x, hx, hneeds⟩, rfl⟩
        · rcases howes.2 ⟨x, hx, y, hneeds, rfl⟩ with hname | ⟨z, hz, hname⟩
          · exact Or.inl hname
          · exact Or.inr ⟨z, Or.inl hz, hname⟩
    · simp only [if_neg hid, Page.page_cons_of_ne b hid] at howes ⊢
      exact howes

end Owned

/-! ### Steps and runs -/

/-- An event of the frame on top that declares nothing leaves all names where they are. -/
theorem Owned.onTop (hv : v.Owned b) {f f' : Live} {fs : List Live} (hframes : v.frames = f :: fs)
    (hid : f'.id = f.id) (hheld : f'.held = f.held) {event : FrameEvent}
    (hevent : ∀ p : Page, (p.after b event).declared = p.declared ∧
      (p.after b event).returned = p.returned) :
    Owned b { v with frames := f' :: fs, journal := (f.id, event) :: v.journal } := by
  refine hv.same rfl ?_ ?_ ?_
  · intro id
    simp only [settled, hframes, heldNames_cons, hid, hheld]
    by_cases h : f.id = id
    · subst h
      rw [Page.page_cons_self, (hevent _).1]
    · rw [Page.page_cons_of_ne b h]
  · intro id
    simp only [waitingNames, hframes, hid]
  · intro id
    by_cases h : f.id = id
    · subst h
      rw [Page.page_cons_self, (hevent _).2]
    · rw [Page.page_cons_of_ne b h]

/-- What waits comes to what is held, among the names before and after. -/
theorem add_toHeld_perm (before after : List String) (h : Held) (t : Temporaries) :
    (before ++ ((h.add t.toHeld).names ++ after)).Perm
      (before ++ (h.names ++ after) ++ t.waiting.map Temporary.name) := by
  rw [List.append_assoc, List.append_assoc, ← Temporaries.names_toHeld]
  refine (((h.names_add_perm t.toHeld).append_right after).trans ?_).append_left before
  rw [List.append_assoc]
  exact List.perm_append_comm.append_left _

theorem Step.owned (h : Step b v v') (hnumbered : v.Numbered) (hv : v.Owned b) : v'.Owned b := by
  induction h with
  | @name f fs hframes e he =>
      refine hv.returns hframes ((v.temporaries.named e).map .symbol) (hv.sound.emit he) rfl ?_ ?_
      · intro x
        rw [hv.sound.steady.mem_waiting_emit]
        simp
      · intro p
        exact ⟨rfl, rfl⟩
  | @call f fs hframes l hl =>
      refine hv.returns hframes [.lambda (v.temporaries.called l)] (hv.sound.cacheLambda hl) rfl
        ?_ ?_
      · intro x
        rw [Temporaries.mem_waiting_cacheLambda]
        simp [Temporary.needs_lambda_iff]
      · intro p
        exact ⟨rfl, rfl⟩
  | @write f fs hframes text => exact hv.onTop hframes (by rfl) (by rfl) fun p => ⟨by simp, rfl⟩
  | @merge f fs hframes lines => exact hv.onTop hframes (by rfl) (by rfl) fun p => ⟨by simp, rfl⟩
  | @deposit f fs hframes hset hlines =>
      refine hv.settle rfl ?_ ?_
      · intro id
        by_cases hid : f.id = id
        · subst hid
          have hdeclared := (v.journal.page b f.id).declared_after_declares_perm b hlines
          simp only [settled, waitingNames, hframes, heldNames_cons, if_true, Page.page_cons_self]
          refine (hdeclared.append_right _).trans ?_
          rw [List.append_assoc]
          exact add_toHeld_perm _ _ _ _
        · simp [settled, waitingNames, hframes, heldNames_cons, hid, Page.page_cons_of_ne b hid]
      · intro id
        by_cases hid : f.id = id
        · subst hid
          rw [Page.page_cons_self]
          rfl
        · rw [Page.page_cons_of_ne b hid]
  | @hold f fs hframes hset =>
      refine hv.settle rfl ?_ fun _ => rfl
      intro id
      by_cases hid : f.id = id
      · subst hid
        simp only [settled, waitingNames, hframes, heldNames_cons, if_true]
        exact add_toHeld_perm _ _ _ _
      · simp [settled, waitingNames, hframes, heldNames_cons, hid]
  | @bound f fs hframes pattern hpattern hdrained =>
      exact hv.onTop hframes (by rfl) (by rfl) fun p => ⟨by simp, rfl⟩
  | @boundAtStart f fs hframes hset =>
      exact hv.onTop hframes (by rfl) (by rfl) fun p => ⟨by simp, rfl⟩
  | @enter hwaiting buffer =>
      have hempty : v.journal.page b v.nextId = {} :=
        Page.page_eq_empty b fun e he => (hnumbered.journal_lt e he).ne
      refine hv.same rfl ?_ ?_ ?_
      · intro id
        by_cases hid : v.nextId = id
        · subst hid
          simp only [settled, Page.page_cons_self, hempty, heldNames_cons]
          simp [Page.declared_eq, Page.after, Held.names, List.filterMap_map, Origin.declares?]
        · simp [settled, heldNames_cons, hid, Page.page_cons_of_ne b hid]
      · intro id
        rw [waitingNames_eq_nil v hwaiting]
        apply waitingNames_eq_nil
        exact hwaiting
      · intro id
        by_cases hid : v.nextId = id
        · subst hid
          rw [Page.page_cons_self, hempty]
          rfl
        · rw [Page.page_cons_of_ne b hid]
  | @leave f fs hframes hheld hwaiting buffer hbuffer =>
      have hpage : ∀ id, Journal.page b id ((f.id, .closed buffer) :: v.journal) =
          v.journal.page b id := Page.page_cons_closed b f.id buffer v.journal
      refine hv.same rfl ?_ ?_ ?_
      · intro id
        simp only [settled, hpage, hframes, heldNames_cons, hheld, ite_self, List.nil_append]
      · intro id
        rw [waitingNames_eq_nil v hwaiting]
        apply waitingNames_eq_nil
        exact hwaiting
      · intro id
        rw [hpage]

end View

end TensorTemplate
