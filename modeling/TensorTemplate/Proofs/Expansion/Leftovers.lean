import TensorTemplate.Proofs.Expansion.Bookkeeping
import TensorTemplate.Proofs.Expansion.Session

/-!
What requests leave behind for later ones.

A request, whether it succeeds or fails, ends with an empty stack, but what waits in
the caches may stay there. A request that succeeds declares all that it finds waiting;
what it leaves waiting itself was named after its last deposit, which is where its
declarations are expanded.
-/

namespace TensorTemplate

open ExpandM

/-- The states between requests, of which any may have failed. -/
inductive State.Reached (setup : Setup) : State → Prop where
  | initial (files : FileTree) : Reached setup (.initial setup files)
  | after {s : State} (h : Reached setup s) (r : Request) :
      Reached setup (stateAfter (r.run setup) s)

theorem Stack.length_replace (id : Nat) (new : Frame) (frames : List Frame) :
    (replace id new frames).length = frames.length := by
  induction frames with
  | nil => rfl
  | cons f fs ih =>
      unfold replace
      split
      · rfl
      · rw [List.length_cons, ih, List.length_cons]

/-- As many frames are open, and the caches stay in order. -/
def Lasting.order : Lasting where
  Rel s t := t.stack.frames.length = s.stack.frames.length ∧
    (s.temporaries.Steady → t.temporaries.Steady)
  refl _ := ⟨rfl, fun h => h⟩
  trans hst htu := ⟨htu.1.trans hst.1, fun h => htu.2 (hst.2 h)⟩
  record _ _ _ _ := ⟨rfl, fun h => h⟩
  setFrame s f := ⟨Stack.length_replace f.id f s.stack.frames, fun h => h⟩
  emit _ e := ⟨rfl, fun h => h.emit e⟩
  cacheLambda _ _ := ⟨rfl, fun h => ⟨h.valid, h.listed⟩⟩
  clear s := ⟨rfl, fun _ => s.temporaries.steady_clear⟩
  aside _ _ _ _ := ⟨rfl, fun h => h⟩
  bookmarks _ _ := ⟨rfl, fun h => h⟩
  framed {s t} buffer pass template h := by
    refine ⟨?_, h.2⟩
    have hlength : t.stack.frames.length = s.stack.frames.length + 1 := h.1
    show t.stack.frames.tail.length = s.stack.frames.length
    rw [List.length_tail, hlength, Nat.add_sub_cancel]

instance : Lasting.order.Uncounted := ⟨fun _ _ => ⟨rfl, fun h => h⟩, fun _ _ => ⟨rfl, fun h => h⟩⟩

/-- Between requests no frame is open, and the caches are in order. -/
theorem State.Reached.order {setup : Setup} {s : State} (h : s.Reached setup) :
    s.stack.frames = [] ∧ s.temporaries.Steady := by
  induction h with
  | initial files =>
      exact ⟨rfl, (ExprCache.new setup.backend setup.settings.exprKernel).valid_clear,
        (ExprCache.new setup.backend setup.settings.exprKernel).listed_clear⟩
  | @after s _ r ih =>
      have hkeeps : Keeps .order (r.run setup) := r.keeps_run
      obtain ⟨hlength, hsteady⟩ := hkeeps s
      rw [ih.1, List.length_nil] at hlength
      exact ⟨List.length_eq_zero_iff.1 hlength, hsteady ih.2⟩

namespace Request

/-- A request that succeeds is a run of the account in which nothing stays held. If there was no
deposit, then nothing waits afterwards. -/
theorem run_account {setup : Setup} (hpackages : setup.packages = []) {s s' : State}
    (hframes : s.stack.frames = []) {r : Request} (hbare : r.Bare)
    (h : r.run setup s = .ok () s') :
    ∃ new, s'.journal = new ++ s.journal ∧
      Account.Run ⟨s.temporaries, []⟩ new ⟨s'.temporaries, []⟩ ∧
      (s'.temporaries.waiting = [] ∨ new.hasDeposit = true) := by
  obtain ⟨template, buffer, pass, result, t, files, hbuffer, hexpand, rfl⟩ := run_ok h
  rw [Setup.expandToBuffer_eq] at hexpand
  obtain ⟨new, hframes', hjournal, hrun, hdone⟩ :=
    expandTemplate_run hpackages (advances_reentry hpackages _) (hbuffer hbare) hexpand
  rw [State.account, State.account, hframes', hframes] at hrun
  exact ⟨new, hjournal, hrun, hdone⟩

/-! ### What a request leaves waiting -/

/-- After a request that succeeds and found nothing waiting, what waits is what the names need that
were returned since its last deposit. So nothing waits exactly if no name was returned since. -/
theorem waiting_iff_outstanding {setup : Setup} (hpackages : setup.packages = []) {s s' : State}
    (hs : s.Reached setup) (hpending : s.temporaries.isPending = false) {r : Request}
    (hbare : r.Bare) (h : r.run setup s = .ok () s') :
    ∃ new, s'.journal = new ++ s.journal ∧
      (∀ x, x ∈ s'.temporaries.waiting ↔ ∃ y ∈ new.outstanding, y.Needs x) ∧
      (s'.temporaries.isPending = false ↔ new.outstanding = []) := by
  obtain ⟨hframes, hsteady⟩ := hs.order
  obtain ⟨new, hjournal, hrun, _⟩ := run_account hpackages hframes hbare h
  have hwaiting := s.temporaries.isPending_eq_false_iff.1 hpending
  have hbalanced := (hrun.balanced hsteady hwaiting).resolve_left fun hheld => hheld rfl
  refine ⟨new, hjournal, hbalanced, ?_⟩
  rw [s'.temporaries.isPending_eq_false_iff]
  constructor
  · intro hnone
    apply List.eq_nil_iff_forall_not_mem.2
    intro y hy
    have hy := (hbalanced y).2 ⟨y, hy, .refl y⟩
    rw [hnone] at hy
    cases hy
  · intro hnone
    apply List.eq_nil_iff_forall_not_mem.2
    intro x hx
    obtain ⟨y, hy, _⟩ := (hbalanced x).1 hx
    rw [hnone] at hy
    cases hy

/-- A function value that is called in declarations waits when these are written, and a boundary
behind it has it declared. -/
theorem waiting_iff_outstanding_boundary :
    let setup := squareSetup
      "cpp 0.1\n$TEMP_POOL\x7b\"$1=$2+$V_LAMBDA\"\x7d\n$V\n$TEMP_POOL\x7b\"$1=$2\"\x7d\n" ""
    ∃ s' new, (text "outer" .implementation).run setup (.initial setup {}) = .ok () s' ∧
      s'.journal = new ∧ new.returned ≠ [] ∧ new.outstanding = [] ∧
        s'.temporaries.isPending = false := by
  intro setup
  obtain ⟨s', hok, hreturned, hpending⟩ := exists_of_succeeds
    (x := (text "outer" .implementation).run setup) (s := .initial setup {})
    (p := fun s' => s'.journal.returned.isEmpty = false ∧ s'.temporaries.isPending = false)
    (by decide +kernel)
  obtain ⟨new, hjournal, _, hiff⟩ :=
    waiting_iff_outstanding rfl (.initial {}) rfl (r := text "outer" .implementation) trivial hok
  have hjournal : s'.journal = new := hjournal.trans (List.append_nil new)
  rw [hjournal] at hreturned
  exact ⟨s', new, hok, hjournal, List.isEmpty_eq_false_iff.1 hreturned, hiff.1 hpending, hpending⟩

/-- The declaration at the last boundary calls a function value, which is left waiting. -/
theorem pending_after_call :
    let setup := squareSetup "cpp 0.1\n$TEMP_POOL\x7b\"$1=$2+$V_LAMBDA\"\x7d\n$V\n" ""
    setup.packages = [] ∧ (State.initial setup {}).temporaries.isPending = false ∧
      ∃ s', (text "outer" .implementation).run setup (.initial setup {}) = .ok () s' ∧
        s'.temporaries.lambdas.records.map (·.name) = ["__lambda_1_0"] ∧
          s'.temporaries.isPending = true := by
  intro setup
  exact ⟨rfl, rfl, exists_of_succeeds (by decide +kernel)⟩

/-! ### What a request finds waiting -/

/-- A request that succeeds declares all that it finds waiting, and apart from that only what it
refers to itself. So it declares only what it refers to exactly if it refers to all that it finds
waiting. -/
theorem refers_declared_iff {setup : Setup} (hpackages : setup.packages = []) {s s' : State}
    (hs : s.Reached setup) {r : Request} (hbare : r.Bare) (h : r.run setup s = .ok () s') :
    ∃ new, s'.journal = new ++ s.journal ∧
      (∀ x ∈ s.temporaries.waiting, x.entry ∈ new.declared) ∧
      (∀ e ∈ new.declared, new.Refers e ∨ ∃ x ∈ s.temporaries.waiting, x.entry = e) ∧
      ((∀ e ∈ new.declared, new.Refers e) ↔ ∀ x ∈ s.temporaries.waiting, new.Refers x.entry) := by
  obtain ⟨hframes, hsteady⟩ := hs.order
  obtain ⟨new, hjournal, hrun, hdone⟩ := run_account hpackages hframes hbare h
  have hfound : ∀ x ∈ s.temporaries.waiting, x.entry ∈ new.declared := by
    intro x hx
    rcases hrun.carries_waiting hsteady hx with hdeclared | hheld | ⟨hnone, hwaits⟩
    · exact hdeclared
    · cases hheld
    · rcases hdone with hempty | hdeposits
      · have hwaits : x ∈ s'.temporaries.waiting := hwaits
        rw [hempty] at hwaits
        cases hwaits
      · rw [hnone] at hdeposits
        cases hdeposits
  have hsource : ∀ e ∈ new.declared, new.Refers e ∨ ∃ x ∈ s.temporaries.waiting, x.entry = e := by
    intro e he
    rcases hrun.source hsteady (Or.inr he) with howed | hrefers
    · exact Or.inr (List.mem_map.1 howed)
    · exact Or.inl hrefers
  refine ⟨new, hjournal, hfound, hsource, ?_, ?_⟩
  · intro hrefers x hx
    exact hrefers x.entry (hfound x hx)
  · intro hrefers e he
    rcases hsource e he with he | ⟨x, hx, rfl⟩
    · exact he
    · exact hrefers x hx

/-- What a request that failed has named is declared by the next one. -/
theorem refers_declared_iff_failed :
    let setup := squareSetup "cpp 0.1\n$V\n$NOPE\n" "cpp 0.1\n$TEMP_POOL\x7b\"$1=$2\"\x7d\n$V\n"
    let s := stateAfter ((text "outer" .core).run setup) (.initial setup {})
    ∃ s' new, (text "inner" .core).run setup s = .ok () s' ∧ s'.journal = new ++ s.journal ∧
      ∃ x ∈ s.temporaries.waiting, x.name = "__cse_0_0" ∧ x.entry ∈ new.declared := by
  intro setup s
  obtain ⟨s', hok, hnames⟩ := exists_of_succeeds (x := (text "inner" .core).run setup) (s := s)
    (p := fun _ => "__cse_0_0" ∈ s.temporaries.waiting.map Temporary.name) (by decide +kernel)
  obtain ⟨x, hx, hname⟩ := List.mem_map.1 hnames
  obtain ⟨new, hjournal, hfound, _⟩ :=
    refers_declared_iff rfl (.after (.initial {}) _) (r := text "inner" .core) trivial hok
  exact ⟨s', new, hok, hjournal, x, hx, hname, hfound x hx⟩

/-- A template that calls for no temporaries declares one that a request had named before it
failed. -/
theorem declared_after_failure :
    let setup := squareSetup "cpp 0.1\n$V\n$NOPE\n" "cpp 0.1\n$TEMP_POOL\x7b\"$1=$2\"\x7d\nx\n"
    let s := stateAfter ((text "outer" .core).run setup) (.initial setup {})
    (∃ e, (text "outer" .core).run setup (.initial setup {}) = .error e s) ∧
      ∃ s' new, (text "inner" .core).run setup s = .ok () s' ∧ s'.journal = new ++ s.journal ∧
        ∃ e ∈ new.declared, ¬new.Refers e := by
  intro setup s
  refine ⟨error_of_not_succeeds (by decide +kernel), ?_⟩
  obtain ⟨s', hok, hreturned, hdeclared⟩ := exists_of_succeeds
    (x := (text "inner" .core).run setup) (s := s)
    (p := fun s' =>
      let new : Journal := s'.journal.take (s'.journal.length - s.journal.length)
      new.returned.isEmpty = true ∧ new.declared.isEmpty = false) (by decide +kernel)
  obtain ⟨new, hjournal⟩ := Grows.of_ok (text "inner" .core).keeps_run hok
  have hnew : s'.journal.take (s'.journal.length - s.journal.length) = new := by
    simp [← hjournal]
  rw [hnew] at hreturned hdeclared
  obtain ⟨e, he⟩ := List.exists_mem_of_ne_nil _ (List.isEmpty_eq_false_iff.1 hdeclared)
  refine ⟨s', new, hok, hjournal.symm, e, he, ?_⟩
  rintro ⟨x, hx, _⟩
  rw [List.isEmpty_iff.1 hreturned] at hx
  cases hx

end Request

end TensorTemplate
