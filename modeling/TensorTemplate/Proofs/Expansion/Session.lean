import TensorTemplate.Proofs.Expansion.Order
import TensorTemplate.Proofs.Expansion.Simulation

/-!
Expansions one after another on one state.

Every request starts and ends with an empty stack and with nothing that waits for
its declaration, so what holds of pages along steps holds for all frames that were
ever opened. Every temporary is declared once, by the frame that was on top when
its name was returned; and where a frame has a boundary, or never sets one, the
declarations stand in front of the lines that need them.
-/

namespace TensorTemplate

/-- A template to be expanded, for its text, into a file, or into a buffer that is given. -/
inductive Request where
  | text (template : String) (pass : Pass)
  | file (template path : String) (pass : Pass)
  | buffer (template : String) (given : Buffer) (pass : Pass)

namespace Request

/-- A buffer that is given has no handlers on it. -/
def Bare : Request → Prop
  | buffer _ given _ => given.handlers = []
  | _ => True

/-- Expands the template. -/
def run (setup : Setup) : Request → ExpandM Unit
  | text template pass => do
    let _ ← setup.expandToText template pass
  | file template path pass => do
    let _ ← setup.expandToFile template path pass
  | buffer template given pass => do
    let _ ← setup.expandToBuffer template given pass

/-- Expands the templates of all requests, the first one first. -/
def runAll (setup : Setup) (requests : List Request) : ExpandM Unit := requests.forM (·.run setup)

end Request

namespace Setup

open ExpandM

variable {setup : Setup}

theorem expandToBuffer_eq (template : String) (buffer : Buffer) (pass : Pass) (s : State) :
    setup.expandToBuffer template buffer pass s =
      expandTemplate setup (reentry setup (setup.depthLimit s.files)) template buffer pass s := rfl

theorem keeps_expandToBuffer {R : Lasting} [R.Uncounted] (template : String) (buffer : Buffer)
    (pass : Pass) : Keeps R (setup.expandToBuffer template buffer pass) := by
  intro s
  rw [stateAfter, expandToBuffer_eq]
  exact keeps_expandTemplate (keeps_reentry setup _) setup template buffer pass s

theorem writeFile_eq (path text : String) (s : State) :
    writeFile path text s =
      match s.files.write path text with
      | .ok files => .ok () { s with files }
      | .error fault => .error (.file path fault) s := by
  rw [writeFile, get_bind]
  cases s.files.write path text <;> rfl

theorem keeps_writeFile {R : Lasting} (path text : String) : Keeps R (writeFile path text) := by
  intro s
  rw [stateAfter, writeFile_eq]
  cases s.files.write path text with
  | ok files => exact R.aside s _ _ _
  | error fault => exact R.refl s

end Setup

/-- No template is being expanded, and nothing waits for its declaration. -/
structure State.Idle (setup : Setup) (s : State) : Prop where
  ready : s.Ready setup []
  waiting : s.temporaries.waiting = []

theorem State.Idle.frames_view {setup : Setup} {s : State} (h : s.Idle setup) :
    s.view.frames = [] := by
  rw [State.view, List.map_eq_nil_iff.1 h.ready.ids, List.map_nil]

theorem State.idle_initial {setup : Setup} (hsetup : setup.Plain) (files : FileTree) :
    (State.initial setup files).Idle setup where
  ready := by
    refine ⟨rfl, fun f hf => (nomatch hf), ?_, rfl, fun f hf => (nomatch hf),
      fun f hf => (nomatch hf)⟩
    exact Temporaries.sound_new setup.backend hsetup.exprKernel hsetup.lambdaKernel hsetup.kernel_ne
  waiting := rfl

namespace Request

open ExpandM

variable {setup : Setup}

theorem keeps_run {R : Lasting} [R.Uncounted] (r : Request) : Keeps R (r.run setup) := by
  cases r with
  | text template pass =>
      exact .bind (.bind (Setup.keeps_expandToBuffer _ _ _) fun _ => .pure _) fun _ => .pure _
  | file template path pass =>
      exact .bind (.bind (Setup.keeps_expandToBuffer _ _ _) fun _ =>
        .bind (Setup.keeps_writeFile _ _) fun _ => .pure _) fun _ => .pure _
  | buffer template given pass => exact .bind (Setup.keeps_expandToBuffer _ _ _) fun _ => .pure _

/-- A request that succeeds expands a template into a buffer, and then at most files change. -/
theorem run_ok {r : Request} {s s' : State} (h : r.run setup s = .ok () s') :
    ∃ template buffer pass result t files, (r.Bare → buffer.handlers = []) ∧
      setup.expandToBuffer template buffer pass s = .ok result t ∧ s' = { t with files } := by
  cases r with
  | text template pass =>
      obtain ⟨_, t, htext, hpure⟩ := bind_ok h
      cases hpure
      obtain ⟨result, u, hbuffer, hpure⟩ := bind_ok htext
      cases hpure
      exact ⟨template, _, pass, result, s', s'.files, fun _ => rfl, hbuffer, rfl⟩
  | file template path pass =>
      obtain ⟨_, t, hfile, hpure⟩ := bind_ok h
      cases hpure
      obtain ⟨⟨buffer, count⟩, u, hbuffer, hrest⟩ := bind_ok hfile
      obtain ⟨_, v, hwrite, hpure⟩ := bind_ok hrest
      cases hpure
      rw [Setup.writeFile_eq] at hwrite
      split at hwrite
      · cases hwrite
        exact ⟨template, _, pass, _, u, _, fun _ => rfl, hbuffer, rfl⟩
      · cases hwrite
  | buffer template given pass =>
      obtain ⟨result, t, hbuffer, hpure⟩ := bind_ok h
      cases hpure
      exact ⟨template, given, pass, result, s', s'.files, fun hbare => hbare, hbuffer, rfl⟩

variable (hsetup : setup.Plain)

include hsetup

theorem expandToBuffer_idle {s s' : State} (hidle : s.Idle setup) {buffer : Buffer}
    (hbuffer : buffer.handlers = []) {template : String} {pass : Pass} {result : Buffer × Nat}
    (h : setup.expandToBuffer template buffer pass s = .ok result s')
    (hplain : s'.journal.PlainPatterns setup.backend) :
    s'.Idle setup ∧ View.Run setup.backend s.view s'.view := by
  rw [Setup.expandToBuffer_eq] at h
  obtain ⟨hready, hrun, hwaiting⟩ := expandTemplate_ready hsetup (faithful_reentry hsetup _)
    hidle.ready hidle.waiting hbuffer h hplain
  exact ⟨⟨hready, hwaiting⟩, hrun⟩

/-- A request starts and ends idle, and is a run of steps between. -/
theorem run_idle {r : Request} (hbare : r.Bare) {s s' : State} (hidle : s.Idle setup)
    (h : r.run setup s = .ok () s') (hplain : s'.journal.PlainPatterns setup.backend) :
    s'.Idle setup ∧ View.Run setup.backend s.view s'.view := by
  obtain ⟨template, buffer, pass, result, t, files, hbuffer, hexpand, rfl⟩ := run_ok h
  obtain ⟨hidle', hrun⟩ := expandToBuffer_idle hsetup hidle (hbuffer hbare) hexpand hplain
  exact ⟨⟨⟨hidle'.ready.ids, hidle'.ready.equipped, hidle'.ready.tidy⟩, hidle'.waiting⟩, hrun⟩

theorem runAll_idle {requests : List Request} (hbare : ∀ r ∈ requests, r.Bare) {s s' : State}
    (hidle : s.Idle setup) (h : runAll setup requests s = .ok () s')
    (hplain : s'.journal.PlainPatterns setup.backend) :
    s'.Idle setup ∧ View.Run setup.backend s.view s'.view := by
  induction requests generalizing s with
  | nil =>
      cases h
      exact ⟨hidle, .refl⟩
  | cons r requests ih =>
      obtain ⟨_, t, hfirst, hrest⟩ := bind_ok h
      have hgrows := Grows.of_ok (.forM (fun r : Request => r.keeps_run) requests) hrest
      obtain ⟨hidle', hrun⟩ := run_idle hsetup (hbare r List.mem_cons_self) hidle hfirst
        (hplain.of_suffix hgrows)
      obtain ⟨hidle'', hrun'⟩ := ih (fun r' hr' => hbare r' (List.mem_cons_of_mem _ hr')) hidle'
        hrest
      exact ⟨hidle'', hrun.trans hrun'⟩

end Request

namespace View

/-- What is true of the pages of every run. -/
structure Consistent (b : Backend) (v : View) : Prop where
  numbered : v.Numbered
  laid : v.Laid b
  owned : v.Owned b
  ordered : v.Ordered b

theorem Step.consistent {b : Backend} {v v' : View} (h : Step b v v') (hv : v.Consistent b) :
    v'.Consistent b where
  numbered := h.numbered hv.numbered
  laid := h.laid hv.numbered hv.laid
  owned := h.owned hv.numbered hv.owned
  ordered := h.ordered hv.numbered hv.owned hv.ordered

theorem consistent_of_empty {b : Backend} {t : Temporaries} (ht : t.Sound) :
    Consistent b ⟨t, [], 0, []⟩ where
  numbered := ⟨List.nodup_nil, fun f hf => (nomatch hf), fun e he => (nomatch he)⟩
  laid := ⟨fun f hf => (nomatch hf), fun id hlt => absurd hlt (Nat.not_lt_zero id)⟩
  owned := by
    refine ⟨ht, ?_, ?_, ?_, ?_⟩ <;>
      simp [settled, waitingNames, heldNames, Journal.page, Page.declared, Page.lines]
  ordered := ⟨fun f hf => (nomatch hf), fun id hlt => absurd hlt (Nat.not_lt_zero id)⟩

end View

/-! ### Declarations -/

namespace Request

open ExpandM

/-- When all requests are done, no template is being expanded and the pages are consistent. -/
theorem consistent_runAll {setup : Setup} (hsetup : setup.Plain) {requests : List Request}
    (hbare : ∀ r ∈ requests, r.Bare) {files : FileTree} {s : State}
    (h : runAll setup requests (.initial setup files) = .ok () s)
    (hplain : s.journal.PlainPatterns setup.backend) :
    s.Idle setup ∧ s.view.Consistent setup.backend := by
  have hinitial := State.idle_initial hsetup files
  obtain ⟨hidle, hrun⟩ := runAll_idle hsetup hbare hinitial h hplain
  refine ⟨hidle, View.Run.keeps View.Step.consistent hrun ?_⟩
  exact View.consistent_of_empty hinitial.ready.tidy.sound

/-- Every frame is closed with the lines of its page. A temporary whose name a rule returned while
the frame was on top is declared by one line of that page and by no line of another, and the page
declares nothing but such temporaries and what they need. -/
theorem declared_once {setup : Setup} (hsetup : setup.Plain) {requests : List Request}
    (hbare : ∀ r ∈ requests, r.Bare) {files : FileTree} {s : State}
    (h : runAll setup requests (.initial setup files) = .ok () s)
    (hplain : s.journal.PlainPatterns setup.backend) {id : Nat} (hid : id < s.stack.nextId) :
    View.ClosedAs setup.backend s.journal id ∧
      (∀ x ∈ (s.journal.page setup.backend id).returned,
        (s.journal.page setup.backend id).declared.count x.name = 1 ∧
          ∀ other, other ≠ id → x.name ∉ (s.journal.page setup.backend other).declared) ∧
      ∀ name ∈ (s.journal.page setup.backend id).declared,
        ∃ x ∈ (s.journal.page setup.backend id).returned, ∃ y, x.Needs y ∧ y.name = name := by
  obtain ⟨hidle, hv⟩ := consistent_runAll hsetup hbare h hplain
  have hsettled : ∀ id, s.view.settled setup.backend id =
      (s.journal.page setup.backend id).declared := by
    intro id
    rw [View.settled, View.heldNames, hidle.frames_view, List.flatMap_nil, List.append_nil]
    rfl
  have howes : ∀ name, name ∈ (s.journal.page setup.backend id).declared ↔
      ∃ x ∈ (s.journal.page setup.backend id).returned, ∃ y, x.Needs y ∧ y.name = name := by
    intro name
    have howes := hv.owned.owes_iff id name
    rw [hsettled, View.waitingNames_eq_nil _ hidle.waiting] at howes
    simpa [State.view] using howes
  refine ⟨hv.laid.finished id hid (by simp [hidle.frames_view]), ?_, ?_⟩
  · intro x hx
    have hmem := (howes x.name).2 ⟨x, hx, x, .refl x, rfl⟩
    refine ⟨List.count_eq_one_of_mem (hsettled id ▸ hv.owned.nodup id) hmem, ?_⟩
    intro other hne hother
    rw [← hsettled] at hmem hother
    exact hv.owned.disjoint other id hne hother hmem
  · exact fun name hname => (howes name).1 hname

/-- Two templates, and a scalar that is the square of a sum. -/
def squareSetup (outer inner : String) : Setup where
  settings := {}
  backend := .cpp
  model :=
    let sum : Expr := .sum [.var "x", .var "y"]
    { name := "square", tensors := ⟨[("V", .scalar (some (.product [sum, sum])))]⟩ }
  source := .memory ⟨[("outer", outer), ("inner", inner)]⟩

theorem plain_squareSetup (outer inner : String) : (squareSetup outer inner).Plain where
  packages := rfl
  exprKernel := show isIdentifier "__cse" = true by decide
  lambdaKernel := show isIdentifier "__lambda" = true by decide
  kernel_ne := show "__cse" ≠ "__lambda" by decide
  tensors := by
    intro entry hentry values e he
    cases List.mem_singleton.1 hentry
    cases he
    have hvars : ∀ c ∈ [Expr.var "x", Expr.var "y"], c.Clean := by
      intro c hc
      rcases List.mem_pair.1 hc with rfl | rfl <;> exact .var (by decide)
    refine .node (fun f hf => nomatch hf) ?_
    intro c hc
    rcases List.mem_pair.1 hc with rfl | rfl <;> exact .node (fun f hf => nomatch hf) hvars

/-- A name that is returned ahead of an import waits for the boundary behind it, and the imported
template declares a name of its own. -/
theorem declared_once_import :
    let setup := squareSetup "cpp 0.1\n$V\n$IMPORT\x7binner\x7d\n$TEMP_POOL\x7b$1=$2\x7d\n"
      "cpp 0.1\n$V\n"
    ∃ s, runAll setup [.text "outer" .core] (.initial setup {}) = .ok () s ∧
      ∃ x ∈ (s.journal.page .cpp 0).returned, x.name = "__cse_0_0" ∧
        (s.journal.page .cpp 0).declared.count "__cse_0_0" = 1 ∧
          "__cse_0_0" ∉ (s.journal.page .cpp 1).declared := by
  intro setup
  obtain ⟨s, hok, hplain, hid, hreturned⟩ := exists_of_succeeds
    (x := runAll setup [.text "outer" .core]) (s := .initial setup {})
    (p := fun s => s.journal.PlainPatterns .cpp ∧ 0 < s.stack.nextId ∧
      "__cse_0_0" ∈ (s.journal.page .cpp 0).returned.map Temporary.name) (by decide +kernel)
  obtain ⟨x, hx, hname⟩ := List.mem_map.1 hreturned
  obtain ⟨_, honce, _⟩ := declared_once (plain_squareSetup _ _) (by simp [Bare]) hok hplain hid
  obtain ⟨hcount, hother⟩ := honce x hx
  rw [hname] at hcount hother
  exact ⟨s, hok, x, hx, hname, hcount, hother 1 (by decide)⟩

/-- Every frame is closed with the lines of its page. If a line of it was written at a boundary of
the frame, or the frame never set one, then all that is needed by the names that rules had returned
is declared in front of the line. -/
theorem declared_in_front {setup : Setup} (hsetup : setup.Plain) {requests : List Request}
    (hbare : ∀ r ∈ requests, r.Bare) {files : FileTree} {s : State}
    (h : runAll setup requests (.initial setup files) = .ok () s)
    (hplain : s.journal.PlainPatterns setup.backend) {id : Nat} (hid : id < s.stack.nextId) :
    View.ClosedAs setup.backend s.journal id ∧
      ∀ front returned covered text rest,
        (s.journal.page setup.backend id).lines = front ++
          (.written returned covered, text) :: rest →
        covered = true ∨ (s.journal.page setup.backend id).bounded = false →
        ∀ x ∈ returned, ∀ y, x.Needs y → y.name ∈ front.filterMap (·.1.declares?) := by
  obtain ⟨hidle, hv⟩ := consistent_runAll hsetup hbare h hplain
  have hfinished : ∀ f ∈ s.view.frames, f.id ≠ id := by simp [hidle.frames_view]
  refine ⟨hv.laid.finished id hid hfinished, ?_⟩
  intro front returned covered text rest hlines hcovered x hx y hneeds
  have horder : View.PageInOrder setup.backend s.journal id := hv.ordered.finished id hid hfinished
  refine InOrder.of_split horder (by rw [List.reverse_reverse, hlines]) ?_ hx hneeds
  simpa using hcovered

/-- The last line of a template with a boundary at its start, after the declaration of the name in
it. -/
theorem declared_in_front_boundary :
    let setup := squareSetup "cpp 0.1\n$TEMP_POOL\x7b$1=$2\x7d\n$V\n" ""
    ∃ s front returned text, runAll setup [.text "outer" .core] (.initial setup {}) = .ok () s ∧
      (s.journal.page .cpp 0).lines = front ++ [(.written returned true, text)] ∧
        (∃ x ∈ returned, x.name = "__cse_0_0") ∧ "__cse_0_0" ∈ front.filterMap (·.1.declares?) := by
  intro setup
  obtain ⟨s, hok, hplain, hid, hlast⟩ := exists_of_succeeds
    (x := runAll setup [.text "outer" .core]) (s := .initial setup {})
    (p := fun s => s.journal.PlainPatterns .cpp ∧ 0 < s.stack.nextId ∧
      ((s.journal.page .cpp 0).lines.getLast?.map fun row =>
        match row.1 with
        | .written returned covered => covered && returned.any (·.name = "__cse_0_0")
        | .given | .merged | .declared _ => false) = some true) (by decide +kernel)
  obtain ⟨⟨origin, text⟩, hrow, htest⟩ := Option.map_eq_some_iff.1 hlast
  have hlines := (List.dropLast_append_getLast? _ hrow).symm
  obtain ⟨_, hfront⟩ := declared_in_front (plain_squareSetup _ _) (by simp [Bare]) hok hplain hid
  cases origin with
  | written returned covered =>
      obtain ⟨rfl, x, hx, hname⟩ : covered = true ∧ ∃ x ∈ returned, x.name = "__cse_0_0" := by
        simpa using htest
      have hmem := hfront _ _ _ _ _ hlines (Or.inl rfl) x hx x (.refl x)
      exact ⟨s, _, returned, text, hok, hlines, ⟨x, hx, hname⟩, hname ▸ hmem⟩
  | _ => cases htest

end Request

end TensorTemplate
