import TensorTemplate.Proofs.Expansion.Session
import TensorTemplate.Proofs.Header

/-!
The gate in front of a template.

A template that is there is expanded if its first line fits, and only then: a frame is
opened for it. Otherwise the complaint about that line is all that comes of it, and the
state is what it was.
-/

namespace TensorTemplate

namespace ExpandM

theorem grows_attempt {α : Type} {x : ExpandM α} (hx : Grows x) : Grows (attempt x) := by
  intro s
  obtain ⟨outcome, hattempt⟩ := attempt_eq x s
  rw [stateAfter, hattempt]
  exact hx s

theorem grows_popFrame : Grows popFrame := by
  intro s
  rw [stateAfter, popFrame_eq]
  cases s.stack.pop <;> exact List.suffix_refl s.journal

section Gate

variable {setup : Setup} {re : Reentry} {template text line body : String} {buffer : Buffer}
  {pass : Pass} {s : State} (hload : setup.source.load s.files template = .ok text)
  (hcut : Header.Cut text line body)

include hload hcut

/-- Behind the gate, the body runs on a frame of its own, which is popped in any case. -/
theorem expandTemplate_of_fits
    (hfits : Header.Fits setup.settings.backend setup.settings.version line) :
    expandTemplate setup re template buffer pass s =
      (do
        let outcome ← attempt
          (runFrame setup re s.stack.nextId pass template (Text.lines body))
        let popped ← popFrame
        let count ← ofExcept outcome
        record s.stack.nextId (.closed popped.buffer)
        pure (popped.buffer, count)) (s.opened buffer pass template) := by
  obtain ⟨header, hsplit, hvalid⟩ := Header.exists_of_fits template hcut hfits
  rw [expandTemplate, get_bind]
  refine (bind_eq (ofExcept_eq hload)).trans ((bind_eq (ofExcept_eq hsplit)).trans ?_)
  exact (bind_eq (ofExcept_eq hvalid)).trans (bind_eq rfl)

/-- A template whose first line fits gets a frame, whatever comes of it then. -/
theorem opened_of_fits (hre : re.Grows)
    (hfits : Header.Fits setup.settings.backend setup.settings.version line) :
    (s.stack.nextId, .opened buffer) :: s.journal <:+
      (stateAfter (expandTemplate setup re template buffer pass) s).journal := by
  have hrest : Grows (do
      let outcome ← attempt (runFrame setup re s.stack.nextId pass template (Text.lines body))
      let popped ← popFrame
      let count ← ofExcept outcome
      record s.stack.nextId (.closed popped.buffer)
      pure (popped.buffer, count)) :=
    .bind (grows_attempt (keeps_runFrame hre setup _ pass template _)) fun _ =>
      .bind grows_popFrame fun _ => .bind (.ofExcept _) fun _ =>
        .bind (keeps_record _ _ rfl) fun _ => .pure _
  rw [stateAfter, expandTemplate_of_fits hload hcut hfits]
  exact hrest (s.opened buffer pass template)

/-- A complaint about the first line is all that comes of the template. -/
theorem expandTemplate_of_rejects {e : Error}
    (h : Header.Rejects template setup.settings.backend setup.settings.version line e) :
    expandTemplate setup re template buffer pass s = .error e s := by
  rw [expandTemplate, get_bind]
  refine (bind_eq (ofExcept_eq hload)).trans ?_
  rcases h.error hcut with hsplit | ⟨header, hsplit, hvalid⟩
  · rw [hsplit]
    rfl
  · refine (bind_eq (ofExcept_eq hsplit)).trans ?_
    dsimp only
    rw [hvalid]
    rfl

end Gate

end ExpandM

open ExpandM

/-- A template gets past its first line if and only if that line fits: two words, the backend in use
and a version that is not beyond the one in use. Otherwise there is a complaint about the line, and
it is all that comes of the call: nothing has changed. What is written for a version is read as that
version. -/
theorem Setup.gate_exact (setup : Setup) (buffer : Buffer) (pass : Pass) {s : State}
    {template text line body : String} (hload : setup.source.load s.files template = .ok text)
    (hcut : Header.Cut text line body) :
    let call := setup.expandToBuffer template buffer pass
    let Fits := Header.Fits setup.settings.backend setup.settings.version line
    let Rejects := Header.Rejects template setup.settings.backend setup.settings.version line
    ((s.stack.nextId, .opened buffer) :: s.journal <:+ (stateAfter call s).journal ↔ Fits) ∧
      (¬Fits → ∃ e, Rejects e) ∧ (∀ e, call s = .error e s ↔ Rejects e) ∧
      ∀ v : Version, v.major < 4294967296 → v.minor < 4294967296 → v.patch < 4294967296 →
        Version.parse v.render = .ok v := by
  intro call Fits Rejects
  have hcall : call s =
      expandTemplate setup (reentry setup (setup.depthLimit s.files)) template buffer pass s :=
    setup.expandToBuffer_eq template buffer pass s
  have hpast : Fits → (s.stack.nextId, .opened buffer) :: s.journal <:+
      (stateAfter call s).journal := by
    intro hfits
    rw [stateAfter, hcall]
    exact opened_of_fits hload hcut (keeps_reentry setup _) hfits
  have hrejects : ∀ {e}, Rejects e → call s = .error e s := by
    intro e h
    rw [hcall]
    exact expandTemplate_of_rejects hload hcut h
  -- an unchanged journal shows no frame opened
  have hstays : ∀ {e}, call s = .error e s →
      ¬(s.stack.nextId, .opened buffer) :: s.journal <:+ (stateAfter call s).journal := by
    intro e h hsuffix
    rw [stateAfter, h] at hsuffix
    exact Nat.not_succ_le_self _ hsuffix.length_le
  refine ⟨⟨fun hopened => ?_, hpast⟩, Header.exists_rejects template, fun e => ⟨fun h => ?_,
    hrejects⟩, fun v => Version.parse_render⟩
  · by_contra hfits
    obtain ⟨e, he⟩ := Header.exists_rejects template hfits
    exact hstays (hrejects he) hopened
  · have hfits : ¬Fits := fun hfits => hstays h (hpast hfits)
    obtain ⟨e', he'⟩ := Header.exists_rejects template hfits
    cases h.symm.trans (hrejects he')
    exact he'

/-- Blanks around a header and a plus sign in it are let through; a number of 33 bits is not. -/
theorem Setup.gate_exact_bounds :
    let setup := Request.squareSetup " cpp\t+0.1\nx" "cpp 0.4294967296\n"
    let s : State := .initial setup {}
    (0, .opened {}) :: s.journal <:+
        (stateAfter (setup.expandToBuffer "outer" {} .core) s).journal ∧
      setup.expandToBuffer "inner" {} .core s =
        .error (.malformedHeader "inner" "cpp 0.4294967296") s ∧
      Version.parse (Version.render ⟨4294967295, 0, 7⟩) = .ok ⟨4294967295, 0, 7⟩ := by
  intro setup s
  have houter : setup.source.load s.files "outer" = .ok " cpp\t+0.1\nx" := rfl
  have hinner : setup.source.load s.files "inner" = .ok "cpp 0.4294967296\n" := rfl
  have hcut : Header.Cut " cpp\t+0.1\nx" " cpp\t+0.1" "x" := ⟨by decide, Or.inr rfl⟩
  have hcut' : Header.Cut "cpp 0.4294967296\n" "cpp 0.4294967296" "" := ⟨by decide, Or.inr rfl⟩
  obtain ⟨hopened, -, -, hversions⟩ := setup.gate_exact {} .core houter hcut
  obtain ⟨-, -, hrejects, -⟩ := setup.gate_exact {} .core hinner hcut'
  have hasks : Header.Asks " cpp\t+0.1" "cpp" ⟨0, 1, 0⟩ :=
    Header.ofLine?_eq_some_iff.1 (show _ = some ⟨"cpp", ⟨0, 1, 0⟩⟩ by decide +kernel)
  have hnone : Header.ofLine? "cpp 0.4294967296" = none := by decide +kernel
  refine ⟨hopened.2 ⟨_, hasks, le_refl _⟩, (hrejects _).2 (.malformed fun found v h => ?_),
    hversions _ (by decide) (by decide) (by decide)⟩
  cases hnone.symm.trans ((Header.ofLine?_eq_some_iff (h := ⟨found, v⟩)).2 h)

end TensorTemplate
