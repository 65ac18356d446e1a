import TensorTemplate.Proofs.Expansion.Mirror

/-!
Importing a template and embedding it.

Up to the start of the template, both do the same; from then on, the template is
expanded inside one more embedding. So the lines that an import adds, escaped and
between delimiters, are the lines that embedding adds, except for those that were
inside an embedding already: these get the delimiters only, and are not escaped again.
-/

namespace TensorTemplate

open ExpandM

/-- The lines of a nested template, if these were put at the end. -/
def FrameEvent.merged? : FrameEvent → Option (List String)
  | .merged lines => some lines
  | _ => none

theorem State.not_decorated {j : Journal} {s : State}
    (h : s.journal.any (·.2.isDecorated) = false) : ¬ s.Decorated j := by
  rintro ⟨new, hnew, hdecorated⟩
  rw [hnew, List.any_append, hdecorated, Bool.true_or] at h
  cases h

/-- The frame with this number is on top, and what was last put at its end are these lines. -/
structure State.Appended (id : Nat) (fs : List Frame) (before new : List String) (s : State) :
    Prop where
  top : ∃ f, s.stack.frames = f :: fs ∧ f.id = id ∧ f.buffer.lines = before ++ new
  event : s.journal.head? = some (id, .merged new)

namespace ExpandM

variable {setup : Setup} {re : Reentry}

/-- The lines of a nested template stand behind those that the frame has when its handlers have
run. -/
theorem appended_merge {u : State} {g : Frame} {gs : List Frame} {child buffer : Buffer}
    (hg : u.stack.frames = g :: gs) (hmerge : g.buffer.merge child = .ok buffer) :
    ((u.withTop { g with buffer }).record g.id (.merged child.lines)).Appended g.id gs
      g.buffer.lines child.lines where
  top := ⟨_, frames_withTop hg _, rfl, Buffer.lines_append hmerge⟩
  event := rfl

/-- On a frame whose lines are neither decorated nor filtered, a template that can be imported can
be embedded as well. -/
theorem expandNested_embeds (hpackages : setup.packages = []) (hgrows : re.Grows)
    (hbalances : re.Balances setup) (hre : re.Mirrored setup) {s s₁ : State} {f : Frame}
    {fs : List Frame} (hframes : s.stack.frames = f :: fs) (hlocal : f.Local setup)
    (hdecorations : f.buffer.style.decorations = []) (hfilter : f.buffer.style.filter = none)
    {template : String} {count : Nat}
    (h : expandNested setup re template .verbatim s = .ok count s₁) :
    ∃ s₂ before lines lines',
      expandNested setup re template (.stringLiteral setup.backend) s = .ok count s₂ ∧
      s₁.Matches s₂ ∧ s₁.Appended f.id fs before lines ∧ s₂.Appended f.id fs before lines' ∧
      setup.backend.Deeper (s₁.Decorated s.journal) lines lines' := by
  obtain ⟨t, hsuspend, -, hrest⟩ := expandNested_ok hgrows hframes h
  -- up to the start of the template, both are the same
  obtain ⟨g, hg, hlasts⟩ : t.OnTop f fs := by
    have hafter := ((balances_suspend hbalances hlocal).ends hframes rfl hlocal).after
    rwa [stateAfter, hsuspend] at hafter
  have hbase : s.journal <:+ t.journal :=
    Grows.of_ok (.forM (fun _ => keeps_handle hgrows .suspend _) _) hsuspend
  have hstyle : g.buffer.style = setup.backend.literalStyle f.buffer.style.skipBlank 0 :=
    hlasts.style.trans (setup.backend.literalStyle_zero hdecorations hfilter)
  obtain ⟨child, u, v, hchild, hmerge, hrecord⟩ := hrest hg
  rw [NestedOptions.child_verbatim hstyle] at hchild
  obtain ⟨child', u', hchild', hmatches, hu, hu', hlines⟩ :=
    expandTemplate_mirrors hpackages hgrows hre (.refl t) hbase hchild
  rw [← NestedOptions.child_stringLiteral hstyle] at hchild'
  obtain ⟨buffer, hbuffer, rfl⟩ := onTopBuffer_ok (hu.trans hg) hmerge
  cases recordOnTop_ok (frames_withTop (hu.trans hg) _) hrecord
  obtain ⟨hopen, -⟩ := Buffer.append_eq_ok_iff.1 hbuffer
  have hbuffer' : g.buffer.merge child' = .ok _ := Buffer.append_eq_ok_iff.2 ⟨hopen, rfl⟩
  have hlines' : setup.backend.Deeper
      (((u.withTop { g with buffer }).record g.id (.merged child.lines)).Decorated s.journal)
      child.lines child'.lines :=
    hlines.lines.mono fun hD => hD.of_suffix (List.suffix_cons _ _)
  rw [← hlasts.id]
  exact ⟨_, _, _, _, expandNested_eq hframes hsuspend hg hchild' (hu'.trans hg) hbuffer',
    (hmatches.withTop _ _).record _ _ _ _, appended_merge (hu.trans hg) hbuffer,
    appended_merge (hu'.trans hg) hbuffer', hlines'⟩

/-- If a template is imported into a frame whose lines are neither decorated nor filtered, then it
can be embedded there instead, and all but the lines comes out the same. The lines that are put at
the end of the frame are those of the import inside one more embedding each. They are the imported
lines, escaped and between delimiters, exactly if no line is inside an embedding already; this is so
if no template was embedded on the way. -/
theorem embedString_of_import (hpackages : setup.packages = []) (depth : Nat) {s s₁ : State}
    {f : Frame} {fs : List Frame} (hframes : s.stack.frames = f :: fs) (hlocal : f.Local setup)
    (hdecorations : f.buffer.style.decorations = []) (hfilter : f.buffer.style.filter = none)
    {template text : String}
    (himport : evaluate setup (reentry setup depth) "IMPORT" .importTemplate [template] [] s =
      .ok text s₁) :
    ∃ s₂ before, ∃ rows : List (Nat × String),
      evaluate setup (reentry setup depth) "EMBED_STRING" .embedString [template] [] s =
        .ok text s₂ ∧
      s₁.Matches s₂ ∧
      let imported := rows.map fun row => setup.backend.embedded row.1 row.2
      let embedded := rows.map fun row => setup.backend.embedded (row.1 + 1) row.2
      s₁.Appended f.id fs before imported ∧ s₂.Appended f.id fs before embedded ∧
      (embedded = imported.map (fun line => setup.backend.enclose (setup.backend.escape line)) ↔
        ∀ row ∈ rows, row.1 = 0) ∧
      (¬ s₁.Decorated s.journal → ∀ row ∈ rows, row.1 = 0) := by
  obtain ⟨count, u, hnested, hpure⟩ := bind_ok himport
  cases hpure
  cases depth with
  | zero => cases hnested
  | succ depth =>
      obtain ⟨s₂, before, lines, lines', hembed, hmatches, hlines, hlines', hdeeper⟩ :=
        expandNested_embeds hpackages (keeps_reentry setup depth)
          (balances_reentry hpackages depth) (mirrored_reentry hpackages depth) hframes hlocal
          hdecorations hfilter hnested
      obtain ⟨rows, hlevels, rfl, rfl⟩ := hdeeper
      refine ⟨s₂, before, rows, bind_eq hembed, hmatches, hlines, hlines',
        setup.backend.map_embedded_succ_eq_iff rows, ?_⟩
      intro hplain row hrow
      exact (hlevels row hrow).resolve_right hplain

/-- The lines of a template with a boundary and an import, and the literals that embedding makes of
them. -/
theorem embedString_of_import_boundary :
    let setup := Request.squareSetup
      "cpp 0.1\n$TEMP_POOL\x7b$1=$2\x7d\n$V \"q\"\n$IMPORT\x7binner\x7d\n" "cpp 0.1\n\tx\n"
    let main : Frame :=
      { id := 0, buffer := { behind := ["first"] }, pass := .core, template := "main" }
    let s := ((State.initial setup {}).opened main.buffer .core "main").withTop (main.equip setup)
    let imported :=
      ["__cse_0_0=x + y", "// temporary pool 1", "__cse_0_0*__cse_0_0 \"q\"", "\tx"]
    ∃ s₁ s₂,
      evaluate setup (reentry setup 3) "IMPORT" .importTemplate ["outer"] [] s = .ok "" s₁ ∧
      evaluate setup (reentry setup 3) "EMBED_STRING" .embedString ["outer"] [] s = .ok "" s₂ ∧
      s₁.Appended 0 [] ["first"] imported ∧
      s₂.Appended 0 [] ["first"]
        (imported.map fun line => setup.backend.enclose (setup.backend.escape line)) := by
  intro setup main s imported
  have hframes : s.stack.frames = [main.equip setup] := rfl
  have hlocal := main.isLocal_equip setup (by simp [main])
  obtain ⟨text, s₁, himport, htop, hevent, hplain⟩ := exists_ok_of_succeeds
    (x := evaluate setup (reentry setup 3) "IMPORT" .importTemplate ["outer"] []) (s := s)
    (p := fun t => t.stack.frames.map (·.buffer.lines) = ["first" :: imported] ∧
      t.journal.head?.map (·.2.merged?) = some (some imported) ∧
      t.journal.any (·.2.isDecorated) = false) (by decide +kernel)
  obtain ⟨s₂, before, rows, hembed, -, himported, hembedded, hliterals, hlevels⟩ :=
    embedString_of_import rfl 3 hframes hlocal rfl rfl himport
  obtain ⟨_, _, _, hpure⟩ := bind_ok himport
  cases hpure
  -- the event tells the new lines from those that were there
  have hnew : rows.map (fun row => setup.backend.embedded row.1 row.2) = imported := by
    rw [himported.event] at hevent
    simpa [FrameEvent.merged?] using hevent
  have hbefore : before = ["first"] := by
    obtain ⟨g, hg, -, hlines⟩ := himported.top
    rw [hg, List.map_singleton, hlines, hnew] at htop
    exact List.append_cancel_right (List.singleton_inj.1 htop)
  have hall := hliterals.2 (hlevels (State.not_decorated hplain))
  subst hbefore
  refine ⟨_, s₂, himport, hembed, ?_, ?_⟩
  · rw [← hnew]
    exact himported
  · rw [← hnew, ← hall]
    exact hembedded

/-- A template that embeds another one is embedded: the line of the inner one is enclosed once more,
but the delimiters that it has already are not escaped. -/
theorem embedString_twice :
    let setup := Request.squareSetup "cpp 0.1\n$EMBED_STRING\x7binner\x7d\n" "cpp 0.1\nx\n"
    let main : Frame := { id := 0, buffer := {}, pass := .core, template := "main" }
    let s := ((State.initial setup {}).opened main.buffer .core "main").withTop (main.equip setup)
    let imported := ["\"x\\n\""]
    let embedded := ["\"\"x\\n\"\\n\""]
    (∃ s₁, evaluate setup (reentry setup 3) "IMPORT" .importTemplate ["outer"] [] s = .ok "" s₁ ∧
      s₁.stack.frames.map (·.buffer.lines) = [imported]) ∧
    (∃ s₂, evaluate setup (reentry setup 3) "EMBED_STRING" .embedString ["outer"] [] s = .ok "" s₂ ∧
      s₂.stack.frames.map (·.buffer.lines) = [embedded]) ∧
    imported.map (fun line => setup.backend.enclose (setup.backend.escape line)) =
      ["\"\\\"x\\\\n\\\"\\n\""] ∧
    embedded ≠ ["\"\\\"x\\\\n\\\"\\n\""] := by
  intro setup main s imported embedded
  refine ⟨?_, ?_, by decide +kernel, by decide +kernel⟩
  · obtain ⟨text, s₁, himport, htop⟩ := exists_ok_of_succeeds
      (x := evaluate setup (reentry setup 3) "IMPORT" .importTemplate ["outer"] []) (s := s)
      (p := fun t => t.stack.frames.map (·.buffer.lines) = [imported]) (by decide +kernel)
    obtain ⟨_, _, _, hpure⟩ := bind_ok himport
    cases hpure
    exact ⟨_, himport, htop⟩
  · obtain ⟨text, s₂, hembed, htop⟩ := exists_ok_of_succeeds
      (x := evaluate setup (reentry setup 3) "EMBED_STRING" .embedString ["outer"] []) (s := s)
      (p := fun t => t.stack.frames.map (·.buffer.lines) = [embedded]) (by decide +kernel)
    obtain ⟨_, _, _, hpure⟩ := bind_ok hembed
    cases hpure
    exact ⟨_, hembed, htop⟩

end ExpandM

end TensorTemplate
