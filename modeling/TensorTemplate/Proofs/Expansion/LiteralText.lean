import TensorTemplate.Proofs.Expansion.Account
import TensorTemplate.Proofs.Expansion.Gate
import TensorTemplate.Proofs.WrittenLine

/-!
Literal text goes through unchanged.

A template whose lines hold no calls is expanded to what these lines show: nothing is
replaced, nothing is declared, and the caches stay as they were. Every text is the
expansion of such a template, whose body is the text with every dollar sign doubled.
-/

namespace TensorTemplate

open ExpandM

/-! ### Doubled dollar signs -/

namespace Text

/-- The text with every dollar sign doubled. -/
def doubled (s : String) : String := String.ofList (Segment.doubled s.toList)

theorem doubled_append (s t : String) : doubled (s ++ t) = doubled s ++ doubled t := by
  simp [doubled, Segment.doubled]

theorem doubled_unlines (ts : List String) : doubled (unlines ts) = unlines (ts.map doubled) := by
  induction ts with
  | nil => rfl
  | cons t ts ih =>
      have hcons : ∀ (u : String) us, unlines (u :: us) = u ++ "\n" ++ unlines us := by
        simp [unlines, String.append_assoc]
      rw [List.map_cons, hcons, hcons, doubled_append, doubled_append, ih]
      rfl

theorem mem_doubled_iff {c : Char} {s : String} : c ∈ (doubled s).toList ↔ c ∈ s.toList := by
  simp only [doubled, Segment.doubled, String.toList_ofList, List.mem_flatMap]
  constructor
  · rintro ⟨d, hd, hc⟩
    split at hc <;> simp_all
  · intro hc
    exact ⟨c, hc, by split <;> simp_all⟩

theorem doubled_eq_empty_iff {s : String} : doubled s = "" ↔ s = "" := by
  simp only [← String.toList_eq_nil_iff, List.eq_nil_iff_forall_not_mem, mem_doubled_iff]

theorem dropReturn_of_notMem {s : String} (h : '\r' ∉ s.toList) : dropReturn s = s := by
  rcases dropReturn_cases s with heq | heq
  · exact heq
  · exact absurd (heq ▸ List.mem_append_right _ List.mem_cons_self) h

theorem mem_unlines {ts : List String} {t : String} (ht : t ∈ ts) {c : Char} (hc : c ∈ t.toList) :
    c ∈ (unlines ts).toList := by
  simp only [unlines, String.toList_join, List.mem_flatMap, List.mem_map]
  exact ⟨t ++ "\n", ⟨t, ht, rfl⟩, by simp [hc]⟩

/-- The lines of a text without carriage returns are cut as they are. -/
theorem lines_of_notMem {ts : List String} (hts : ∀ t ∈ ts, '\n' ∉ t.toList) {last : String}
    (hlast : '\n' ∉ last.toList) (hreturn : '\r' ∉ (unlines ts ++ last).toList) :
    lines (unlines ts ++ last) = ts ++ dropFinalEmpty [last] := by
  have hkeep : ∀ t ∈ ts, dropReturn t = t := by
    intro t ht
    refine dropReturn_of_notMem fun hmem => hreturn ?_
    rw [String.toList_append]
    exact List.mem_append_left _ (mem_unlines ht hmem)
  rw [lines_unlines_append hts hlast, List.map_congr_left hkeep, List.map_id']

/-- To double the dollar signs of a text is to double those of its lines. -/
theorem lines_doubled {s : String} (hreturn : '\r' ∉ s.toList) :
    lines (doubled s) = (lines s).map doubled := by
  obtain ⟨ts, last, hts, hlast, rfl⟩ := exists_unlines_append s
  have hjoin : doubled (unlines ts ++ last) = unlines (ts.map doubled) ++ doubled last := by
    rw [doubled_append, doubled_unlines]
  have hts' : ∀ t ∈ ts.map doubled, '\n' ∉ t.toList := by
    intro t ht
    obtain ⟨u, hu, rfl⟩ := List.mem_map.1 ht
    exact fun hmem => hts u hu (mem_doubled_iff.1 hmem)
  have hlast' : '\n' ∉ (doubled last).toList := fun hmem => hlast (mem_doubled_iff.1 hmem)
  have hreturn' : '\r' ∉ (unlines (ts.map doubled) ++ doubled last).toList := by
    rw [← hjoin]
    exact fun hmem => hreturn (mem_doubled_iff.1 hmem)
  have hfinal : dropFinalEmpty [doubled last] = (dropFinalEmpty [last]).map doubled := by
    by_cases hempty : last = ""
    · subst hempty
      rfl
    · simp [dropFinalEmpty, hempty, doubled_eq_empty_iff]
  rw [hjoin, lines_of_notMem hts' hlast' hreturn', lines_of_notMem hts hlast hreturn, hfinal,
    List.map_append]

/-- The lines of a text, joined again, are the text; a last line without a newline gets one. -/
theorem unlines_lines {s : String} (hreturn : '\r' ∉ s.toList) :
    unlines (lines s) = if s = "" ∨ s.toList.getLast? = some '\n' then s else s ++ "\n" := by
  obtain ⟨ts, last, hts, hlast, rfl⟩ := exists_unlines_append s
  rw [lines_of_notMem hts hlast hreturn]
  by_cases hempty : last = ""
  · subst hempty
    have hend : unlines ts ++ "" = "" ∨ (unlines ts ++ "").toList.getLast? = some '\n' := by
      rcases List.eq_nil_or_concat ts with rfl | ⟨front, t, rfl⟩
      · exact Or.inl rfl
      · exact Or.inr (by simp [unlines])
    rw [if_pos hend]
    simp [dropFinalEmpty]
  · have hend : ¬(unlines ts ++ last = "" ∨ (unlines ts ++ last).toList.getLast? = some '\n') := by
      rintro (h | h)
      · exact hempty (String.append_eq_empty_iff.1 h).2
      · have hchars : last.toList ≠ [] := by simpa using hempty
        rw [String.toList_append, List.getLast?_append_of_ne_nil _ hchars] at h
        exact hlast (List.mem_of_getLast? h)
    rw [if_neg hend]
    simp [dropFinalEmpty, hempty, unlines, String.append_assoc]

end Text

theorem Segment.plain?_doubled (line : String) :
    plain? (Text.doubled line).toList = some line.toList := by
  have hnil : tokens [] = .ok [] := by rw [tokens]
  have htokens := tokens_doubled line.toList hnil
  simp only [List.append_nil] at htokens
  simpa [Text.doubled] using plain?_of_tokens htokens

/-! ### Bodies without calls -/

/-- Between the states nothing is replaced or declared, and the caches stay as they are. -/
structure State.Inert (s t : State) : Prop where
  temporaries : t.temporaries = s.temporaries
  replacements : t.replacements = s.replacements
  hasDeposit : t.journal.hasDeposit = s.journal.hasDeposit

namespace State.Inert

variable {s t u : State}

protected theorem refl (s : State) : s.Inert s := ⟨rfl, rfl, rfl⟩

protected theorem trans (hst : s.Inert t) (htu : t.Inert u) : s.Inert u :=
  ⟨htu.temporaries.trans hst.temporaries, htu.replacements.trans hst.replacements,
    htu.hasDeposit.trans hst.hasDeposit⟩

theorem record (s : State) (id : Nat) {event : FrameEvent} (h : event.isDeposit = false) :
    s.Inert (s.record id event) :=
  ⟨rfl, rfl, by simp [Journal.hasDeposit, State.record, h]⟩

end State.Inert

/-- The frame with more lines at the end of its buffer. -/
def Frame.extended (f : Frame) (new : List String) : Frame :=
  { f with buffer := { f.buffer with behind := new.reverse ++ f.buffer.behind } }

namespace Frame

variable (f : Frame) (new : List String)

theorem id_extended : (f.extended new).id = f.id := rfl

theorem closed_extended : (f.extended new).buffer.closed = f.buffer.closed := rfl

theorem style_extended : (f.extended new).buffer.style = f.buffer.style := rfl

theorem extended_extended (more : List String) :
    (f.extended new).extended more = f.extended (new ++ more) := by
  simp [extended]

end Frame

/-- The lines that come of a body without calls. -/
def LineStyle.literal (style : LineStyle) (body : List String) : List String :=
  body.flatMap fun line => style.applyAll (Segment.expanded line)

namespace ExpandM

variable {setup : Setup} {re : Reentry} {s : State} {f : Frame} {fs : List Frame}

theorem writeLine_of_noCalls (hframes : s.stack.frames = f :: fs) (hopen : f.buffer.closed = false)
    {line : String} (h : Segment.NoCalls line) :
    writeLine setup re line s =
      .ok 0 ((s.withTop (f.extended (f.buffer.style.applyAll (Segment.expanded line)))).record f.id
        (.wrote (Segment.expanded line))) := by
  set out := Segment.expanded line
  set g := f.extended (f.buffer.style.applyAll out) with hg
  have hwrite : f.buffer.writeToEnd out = .ok g.buffer := Buffer.append_eq_ok_iff.2 ⟨hopen, rfl⟩
  have htop : onTopBuffer (·.writeToEnd out) s = .ok () (s.withTop g) :=
    onTopBuffer_eq hframes hwrite
  have hrecord : recordOnTop (.wrote out) (s.withTop g) =
      .ok () ((s.withTop g).record f.id (.wrote out)) := by
    rw [← f.id_extended (f.buffer.style.applyAll out), ← hg]
    exact congrArg (EStateM.Result.ok ()) (recordOnTop_eq (frames_withTop hframes g) _)
  have hlines : ([out].forM fun out => do
      onTopBuffer (·.writeToEnd out)
      recordOnTop (.wrote out)) s = .ok () ((s.withTop g).record f.id (.wrote out)) :=
    (bind_eq ((bind_eq htop).trans hrecord)).trans rfl
  rw [writeLine, bind_eq (expandLine_of_noCalls setup re h s)]
  exact (bind_eq hlines).trans rfl

section Bodies

variable (setup re) (template : String) (hframes : s.stack.frames = f :: fs)
  (hopen : f.buffer.closed = false) {body : List String} (h : ∀ line ∈ body, Segment.NoCalls line)

include hframes hopen h

/-- Lines without calls are written as they are, whatever their numbers. -/
theorem writeLines_of_noCalls (n : Nat) :
    ∃ t, ((body.zipIdx n).mapM fun (line, number) => do
        trackTop fun mark => { mark with begun := line :: mark.begun }
        within template number (writeLine setup re line)) s = .ok (body.map fun _ => 0) t ∧
      s.Inert t ∧ t.stack.frames = f.extended (f.buffer.style.literal body) :: fs := by
  induction body generalizing s f n with
  | nil => exact ⟨s, rfl, .refl s, hframes⟩
  | cons line body ih =>
      obtain ⟨hline, hbody⟩ := List.forall_mem_cons.1 h
      set marked := s.track (List.modifyHead fun mark => { mark with begun := line :: mark.begun })
      set new := f.buffer.style.applyAll (Segment.expanded line)
      set written := (marked.withTop (f.extended new)).record f.id (.wrote (Segment.expanded line))
      have hmarked : marked.stack.frames = f :: fs := hframes
      have htop : written.stack.frames = f.extended new :: fs := frames_withTop hmarked _
      have hwrite : within template n (writeLine setup re line) marked = .ok 0 written := by
        rw [within, writeLine_of_noCalls hmarked hopen hline]
      have hfirst : (do
          trackTop fun mark => { mark with begun := line :: mark.begun }
          within template n (writeLine setup re line)) s = .ok 0 written :=
        (bind_eq (show trackTop _ s = .ok () marked from rfl)).trans hwrite
      have hopen' : (f.extended new).buffer.closed = false := (f.closed_extended new).trans hopen
      obtain ⟨t, hrun, hinert, hframes'⟩ := ih htop hopen' hbody (n + 1)
      refine ⟨t, ?_, ?_, ?_⟩
      · rw [List.zipIdx_cons, List.mapM_cons, bind_eq hfirst, bind_eq hrun]
        rfl
      · have hstart : s.Inert (marked.withTop (f.extended new)) := ⟨rfl, rfl, rfl⟩
        exact (hstart.trans (.record _ _ rfl)).trans hinert
      · rw [hframes', Frame.extended_extended, Frame.style_extended]
        rfl

/-- A body without calls is written as it is. -/
theorem writeBody_of_noCalls :
    ∃ t, writeBody setup re template body s = .ok 0 t ∧ s.Inert t ∧
      t.stack.frames = f.extended (f.buffer.style.literal body) :: fs := by
  obtain ⟨t, hrun, hinert, hframes'⟩ := writeLines_of_noCalls setup re template hframes hopen h 2
  have hsum : (body.map fun _ => 0).foldl (· + ·) 0 = 0 := by
    rw [List.foldl_map]
    exact List.foldl_fixed _
  refine ⟨t, (bind_eq hrun).trans ?_, hinert, hframes'⟩
  rw [hsum]
  rfl

end Bodies

/-- Without a boundary and with nothing to declare, there is only a warning. -/
theorem ensureBoundary_of_idle (hframes : s.stack.frames = f :: fs) {pool : Pool}
    (hpool : f.pool = some pool) (hset : pool.isSet = false) (hheld : pool.held.isEmpty = true)
    (hpending : s.temporaries.isPending = false) :
    ∃ diagnostics, ensureBoundary f.id s = .ok () { s with diagnostics } := by
  refine ⟨s.diagnostics.warn (f.template ++ ": no $TEMP_POOL was set"), ?_⟩
  rw [ensureBoundary, bind_eq (poolOf_eq hframes hpool), hset]
  refine (bind_eq (frame_eq hframes)).trans ?_
  rw [get_bind, hheld, hpending]
  rfl

theorem dropHandler_eq (hframes : s.stack.frames = f :: fs) {pool : Pool}
    (hpool : f.pool = some pool) :
    ∃ g, dropHandler f.id s = .ok () (s.withTop g) ∧ g.buffer.lines = f.buffer.lines := by
  cases hhandler : pool.handler with
  | none =>
      refine ⟨f, ?_, rfl⟩
      rw [dropHandler, bind_eq (poolOf_eq hframes hpool), hhandler, withTop_self hframes]
      rfl
  | some handler =>
      set dropped : Frame := { f with pool := some { pool with handler := none } }
      refine ⟨{ dropped with buffer := f.buffer.deregister handler }, ?_, rfl⟩
      have hdropped := frames_withTop hframes dropped
      rw [dropHandler, bind_eq (poolOf_eq hframes hpool), hhandler]
      refine (bind_eq (setPool_eq hframes _)).trans ?_
      exact onBuffer_eq hdropped rfl

variable (re) in
/-- A buffer whose pool has nothing to declare is finished with its lines as they are. -/
theorem finishTop_of_idle (hframes : s.stack.frames = f :: fs)
    (hhandlers : f.buffer.handlers.map (·.2) = [.pool f.id]) {pool : Pool}
    (hpool : f.pool = some pool) (hset : pool.isSet = false) (hheld : pool.held.isEmpty = true)
    (hpending : s.temporaries.isPending = false) :
    ∃ t g, finishTop re s = .ok () t ∧ s.Inert t ∧ t.stack.frames = g :: fs ∧
      g.buffer.lines = f.buffer.lines := by
  set bare : Frame := { f with buffer := { f.buffer with handlers := [] } }
  have hbare : (s.withTop bare).stack.frames = bare :: fs := frames_withTop hframes bare
  obtain ⟨diagnostics, hensure⟩ := ensureBoundary_of_idle hbare hpool hset hheld hpending
  set warned : State := { s.withTop bare with diagnostics }
  have hwarned : warned.stack.frames = bare :: fs := hbare
  obtain ⟨g, hdrop, hlines⟩ := dropHandler_eq hwarned hpool
  have hretire : retirePool re f.id (s.withTop bare) = .ok () (warned.withTop g) :=
    (bind_eq hensure).trans ((bind_eq (deposit_of_unset hwarned hpool hset)).trans hdrop)
  have hclose : onTopBuffer (pure ·.close) (warned.withTop g) = _ :=
    onTopBuffer_eq (frames_withTop hwarned g) rfl
  refine ⟨_, { g with buffer := g.buffer.close }, ?_, ?_,
    frames_withTop (frames_withTop hwarned g) _, hlines⟩
  · rw [finishTop, bind_eq (topFrame_eq hframes)]
    simp only [Buffer.takeHandlers, hhandlers]
    refine (bind_eq (setFrame_eq hframes (by rfl))).trans ?_
    exact (bind_eq ((bind_eq hretire).trans rfl)).trans hclose
  · exact ⟨rfl, rfl, rfl⟩

variable (re) in
/-- A template without calls is expanded to what its lines show. -/
theorem expandTemplate_of_noCalls (hpackages : setup.packages = [])
    {template text line body : String} (hload : setup.source.load s.files template = .ok text)
    (hcut : Header.Cut text line body)
    (hfits : Header.Fits setup.settings.backend setup.settings.version line)
    (hcalls : ∀ line ∈ Text.lines body, Segment.NoCalls line)
    (hpending : s.temporaries.isPending = false) (buffer : Buffer) (hopen : buffer.closed = false)
    (hhandlers : buffer.handlers = []) (pass : Pass) :
    ∃ child t, expandTemplate setup re template buffer pass s = .ok (child, 0) t ∧ s.Inert t ∧
      child.lines = buffer.lines ++ buffer.style.literal (Text.lines body) := by
  obtain ⟨header, hsplit, hvalid⟩ := Header.exists_of_fits template hcut hfits
  set opened := s.opened buffer pass template
  let f : Frame := { id := s.stack.nextId, buffer, pass, template }
  have hf : opened.stack.frames = f :: s.stack.frames := rfl
  set start := (opened.withTop (f.equip setup)).track (⟨template, [], false⟩ :: ·)
  have hstart : start.stack.frames = f.equip setup :: s.stack.frames := frames_withTop hf _
  obtain ⟨t, hwrite, hinert, htop⟩ :=
    writeBody_of_noCalls setup (re.forLines f.id) template hstart hopen hcalls
  have hidle : t.temporaries.isPending = false := hinert.temporaries ▸ hpending
  obtain ⟨u, g, hfinish, hinert', hg, hlines⟩ := finishTop_of_idle re
    (s := t.track (List.modifyHead fun mark => { mark with finishing := true })) htop
    (by simp [Frame.extended, Frame.equip, Buffer.register, f, hhandlers]) rfl rfl rfl hidle
  have hrun : runFrame setup re s.stack.nextId pass template (Text.lines body) opened =
      .ok 0 (u.track List.tail) := by
    rw [show s.stack.nextId = f.id from rfl, show pass = f.pass from rfl, runFrame_eq hpackages hf]
    exact runBody_eq_ok_iff.2 ⟨t, u, hwrite, hfinish, rfl⟩
  refine ⟨g.buffer, _, expandTemplate_eq_ok_iff.2 ⟨text, header, body, u.track List.tail, g,
    s.stack.frames, hload, hsplit, hvalid, hrun, hg, rfl, rfl⟩, ?_, ?_⟩
  · have hbefore : s.Inert start :=
      ⟨rfl, rfl, by simp [start, opened, State.withTop, State.opened, State.record, State.see,
        Journal.hasDeposit, FrameEvent.isDeposit]⟩
    have hwritten :
        s.Inert (t.track (List.modifyHead fun mark => { mark with finishing := true })) :=
      (hbefore.trans hinert).trans ⟨rfl, rfl, rfl⟩
    have hpopped : u.Inert (u.track List.tail).popped := ⟨rfl, rfl, rfl⟩
    exact (hwritten.trans hinert').trans (hpopped.trans (.record _ _ rfl))
  · rw [hlines]
    simp [Buffer.lines_eq, Frame.extended, Frame.equip, Buffer.register, f]

end ExpandM

/-- Undecorated lines whose dollar signs were doubled come out as they were. -/
theorem LineStyle.literal_doubled {style : LineStyle} (hdecorations : style.decorations = [])
    (hfilter : style.filter = none) (hskip : style.skipBlank = false) {body : List String}
    (hbody : ∀ line ∈ body, '\n' ∉ line.toList) :
    style.literal (body.map Text.doubled) = body := by
  have hline : ∀ line ∈ body, style.applyAll (Segment.expanded (Text.doubled line)) = [line] := by
    intro line hmem
    have hshown : Segment.expanded (Text.doubled line) = line := by
      simp [Segment.expanded, Segment.plain?_doubled]
    simp [hshown, applyAll, Text.rows_of_notMem (hbody line hmem), apply, hskip, hfilter,
      hdecorations, surround]
  rw [literal, List.flatMap_map, List.flatMap_congr hline]
  simp

/-- A template whose body is a text with every dollar sign doubled is expanded to that text, with a
newline at the end of a last line that has none. Nothing is replaced or declared on the way, and the
caches are as new. -/
theorem Setup.expandToText_doubled {setup : Setup} (hpackages : setup.packages = [])
    (hskip : setup.settings.skipBlank = false) (pass : Pass) {files : FileTree}
    {template source line text : String} (hload : setup.source.load files template = .ok source)
    (hcut : Header.Cut source line (Text.doubled text))
    (hfits : Header.Fits setup.settings.backend setup.settings.version line)
    (hreturn : '\r' ∉ text.toList) :
    ∃ t, setup.expandToText template pass (.initial setup files) =
        .ok (if text = "" ∨ text.toList.getLast? = some '\n' then text else text ++ "\n") t ∧
      t.replacements = 0 ∧ t.journal.hasDeposit = false ∧
      t.temporaries =
        .new setup.backend setup.settings.exprKernel setup.settings.lambdaKernel := by
  have hlines := Text.lines_doubled hreturn
  have hcalls : ∀ line ∈ Text.lines (Text.doubled text), Segment.NoCalls line := by
    intro line hline
    rw [hlines] at hline
    obtain ⟨shown, -, rfl⟩ := List.mem_map.1 hline
    exact Segment.noCalls_iff.2 ⟨_, Segment.plain?_doubled shown⟩
  set s : State := .initial setup files
  obtain ⟨child, t, hexpand, hinert, hchild⟩ := expandTemplate_of_noCalls
    (reentry setup (setup.depthLimit s.files)) (s := s) hpackages hload hcut hfits hcalls rfl
    setup.newBuffer rfl rfl pass
  rw [← setup.expandToBuffer_eq] at hexpand
  have hrender : child.render =
      if text = "" ∨ text.toList.getLast? = some '\n' then text else text ++ "\n" := by
    rw [Buffer.render, hchild, hlines, LineStyle.literal_doubled rfl rfl hskip
      fun _ => Text.newline_notMem_of_mem_lines]
    exact Text.unlines_lines hreturn
  refine ⟨t, ?_, hinert.replacements, hinert.hasDeposit, hinert.temporaries⟩
  rw [← hrender, expandToText, bind_eq hexpand]
  rfl

/-- Dollar signs in front of a digit, a letter and each other, blank lines, and no newline at the
end. -/
theorem Setup.expandToText_doubled_dollars :
    let setup := Request.squareSetup "cpp 0.1\n$$5 $$V$$$$\n\n \nx$$" ""
    ∃ t, setup.expandToText "outer" .core (.initial setup {}) = .ok "$5 $V$$\n\n \nx$\n" t ∧
      t.replacements = 0 ∧ t.journal.hasDeposit = false ∧
      t.temporaries = .new .cpp "__cse" "__lambda" := by
  intro setup
  have hasks : Header.Asks "cpp 0.1" "cpp" ⟨0, 1, 0⟩ :=
    Header.ofLine?_eq_some_iff.1 (show _ = some ⟨"cpp", ⟨0, 1, 0⟩⟩ by decide +kernel)
  have hload : setup.source.load {} "outer" = .ok "cpp 0.1\n$$5 $$V$$$$\n\n \nx$$" := rfl
  have hcut : Header.Cut "cpp 0.1\n$$5 $$V$$$$\n\n \nx$$" "cpp 0.1"
      (Text.doubled "$5 $V$$\n\n \nx$") := ⟨by decide, Or.inr (by decide +kernel)⟩
  exact setup.expandToText_doubled rfl rfl .core hload hcut ⟨_, hasks, le_refl _⟩ (by decide)

end TensorTemplate
