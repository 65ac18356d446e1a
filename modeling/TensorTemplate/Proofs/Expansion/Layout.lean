import TensorTemplate.Proofs.Expansion.Step

/-!
Pages and buffers agree. At every moment of a run the page of a frame under
expansion has the lines of the frame's buffer, and the page of a frame that is
finished has the lines that the buffer was closed with.

A step concerns the page of the frame on top and no other, so properties of all
pages are kept if the page on top keeps them.
-/

namespace TensorTemplate.View

variable {b : Backend} {v v' : View}

/-! ### Numbers -/

/-- Frames have numbers of their own, and no event has the number of a frame to come. -/
structure Numbered (v : View) : Prop where
  nodup : (v.frames.map (·.id)).Nodup
  frames_lt : ∀ f ∈ v.frames, f.id < v.nextId
  journal_lt : ∀ e ∈ v.journal, e.1 < v.nextId

theorem Numbered.ne_of_mem (hv : v.Numbered) {f g : Live} {fs : List Live}
    (hframes : v.frames = f :: fs) (hg : g ∈ fs) : f.id ≠ g.id := by
  have hnodup := hv.nodup
  rw [hframes] at hnodup
  intro heq
  exact (List.nodup_cons.1 hnodup).1 (List.mem_map.2 ⟨g, hg, heq.symm⟩)

theorem Numbered.onTop (hv : v.Numbered) {f f' : Live} {fs : List Live}
    (hframes : v.frames = f :: fs) (hid : f'.id = f.id) (event : FrameEvent) (t : Temporaries) :
    Numbered { v with
      temporaries := t, frames := f' :: fs, journal := (f.id, event) :: v.journal } := by
  have hnodup := hv.nodup
  have hlt := hv.frames_lt
  rw [hframes] at hnodup hlt
  refine ⟨?_, ?_, List.forall_mem_cons.2 ⟨hlt f List.mem_cons_self, hv.journal_lt⟩⟩
  · simpa [hid] using hnodup
  · refine List.forall_mem_cons.2 ⟨?_, (List.forall_mem_cons.1 hlt).2⟩
    rw [hid]
    exact hlt f List.mem_cons_self

/-- Frames keep their numbers, and a new one gets the next. -/
theorem Step.numbered (h : Step b v v') (hv : v.Numbered) : v'.Numbered := by
  induction h with
  | @name f fs hframes e he =>
      have h := hv.onTop hframes rfl (.named (v.temporaries.named e)) (v.temporaries.emit e).2
      rwa [← hframes] at h
  | @call f fs hframes l hl =>
      have h := hv.onTop hframes rfl (.called (v.temporaries.called l))
        (v.temporaries.cacheLambda l).2
      rwa [← hframes] at h
  | write hframes text => exact hv.onTop hframes (by rfl) _ _
  | merge hframes lines => exact hv.onTop hframes (by rfl) _ _
  | deposit hframes hset hlines => exact hv.onTop hframes (by rfl) _ _
  | hold hframes hset =>
      have hnodup := hv.nodup
      rw [hframes] at hnodup
      exact ⟨hnodup, forall_mem_top hframes hv.frames_lt id, hv.journal_lt⟩
  | bound hframes hpattern hdrained => exact hv.onTop hframes (by rfl) _ _
  | boundAtStart hframes hset => exact hv.onTop hframes (by rfl) _ _
  | enter hwaiting buffer =>
      refine ⟨List.nodup_cons.2 ⟨?_, hv.nodup⟩, ?_, ?_⟩
      · intro hmem
        obtain ⟨f, hf, heq⟩ := List.mem_map.1 hmem
        exact (hv.frames_lt f hf).ne heq
      · exact List.forall_mem_cons.2 ⟨Nat.lt_succ_self _,
          fun f hf => Nat.lt_succ_of_lt (hv.frames_lt f hf)⟩
      · exact List.forall_mem_cons.2 ⟨Nat.lt_succ_self _,
          fun e he => Nat.lt_succ_of_lt (hv.journal_lt e he)⟩
  | leave hframes hheld hwaiting hbuffer =>
      have hnodup := hv.nodup
      have hlt := hv.frames_lt
      rw [hframes] at hnodup hlt
      obtain ⟨htop, hrest⟩ := List.forall_mem_cons.1 hlt
      exact ⟨(List.nodup_cons.1 hnodup).2, hrest, List.forall_mem_cons.2 ⟨htop, hv.journal_lt⟩⟩

/-! ### Properties of pages -/

/-- `P` holds of every frame under expansion and its page, and `Q` of every frame that is
finished. -/
structure EachPage (b : Backend) (P : Page → Live → Prop) (Q : Journal → Nat → Prop) (v : View) :
    Prop where
  live : ∀ f ∈ v.frames, P (v.journal.page b f.id) f
  finished : ∀ id < v.nextId, (∀ f ∈ v.frames, f.id ≠ id) → Q v.journal id

namespace EachPage

variable {P : Page → Live → Prop} {Q : Journal → Nat → Prop}
  (hQ : ∀ {journal id id' event}, id' ≠ id → Q journal id → Q ((id', event) :: journal) id)

include hQ

/-- An event of the frame on top. -/
theorem onTop (hnumbered : v.Numbered) (hv : v.EachPage b P Q) {f f' : Live} {fs : List Live}
    (hframes : v.frames = f :: fs) (hid : f'.id = f.id) {event : FrameEvent}
    (htop : P (v.journal.page b f.id) f → P ((v.journal.page b f.id).after b event) f')
    (t : Temporaries) :
    EachPage b P Q
      { v with temporaries := t, frames := f' :: fs, journal := (f.id, event) :: v.journal } := by
  have hlive := hv.live
  have hfinished := hv.finished
  rw [hframes] at hlive hfinished
  constructor
  · refine List.forall_mem_cons.2 ⟨?_, ?_⟩
    · rw [hid, Page.page_cons_self]
      exact htop (hlive f List.mem_cons_self)
    · intro g hg
      rw [Page.page_cons_of_ne b (hnumbered.ne_of_mem hframes hg)]
      exact hlive g (List.mem_cons_of_mem _ hg)
  · intro id hlt hnone
    have hne : f.id ≠ id := hid ▸ hnone f' List.mem_cons_self
    apply hQ hne
    exact hfinished id hlt (List.forall_mem_cons.2 ⟨hne, (List.forall_mem_cons.1 hnone).2⟩)

/-- An event of the frame on top that does not change the frame. -/
theorem onTopPage (hnumbered : v.Numbered) (hv : v.EachPage b P Q) {f : Live} {fs : List Live}
    (hframes : v.frames = f :: fs) {event : FrameEvent}
    (htop : P (v.journal.page b f.id) f → P ((v.journal.page b f.id).after b event) f)
    (t : Temporaries) :
    EachPage b P Q { v with temporaries := t, journal := (f.id, event) :: v.journal } := by
  have h := onTop hQ hnumbered hv hframes rfl htop t
  rwa [← hframes] at h

omit hQ in
/-- A change of the frame on top without an event. -/
theorem onTopFrame (hv : v.EachPage b P Q) {f f' : Live} {fs : List Live}
    (hframes : v.frames = f :: fs) (hid : f'.id = f.id)
    (htop : P (v.journal.page b f.id) f → P (v.journal.page b f.id) f') (t : Temporaries) :
    EachPage b P Q { v with temporaries := t, frames := f' :: fs } := by
  have hfinished := hv.finished
  rw [hframes] at hfinished
  constructor
  · exact forall_mem_top hframes hv.live fun hf => hid ▸ htop hf
  · intro id hlt hnone
    obtain ⟨hne, hnone⟩ := List.forall_mem_cons.1 hnone
    exact hfinished id hlt (List.forall_mem_cons.2 ⟨hid ▸ hne, hnone⟩)

theorem enter (hnumbered : v.Numbered) (hv : v.EachPage b P Q) {f : Live} (hid : f.id = v.nextId)
    {buffer : Buffer} (hnew : P (Page.after b {} (.opened buffer)) f) :
    EachPage b P Q
      { v with
        frames := f :: v.frames, nextId := v.nextId + 1
        journal := (v.nextId, .opened buffer) :: v.journal } := by
  have hempty : v.journal.page b v.nextId = {} :=
    Page.page_eq_empty b fun e he => (hnumbered.journal_lt e he).ne
  constructor
  · refine List.forall_mem_cons.2 ⟨?_, ?_⟩
    · rw [hid, Page.page_cons_self, hempty]
      exact hnew
    · intro g hg
      rw [Page.page_cons_of_ne b (hnumbered.frames_lt g hg).ne']
      exact hv.live g hg
  · intro id hlt hnone
    obtain ⟨hne, hnone⟩ := List.forall_mem_cons.1 hnone
    rw [hid] at hne
    exact hQ hne (hv.finished id (Nat.lt_of_le_of_ne (Nat.lt_succ_iff.1 hlt) hne.symm) hnone)

theorem leave (hv : v.EachPage b P Q) {f : Live} {fs : List Live} (hframes : v.frames = f :: fs)
    {buffer : Buffer}
    (htop : P (v.journal.page b f.id) f → Q ((f.id, .closed buffer) :: v.journal) f.id) :
    EachPage b P Q { v with frames := fs, journal := (f.id, .closed buffer) :: v.journal } := by
  have hlive := hv.live
  have hfinished := hv.finished
  rw [hframes] at hlive hfinished
  constructor
  · intro g hg
    rw [Page.page_cons_closed]
    exact hlive g (List.mem_cons_of_mem _ hg)
  · intro id hlt hnone
    by_cases hid : f.id = id
    · subst hid
      exact htop (hlive f List.mem_cons_self)
    · exact hQ hid (hfinished id hlt (List.forall_mem_cons.2 ⟨hid, hnone⟩))

end EachPage

/-! ### Lines -/

/-- The page has the lines of the frame. -/
structure Shows (p : Page) (f : Live) : Prop where
  style : p.style = f.style
  ahead : p.ahead.map (·.2) = f.ahead
  behind : p.behind.map (·.2) = f.behind

/-- The buffer of the frame was closed with the lines of its page. -/
def ClosedAs (b : Backend) (journal : Journal) (id : Nat) : Prop :=
  ∃ buffer, (id, .closed buffer) ∈ journal ∧ buffer.lines = (journal.page b id).lines.map (·.2)

theorem ClosedAs.cons {journal : Journal} {id id' : Nat} {event : FrameEvent} (hne : id' ≠ id)
    (h : ClosedAs b journal id) : ClosedAs b ((id', event) :: journal) id := by
  obtain ⟨buffer, hmem, hlines⟩ := h
  exact ⟨buffer, List.mem_cons_of_mem _ hmem, by rwa [Page.page_cons_of_ne b hne]⟩

/-- Pages have the lines of their buffers. -/
abbrev Laid (b : Backend) : View → Prop := EachPage b Shows (ClosedAs b)

theorem Step.laid (h : Step b v v') (hnumbered : v.Numbered) (hv : v.Laid b) : v'.Laid b := by
  have hsame : ∀ {p p' : Page} {f : Live}, Shows p f → p'.style = p.style → p'.ahead = p.ahead →
      p'.behind = p.behind → Shows p' f := by
    intro p p' f hp hstyle hahead hbehind
    exact ⟨hstyle ▸ hp.style, hahead ▸ hp.ahead, hbehind ▸ hp.behind⟩
  induction h with
  | name hframes he =>
      exact EachPage.onTopPage .cons hnumbered hv hframes (fun hp => hsame hp rfl rfl rfl) _
  | call hframes hl =>
      exact EachPage.onTopPage .cons hnumbered hv hframes (fun hp => hsame hp rfl rfl rfl) _
  | write hframes text =>
      refine EachPage.onTop .cons hnumbered hv hframes (by rfl) (fun hp => ?_) _
      refine ⟨hp.style, hp.ahead, ?_⟩
      simp [Page.after, Page.rowsOf, hp.behind, hp.style, Function.comp_def]
  | merge hframes lines =>
      refine EachPage.onTop .cons hnumbered hv hframes (by rfl) (fun hp => ?_) _
      refine ⟨hp.style, hp.ahead, ?_⟩
      simp [Page.after, hp.behind, Function.comp_def]
  | deposit hframes hset hlines =>
      refine EachPage.onTop .cons hnumbered hv hframes (by rfl) (fun hp => ?_) _
      refine ⟨hp.style, ?_, hp.behind⟩
      simp only [Page.after, List.map_append, List.map_reverse, Page.map_snd_rows, hp.ahead,
        hp.style]
      rfl
  | hold hframes hset =>
      refine EachPage.onTopFrame hv hframes (by rfl) (fun hp => ?_) _
      exact ⟨hp.style, hp.ahead, hp.behind⟩
  | bound hframes hpattern hdrained =>
      refine EachPage.onTop .cons hnumbered hv hframes (by rfl) (fun hp => ?_) _
      refine ⟨hp.style, ?_, rfl⟩
      simp [Page.after, hp.ahead, hp.behind]
  | boundAtStart hframes hset =>
      refine EachPage.onTop .cons hnumbered hv hframes (by rfl) (fun hp => ?_) _
      refine ⟨hp.style, rfl, ?_⟩
      simp [Page.after, hp.ahead, hp.behind]
  | enter hwaiting buffer =>
      refine EachPage.enter .cons hnumbered hv (by rfl) ⟨rfl, ?_, ?_⟩ <;>
        simp [Page.after, Function.comp_def]
  | @leave f fs hframes hheld hwaiting buffer hbuffer =>
      refine EachPage.leave .cons hv hframes fun hp => ⟨buffer, List.mem_cons_self, ?_⟩
      rw [Page.page_cons_closed]
      simp [Buffer.lines_eq, Page.lines, hp.ahead, hp.behind, hbuffer.1, hbuffer.2]

end TensorTemplate.View
