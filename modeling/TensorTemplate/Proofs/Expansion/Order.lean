import TensorTemplate.Proofs.Expansion.Ownership

/-!
Declarations come before uses.

What is declared goes to the boundary, and a line goes behind it. So whatever a
line of a frame with a boundary uses is declared ahead of it, now or later; when
the boundary moves over the line, nothing is left to be declared. A frame without
a boundary gets one at its start, ahead of all its lines.
-/

namespace TensorTemplate

/-- All that the line's temporaries need is declared by the earlier rows, if the line was written
with a boundary or that does not matter. -/
def Row.Ready (always : Bool) (earlier : List Row) (row : Row) : Prop :=
  match row.1 with
  | .written returned covered =>
    covered = true ∨ always = true →
      ∀ x ∈ returned, ∀ y, x.Needs y → y.name ∈ earlier.filterMap (·.1.declares?)
  | _ => True

/-- Every row comes after the declarations that it needs. The latest row stands first. -/
def InOrder (always : Bool) : List Row → Prop
  | [] => True
  | row :: earlier => row.Ready always earlier ∧ InOrder always earlier

theorem Row.Ready.mono {always : Bool} {earlier earlier' : List Row} {row : Row}
    (h : row.Ready always earlier) (hsub : earlier ⊆ earlier') : row.Ready always earlier' := by
  unfold Row.Ready at h ⊢
  split at h
  · intro hcovered x hx y hneeds
    obtain ⟨r, hr, hname⟩ := List.mem_filterMap.1 (h hcovered x hx y hneeds)
    exact List.mem_filterMap.2 ⟨r, hsub hr, hname⟩
  · trivial

namespace InOrder

variable {always : Bool} {rows : List Row}

/-- Rows that only need what is there may be added. -/
theorem append (h : InOrder always rows) {new : List Row}
    (hnew : ∀ row ∈ new, row.Ready always rows) : InOrder always (new ++ rows) := by
  induction new with
  | nil => exact h
  | cons row new ih =>
      obtain ⟨hrow, hrest⟩ := List.forall_mem_cons.1 hnew
      exact ⟨hrow.mono (List.subset_append_right _ _), ih hrest⟩

theorem of_always (h : InOrder true rows) (always : Bool) : InOrder always rows := by
  induction rows with
  | nil => trivial
  | cons row rows ih =>
      refine ⟨?_, ih h.2⟩
      have hrow := h.1
      unfold Row.Ready at hrow ⊢
      split at hrow
      · exact fun _ => hrow (Or.inr rfl)
      · trivial

theorem of_bounded {bounded : Bool} (h : InOrder (!bounded) rows) : InOrder false rows := by
  cases bounded with
  | true => exact h
  | false => exact h.of_always false

/-- Read from first to last: what a line needs is declared in front of it. -/
theorem of_split (h : InOrder always rows) {front rest : List Row} {returned : List Temporary}
    {covered : Bool} {text : String}
    (hrows : rows.reverse = front ++ (.written returned covered, text) :: rest)
    (hcovered : covered = true ∨ always = true) {x y : Temporary} (hx : x ∈ returned)
    (hneeds : x.Needs y) : y.name ∈ front.filterMap (·.1.declares?) := by
  have hsplit : rows = rest.reverse ++ (.written returned covered, text) :: front.reverse := by
    have := congrArg List.reverse hrows
    simpa using this
  rw [hsplit] at h
  generalize rest.reverse = later at h
  induction later with
  | nil =>
      have hmem := h.1 hcovered x hx y hneeds
      simpa using hmem
  | cons row later ih => exact ih h.2

end InOrder

namespace View

variable {b : Backend} {v v' : View}

/-- What a line behind the boundary can be there for. -/
def Trails (p : Page) : Origin → Prop
  | .declared _ => False
  | .written returned covered => returned ⊆ p.returned ∧ (p.bounded = false → covered = false)
  | _ => True

/-- What is true of the order of lines on the page of a frame under expansion. -/
structure Orderly (p : Page) (f : Live) : Prop where
  behind : ∀ row ∈ p.behind, Trails p row.1
  /-- Before there is a boundary, no line has passed it. -/
  unset : f.isSet = false → p.bounded = false ∧ ∀ row ∈ p.ahead, row.1 = .given
  ahead : InOrder (!p.bounded) p.ahead

theorem Trails.mono {p p' : Page} {origin : Origin} (h : Trails p origin)
    (hreturned : p.returned ⊆ p'.returned) (hbounded : p'.bounded = p.bounded) :
    Trails p' origin := by
  cases origin with
  | written returned covered => exact ⟨List.Subset.trans h.1 hreturned, hbounded ▸ h.2⟩
  | declared name => exact h
  | given => trivial
  | merged => trivial

theorem Orderly.filterMap_behind {p : Page} {f : Live} (h : Orderly p f) :
    p.behind.filterMap (·.1.declares?) = [] := by
  apply List.filterMap_eq_nil_iff.2
  intro row hrow
  have htrails := h.behind row hrow
  cases heq : row.1 with
  | declared name =>
      rw [heq] at htrails
      exact htrails.elim
  | given => rfl
  | written returned covered => rfl
  | merged => rfl

/-- The lines of the frame's page are in order. -/
def PageInOrder (b : Backend) (journal : Journal) (id : Nat) : Prop :=
  InOrder (!(journal.page b id).bounded) (journal.page b id).lines.reverse

theorem PageInOrder.cons {journal : Journal} {id id' : Nat} {event : FrameEvent} (hne : id' ≠ id)
    (h : PageInOrder b journal id) : PageInOrder b ((id', event) :: journal) id := by
  unfold PageInOrder
  rwa [Page.page_cons_of_ne b hne]

/-- Lines are in order on every page. -/
abbrev Ordered (b : Backend) : View → Prop := EachPage b Orderly (PageInOrder b)

/-- With nothing held and nothing waiting, all that is needed is declared. -/
theorem Owned.mem_declared (hv : v.Owned b) (hnumbered : v.Numbered) {f : Live} {fs : List Live}
    (hframes : v.frames = f :: fs) (hheld : f.held.names = [])
    (hwaiting : v.temporaries.waiting = []) {x y : Temporary}
    (hx : x ∈ (v.journal.page b f.id).returned) (hneeds : x.Needs y) :
    y.name ∈ (v.journal.page b f.id).declared := by
  have hrest : heldNames fs f.id = [] := by
    apply List.flatMap_eq_nil_iff.2
    intro g hg
    rw [if_neg (hnumbered.ne_of_mem hframes hg).symm]
  have howes := (hv.owes_iff f.id y.name).2 ⟨x, hx, y, hneeds, rfl⟩
  simpa [settled, hframes, heldNames_cons, hheld, hrest, waitingNames_eq_nil v hwaiting] using howes

/-- Then the rows behind the boundary need only what is declared ahead of it. -/
theorem Orderly.ready_behind {p : Page} {f : Live} (h : Orderly p f)
    (hdeclared : ∀ x ∈ p.returned, ∀ y, x.Needs y → y.name ∈ p.declared) (always : Bool) :
    ∀ row ∈ p.behind, row.Ready always p.ahead := by
  intro row hrow
  unfold Row.Ready
  split
  · rename_i returned covered heq
    have htrails := h.behind row hrow
    rw [heq] at htrails
    intro _ x hx y hneeds
    have hmem := hdeclared x (htrails.1 hx) y hneeds
    rw [Page.declared_eq, h.filterMap_behind] at hmem
    simpa using hmem
  · trivial

theorem Step.ordered (h : Step b v v') (hnumbered : v.Numbered) (howned : v.Owned b)
    (hv : v.Ordered b) : v'.Ordered b := by
  induction h with
  | name hframes he =>
      refine EachPage.onTopPage .cons hnumbered hv hframes (fun hp => ?_) _
      refine ⟨fun row hrow => ?_, hp.unset, hp.ahead⟩
      exact (hp.behind row hrow).mono (List.subset_append_right _ _) rfl
  | call hframes hl =>
      refine EachPage.onTopPage .cons hnumbered hv hframes (fun hp => ?_) _
      refine ⟨fun row hrow => ?_, hp.unset, hp.ahead⟩
      exact (hp.behind row hrow).mono (List.subset_cons_self _ _) rfl
  | write hframes text =>
      refine EachPage.onTop .cons hnumbered hv hframes (by rfl) (fun hp => ?_) _
      refine ⟨fun row hrow => ?_, hp.unset, hp.ahead⟩
      rcases List.mem_append.1 hrow with hrow | hrow
      · rw [Page.fst_of_mem_rowsOf (List.mem_reverse.1 hrow)]
        exact ⟨List.Subset.refl _, id⟩
      · exact (hp.behind row hrow).mono (List.Subset.refl _) rfl
  | merge hframes lines =>
      refine EachPage.onTop .cons hnumbered hv hframes (by rfl) (fun hp => ?_) _
      refine ⟨fun row hrow => ?_, hp.unset, hp.ahead⟩
      rcases List.mem_append.1 hrow with hrow | hrow
      · obtain ⟨line, _, rfl⟩ := List.mem_map.1 (List.mem_reverse.1 hrow)
        trivial
      · exact (hp.behind row hrow).mono (List.Subset.refl _) rfl
  | deposit hframes hset hlines =>
      refine EachPage.onTop .cons hnumbered hv hframes (by rfl) (fun hp => ?_) _
      refine ⟨fun row hrow => (hp.behind row hrow).mono (List.Subset.refl _) rfl, ?_,
        hp.ahead.append ?_⟩
      · intro hunset
        rw [hset] at hunset
        cases hunset
      · intro row hrow
        obtain ⟨t, _, hrow⟩ := List.mem_flatMap.1 (List.mem_reverse.1 hrow)
        unfold Row.Ready
        rw [Page.fst_of_mem_rowsOf hrow]
        trivial
  | hold hframes hset =>
      refine EachPage.onTopFrame hv hframes (by rfl) (fun hp => ?_) _
      exact ⟨hp.behind, hp.unset, hp.ahead⟩
  | @bound f fs hframes pattern hpattern hdrained =>
      refine EachPage.onTop .cons hnumbered hv hframes (by rfl) (fun hp => ?_) _
      refine ⟨by simp [Page.after], (fun hunset => Bool.noConfusion hunset),
        (hp.ahead.of_bounded).append ?_⟩
      cases hset : f.isSet with
      | true =>
          obtain ⟨hheld, hwaiting⟩ := hdrained hset
          exact hp.ready_behind
            (fun x hx y hneeds => howned.mem_declared hnumbered hframes hheld hwaiting hx hneeds) _
      | false =>
          -- the lines so far were written without a boundary
          intro row hrow
          have htrails := hp.behind row hrow
          unfold Row.Ready
          split
          · rename_i returned covered heq
            rw [heq] at htrails
            rw [htrails.2 (hp.unset hset).1]
            rintro (hfalse | hfalse) <;> cases hfalse
          · trivial
  | boundAtStart hframes hset =>
      refine EachPage.onTop .cons hnumbered hv hframes (by rfl) (fun hp => ?_) _
      refine ⟨fun row hrow => ?_, (fun hunset => Bool.noConfusion hunset), trivial⟩
      rcases List.mem_append.1 hrow with hrow | hrow
      · exact (hp.behind row hrow).mono (List.Subset.refl _) rfl
      · rw [(hp.unset hset).2 row hrow]
        trivial
  | enter hwaiting buffer =>
      refine EachPage.enter .cons hnumbered hv (by rfl)
        ⟨fun row hrow => ?_, fun _ => ⟨rfl, fun row hrow => ?_⟩, ?_⟩
      · obtain ⟨line, _, rfl⟩ := List.mem_map.1 hrow
        trivial
      · obtain ⟨line, _, rfl⟩ := List.mem_map.1 hrow
        rfl
      · have hempty : InOrder true [] := trivial
        have hgiven : InOrder true (buffer.ahead.map (Origin.given, ·) ++ []) := by
          refine hempty.append fun row hrow => ?_
          obtain ⟨line, _, rfl⟩ := List.mem_map.1 hrow
          trivial
        rwa [List.append_nil] at hgiven
  | @leave f fs hframes hheld hwaiting buffer hbuffer =>
      refine EachPage.leave .cons hv hframes fun hp => ?_
      unfold PageInOrder
      rw [Page.page_cons_closed]
      have hready := hp.ready_behind
        (fun x hx y hneeds => howned.mem_declared hnumbered hframes hheld hwaiting hx hneeds)
        (!(v.journal.page b f.id).bounded)
      simpa [Page.lines] using hp.ahead.append hready

end View

end TensorTemplate
