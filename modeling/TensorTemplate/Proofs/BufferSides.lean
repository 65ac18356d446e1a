import TensorTemplate.Proofs.TaggedLines
import Mathlib.Data.List.Infix

/-!
A tag among lines as the bound between two lists.

Lines written to the tag go to the end of the list before it, all other lines to the end
of the list after it, and a tag that is set anew only moves the bound between the lists.
One call on lines with a stored tag keeps the stored values in step with the two lists,
and so does every sequence of calls. So the tag is always a place among the lines, lines
are never lost and never change places, and as long as the tag stays, writes to it and
writes to the end do not get in each other's way. The buffers of a run, which hold the two
lists themselves, do the same as lines with a stored tag.
-/

namespace TensorTemplate

/-- The lines on the two sides of a place. -/
structure Sides where
  before : List String := []
  after : List String := []

namespace Sides

/-- What a call makes of the two sides in a buffer of this style. -/
def follow (p : Sides) (style : LineStyle) : BufferCall TaggedLines → Sides
  | .tagToEnd => ⟨p.before ++ p.after, []⟩
  | .tagToStart => ⟨[], p.before ++ p.after⟩
  | .writeTag text => { p with before := p.before ++ style.applyAll text }
  | .writeEnd text => { p with after := p.after ++ style.applyAll text }
  | .merge child => { p with after := p.after ++ child.lines }
  | _ => p

/-- The two sides when calls are made one after the other; those that are stopped do not count. -/
def along (p : Sides) (t : TaggedLines) : List (BufferCall TaggedLines) → Sides
  | [] => p
  | call :: calls =>
    match TaggedLines.exec call t with
    | .ok _ t' => (p.follow t.style call).along t' calls
    | .error _ t' => p.along t' calls

variable {p : Sides} {style : LineStyle} {call : BufferCall TaggedLines}

theorem follow_of_writesTag (h : call.writesTag = true) :
    p.follow style call = { p with before := p.before ++ call.brings style } := by
  cases call with
  | writeTag text => rfl
  | _ => cases h

theorem follow_of_writesEnd (h : call.writesEnd = true) :
    p.follow style call = { p with after := p.after ++ call.brings style } := by
  cases call with
  | writeEnd text => rfl
  | merge child => rfl
  | _ => cases h

/-- The sides with some lines more, at the tag if there is one and at the end, unless the buffer is
closed. -/
def fed (p : Sides) (t : TaggedLines) (atTag atEnd : List String) : Sides :=
  if t.closed then p
  else ⟨if t.tag.isSome then p.before ++ atTag else p.before, p.after ++ atEnd⟩

end Sides

/-- The call is refused, for this reason: it writes to a closed buffer, or to the tag of one that
has none. -/
def BufferCall.Refused (call : BufferCall TaggedLines) (t : TaggedLines) (stop : Stop) : Prop :=
  call.writes = true ∧ t.closed = true ∧ stop = .error .bufferClosed ∨
    call.writesTag = true ∧ t.closed = false ∧ t.tag = none ∧ stop = .error .noTag

theorem BufferCall.Refused.writes {call : BufferCall TaggedLines} {t : TaggedLines} {stop : Stop}
    (h : call.Refused t stop) : call.writes = true := by
  rcases h with ⟨hwrites, -⟩ | ⟨htag, -⟩
  · exact hwrites
  · exact Bool.or_eq_true_iff.2 (Or.inl htag)

namespace TaggedLines

/-- The lines are those of both sides, and the tag stands between them if there is one. -/
structure Shows (t : TaggedLines) (p : Sides) : Prop where
  lines : t.lines = p.before ++ p.after
  tag : ∀ n, t.tag = some n → n = p.before.length

/-- What a call that is done makes of lines that show two sides. -/
structure Follows (t : TaggedLines) (p : Sides) (call : BufferCall TaggedLines)
    (t' : TaggedLines) : Prop where
  sides : t'.Shows (p.follow t.style call)
  tag : t'.tag.isSome = (t.tag.isSome || call.movesTag)
  /-- Writes leave style and state as they are. -/
  writes : call.writes = true → t'.style = t.style ∧ t'.closed = t.closed

variable {t t' : TaggedLines} {p : Sides} {call : BufferCall TaggedLines}
  {calls : List (BufferCall TaggedLines)}

/-! ### One call -/

/-- The tag is at most the number of lines. -/
theorem Shows.tag_le (h : t.Shows p) {n : Nat} (hn : t.tag = some n) : n ≤ t.lines.length := by
  rw [h.tag n hn, h.lines, List.length_append]
  exact Nat.le_add_right _ _

theorem Shows.tag_eq (h : t.Shows p) :
    t.tag = if t.tag.isSome then some p.before.length else none := by
  cases htag : t.tag with
  | none => rfl
  | some n => rw [h.tag n htag, Option.isSome_some, if_pos rfl]

/-- The tag cuts the lines where the sides meet. -/
theorem Shows.cut (h : t.Shows p) {n : Nat} (hn : t.tag = some n) :
    t.lines.take n = p.before ∧ t.lines.drop n = p.after := by
  rw [h.lines, h.tag n hn]
  exact ⟨List.take_left, List.drop_left⟩

/-- What a call does on lines that show two sides: it is done, and the sides follow, or it is
refused, and everything is as it was. -/
def InStep (t : TaggedLines) (p : Sides) (call : BufferCall TaggedLines) : Prop :=
  (∃ t', exec call t = .ok () t' ∧ t.Follows p call t') ∨
    ∃ stop, exec call t = .error stop t ∧ call.Refused t stop

theorem Shows.inStep_of_writesEnd (h : t.Shows p) (hcall : call.writesEnd = true) :
    t.InStep p call := by
  have hwrites : call.writes = true := Bool.or_eq_true_iff.2 (Or.inr hcall)
  have hexec := exec_of_writesEnd (t := t) hcall
  cases hclosed : t.closed with
  | true =>
      rw [if_pos hclosed] at hexec
      exact Or.inr ⟨_, hexec, Or.inl ⟨hwrites, hclosed, rfl⟩⟩
  | false =>
      rw [if_neg (by simp [hclosed])] at hexec
      have htag : t.tag.isSome = (t.tag.isSome || call.movesTag) := by
        rw [BufferCall.movesTag_of_writes hwrites, Bool.or_false]
      refine Or.inl ⟨_, hexec, ?_, htag, fun _ => ⟨rfl, rfl⟩⟩
      rw [Sides.follow_of_writesEnd hcall]
      refine ⟨?_, h.tag⟩
      rw [h.lines, List.append_assoc]

theorem Shows.inStep_of_writesTag (h : t.Shows p) (hcall : call.writesTag = true) :
    t.InStep p call := by
  have hwrites : call.writes = true := Bool.or_eq_true_iff.2 (Or.inl hcall)
  cases htag : t.tag with
  | none =>
      refine Or.inr ⟨_, exec_of_writesTag_of_tag_eq_none hcall htag, ?_⟩
      cases hclosed : t.closed with
      | true => exact Or.inl ⟨hwrites, hclosed, rfl⟩
      | false => exact Or.inr ⟨hcall, hclosed, htag, rfl⟩
  | some n =>
      have hexec := exec_of_writesTag hcall htag (h.tag_le htag)
      cases hclosed : t.closed with
      | true =>
          rw [if_pos hclosed] at hexec
          exact Or.inr ⟨_, hexec, Or.inl ⟨hwrites, hclosed, rfl⟩⟩
      | false =>
          rw [if_neg (by simp [hclosed])] at hexec
          obtain ⟨hbefore, hafter⟩ := h.cut htag
          refine Or.inl ⟨_, hexec, ?_, by simp [htag], fun _ => ⟨rfl, rfl⟩⟩
          rw [Sides.follow_of_writesTag hcall]
          refine ⟨by rw [hbefore, hafter], fun m hm => ?_⟩
          cases hm
          rw [List.length_append, h.tag n htag]

/-- Every call keeps lines and tag in step with the two sides, or is refused. -/
theorem Shows.inStep (h : t.Shows p) (call : BufferCall TaggedLines) : t.InStep p call := by
  cases call with
  | writeTag text => exact h.inStep_of_writesTag rfl
  | writeEnd text => exact h.inStep_of_writesEnd rfl
  | merge child => exact h.inStep_of_writesEnd rfl
  | tagToEnd =>
      refine Or.inl ⟨_, rfl, ⟨?_, fun n hn => ?_⟩, (Bool.or_true _).symm, nofun⟩
      · exact h.lines.trans (List.append_nil _).symm
      · cases hn
        exact congrArg List.length h.lines
  | tagToStart =>
      refine Or.inl ⟨_, rfl, ⟨h.lines, fun n hn => ?_⟩, (Bool.or_true _).symm, nofun⟩
      cases hn
      rfl
  | _ => exact Or.inl ⟨_, rfl, ⟨h.lines, h.tag⟩, (Bool.or_false _).symm, nofun⟩

/-- A call is stopped exactly if it is refused, and then everything is as it was. -/
theorem Shows.exec_eq_error_iff (h : t.Shows p) {stop : Stop} :
    exec call t = .error stop t' ↔ t' = t ∧ call.Refused t stop := by
  constructor
  · intro hexec
    rcases h.inStep call with ⟨u, hdone, -⟩ | ⟨_, hstopped, hrefused⟩
    · cases hdone.symm.trans hexec
    · cases hstopped.symm.trans hexec
      exact ⟨rfl, hrefused⟩
  · rintro ⟨rfl, ⟨hwrites, hclosed, rfl⟩ | ⟨hwrites, hopen, htag, rfl⟩⟩
    · rcases Bool.or_eq_true_iff.1 hwrites with hwrites | hwrites
      · cases htag : t'.tag with
        | none => rw [exec_of_writesTag_of_tag_eq_none hwrites htag, if_pos hclosed]
        | some n => rw [exec_of_writesTag hwrites htag (h.tag_le htag), if_pos hclosed]
      · rw [exec_of_writesEnd hwrites, if_pos hclosed]
    · rw [exec_of_writesTag_of_tag_eq_none hwrites htag, if_neg (by simp [hopen])]

/-- A write that is done was made to an open buffer, which has a tag if that is where it went. -/
theorem Shows.of_writes_ok (h : t.Shows p) (hwrites : call.writes = true)
    (hdone : exec call t = .ok () t') :
    t.closed = false ∧ (call.writesTag = true → t.tag.isSome = true) := by
  have hnever : ∀ stop, ¬call.Refused t stop := by
    intro stop hrefused
    cases hdone.symm.trans (h.exec_eq_error_iff.2 ⟨rfl, hrefused⟩)
  have hopen : t.closed = false := by
    cases hclosed : t.closed with
    | false => rfl
    | true => exact absurd (Or.inl ⟨hwrites, hclosed, rfl⟩) (hnever _)
  refine ⟨hopen, fun hcall => ?_⟩
  cases htag : t.tag with
  | some n => rfl
  | none => exact absurd (Or.inr ⟨hcall, hopen, htag, rfl⟩) (hnever _)

/-! ### Sequences of calls -/

theorem after_cons_of_ok (h : exec call t = .ok () t') :
    t.after (call :: calls) = t'.after calls := by
  rw [after, List.foldl_cons, next, h]
  rfl

theorem after_cons_of_error {stop : Stop} (h : exec call t = .error stop t') :
    t.after (call :: calls) = t'.after calls := by
  rw [after, List.foldl_cons, next, h]
  rfl

theorem along_cons_of_ok (h : exec call t = .ok () t') :
    p.along t (call :: calls) = (p.follow t.style call).along t' calls := by
  rw [Sides.along, h]

theorem along_cons_of_error {stop : Stop} (h : exec call t = .error stop t') :
    p.along t (call :: calls) = p.along t' calls := by
  rw [Sides.along, h]

/-- Whatever calls are made, lines and tag stay in step with the two sides, and there is a tag as
soon as one has been set. -/
theorem Shows.after (h : t.Shows p) (calls : List (BufferCall TaggedLines)) :
    (t.after calls).Shows (p.along t calls) ∧
      (t.after calls).tag.isSome = (t.tag.isSome || calls.any (·.movesTag)) := by
  induction calls generalizing t p with
  | nil => exact ⟨h, (Bool.or_false _).symm⟩
  | cons call calls ih =>
      rcases h.inStep call with ⟨t', hdone, hfollows⟩ | ⟨stop, hstopped, hrefused⟩
      · rw [after_cons_of_ok hdone, along_cons_of_ok hdone, List.any_cons, ← Bool.or_assoc,
          ← hfollows.tag]
        exact ih hfollows.sides
      · rw [after_cons_of_error hstopped, along_cons_of_error hstopped, List.any_cons,
          BufferCall.movesTag_of_writes hrefused.writes, Bool.false_or]
        exact ih h

end TaggedLines

namespace Sides

/-- What holds along every call holds along all of them together. -/
theorem rel_along {R : Sides → Sides → Prop} (hrefl : ∀ p, R p p)
    (htrans : ∀ {p q r}, R p q → R q r → R p r) {calls : List (BufferCall TaggedLines)}
    (hcalls : ∀ call ∈ calls, ∀ p style, R p (p.follow style call)) (p : Sides) (t : TaggedLines) :
    R p (p.along t calls) := by
  induction calls generalizing p t with
  | nil => exact hrefl p
  | cons call calls ih =>
      have hrest := fun p t => ih (fun c hc => hcalls c (List.mem_cons_of_mem _ hc)) p t
      unfold along
      split
      · exact htrans (hcalls call List.mem_cons_self p t.style) (hrest _ _)
      · exact hrest _ _

/-- A call takes no line away and lets no two lines change places. -/
theorem sublist_follow (call : BufferCall TaggedLines) (p : Sides) (style : LineStyle) :
    (p.before ++ p.after).Sublist
      ((p.follow style call).before ++ (p.follow style call).after) := by
  cases call with
  | writeTag text => exact (List.sublist_append_left _ _).append (List.Sublist.refl _)
  | writeEnd text => exact (List.Sublist.refl _).append (List.sublist_append_left _ _)
  | merge child => exact (List.Sublist.refl _).append (List.sublist_append_left _ _)
  | tagToEnd => exact List.sublist_append_left _ _
  | _ => exact List.Sublist.refl _

theorem sublist_along (calls : List (BufferCall TaggedLines)) (p : Sides) (t : TaggedLines) :
    (p.before ++ p.after).Sublist ((p.along t calls).before ++ (p.along t calls).after) :=
  rel_along (R := fun p q => (p.before ++ p.after).Sublist (q.before ++ q.after))
    (fun _ => List.Sublist.refl _) List.Sublist.trans (fun call _ => sublist_follow call) p t

/-- As long as the tag stays, both sides only grow at their ends. -/
theorem prefix_follow {call : BufferCall TaggedLines} (hcall : call.movesTag = false) (p : Sides)
    (style : LineStyle) :
    p.before <+: (p.follow style call).before ∧ p.after <+: (p.follow style call).after := by
  cases call with
  | writeTag text => exact ⟨List.prefix_append _ _, List.prefix_rfl⟩
  | writeEnd text => exact ⟨List.prefix_rfl, List.prefix_append _ _⟩
  | merge child => exact ⟨List.prefix_rfl, List.prefix_append _ _⟩
  | tagToEnd => cases hcall
  | tagToStart => cases hcall
  | _ => exact ⟨List.prefix_rfl, List.prefix_rfl⟩

theorem prefix_along {calls : List (BufferCall TaggedLines)}
    (hcalls : ∀ call ∈ calls, call.movesTag = false) (p : Sides) (t : TaggedLines) :
    p.before <+: (p.along t calls).before ∧ p.after <+: (p.along t calls).after :=
  rel_along (R := fun p q => p.before <+: q.before ∧ p.after <+: q.after)
    (fun _ => ⟨List.prefix_rfl, List.prefix_rfl⟩)
    (fun h h' => ⟨h.1.trans h'.1, h.2.trans h'.2⟩)
    (fun call hcall => prefix_follow (hcalls call hcall)) p t

end Sides

/-! ### Writes in any order -/

namespace Sides

variable (p : Sides) (t : TaggedLines)

theorem fed_nil : p.fed t [] [] = p := by
  unfold fed
  split <;> simp

theorem fed_fed (atTag atTag' atEnd atEnd' : List String) :
    (p.fed t atTag atEnd).fed t atTag' atEnd' = p.fed t (atTag ++ atTag') (atEnd ++ atEnd') := by
  unfold fed
  cases t.closed <;> cases t.tag.isSome <;> simp

end Sides

/-- The same style and state, and both with a tag or both without. -/
structure TaggedLines.Alike (t u : TaggedLines) : Prop where
  style : t.style = u.style
  closed : t.closed = u.closed
  tag : t.tag.isSome = u.tag.isSome

theorem Sides.fed_congr {t u : TaggedLines} (h : t.Alike u) (p : Sides)
    (atTag atEnd : List String) : p.fed t atTag atEnd = p.fed u atTag atEnd := by
  rw [fed, h.closed, h.tag, fed]

namespace TaggedLines

variable {t t' u : TaggedLines} {p : Sides} {call : BufferCall TaggedLines}
  {calls : List (BufferCall TaggedLines)}

theorem Alike.trans (h : t.Alike t') (h' : t'.Alike u) : t.Alike u :=
  ⟨h.style.trans h'.style, h.closed.trans h'.closed, h.tag.trans h'.tag⟩

/-- The two sides, the style and the state leave nothing open. -/
theorem Shows.eq_of_alike (h : t.Shows p) (h' : u.Shows p) (halike : t.Alike u) : t = u := by
  have htag : t.tag = u.tag := by
    have hsome := halike.tag
    cases ht : t.tag with
    | none =>
        rw [ht] at hsome
        exact (Option.isNone_iff_eq_none.1 (by simpa using hsome.symm)).symm
    | some n =>
        rw [ht] at hsome
        obtain ⟨m, hm⟩ := Option.isSome_iff_exists.1 hsome.symm
        rw [hm, h.tag n ht, h'.tag m hm]
  obtain ⟨lines, tag, style, closed⟩ := t
  obtain ⟨lines', tag', style', closed'⟩ := u
  cases htag
  cases halike.style
  cases halike.closed
  cases h.lines.trans h'.lines.symm
  rfl

/-- The lines that the calls of one kind bring, in their order. -/
def brought (style : LineStyle) (kind : BufferCall TaggedLines → Bool)
    (calls : List (BufferCall TaggedLines)) : List String :=
  (calls.filter kind).flatMap (·.brings style)

theorem brought_cons (style : LineStyle) (kind : BufferCall TaggedLines → Bool)
    (call : BufferCall TaggedLines) (calls : List (BufferCall TaggedLines)) :
    brought style kind (call :: calls) = brought style kind [call] ++ brought style kind calls := by
  rw [brought, brought, brought, ← List.flatMap_append, ← List.filter_append,
    List.singleton_append]

/-- One write feeds the side that it goes to. -/
theorem Shows.write (h : t.Shows p) (hwrites : call.writes = true) :
    ∃ u q, u.Shows q ∧ u.Alike t ∧
      q = p.fed t (brought t.style (·.writesTag) [call]) (brought t.style (·.writesEnd) [call]) ∧
      ∀ calls, t.after (call :: calls) = u.after calls ∧
        p.along t (call :: calls) = q.along u calls := by
  rcases h.inStep call with ⟨u, hdone, hfollows⟩ | ⟨stop, hstopped, hrefused⟩
  · obtain ⟨hopen, htagged⟩ := h.of_writes_ok hwrites hdone
    have halike : u.Alike t := by
      obtain ⟨hstyle, hclosed⟩ := hfollows.writes hwrites
      refine ⟨hstyle, hclosed, ?_⟩
      rw [hfollows.tag, BufferCall.movesTag_of_writes hwrites, Bool.or_false]
    refine ⟨u, _, hfollows.sides, halike, ?_, fun calls => ⟨?_, ?_⟩⟩
    · have hone := call.writesTag_and_writesEnd
      rcases Bool.or_eq_true_iff.1 hwrites with hcall | hcall
      · rw [hcall, Bool.true_and] at hone
        rw [Sides.follow_of_writesTag hcall]
        simp [Sides.fed, brought, hopen, htagged hcall, hcall, hone]
      · rw [hcall, Bool.and_true] at hone
        rw [Sides.follow_of_writesEnd hcall]
        simp [Sides.fed, brought, hopen, hcall, hone]
    · exact after_cons_of_ok hdone
    · exact along_cons_of_ok hdone
  · refine ⟨t, p, h, ⟨rfl, rfl, rfl⟩, ?_, fun calls => ⟨?_, ?_⟩⟩
    · rcases hrefused with ⟨-, hclosed, -⟩ | ⟨hcall, hopen, htag, -⟩
      · simp [Sides.fed, hclosed]
      · have hone := call.writesTag_and_writesEnd
        rw [hcall, Bool.true_and] at hone
        simp [Sides.fed, brought, hopen, htag, hone]
    · exact after_cons_of_error hstopped
    · exact along_cons_of_error hstopped

/-- Writes leave the lines for the tag and the lines for the end apart, whatever order they come
in. -/
theorem Shows.writes (h : t.Shows p) (hcalls : ∀ call ∈ calls, call.writes = true) :
    (t.after calls).Alike t ∧
      p.along t calls =
        p.fed t (brought t.style (·.writesTag) calls) (brought t.style (·.writesEnd) calls) := by
  induction calls generalizing t p with
  | nil => exact ⟨⟨rfl, rfl, rfl⟩, (p.fed_nil t).symm⟩
  | cons call calls ih =>
      obtain ⟨u, q, hu, halike, hq, hrest⟩ := h.write (hcalls call List.mem_cons_self)
      obtain ⟨hafter, halong⟩ := ih hu fun c hc => hcalls c (List.mem_cons_of_mem _ hc)
      rw [(hrest calls).1, (hrest calls).2]
      refine ⟨hafter.trans halike, ?_⟩
      rw [halong, halike.style, hq, Sides.fed_congr halike, Sides.fed_fed, ← brought_cons,
        ← brought_cons]

/-- Between two settings of the tag, the order of the writes to it among those to the end makes no
difference. -/
theorem Shows.after_eq (h : t.Shows p) {xs ys : List (BufferCall TaggedLines)}
    (hwrites : ∀ call ∈ xs ++ ys, call.writes = true)
    (htag : xs.filter (·.writesTag) = ys.filter (·.writesTag))
    (hend : xs.filter (·.writesEnd) = ys.filter (·.writesEnd)) : t.after xs = t.after ys := by
  obtain ⟨hx, hxs⟩ := h.writes fun call hcall => hwrites call (List.mem_append_left _ hcall)
  obtain ⟨hy, hys⟩ := h.writes fun call hcall => hwrites call (List.mem_append_right _ hcall)
  have hsides : p.along t xs = p.along t ys := by
    rw [hxs, hys, brought, brought, brought, brought, htag, hend]
  have hlast := (h.after ys).1
  rw [← hsides] at hlast
  exact (h.after xs).1.eq_of_alike hlast
    ⟨hx.style.trans hy.style.symm, hx.closed.trans hy.closed.symm, hx.tag.trans hy.tag.symm⟩

end TaggedLines

/-! ### The buffers of a run -/

namespace Buffer

variable {b b' : Buffer}

/-- The lines of a buffer in one list, and its tag. -/
def toTaggedLines (b : Buffer) : TaggedLines where
  lines := b.lines
  tag := b.tag
  style := b.style
  closed := b.closed

theorem tag_eq_some_iff {n : Nat} : b.tag = some n ↔ b.tagged = true ∧ b.ahead.length = n := by
  unfold tag
  cases b.tagged <;> simp

theorem tag_eq_none_iff : b.tag = none ↔ b.tagged = false := by
  unfold tag
  cases b.tagged <;> simp

theorem insertAtTag_eq_ok_iff {new : List String} :
    b.insertAtTag new = .ok b' ↔
      b.closed = false ∧ b.tagged = true ∧ b' = { b with ahead := new.reverse ++ b.ahead } := by
  unfold insertAtTag
  cases b.closed <;> cases b.tagged <;> simp [eq_comm]

/-- Lines put at the tag are spliced in at the place that the tag gives, and the tag moves behind
them. -/
theorem lines_insertAtTag {new : List String} (h : b.insertAtTag new = .ok b') :
    ∃ n, b.tag = some n ∧ b'.lines = b.lines.take n ++ new ++ b.lines.drop n ∧
      b'.tag = some (n + new.length) := by
  obtain ⟨_, htagged, rfl⟩ := insertAtTag_eq_ok_iff.1 h
  refine ⟨b.ahead.length, tag_eq_some_iff.2 ⟨htagged, rfl⟩, ?_, ?_⟩
  · have htake : (b.ahead.reverse ++ b.behind.reverse).take b.ahead.length = b.ahead.reverse :=
      List.take_left' List.length_reverse
    have hdrop : (b.ahead.reverse ++ b.behind.reverse).drop b.ahead.length = b.behind.reverse :=
      List.drop_left' List.length_reverse
    rw [lines_eq, lines_eq, htake, hdrop, List.reverse_append, List.reverse_reverse]
  · simp [tag, htagged, Nat.add_comm]

theorem insertAtTag_append (b : Buffer) (first second : List String) :
    b.insertAtTag (first ++ second) = b.insertAtTag first >>= (·.insertAtTag second) := by
  unfold insertAtTag
  cases b.closed <;> cases b.tagged <;> simp [bind, Except.bind]

/-- Texts written to the tag together stand there as if each had been written by itself. -/
theorem writeAllToTag_eq (b : Buffer) (texts : List String) :
    b.writeAllToTag texts = texts.foldlM (fun b text => b.writeToTag text) b := by
  induction texts generalizing b with
  | nil => rfl
  | cons text texts ih =>
      have hall : b.writeAllToTag (text :: texts) =
          b.insertAtTag (b.style.applyAll text) >>=
            (·.insertAtTag (texts.flatMap b.style.applyAll)) := insertAtTag_append b _ _
      rw [hall, List.foldlM_cons, writeToTag]
      cases hfirst : b.insertAtTag (b.style.applyAll text) with
      | error e => rfl
      | ok b' =>
          show b'.insertAtTag _ = List.foldlM _ b' texts
          obtain ⟨hclosed, htagged, rfl⟩ := insertAtTag_eq_ok_iff.1 hfirst
          rw [← ih]
          cases texts with
          | nil => simp [insertAtTag, writeAllToTag, hclosed, htagged]
          | cons next texts => rfl

/-- What a call on a buffer of a run gives. -/
def run (b : Buffer) : BufferCall Buffer → Except Error Buffer
  | .decorate opening closing => .ok (b.pushDecoration opening closing)
  | .undecorate => .ok b.popDecoration.2
  | .setFilter filter => .ok (b.setFilter filter)
  | .skipBlank on => .ok (b.setSkipBlank on)
  | .inherit other => .ok (b.inheritStyle other)
  | .tagToEnd => .ok b.setTagToEnd
  | .tagToStart => .ok b.setTagToStart
  | .writeEnd text => b.writeToEnd text
  | .writeTag text => b.writeToTag text
  | .merge child => b.merge child
  | .close => .ok b.close

/-- The buffer that a run goes on with. -/
def next (b : Buffer) (call : BufferCall Buffer) : Buffer :=
  match b.run call with
  | .ok b' => b'
  | .error _ => b

/-- An outcome for a buffer of a run, as the outcome for its lines and its tag. -/
def outcome (b : Buffer) : Except Error Buffer → EStateM.Result Stop TaggedLines Unit
  | .ok b' => .ok () b'.toTaggedLines
  | .error e => .error (.error e) b.toTaggedLines

theorem outcome_append (b : Buffer) (new : List String) :
    b.outcome (b.append new) =
      if b.closed then .error (.error .bufferClosed) b.toTaggedLines
      else .ok () { b.toTaggedLines with lines := b.lines ++ new } := by
  cases happend : b.append new with
  | ok b' =>
      have hlines := lines_append happend
      obtain ⟨hopen, rfl⟩ := append_eq_ok_iff.1 happend
      rw [if_neg (by simp [hopen]), ← hlines]
      rfl
  | error e =>
      unfold append at happend
      cases hclosed : b.closed <;> simp_all [outcome]

theorem outcome_insertAtTag {n : Nat} (htag : b.tag = some n) (new : List String) :
    b.outcome (b.insertAtTag new) =
      if b.closed then .error (.error .bufferClosed) b.toTaggedLines
      else .ok ()
        { b.toTaggedLines with
          lines := b.lines.take n ++ new ++ b.lines.drop n
          tag := some (n + new.length) } := by
  cases hinsert : b.insertAtTag new with
  | ok b' =>
      obtain ⟨m, hm, hlines, htag'⟩ := lines_insertAtTag hinsert
      obtain ⟨hopen, -, rfl⟩ := insertAtTag_eq_ok_iff.1 hinsert
      cases htag.symm.trans hm
      rw [if_neg (by simp [hopen]), ← hlines, ← htag']
      rfl
  | error e =>
      have htagged := (tag_eq_some_iff.1 htag).1
      unfold insertAtTag at hinsert
      cases hclosed : b.closed <;> simp_all [outcome]

/-- The buffers of a run do what lines with a stored tag do. -/
theorem exec_toTaggedLines (b : Buffer) (call : BufferCall Buffer) :
    TaggedLines.exec (call.map toTaggedLines) b.toTaggedLines = b.outcome (b.run call) := by
  cases call with
  | writeEnd text =>
      rw [TaggedLines.exec_of_writesEnd rfl]
      exact (b.outcome_append _).symm
  | merge child =>
      rw [TaggedLines.exec_of_writesEnd rfl]
      exact (b.outcome_append _).symm
  | writeTag text =>
      cases htag : b.tag with
      | none =>
          rw [TaggedLines.exec_of_writesTag_of_tag_eq_none rfl htag]
          show _ = b.outcome (b.insertAtTag _)
          unfold insertAtTag
          rw [tag_eq_none_iff.1 htag]
          cases hclosed : b.closed <;> simp [outcome, toTaggedLines, hclosed]
      | some n =>
          have hle : n ≤ b.lines.length := by
            rw [← (tag_eq_some_iff.1 htag).2, lines_eq]
            simp
          rw [TaggedLines.exec_of_writesTag rfl htag hle]
          exact (outcome_insertAtTag htag _).symm
  | tagToEnd =>
      show EStateM.Result.ok () _ = EStateM.Result.ok () _
      simp [toTaggedLines, lines, setTagToEnd, tag, newest_eq, Nat.add_comm]
  | tagToStart =>
      show EStateM.Result.ok () _ = EStateM.Result.ok () _
      simp [toTaggedLines, lines, setTagToStart, tag, newest_eq]
  | _ => rfl

theorem toTaggedLines_next (b : Buffer) (call : BufferCall Buffer) :
    (b.next call).toTaggedLines = b.toTaggedLines.next (call.map toTaggedLines) := by
  rw [TaggedLines.next, exec_toTaggedLines, next]
  cases b.run call <;> rfl

/-- The same holds for sequences of calls. -/
theorem toTaggedLines_foldl (b : Buffer) (calls : List (BufferCall Buffer)) :
    (calls.foldl next b).toTaggedLines =
      b.toTaggedLines.after (calls.map (·.map toTaggedLines)) := by
  induction calls generalizing b with
  | nil => rfl
  | cons call calls ih =>
      rw [List.foldl_cons, ih, toTaggedLines_next]
      rfl

end Buffer

namespace TaggedLines

/-- After any calls on new lines, there are two sides: the lines are those before and those after,
and the tag, which is there as soon as one has been set, is the number of lines before. So it is at
most the number of all lines. Every further call is done, and does on the sides what it says, or is
refused, because the buffer is closed or has no tag to write to, and then lines, tag and style are
as they were; no splice ever misses its place. No later call takes a line away or lets lines change
places, and while the tag stays both sides grow at their ends only. Between two settings of the tag
and of the style, writes to the tag and writes to the end give the same in every order that keeps
the order of each kind. The buffers of a run go through the same lines and tags, with the same
errors, and write texts to the tag together as if one by one. -/
theorem shows_sides (calls : List (BufferCall TaggedLines)) :
    let t := after {} calls
    let p := Sides.along {} {} calls
    t.lines = p.before ++ p.after ∧
    t.tag = (if calls.any (·.movesTag) then some p.before.length else none) ∧
    (∀ n, t.tag = some n → n ≤ t.lines.length) ∧
    (∀ call t', exec call t = .ok () t' → t'.Shows (p.follow t.style call)) ∧
    (∀ call stop t', exec call t = .error stop t' ↔ t' = t ∧ call.Refused t stop) ∧
    (∀ more, t.lines.Sublist (t.after more).lines ∧
      ((∀ call ∈ more, call.movesTag = false) →
        p.before <+: (p.along t more).before ∧ p.after <+: (p.along t more).after)) ∧
    (∀ xs ys, (∀ call ∈ xs ++ ys, call.writes = true) →
      xs.filter (·.writesTag) = ys.filter (·.writesTag) →
      xs.filter (·.writesEnd) = ys.filter (·.writesEnd) → t.after xs = t.after ys) ∧
    ∀ own : List (BufferCall Buffer), calls = own.map (·.map Buffer.toTaggedLines) →
      let b := own.foldl Buffer.next {}
      b.toTaggedLines = t ∧
      (∀ call, exec (call.map Buffer.toTaggedLines) t = b.outcome (b.run call)) ∧
      ∀ texts, b.writeAllToTag texts = texts.foldlM (fun b text => b.writeToTag text) b := by
  intro t p
  have hnew : Shows {} {} := ⟨rfl, nofun⟩
  obtain ⟨hshows, htagged⟩ := hnew.after calls
  refine ⟨hshows.lines, ?_, fun n => hshows.tag_le, ?_, ?_, ?_, ?_, ?_⟩
  · rw [hshows.tag_eq, htagged]
    rfl
  · intro call t' hdone
    rcases hshows.inStep call with ⟨u, hdone', hfollows⟩ | ⟨stop, hstopped, -⟩
    · cases hdone.symm.trans hdone'
      exact hfollows.sides
    · cases hdone.symm.trans hstopped
  · exact fun call stop t' => hshows.exec_eq_error_iff
  · intro more
    refine ⟨?_, fun hmore => Sides.prefix_along hmore p t⟩
    rw [hshows.lines, (hshows.after more).1.lines]
    exact Sides.sublist_along more p t
  · exact fun xs ys => hshows.after_eq
  · rintro own rfl b
    have hb : b.toTaggedLines = t := Buffer.toTaggedLines_foldl {} own
    refine ⟨hb, fun call => ?_, b.writeAllToTag_eq⟩
    rw [← hb]
    exact b.exec_toTaggedLines call

/-- Declarations written to the tag while the body of a template is written to the end, and both one
after the other. Once the buffer is closed, nothing is written any more. -/
theorem shows_sides_declarations :
    let own : List (BufferCall Buffer) :=
      [.writeTag "lost", .writeEnd "header", .tagToEnd, .decorate "" ";"]
    let mixed : List (BufferCall TaggedLines) :=
      [.writeEnd "body 1", .writeTag "decl 1", .writeEnd "body 2", .writeTag "decl 2\ndecl 3"]
    let sorted : List (BufferCall TaggedLines) :=
      [.writeTag "decl 1", .writeTag "decl 2\ndecl 3", .writeEnd "body 1", .writeEnd "body 2"]
    let t := after {} (own.map (·.map Buffer.toTaggedLines))
    let closed := t.next .close
    (own.foldl Buffer.next {}).toTaggedLines = t ∧ t.tag = some 1 ∧
      t.after mixed = t.after sorted ∧
      (t.after mixed).lines = ["header", "decl 1;", "decl 2;", "decl 3;", "body 1;", "body 2;"] ∧
      t.lines.Sublist (t.after mixed).lines ∧
      exec (.writeTag "late") closed = .error (.error .bufferClosed) closed := by
  intro own mixed sorted t closed
  obtain ⟨-, htag, -, -, -, hlater, horder, hown⟩ :=
    shows_sides (own.map (·.map Buffer.toTaggedLines))
  obtain ⟨-, -, -, -, hrefused, -⟩ :=
    shows_sides (own.map (·.map Buffer.toTaggedLines) ++ [.close])
  refine ⟨(hown own rfl).1, htag, horder mixed sorted (by decide) rfl rfl, by decide +kernel,
    (hlater mixed).1, ?_⟩
  exact (hrefused (.writeTag "late") _ _).2 ⟨rfl, Or.inl ⟨rfl, rfl, rfl⟩⟩

end TaggedLines

end TensorTemplate
