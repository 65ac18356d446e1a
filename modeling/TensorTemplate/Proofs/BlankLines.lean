import TensorTemplate.Proofs.BufferSides

/-!
Blank lines that are skipped.

Where blank lines are skipped, a row is dropped if it is blank as it stands in the text,
before the filter and the decorations. What the row looks like in the buffer plays no
part: a row that only its delimiters make visible is dropped all the same, and a row that
the filter empties is kept. So the lines that enter a buffer are the decorated rows that
are not blank exactly if filter and decorations make no row blank and no blank row visible.
-/

namespace TensorTemplate

namespace LineStyle

/-- The row as the filter leaves it. -/
def filtered (s : LineStyle) (row : String) : String :=
  match s.filter with
  | some f => f row
  | none => row

/-- The row inside all decorations: the outermost opening first, the outermost closing last. -/
def decorated (s : LineStyle) (row : String) : String :=
  String.join (s.decorations.reverse.map (·.opening)) ++ s.filtered row ++
    String.join (s.decorations.map (·.closing))

theorem surround_eq (decorations : List Decoration) (row : String) :
    surround decorations row =
      String.join (decorations.reverse.map (·.opening)) ++ row ++
        String.join (decorations.map (·.closing)) := by
  induction decorations generalizing row with
  | nil => simp [surround]
  | cons d ds ih =>
      have hstep : surround (d :: ds) row = surround ds (d.opening ++ row ++ d.closing) := rfl
      rw [hstep, ih]
      simp [String.join_append, String.append_assoc]

/-- The rows that are not blank themselves, each in its decorated form. -/
theorem applyAll_eq {s : LineStyle} (hskip : s.skipBlank = true) (text : String) :
    s.applyAll text = ((Text.rows text).filter fun row => !Text.blank row).map s.decorated := by
  have happly : ∀ row, s.apply row = if Text.blank row then none else some (s.decorated row) := by
    intro row
    simp only [apply, hskip, Bool.true_and, surround_eq]
    rfl
  rw [applyAll]
  induction Text.rows text with
  | nil => rfl
  | cons row rows ih =>
      rw [List.filterMap_cons, happly, ih]
      cases hblank : Text.blank row <;> simp [hblank]

end LineStyle

/-- To choose before a map and to choose after it comes to the same exactly if the choices agree. -/
theorem map_filter_eq_filter_map_iff {α β : Type} {f : α → β} {p : α → Bool} {q : β → Bool}
    {as : List α} :
    (as.filter p).map f = (as.map f).filter q ↔ ∀ a ∈ as, q (f a) = p a := by
  rw [List.filter_map]
  constructor
  · intro h
    have himp : ∀ a ∈ as, p a = true → q (f a) = true := by
      intro a ha hp
      have hmem : f a ∈ (as.filter (q ∘ f)).map f := by
        rw [← h]
        exact List.mem_map_of_mem (List.mem_filter.2 ⟨ha, hp⟩)
      obtain ⟨b, hb, hfb⟩ := List.mem_map.1 hmem
      rw [← hfb]
      exact (List.mem_filter.1 hb).2
    -- the first choice is among the second one, and they are equally many
    have hsub : (as.filter p).Sublist (as.filter (q ∘ f)) := by
      have hboth : as.filter p = (as.filter (q ∘ f)).filter p := by
        rw [List.filter_filter]
        refine List.filter_congr fun a ha => ?_
        cases hp : p a with
        | false => rfl
        | true => exact (himp a ha hp).symm
      rw [hboth]
      exact List.filter_sublist
    have hlength : (as.filter p).length = (as.filter (q ∘ f)).length := by
      simpa using congrArg List.length h
    have hsame := hsub.eq_of_length hlength
    intro a ha
    rw [Bool.eq_iff_iff]
    refine ⟨fun hq => ?_, himp a ha⟩
    have hmem : a ∈ as.filter p := hsame ▸ List.mem_filter.2 ⟨ha, hq⟩
    exact (List.mem_filter.1 hmem).2
  · intro h
    rw [List.filter_congr fun a ha => (h a ha).symm]
    rfl

namespace Buffer

variable {b : Buffer}

/-- Where blank lines are skipped, a text brings the decorated forms of its rows that are not blank
themselves, in order, to the end or to the tag. These are the decorated rows that are not blank
exactly if filter and decorations leave every blank row blank and every other row visible. -/
theorem writes_visible_rows (hopen : b.closed = false) (hskip : b.style.skipBlank = true)
    (text : String) :
    let rows := Text.rows text
    let new := (rows.filter fun row => !Text.blank row).map b.style.decorated
    (∃ b', b.writeToEnd text = .ok b' ∧ b'.lines = b.lines ++ new) ∧
      (∀ n, b.tag = some n → ∃ b', b.writeToTag text = .ok b' ∧
        b'.lines = b.lines.take n ++ new ++ b.lines.drop n ∧ b'.tag = some (n + new.length)) ∧
      (new = (rows.map b.style.decorated).filter (fun line => !Text.blank line) ↔
        ∀ row ∈ rows, Text.blank (b.style.decorated row) = Text.blank row) := by
  intro rows new
  have hnew : b.style.applyAll text = new := LineStyle.applyAll_eq hskip text
  refine ⟨?_, ?_, ?_⟩
  · have hwrite : b.writeToEnd text = .ok { b with behind := new.reverse ++ b.behind } := by
      rw [writeToEnd, hnew]
      exact append_eq_ok_iff.2 ⟨hopen, rfl⟩
    exact ⟨_, hwrite, lines_append (hnew ▸ hwrite)⟩
  · intro n htag
    obtain ⟨htagged, hlength⟩ := tag_eq_some_iff.1 htag
    have hwrite : b.insertAtTag new = .ok { b with ahead := new.reverse ++ b.ahead } :=
      insertAtTag_eq_ok_iff.2 ⟨hopen, htagged, rfl⟩
    obtain ⟨m, hm, hlines, htag'⟩ := lines_insertAtTag hwrite
    cases hm.symm.trans htag
    exact ⟨_, by rw [writeToTag, hnew, hwrite], hlines, htag'⟩
  · rw [map_filter_eq_filter_map_iff]
    simp only [Bool.not_inj_iff]

/-- Blanks in front of every line change nothing about which lines are blank. -/
theorem writes_visible_rows_indented :
    let b := ((setSkipBlank {} true).pushDecoration "  " "").setTagToEnd
    ∃ b', b.writeToTag "a\n\t\nb" = .ok b' ∧ b'.lines = ["  a", "  b"] ∧ b'.tag = some 2 ∧
      ((Text.rows "a\n\t\nb").map b.style.decorated).filter (fun line => !Text.blank line) =
        ["  a", "  b"] := by
  intro b
  obtain ⟨-, htag, hiff⟩ := writes_visible_rows (b := b) rfl rfl "a\n\t\nb"
  obtain ⟨b', hwrite, hlines, htag'⟩ := htag 0 rfl
  have hsame := hiff.2 (by decide +kernel)
  have hnew : ((Text.rows "a\n\t\nb").filter fun row => !Text.blank row).map b.style.decorated =
      ["  a", "  b"] := by decide +kernel
  rw [hnew] at hlines htag' hsame
  exact ⟨b', hwrite, hlines, htag', hsame.symm⟩

/-- A blank row between delimiters of string literals is dropped, though its decorated form is a
line like the others. -/
theorem blank_literal_dropped :
    let b := ((setSkipBlank {} true).pushDecoration "\"" "\\n\"").setFilter
      (some Backend.cpp.escape)
    ∃ b', b.writeToEnd "a\n\nb" = .ok b' ∧ b'.lines = ["\"a\\n\"", "\"b\\n\""] ∧
      ((Text.rows "a\n\nb").map b.style.decorated).filter (fun line => !Text.blank line) =
        ["\"a\\n\"", "\"\\n\"", "\"b\\n\""] := by
  refine ⟨_, rfl, ?_, ?_⟩ <;> decide +kernel

end Buffer

end TensorTemplate
