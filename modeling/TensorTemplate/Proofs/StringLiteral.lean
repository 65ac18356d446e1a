import TensorTemplate.Backend
import TensorTemplate.Buffer
import Mathlib.Logic.Function.Iterate

/-!
Lines in string literals.

A template that is embedded has its lines escaped and put between delimiters as they
are written. A template embedded in it inherits the delimiters and adds its own, but
the filter that escapes takes the place of the inherited one, so its lines are escaped
once and enclosed twice. Only lines that are inside no embedding yet become proper
literals when their template is embedded.

Two buffers are compared here line by line, of which the second is inside one more
embedding than the first; what is written to both keeps them so.
-/

namespace TensorTemplate

namespace Backend

variable (b : Backend)

/-- The line between the delimiters of a string literal. -/
def enclose (line : String) : String :=
  b.stringDelimiters.1 ++ line ++ b.stringDelimiters.2

/-- The line inside `k` embeddings: escaped once, and enclosed by each of them. -/
def embedded : Nat → String → String
  | 0, line => line
  | k + 1, line => b.enclose^[k + 1] (b.escape line)

theorem embedded_succ_succ (k : Nat) (line : String) :
    b.embedded (k + 2) line = b.enclose (b.embedded (k + 1) line) :=
  Function.iterate_succ_apply' b.enclose (k + 1) (b.escape line)

theorem enclose_injective : Function.Injective b.enclose := by
  intro line line' h
  have hlist := congrArg String.toList h
  simp only [enclose, String.toList_append, List.append_assoc, List.append_cancel_left_eq,
    List.append_cancel_right_eq] at hlist
  exact String.toList_injective hlist

/-! ### Escaping -/

theorem length_escapedChar (c : Char) : 1 ≤ (escapedChar c).length := by
  unfold escapedChar
  split <;> simp

theorem length_le_length_escape (cs : List Char) : cs.length ≤ (cs.flatMap escapedChar).length := by
  induction cs with
  | nil => simp
  | cons c cs ih =>
      have hc := length_escapedChar c
      simp only [List.flatMap_cons, List.length_append, List.length_cons]
      omega

/-- A line with a quote in it is changed by escaping. -/
theorem escape_ne_self {line : String} (h : '"' ∈ line.toList) : b.escape line ≠ line := by
  intro heq
  have hlist := congrArg String.toList heq
  obtain ⟨front, back, hsplit⟩ := List.append_of_mem h
  rw [escape, String.toList_ofList, hsplit, List.flatMap_append, List.flatMap_cons] at hlist
  have hlength := congrArg List.length hlist
  have hfront := length_le_length_escape front
  have hback := length_le_length_escape back
  have hquote : (escapedChar '"').length = 2 := by decide
  simp only [List.length_append, List.length_cons, hquote] at hlength
  omega

theorem quote_mem_enclose (line : String) : '"' ∈ (b.enclose line).toList := by
  cases b <;> simp [enclose, stringDelimiters]

/-- One more embedding makes a literal of a line exactly if the line is not inside one already. -/
theorem embedded_succ_eq_iff (k : Nat) (line : String) :
    b.embedded (k + 1) line = b.enclose (b.escape (b.embedded k line)) ↔ k = 0 := by
  cases k with
  | zero => simp [embedded]
  | succ k =>
      constructor
      · intro h
        rw [embedded_succ_succ] at h
        have hfixed := b.enclose_injective h
        -- the line has the delimiters of the embedding around it, and these hold quotes
        have hquote : '"' ∈ (b.embedded (k + 1) line).toList := by
          rw [embedded, Function.iterate_succ_apply']
          exact b.quote_mem_enclose _
        exact absurd hfixed.symm (b.escape_ne_self hquote)
      · intro h
        cases h

/-- One more embedding makes literals of all the lines exactly if none is inside one already. -/
theorem map_embedded_succ_eq_iff (rows : List (Nat × String)) :
    rows.map (fun row => b.embedded (row.1 + 1) row.2) =
        (rows.map fun row => b.embedded row.1 row.2).map (fun line => b.enclose (b.escape line)) ↔
      ∀ row ∈ rows, row.1 = 0 := by
  rw [List.map_map, List.map_inj_left]
  exact forall₂_congr fun row _ => b.embedded_succ_eq_iff row.1 row.2

/-! ### The style of an embedded template -/

/-- The style of a template inside `k` embeddings, none of whose other settings is a decoration or a
filter. -/
def literalStyle (skipBlank : Bool) (k : Nat) : LineStyle where
  decorations := List.replicate k ⟨b.stringDelimiters.1, b.stringDelimiters.2⟩
  skipBlank
  filter := if k = 0 then none else some b.escape

theorem literalStyle_zero {style : LineStyle} (hdecorations : style.decorations = [])
    (hfilter : style.filter = none) : style = b.literalStyle style.skipBlank 0 := by
  cases style
  cases hdecorations
  cases hfilter
  rfl

/-- The rows of a text that are not skipped. -/
def keptRows (skipBlank : Bool) (text : String) : List String :=
  (Text.rows text).filter fun line => !(skipBlank && Text.blank line)

theorem surround_replicate (k : Nat) (line : String) :
    LineStyle.surround
        (List.replicate k ⟨b.stringDelimiters.1, b.stringDelimiters.2⟩) line =
      b.enclose^[k] line := by
  induction k generalizing line with
  | zero => rfl
  | succ k ih =>
      rw [Function.iterate_succ_apply, ← ih]
      rfl

theorem apply_literalStyle (skipBlank : Bool) (k : Nat) (line : String) :
    (b.literalStyle skipBlank k).apply line =
      if skipBlank && Text.blank line then none else some (b.embedded k line) := by
  simp only [LineStyle.apply, literalStyle, surround_replicate]
  cases k with
  | zero => rfl
  | succ k => rfl

theorem applyAll_literalStyle (skipBlank : Bool) (k : Nat) (text : String) :
    (b.literalStyle skipBlank k).applyAll text =
      (keptRows skipBlank text).map (b.embedded k) := by
  rw [LineStyle.applyAll, keptRows]
  induction Text.rows text with
  | nil => rfl
  | cons line rows ih =>
      rw [List.filterMap_cons, apply_literalStyle, List.filter_cons, ih]
      cases skipBlank && Text.blank line with
      | true => rfl
      | false => rfl

/-! ### One embedding more -/

/-- Lines inside some embeddings, and the same lines inside one more each. A line is inside an
embedding to begin with only if `D` holds. -/
def Deeper (D : Prop) (lines lines' : List String) : Prop :=
  ∃ rows : List (Nat × String), (∀ row ∈ rows, row.1 = 0 ∨ D) ∧
    lines = rows.map (fun row => b.embedded row.1 row.2) ∧
    lines' = rows.map fun row => b.embedded (row.1 + 1) row.2

namespace Deeper

variable {b} {D : Prop} {xs xs' ys ys' : List String}

protected theorem nil : b.Deeper D [] [] := ⟨[], by simp, rfl, rfl⟩

protected theorem append (hx : b.Deeper D xs xs') (hy : b.Deeper D ys ys') :
    b.Deeper D (xs ++ ys) (xs' ++ ys') := by
  obtain ⟨rows, hrows, rfl, rfl⟩ := hx
  obtain ⟨others, hothers, rfl, rfl⟩ := hy
  refine ⟨rows ++ others, ?_, by simp, by simp⟩
  intro row hrow
  rcases List.mem_append.1 hrow with hrow | hrow
  · exact hrows row hrow
  · exact hothers row hrow

protected theorem reverse (h : b.Deeper D xs xs') : b.Deeper D xs.reverse xs'.reverse := by
  obtain ⟨rows, hrows, rfl, rfl⟩ := h
  refine ⟨rows.reverse, ?_, by simp, by simp⟩
  intro row hrow
  exact hrows row (List.mem_reverse.1 hrow)

theorem mono {D' : Prop} (h : b.Deeper D xs xs') (hD : D → D') : b.Deeper D' xs xs' := by
  obtain ⟨rows, hrows, hxs, hxs'⟩ := h
  exact ⟨rows, fun row hrow => (hrows row hrow).imp_right hD, hxs, hxs'⟩

/-- What is written to templates inside `k` embeddings and inside one more. -/
theorem written {k : Nat} (hk : k = 0 ∨ D) (skipBlank : Bool) (texts : List String) :
    b.Deeper D (texts.flatMap (b.literalStyle skipBlank k).applyAll)
      (texts.flatMap (b.literalStyle skipBlank (k + 1)).applyAll) := by
  induction texts with
  | nil => exact .nil
  | cons text texts ih =>
      refine Deeper.append ?_ ih
      refine ⟨(keptRows skipBlank text).map fun line => (k, line), ?_, ?_, ?_⟩
      · intro row hrow
        obtain ⟨line, _, rfl⟩ := List.mem_map.1 hrow
        exact hk
      · rw [applyAll_literalStyle, List.map_map]
        rfl
      · rw [applyAll_literalStyle, List.map_map]
        rfl

end Deeper

end Backend

/-! ### Buffers -/

namespace Buffer

/-- The second buffer is filled as the first one, inside one more embedding than its `k`. -/
structure Embeds (b : Backend) (D : Prop) (k : Nat) (c c' : Buffer) : Prop where
  style : ∃ skipBlank, c.style = b.literalStyle skipBlank k ∧
    c'.style = b.literalStyle skipBlank (k + 1)
  ahead : b.Deeper D c.ahead c'.ahead
  behind : b.Deeper D c.behind c'.behind
  tagged : c'.tagged = c.tagged
  handlers : c'.handlers = c.handlers
  nextHandler : c'.nextHandler = c.nextHandler
  closed : c'.closed = c.closed

namespace Embeds

variable {b : Backend} {D : Prop} {k : Nat} {c c' d : Buffer}

theorem mono {D' : Prop} (h : c.Embeds b D k c') (hD : D → D') : c.Embeds b D' k c' :=
  ⟨h.style, h.ahead.mono hD, h.behind.mono hD, h.tagged, h.handlers, h.nextHandler, h.closed⟩

theorem newest (h : c.Embeds b D k c') : b.Deeper D c.newest c'.newest := by
  rw [newest_eq, newest_eq]
  exact h.behind.append h.ahead

theorem lines (h : c.Embeds b D k c') : b.Deeper D c.lines c'.lines := h.newest.reverse

theorem append (h : c.Embeds b D k c') {new new' : List String} (hnew : b.Deeper D new new')
    (hd : c.append new = .ok d) : ∃ d', c'.append new' = .ok d' ∧ d.Embeds b D k d' := by
  obtain ⟨hopen, rfl⟩ := append_eq_ok_iff.1 hd
  refine ⟨_, append_eq_ok_iff.2 ⟨h.closed.trans hopen, rfl⟩, ?_⟩
  exact ⟨h.style, h.ahead, hnew.reverse.append h.behind, h.tagged, h.handlers, h.nextHandler,
    h.closed⟩

theorem register (h : c.Embeds b D k c') (handler : Handler) :
    (c.register handler).2.Embeds b D k (c'.register handler).2 := by
  refine ⟨h.style, h.ahead, h.behind, h.tagged, ?_, ?_, h.closed⟩
  · simp only [Buffer.register, h.handlers, h.nextHandler]
  · simp only [Buffer.register, h.nextHandler]

theorem takeHandlers (h : c.Embeds b D k c') : c.takeHandlers.2.Embeds b D k c'.takeHandlers.2 :=
  ⟨h.style, h.ahead, h.behind, h.tagged, rfl, h.nextHandler, h.closed⟩

end Embeds

/-- The change can be made to the second buffer if it can be made to the first, and keeps them
alike. -/
def Echoes (b : Backend) (change : Buffer → Except Error Buffer) : Prop :=
  ∀ {D : Prop} {k : Nat} {c c' d : Buffer}, k = 0 ∨ D → c.Embeds b D k c' → change c = .ok d →
    ∃ d', change c' = .ok d' ∧ d.Embeds b D k d'

variable {b : Backend}

theorem echoes_writeToEnd (text : String) : Echoes b (·.writeToEnd text) := by
  intro D k c c' d hk h hd
  obtain ⟨skipBlank, hstyle, hstyle'⟩ := h.style
  have hnew := Backend.Deeper.written (b := b) hk skipBlank [text]
  rw [List.flatMap_singleton, List.flatMap_singleton, ← hstyle, ← hstyle'] at hnew
  exact h.append hnew hd

theorem echoes_writeAllToTag (texts : List String) : Echoes b (·.writeAllToTag texts) := by
  intro D k c c' d hk h hd
  obtain ⟨skipBlank, hstyle, hstyle'⟩ := h.style
  have hnew := Backend.Deeper.written (b := b) hk skipBlank texts
  rw [← hstyle, ← hstyle'] at hnew
  simp only [writeAllToTag, insertAtTag] at hd ⊢
  rw [h.closed, h.tagged]
  split at hd
  · rename_i hempty
    cases hd
    exact ⟨c', by rw [if_pos hempty], h⟩
  · rename_i htexts
    rw [if_neg htexts]
    split at hd
    · cases hd
    · rename_i hopen
      rw [if_neg hopen]
      split at hd
      · rename_i htagged
        cases hd
        rw [if_pos htagged]
        exact ⟨_, rfl, h.style, hnew.reverse.append h.ahead, h.behind, rfl, h.handlers,
          h.nextHandler, rfl⟩
      · cases hd

theorem echoes_setTagToEnd : Echoes b (pure ·.setTagToEnd) := by
  intro D k c c' d hk h hd
  cases hd
  exact ⟨_, rfl, h.style, h.newest, .nil, rfl, h.handlers, h.nextHandler, h.closed⟩

theorem echoes_setTagToStart : Echoes b (pure ·.setTagToStart) := by
  intro D k c c' d hk h hd
  cases hd
  exact ⟨_, rfl, h.style, .nil, h.newest, rfl, h.handlers, h.nextHandler, h.closed⟩

theorem echoes_deregister (id : Nat) : Echoes b (pure <| ·.deregister id) := by
  intro D k c c' d hk h hd
  cases hd
  refine ⟨_, rfl, h.style, h.ahead, h.behind, h.tagged, ?_, h.nextHandler, h.closed⟩
  rw [deregister, deregister, h.handlers]

theorem echoes_close : Echoes b (pure ·.close) := by
  intro D k c c' d hk h hd
  cases hd
  exact ⟨_, rfl, h.style, h.ahead, h.behind, h.tagged, h.handlers, h.nextHandler, rfl⟩

end Buffer

end TensorTemplate
