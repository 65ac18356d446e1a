import TensorTemplate.Proofs.WrittenLine

/-!
Calls that are read back from what is shown of them.

A call is rendered with its arguments as they are, without quotes around them. It can
be read back if no argument holds a quote, a brace without its partner, or a comma
outside of braces, and none has blanks at its ends. Empty arguments are read back too,
but a single one is not: braces with nothing in them are an empty argument list.
-/

namespace TensorTemplate

namespace Segment

/-! ### Braces -/

/-- The braces of a text in front of which `depth` of them are open, and the commas inside them. -/
structure Nested (depth : Nat) (cs : List Char) : Prop where
  /-- No more are closed than were opened, however much of the text is read. -/
  opened : ∀ n ≤ cs.length, (cs.take n).count '\x7d' ≤ depth + (cs.take n).count '\x7b'
  /-- All are closed in the end. -/
  closed : cs.count '\x7d' = depth + cs.count '\x7b'
  /-- Where a comma stands, one is open. -/
  commas : ∀ n < cs.length, cs[n]? = some ',' →
    (cs.take n).count '\x7d' < depth + (cs.take n).count '\x7b'

instance (depth : Nat) (cs : List Char) : Decidable (Nested depth cs) :=
  decidable_of_iff
    ((∀ n ≤ cs.length, (cs.take n).count '\x7d' ≤ depth + (cs.take n).count '\x7b') ∧
      cs.count '\x7d' = depth + cs.count '\x7b' ∧
      ∀ n < cs.length, cs[n]? = some ',' →
        (cs.take n).count '\x7d' < depth + (cs.take n).count '\x7b')
    ⟨fun ⟨hopened, hclosed, hcommas⟩ => ⟨hopened, hclosed, hcommas⟩,
      fun h => ⟨h.opened, h.closed, h.commas⟩⟩

namespace Nested

variable {depth : Nat} {c : Char} {cs : List Char}

/-- Behind the first character, the brace that it opens or closes counts for the depth. -/
theorem tail (h : Nested depth (c :: cs)) {depth' : Nat}
    (hdepth : depth + [c].count '\x7b' = depth' + [c].count '\x7d') : Nested depth' cs := by
  rw [List.count_singleton, List.count_singleton] at hdepth
  refine ⟨fun n hn => ?_, ?_, fun n hn hcomma => ?_⟩
  · have hopened := h.opened (n + 1) (Nat.succ_le_succ hn)
    rw [List.take_succ_cons, List.count_cons, List.count_cons] at hopened
    omega
  · have hclosed := h.closed
    rw [List.count_cons, List.count_cons] at hclosed
    omega
  · have hcommas := h.commas (n + 1) (Nat.succ_lt_succ hn) hcomma
    rw [List.take_succ_cons, List.count_cons, List.count_cons] at hcommas
    omega

theorem depth_pos_of_comma (h : Nested depth (',' :: cs)) : 0 < depth := by
  simpa using h.commas 0 (Nat.zero_lt_succ _) rfl

theorem depth_pos_of_close (h : Nested depth ('\x7d' :: cs)) : 0 < depth := by
  have hopened : 1 ≤ depth := by simpa using h.opened 1 (Nat.succ_le_succ (Nat.zero_le _))
  exact hopened

end Nested

/-- A character of a nested text is read as one of the argument. -/
theorem rawArgs?_cons {depth : Nat} {c : Char} {cs : List Char} (hquote : c ≠ '"')
    (h : Nested depth (c :: cs)) :
    ∃ depth', Nested depth' cs ∧
      ∀ rest, rawArgs? depth false (c :: rest) = (rawArgs? depth' false rest).map (·.push c) := by
  by_cases hopen : c = '\x7b'
  · subst hopen
    exact ⟨depth + 1, h.tail (by simp), fun rest => by rw [rawArgs?, if_neg (by decide)]⟩
  by_cases hclose : c = '\x7d'
  · subst hclose
    obtain ⟨depth', rfl⟩ := Nat.exists_eq_add_of_lt h.depth_pos_of_close
    rw [Nat.zero_add] at h ⊢
    exact ⟨depth', h.tail (by simp), fun rest => by rw [rawArgs?, if_neg (by decide)]⟩
  · refine ⟨depth, h.tail (by simp [hopen, hclose]), fun rest => ?_⟩
    have hcomma : c = ',' → depth ≠ 0 := by
      rintro rfl
      exact Nat.ne_of_gt h.depth_pos_of_comma
    rw [rawArgs?.eq_def]
    split <;> simp_all

/-- A nested text without quotes is read up to its end. -/
theorem rawArgs?_nested {depth : Nat} {cs : List Char} (hquote : '"' ∉ cs) (h : Nested depth cs)
    (rest : List Char) :
    rawArgs? depth false (cs ++ rest) = (rawArgs? 0 false rest).map (·.pushAll cs) := by
  induction cs generalizing depth with
  | nil =>
      have hdepth : depth = 0 := by simpa using h.closed.symm
      subst hdepth
      exact Option.map_id'.symm
  | cons c cs ih =>
      obtain ⟨hc, hcs⟩ := not_or.1 (mt List.mem_cons.2 hquote)
      obtain ⟨depth', htail, hread⟩ := rawArgs?_cons (Ne.symm hc) h
      rw [List.cons_append, hread, ih hcs htail, Option.map_map]
      rfl

/-! ### Arguments -/

/-- An argument that needs no quotes in a list of arguments. -/
structure Bare (arg : String) : Prop where
  unquoted : '"' ∉ arg.toList
  front : arg.toList.head?.all (fun c => !Text.isBlank c) = true
  back : arg.toList.getLast?.all (fun c => !Text.isBlank c) = true
  nested : Nested 0 arg.toList

instance (arg : String) : Decidable (Bare arg) :=
  decidable_of_iff
    ('"' ∉ arg.toList ∧ arg.toList.head?.all (fun c => !Text.isBlank c) = true ∧
      arg.toList.getLast?.all (fun c => !Text.isBlank c) = true ∧ Nested 0 arg.toList)
    ⟨fun ⟨hquote, hfront, hback, hnested⟩ => ⟨hquote, hfront, hback, hnested⟩,
      fun h => ⟨h.unquoted, h.front, h.back, h.nested⟩⟩

namespace Bare

variable {arg : String} (h : Bare arg)

include h

theorem trimList_append {blanks : List Char} (hblanks : ∀ c ∈ blanks, Text.isBlank c = true) :
    Text.trimList (blanks ++ arg.toList) = arg.toList := by
  have hfront : ∀ c, arg.toList.head? = some c → Text.isBlank c = false := by
    intro c hc
    simpa [hc] using h.front
  have hback : ∀ c, arg.toList.reverse.head? = some c → Text.isBlank c = false := by
    intro c hc
    rw [List.head?_reverse] at hc
    simpa [hc] using h.back
  have hend : arg.toList.reverse.dropWhile Text.isBlank = arg.toList.reverse :=
    (span_eq (List.forall_mem_nil _) hback).2
  rw [Text.trimList, (span_eq hblanks hfront).2, Text.trimEndList, hend, List.reverse_reverse]

theorem unquote?_eq_none : unquote? arg.toList = none := by
  unfold unquote?
  split
  · rename_i cs heq
    exact absurd (heq ▸ List.mem_cons_self) h.unquoted
  · rfl

/-- A bare argument stands for itself. -/
theorem standsFor : StandsFor arg arg where
  read := rawArgs?_nested h.unquoted h.nested
  argument blanks hblanks := by
    rw [argument, h.trimList_append hblanks, h.unquote?_eq_none]
    exact String.ofList_toList

theorem shows (hne : arg ≠ "") : arg.toList.all Text.isBlank = false := by
  obtain ⟨c, cs, heq⟩ := List.exists_cons_of_ne_nil (mt String.toList_eq_nil_iff.1 hne)
  have hfront := h.front
  rw [heq] at hfront ⊢
  simp_all

end Bare

/-! ### Calls -/

theorem ofLabel?_of_ofLabels {name : String} {labels : List Char} {args : List String}
    {d : Directive} (h : Directive.ofLabels name labels args = .ok d) :
    d.name = name ∧ d.args = args ∧ ∀ i ∈ d.indices, Index.ofLabel? i.label = some i := by
  cases hindices : Directive.indicesOf labels with
  | error e => simp [Directive.ofLabels, hindices, bind, Except.bind] at h
  | ok indices =>
      simp only [Directive.ofLabels, hindices, bind, Except.bind] at h
      cases h
      exact ⟨rfl, rfl, Directive.ofLabel?_of_indicesOf hindices⟩

/-- A call of a rule's name with labels and bare arguments, but not with a single empty one, is read
back from what is shown of it. -/
theorem scan_render {name : String} {labels : List Char} {args : List String} {d : Directive}
    (hname : isName name = true) (hargs : ∀ a ∈ args, Bare a) (hsingle : args ≠ [""])
    (h : Directive.ofLabels name labels args = .ok d) : scan d.render = .ok [.directive d] := by
  obtain ⟨rfl, rfl, hindices⟩ := ofLabel?_of_ofLabels h
  have hstand : List.Forall₂ StandsFor d.args d.args :=
    List.forall₂_same.2 fun a ha => (hargs a ha).standsFor
  have hshows : ∀ text, d.args = [text] → text.toList.all Text.isBlank = false := by
    intro text htext
    refine (hargs text (htext ▸ List.mem_singleton_self text)).shows ?_
    rintro rfl
    exact hsingle htext
  have hend : ∀ c, ([] : List Char).head? = some c → absorbs d c = false := fun _ hc => nomatch hc
  have hread := readDirective_braces hname hindices hstand hshows hend
  obtain ⟨c, cs, heq, hstart, -⟩ := isName_iff.1 hname
  rw [List.append_nil, heq, List.cons_append] at hread
  have htokens : tokens d.render.toList = .ok [.directive d] := by
    rw [toList_render, heq, List.cons_append]
    exact tokens_of_readDirective hstart hread tokens.eq_1
  rw [scan, htokens]
  rfl

/-- Empty arguments at both ends, braces in braces with a comma, and a backslash. -/
theorem scan_render_nested :
    let d : Directive :=
      { name := "U_2"
        indices := [⟨'A', .full, none⟩, ⟨'b', .field, none⟩]
        args := ["", "f\x7bx, \x7by\x7d, \x7d", "p q\\", ""] }
    (∀ a ∈ d.args, Bare a) ∧ Directive.ofLabels "U_2" ['A', 'b'] d.args = .ok d ∧
      scan d.render = .ok [.directive d] := by
  intro d
  have hargs : ∀ a ∈ d.args, Bare a := by decide
  have hbuilt : Directive.ofLabels "U_2" ['A', 'b'] d.args = .ok d := rfl
  exact ⟨hargs, hbuilt, scan_render (by decide) hargs (by decide) hbuilt⟩

end Segment

end TensorTemplate
