import TensorTemplate.Proofs.Expansion.Balance
import TensorTemplate.Proofs.WrittenLine

/-!
Brackets behind the call of a simple rule.

The scanner does not know which rules take indices, so it reads letters and blanks in
brackets as index labels and leaves all other brackets in the text. A simple rule
takes no indices, and the labels go back into the line in brackets. They come without
the blanks between them, and where there is no label there are no brackets either.
-/

namespace TensorTemplate

namespace Segment

/-! ### Reading -/

/-- What a line shows of brackets behind the call of a simple rule. -/
def bracketText (inner : List Char) : List Char :=
  if inner.all isLabelChar then
    if inner.all Text.isBlank then []
    else '[' :: (inner.filter (fun c => !Text.isBlank c) ++ [']'])
  else '[' :: (inner ++ [']'])

/-- Brackets are shown as they are if something in them is neither a letter nor blank, or if there
are letters in them and no blanks. -/
theorem bracketText_eq_iff {inner : List Char} :
    bracketText inner = '[' :: (inner ++ [']']) ↔
      (∃ c ∈ inner, isLabelChar c = false) ∨ inner ≠ [] ∧ ∀ c ∈ inner, Text.isBlank c = false := by
  have hall : inner.all isLabelChar = false ↔ ∃ c ∈ inner, isLabelChar c = false := by simp
  unfold bracketText
  cases hlabels : inner.all isLabelChar with
  | false => simp [← hall, hlabels]
  | true =>
      simp only [← hall, hlabels, if_true, Bool.true_eq_false, false_or]
      split
      · rename_i hblank
        simp only [List.nil_eq, reduceCtorEq, false_iff, not_and]
        intro hne hnone
        obtain ⟨c, cs, rfl⟩ := List.exists_cons_of_ne_nil hne
        have hc := List.all_eq_true.1 hblank c List.mem_cons_self
        rw [hnone c List.mem_cons_self] at hc
        cases hc
      · rename_i hblank
        have hne : inner ≠ [] := by
          rintro rfl
          exact hblank rfl
        simp [hne, List.filter_eq_self]

/-- A name, and behind it labels that start with a bracket but no arguments. -/
theorem readDirective_labelled {name : String} (hname : isName name = true)
    {after labels rest : List Char} {indices : List Index} (hafter : after.head? = some '[')
    (hlabels : readLabels after = (labels, rest))
    (hindices : Directive.indicesOf labels = .ok indices) (hrest : rest.head? ≠ some '\x7b') :
    readDirective (name.toList ++ after) = .ok ({ name, indices }, rest) := by
  have hend : ∀ c, after.head? = some c → isNameChar c = false := by
    intro c hc
    cases hafter.symm.trans hc
    decide
  rw [readDirective_append hname hend hlabels hindices, readArgs_of_ne hrest]

/-- What stands behind a call and its arguments for the indices in its brackets. -/
def subscriptText (d : Directive) : List Char :=
  if d.indices.isEmpty then [] else '[' :: (d.labels ++ [']'])

/-- A name and brackets are read as a call without arguments and a text, in which the brackets may be
found again. -/
theorem readDirective_bracket {name : String} (hname : isName name = true)
    {inner rest : List Char} (hinner : ']' ∉ inner) (hrest : rest.head? ≠ some '\x7b') :
    ∃ indices run,
      readDirective (name.toList ++ '[' :: (inner ++ ']' :: rest)) = .ok ({ name, indices }, run) ∧
        (∀ c ∈ run, c = '[' ∨ c = ']' ∨ c ∈ inner ∨ c ∈ rest) ∧
        subscriptText { name, indices } ++ run = bracketText inner ++ rest := by
  have hlabels := readLabels_bracket hinner rest
  by_cases hall : inner.all isLabelChar = true
  · rw [if_pos hall] at hlabels
    have halpha : ∀ c ∈ inner.filter (fun c => !Text.isBlank c), c.isAlpha = true := by
      intro c hc
      rw [filter_letters (List.all_eq_true.1 hall)] at hc
      exact (List.mem_filter.1 hc).2
    obtain ⟨indices, hindices, heq⟩ := exists_indicesOf halpha
    refine ⟨indices, rest, readDirective_labelled hname rfl hlabels hindices hrest, by simp_all, ?_⟩
    have hempty : indices.isEmpty = inner.all Text.isBlank := by
      rw [← List.isEmpty_map (f := fun i : Index => i.label), heq, Bool.eq_iff_iff]
      simp
    rw [subscriptText, bracketText, if_pos hall, Directive.labels, heq, hempty]
  · rw [if_neg hall] at hlabels
    refine ⟨[], '[' :: (inner ++ ']' :: rest),
      readDirective_labelled hname rfl hlabels rfl (by simp), ?_, ?_⟩
    · intro c hc
      simp only [List.mem_cons, List.mem_append] at hc
      tauto
    · rw [bracketText, if_neg hall]
      simp [subscriptText]

/-- The line starts with a call without arguments, and holds no other one. -/
theorem scan_bracket {name : String} (hname : isName name = true) {inner rest : List Char}
    (hinner : ']' ∉ inner ∧ '$' ∉ inner) (hrest : '$' ∉ rest ∧ rest.head? ≠ some '\x7b') :
    ∃ indices run,
      scan (String.ofList ('$' :: (name.toList ++ '[' :: (inner ++ ']' :: rest)))) =
          .ok (.directive { name, indices } :: consText run []) ∧
        subscriptText { name, indices } ++ run = bracketText inner ++ rest := by
  obtain ⟨indices, run, hread, hrun, htext⟩ := readDirective_bracket hname hinner.1 hrest.2
  have hplain : '$' ∉ run := by
    intro hmem
    rcases hrun _ hmem with h | h | h | h
    · exact absurd h (by decide)
    · exact absurd h (by decide)
    · exact hinner.2 h
    · exact hrest.1 h
  obtain ⟨c, cs, heq, hstart, -⟩ := isName_iff.1 hname
  rw [heq, List.cons_append] at hread
  have htokens := tokens_of_readDirective hstart hread (tokens_of_plain? (plain?_of_notMem hplain))
  refine ⟨indices, run, ?_, htext⟩
  rw [scan, String.toList_ofList, heq, List.cons_append, htokens]
  show Except.ok (ofTokens _) = _
  rw [ofTokens, gather, gather_chars]
  rfl

/-- The brackets of a call of a simple rule go back into the text. -/
theorem detachSubscript_simple {r : Registry} {name : String} {arity : Nat} {body : RuleBody}
    (hrule : r.get? name = some (.simple arity body)) (indices : List Index) (run : List Char) :
    ∃ texts : List String,
      (.directive { name, indices } :: consText run []).flatMap (detachSubscript r) =
          .directive { name } :: texts.map .text ∧
        String.join texts = String.ofList (subscriptText { name, indices } ++ run) := by
  have hsimple : r.isSimple name = true := by
    rw [Registry.isSimple, hrule]
    rfl
  have hrest : ∃ texts : List String,
      (consText run []).flatMap (detachSubscript r) = texts.map .text ∧
        String.join texts = String.ofList run := by
    unfold consText
    split
    · rename_i hempty
      rw [List.isEmpty_iff.1 hempty]
      exact ⟨[], rfl, rfl⟩
    · exact ⟨[String.ofList run], rfl, by simp⟩
  obtain ⟨texts, htexts, hjoin⟩ := hrest
  rw [List.flatMap_cons, htexts, detachSubscript, subscriptText]
  cases indices with
  | nil => exact ⟨texts, rfl, hjoin⟩
  | cons i is =>
      refine ⟨Directive.subscript { name, indices := i :: is } :: texts, ?_, ?_⟩
      · simp [hsimple]
      · rw [String.join_cons, hjoin, Directive.subscript]
        simp [← String.toList_inj]

end Segment

/-! ### Expanding -/

/-- Texts add nothing to the plan of a line. -/
theorem LinePlan.ofSegments_texts (r : Registry) (p : LinePlan) (texts : List String) :
    ofSegments r p (texts.map .text) = .ok p := by
  induction texts with
  | nil => rfl
  | cons t texts ih => exact ih

namespace ExpandM

theorem expandSegments_texts (setup : Setup) (re : Reentry) (r : Registry) (texts : List String)
    (assignment : List Index) (s : State) :
    (texts.map Segment.text).mapM (expandSegment setup re r assignment) s = .ok texts s := by
  rw [List.mapM_map]
  have hpure : texts.mapM (fun t => expandSegment setup re r assignment (.text t)) s =
      .ok (texts.map id) s := mapM_eq_ok fun _ _ => rfl
  rwa [List.map_id] at hpure

/-- A line with one call, at its head and of a simple rule, becomes what the rule returns and the
rest of the line. -/
theorem expandLine_simple (setup : Setup) (re : Reentry) {registry : Registry} {body : RuleBody}
    {s s' : State} {line name result : String} {indices : List Index} {run : List Char}
    (hregistry : s.stack.registry = .ok registry)
    (hrule : registry.get? name = some (.simple 0 body))
    (hbody : evaluate setup re name body [] [] s = .ok result s')
    (hscan : Segment.scan line = .ok (.directive { name, indices } :: Segment.consText run [])) :
    let out := result ++ String.ofList (Segment.subscriptText { name, indices } ++ run)
    expandLine setup re line s = .ok (if Text.blank out then [] else [out], 1)
      { s' with
        replacements := s'.replacements + 1
        sights := .evaluated re.frame :: s'.sights } := by
  intro out
  set seen := s'.see (.evaluated re.frame)
  obtain ⟨texts, hdetach, hjoin⟩ := Segment.detachSubscript_simple hrule indices run
  have hvalid : registry.validate { name } = .ok (.simple 0 body) := by
    rw [Registry.validate, hrule]
    rfl
  have hplan : LinePlan.ofSegments registry {} (.directive { name } :: texts.map .text) = .ok {} := by
    rw [LinePlan.ofSegments, hvalid]
    exact LinePlan.ofSegments_texts registry {} texts
  have hinvoke : invoke setup re registry [] { name } s = .ok result s' := by
    rw [invoke, bind_eq (ofExcept_eq hvalid)]
    exact hbody
  have hcalled : expandSegment setup re registry [] (.directive { name }) s = .ok result seen := by
    rw [expandSegment, bind_eq hinvoke]
    rfl
  have hsegments : (.directive { name } :: texts.map .text).mapM
      (expandSegment setup re registry []) s = .ok (result :: texts) seen := by
    rw [List.mapM_cons, bind_eq hcalled,
      bind_eq (expandSegments_texts setup re registry texts [] seen)]
    rfl
  have hline : expandSegments setup re registry (.directive { name } :: texts.map .text) [] s =
      .ok out seen := by
    rw [expandSegments, bind_eq hsegments, String.join_cons, hjoin]
    rfl
  have hlines : LinePlan.mapAssignments {} setup.model.ranges
      (expandSegments setup re registry (.directive { name } :: texts.map .text)) s =
        .ok [out] seen := by
    have hnone : LinePlan.assignments {} setup.model.ranges = [[]] := rfl
    rw [LinePlan.mapAssignments_eq, hnone, List.mapM_cons, bind_eq hline]
    rfl
  have hcount : ((.directive { name } :: texts.map .text).filter Segment.isDirective).length = 1 := by
    have hnone : (texts.map Segment.text).filter Segment.isDirective = [] :=
      List.filter_eq_nil_iff.2 (by simp [Segment.isDirective])
    rw [List.filter_cons_of_pos rfl, hnone]
    rfl
  have hcall : (.directive { name, indices } :: Segment.consText run []).any
      Segment.isDirective = true := rfl
  rw [expandLine, bind_eq (ofExcept_eq hscan), if_pos hcall, get_bind,
    bind_eq (ofExcept_eq hregistry)]
  simp only [hdetach]
  rw [bind_eq (ofExcept_eq hplan), bind_eq hlines, hcount]
  have hshown : [out].filter (fun line => !Text.blank line) =
      if Text.blank out then [] else [out] := by
    cases hblank : Text.blank out <;> simp [hblank]
  rw [← hshown]
  rfl

/-- A line that starts with the call of a simple rule and brackets becomes what the rule returns, the
text that is left of the brackets, and the rest of the line. -/
theorem expandLine_bracketText (setup : Setup) (re : Reentry) {registry : Registry}
    {body : RuleBody} {s s' : State} {name result : String} (hname : Segment.isName name = true)
    (hregistry : s.stack.registry = .ok registry)
    (hrule : registry.get? name = some (.simple 0 body))
    (hbody : evaluate setup re name body [] [] s = .ok result s') (inner rest : String)
    (hinner : ']' ∉ inner.toList ∧ '$' ∉ inner.toList)
    (hrest : '$' ∉ rest.toList ∧ rest.toList.head? ≠ some '\x7b') :
    let out := result ++ String.ofList (Segment.bracketText inner.toList) ++ rest
    expandLine setup re ("$" ++ name ++ "[" ++ inner ++ "]" ++ rest) s =
      .ok (if Text.blank out then [] else [out], 1)
        { s' with
          replacements := s'.replacements + 1
          sights := .evaluated re.frame :: s'.sights } := by
  intro out
  obtain ⟨indices, run, hscan, htext⟩ := Segment.scan_bracket hname hinner hrest
  have hline : "$" ++ name ++ "[" ++ inner ++ "]" ++ rest = String.ofList
      ('$' :: (name.toList ++ '[' :: (inner.toList ++ ']' :: rest.toList))) := by
    simp [← String.toList_inj]
  have hout : out =
      result ++ String.ofList (Segment.subscriptText { name, indices } ++ run) := by
    rw [htext]
    simp [out, ← String.toList_inj]
  rw [hline, hout]
  exact expandLine_simple setup re hregistry hrule hbody hscan

/-- Brackets behind the call of a simple rule without arguments belong to the output, but for
blanks. The line shows what the rule returns, the brackets and the rest of the line; blanks between
letters are left out, and so are brackets in which nothing shows. So the brackets are left as they
are exactly if something in them is neither a letter nor blank, or if there are only letters in them
and at least one. -/
theorem expandLine_brackets (setup : Setup) (re : Reentry) {registry : Registry} {body : RuleBody}
    {s s' : State} {name result : String} (hname : Segment.isName name = true)
    (hregistry : s.stack.registry = .ok registry)
    (hrule : registry.get? name = some (.simple 0 body))
    (hbody : evaluate setup re name body [] [] s = .ok result s') (inner rest : String)
    (hinner : ']' ∉ inner.toList ∧ '$' ∉ inner.toList)
    (hrest : '$' ∉ rest.toList ∧ rest.toList.head? ≠ some '\x7b') :
    let line := "$" ++ name ++ "[" ++ inner ++ "]" ++ rest
    let out := result ++ String.ofList (Segment.bracketText inner.toList) ++ rest
    let after : State :=
      { s' with
        replacements := s'.replacements + 1
        sights := .evaluated re.frame :: s'.sights }
    expandLine setup re line s = .ok (if Text.blank out then [] else [out], 1) after ∧
      (expandLine setup re line s = .ok ([result ++ "[" ++ inner ++ "]" ++ rest], 1) after ↔
        (∃ c ∈ inner.toList, Segment.isLabelChar c = false) ∨
          inner ≠ "" ∧ ∀ c ∈ inner.toList, Text.isBlank c = false) := by
  intro line out after
  have hexpand : expandLine setup re line s = .ok (if Text.blank out then [] else [out], 1) after :=
    expandLine_bracketText setup re hname hregistry hrule hbody inner rest hinner hrest
  refine ⟨hexpand, ?_⟩
  have hclaimed : result ++ "[" ++ inner ++ "]" ++ rest =
      result ++ String.ofList ('[' :: (inner.toList ++ [']'])) ++ rest := by
    simp [← String.toList_inj]
  have hkept : out = result ++ "[" ++ inner ++ "]" ++ rest ↔
      Segment.bracketText inner.toList = '[' :: (inner.toList ++ [']']) := by
    rw [hclaimed, ← String.toList_inj]
    simp only [out, String.toList_append, String.toList_ofList, List.append_cancel_left_eq,
      List.append_cancel_right_eq]
  have hne : inner ≠ "" ↔ inner.toList ≠ [] := not_congr String.toList_eq_nil_iff.symm
  rw [hexpand, hne, ← Segment.bracketText_eq_iff, ← hkept]
  constructor
  · intro h
    split at h
    · simp at h
    · simpa using h
  · intro h
    have hmem : '[' ∈ out.toList := by
      rw [h]
      simp
    have hshows : Text.blank out = false := by
      rw [Text.blank_eq]
      exact List.all_eq_false.2 ⟨'[', hmem, by decide⟩
    rw [hshows, h]
    rfl

/-- An index pair with a comma and blanks stays as it is. -/
theorem expandLine_brackets_pair :
    let setup := Request.squareSetup "" ""
    let main : Frame := { id := 0, buffer := {}, pass := .core, template := "main" }
    let s := ((State.initial setup {}).opened main.buffer .core "main").withTop (main.equip setup)
    expandLine setup (reentry setup 1) "$MODEL[ i, j ] = 0;" s =
      .ok (["square[ i, j ] = 0;"], 1)
        { s with replacements := 1, sights := .evaluated none :: s.sights } := by
  intro setup main s
  have hregistry : s.stack.registry = .ok (addRules {} (builtinRules setup.model 0 .core)) := rfl
  have hbody : evaluate setup (reentry setup 1) "MODEL" .model [] [] s = .ok "square" s := rfl
  obtain ⟨_, hkept⟩ := expandLine_brackets setup (reentry setup 1) (by decide) hregistry rfl hbody
    " i, j " " = 0;" (by decide) (by decide)
  exact hkept.2 (Or.inl ⟨',', by decide, by decide⟩)

/-- Empty brackets get lost. -/
theorem expandLine_empty_brackets :
    let setup := Request.squareSetup "" ""
    let main : Frame := { id := 0, buffer := {}, pass := .core, template := "main" }
    let s := ((State.initial setup {}).opened main.buffer .core "main").withTop (main.equip setup)
    expandLine setup (reentry setup 1) "$MODEL[] weights;" s =
      .ok (["square weights;"], 1)
        { s with replacements := 1, sights := .evaluated none :: s.sights } ∧
    "square weights;" ≠ "square" ++ "[" ++ "" ++ "]" ++ " weights;" := by
  intro setup main s
  have hregistry : s.stack.registry = .ok (addRules {} (builtinRules setup.model 0 .core)) := rfl
  have hbody : evaluate setup (reentry setup 1) "MODEL" .model [] [] s = .ok "square" s := rfl
  refine ⟨?_, by decide⟩
  exact expandLine_bracketText setup (reentry setup 1) (by decide) hregistry rfl hbody
    "" " weights;" (by decide) (by decide)

end ExpandM

end TensorTemplate
