import TensorTemplate.Expansion.Template
import TensorTemplate.Proofs.Names

/-!
Lines without calls.

A line that holds no call is expanded to itself, but for doubled dollar signs, and
nothing else happens. Lines that are joined to a text and cut again are the same
lines, but for a carriage return at their ends. A call that is read from a line has
arguments made of the line's characters.
-/

namespace TensorTemplate

/-! ### Cutting and joining -/

namespace Text

theorem pieces_unlines_append {ts : List String} (h : ∀ t ∈ ts, '\n' ∉ t.toList) {last : String}
    (hlast : '\n' ∉ last.toList) : pieces (unlines ts ++ last) = ts ++ [last] := by
  have hsplit : (unlines ts ++ last).toList.splitOn '\n' =
      ts.map String.toList ++ [last.toList] := by
    induction ts with
    | nil => simpa [unlines] using List.splitOn_eq_singleton hlast
    | cons t ts ih =>
        have hrest := ih fun u hu => h u (List.mem_cons_of_mem _ hu)
        have hlist : (unlines (t :: ts) ++ last).toList =
            t.toList ++ '\n' :: (unlines ts ++ last).toList := by
          simp [unlines]
        rw [hlist, List.splitOn_append_cons_self_of_not_mem (h t List.mem_cons_self), hrest]
        rfl
  rw [pieces_eq, hsplit]
  simp [Function.comp_def]

/-- Lines that are joined and cut again lose a carriage return at their ends, unless no newline
follows. -/
theorem lines_unlines_append {ts : List String} (h : ∀ t ∈ ts, '\n' ∉ t.toList) {last : String}
    (hlast : '\n' ∉ last.toList) :
    lines (unlines ts ++ last) = ts.map dropReturn ++ dropFinalEmpty [last] := by
  simp [lines, pieces_unlines_append h hlast]

theorem lines_unlines {ts : List String} (h : ∀ t ∈ ts, '\n' ∉ t.toList) :
    lines (unlines ts) = ts.map dropReturn := by
  have hlast : '\n' ∉ "".toList := by simp
  simpa [dropFinalEmpty] using lines_unlines_append h hlast

/-- Every text is some lines, each ended by a newline, and the rest. -/
theorem exists_unlines_append (s : String) :
    ∃ ts last, (∀ t ∈ ts, '\n' ∉ t.toList) ∧ '\n' ∉ last.toList ∧ s = unlines ts ++ last := by
  obtain ⟨cs, rfl⟩ : ∃ cs, s = String.ofList cs := ⟨s.toList, by simp⟩
  induction cs with
  | nil => exact ⟨[], "", by simp, by simp, rfl⟩
  | cons c cs ih =>
      obtain ⟨ts, last, hts, hlast, hcs⟩ := ih
      have hchars := congrArg String.toList hcs
      by_cases hc : c = '\n'
      · refine ⟨"" :: ts, last, by simpa using hts, hlast, String.toList_injective ?_⟩
        simp_all [unlines]
      · cases ts with
        | nil =>
            refine ⟨[], String.ofList (c :: last.toList), by simp, ?_, String.toList_injective ?_⟩
            · simp [hlast, Ne.symm hc]
            · simp_all [unlines]
        | cons t ts =>
            obtain ⟨ht, hts⟩ := List.forall_mem_cons.1 hts
            refine ⟨String.ofList (c :: t.toList) :: ts, last, ?_, hlast,
              String.toList_injective ?_⟩
            · exact List.forall_mem_cons.2 ⟨by simp [ht, Ne.symm hc], hts⟩
            · simp_all [unlines]

/-- The first line of a text, if a newline follows it. -/
theorem lines_cons {line : String} (h : '\n' ∉ line.toList) (s : String) :
    lines (line ++ "\n" ++ s) = dropReturn line :: lines s := by
  obtain ⟨ts, last, hts, hlast, rfl⟩ := exists_unlines_append s
  have hjoin : line ++ "\n" ++ (unlines ts ++ last) = unlines (line :: ts) ++ last := by
    simp [unlines, String.append_assoc]
  rw [hjoin, lines_unlines_append (List.forall_mem_cons.2 ⟨h, hts⟩) hlast,
    lines_unlines_append hts hlast]
  rfl

theorem isEmpty_unlines {ts : List String} : (unlines ts).isEmpty = true ↔ ts = [] := by
  cases ts with
  | nil => simp [unlines]
  | cons t ts => simp [unlines, String.isEmpty_iff, String.join_cons]

theorem rows_of_notMem {s : String} (h : '\n' ∉ s.toList) : rows s = [s] := by
  simp [rows, pieces_eq, List.splitOn_eq_singleton h, dropFinalEmpty]

theorem dropReturn_cases (s : String) :
    dropReturn s = s ∨ s.toList = (dropReturn s).toList ++ ['\r'] := by
  unfold dropReturn
  split
  · rename_i rest heq
    right
    have hs := congrArg List.reverse heq
    rw [List.reverse_reverse, List.reverse_cons] at hs
    rw [hs, String.toList_ofList]
  · exact Or.inl rfl

theorem mem_of_mem_dropReturn {s : String} {c : Char} (h : c ∈ (dropReturn s).toList) :
    c ∈ s.toList := by
  rcases dropReturn_cases s with heq | heq
  · rwa [heq] at h
  · rw [heq]
    exact List.mem_append_left _ h

theorem mem_dropReturn {s : String} {c : Char} (h : c ∈ s.toList) (hc : c ≠ '\r') :
    c ∈ (dropReturn s).toList := by
  rcases dropReturn_cases s with heq | heq
  · rwa [heq]
  · rw [heq] at h
    rcases List.mem_append.1 h with h | h
    · exact h
    · exact absurd (List.mem_singleton.1 h) hc

theorem blank_eq_false_of_mem {s : String} (h : '_' ∈ s.toList) : blank s = false := by
  rw [blank_eq]
  exact List.all_eq_false.2 ⟨'_', h, by decide⟩

theorem notMem_of_mem_splitOnP {p : Char → Bool} {cs piece : List Char} {c : Char} (hc : p c = true)
    (h : piece ∈ cs.splitOnP p) : c ∉ piece := by
  induction cs generalizing piece with
  | nil =>
      rw [List.splitOnP_nil, List.mem_singleton] at h
      rw [h]
      exact List.not_mem_nil
  | cons d ds ih =>
      obtain ⟨first, rest, hrest⟩ := List.exists_cons_of_ne_nil (List.splitOnP_ne_nil p ds)
      rw [List.splitOnP_cons_eq_if_modifyHead, hrest] at h
      rw [hrest] at ih
      split at h
      · rcases List.mem_cons.1 h with rfl | h
        · exact List.not_mem_nil
        · exact ih h
      · rename_i hd
        rcases List.mem_cons.1 h with rfl | h
        · intro hmem
          rcases List.mem_cons.1 hmem with rfl | hmem
          · exact hd hc
          · exact ih List.mem_cons_self hmem
        · exact ih (List.mem_cons_of_mem _ h)

/-- The lines of a text hold no newlines. -/
theorem newline_notMem_of_mem_lines {s line : String} (h : line ∈ lines s) :
    '\n' ∉ line.toList := by
  have hpieces : ∀ piece ∈ pieces s, '\n' ∉ piece.toList := by
    intro piece hpiece
    rw [pieces_eq] at hpiece
    obtain ⟨cs, hcs, rfl⟩ := List.mem_map.1 hpiece
    rw [String.toList_ofList]
    exact notMem_of_mem_splitOnP (by simp) hcs
  rcases List.mem_append.1 h with h | h
  · obtain ⟨piece, hpiece, rfl⟩ := List.mem_map.1 h
    intro hmem
    exact hpieces piece (List.dropLast_subset _ hpiece) (mem_of_mem_dropReturn hmem)
  · apply hpieces
    have hlast : line ∈ (pieces s).getLast?.toList := by
      unfold dropFinalEmpty at h
      split at h
      · exact List.dropLast_subset _ h
      · exact h
    exact List.mem_of_mem_getLast? (Option.mem_toList.1 hlast)

end Text

/-! ### Scanning -/

namespace Segment

/-- What a line without calls shows; nothing if there is a call in it. -/
def plain? : List Char → Option (List Char)
  | [] => some []
  | '$' :: '$' :: cs => (plain? cs).map ('$' :: ·)
  | '$' :: c :: cs => if isNameStart c then none else (plain? (c :: cs)).map ('$' :: ·)
  | c :: cs => (plain? cs).map (c :: ·)

/-- So that the segments of a line can be found by evaluation. -/
theorem scan_eq_of_toOption {line : String} {segments : List Segment}
    (h : (scan line).toOption = some segments) : scan line = .ok segments := by
  cases hscan : scan line with
  | error e =>
      rw [hscan] at h
      cases h
  | ok found =>
      rw [hscan] at h
      cases h
      rfl

/-- The line scans, and holds no call. -/
def NoCalls (line : String) : Prop :=
  ∃ segments, scan line = .ok segments ∧ segments.any isDirective = false

theorem tokens_of_plain? {cs run : List Char} (h : plain? cs = some run) :
    tokens cs = .ok (run.map .char) := by
  fun_induction plain? cs generalizing run with
  | case1 =>
      cases h
      rw [tokens]
      rfl
  | case2 cs ih =>
      obtain ⟨rest, hrest, rfl⟩ := Option.map_eq_some_iff.1 h
      rw [tokens, ih hrest]
      rfl
  | case3 c cs hne hstart => cases h
  | case4 c cs hne hstart ih =>
      obtain ⟨rest, hrest, rfl⟩ := Option.map_eq_some_iff.1 h
      rw [tokens.eq_3 c cs hne, if_neg hstart, ih hrest]
      rfl
  | case5 c cs hpair hname ih =>
      obtain ⟨rest, hrest, rfl⟩ := Option.map_eq_some_iff.1 h
      rw [tokens.eq_4 c cs hpair hname, ih hrest]
      rfl

theorem gather_chars (run : List Char) : gather (run.map .char) = (run, []) := by
  induction run with
  | nil => rfl
  | cons c run ih => simp [gather, ih]

theorem scan_of_plain? {line : String} {run : List Char} (h : plain? line.toList = some run) :
    scan line = .ok (consText run []) := by
  simp [scan, tokens_of_plain? h, ofTokens, gather_chars]

theorem isDirective_consText (run : List Char) (segments : List Segment) :
    (consText run segments).any isDirective = segments.any isDirective := by
  unfold consText
  split
  · rfl
  · simp [isDirective]

theorem plainText_consText (run : List Char) : plainText (consText run []) = String.ofList run := by
  unfold consText
  split
  · rename_i hempty
    rw [List.isEmpty_iff.1 hempty]
    rfl
  · simp [plainText]

/-- Tokens without a call are characters. -/
theorem eq_chars_of_gather {ts : List Token} (h : (gather ts).2.any isDirective = false) :
    ∃ run : List Char, ts = run.map .char := by
  induction ts with
  | nil => exact ⟨[], rfl⟩
  | cons t ts ih =>
      cases t with
      | char c =>
          obtain ⟨run, rfl⟩ := ih h
          exact ⟨c :: run, rfl⟩
      | directive d => simp [gather, isDirective] at h

theorem tokens_cons_inv {t : Token} {rest : Except Error (List Token)} {ts : List Token}
    (h : (do return t :: (← rest)) = Except.ok ts) : ∃ ts', ts = t :: ts' ∧ rest = .ok ts' := by
  cases hrest : rest with
  | error e => simp [hrest, bind, Except.bind] at h
  | ok ts' =>
      simp only [hrest, bind, Except.bind, pure, Except.pure, Except.ok.injEq] at h
      exact ⟨ts', h.symm, rfl⟩

theorem chars_of_cons {c : Char} {ts : List Token} {run : List Char}
    (h : run.map Token.char = .char c :: ts) : ∃ run', run = c :: run' ∧ ts = run'.map .char := by
  cases run with
  | nil => cases h
  | cons d run =>
      cases h
      exact ⟨run, rfl, rfl⟩

theorem plain?_of_tokens {cs run : List Char} (h : tokens cs = .ok (run.map .char)) :
    plain? cs = some run := by
  fun_induction plain? cs generalizing run with
  | case1 =>
      rw [tokens] at h
      cases run with
      | nil => rfl
      | cons c run => cases h
  | case2 cs ih =>
      rw [tokens] at h
      obtain ⟨ts, hts, hrest⟩ := tokens_cons_inv h
      obtain ⟨run', rfl, rfl⟩ := chars_of_cons hts
      rw [ih hrest]
      rfl
  | case3 c cs hne hstart =>
      rw [tokens.eq_3 c cs hne, if_pos hstart] at h
      split at h
      · cases h
      · obtain ⟨ts, hts, _⟩ := tokens_cons_inv h
        cases run <;> cases hts
  | case4 c cs hne hstart ih =>
      rw [tokens.eq_3 c cs hne, if_neg hstart] at h
      obtain ⟨ts, hts, hrest⟩ := tokens_cons_inv h
      obtain ⟨run', rfl, rfl⟩ := chars_of_cons hts
      rw [ih hrest]
      rfl
  | case5 c cs hpair hname ih =>
      rw [tokens.eq_4 c cs hpair hname] at h
      obtain ⟨ts, hts, hrest⟩ := tokens_cons_inv h
      obtain ⟨run', rfl, rfl⟩ := chars_of_cons hts
      rw [ih hrest]
      rfl

/-- A line holds no call exactly if it shows a run of characters. -/
theorem noCalls_iff {line : String} : NoCalls line ↔ ∃ run, plain? line.toList = some run := by
  constructor
  · rintro ⟨segments, hscan, hcalls⟩
    cases htokens : tokens line.toList with
    | error e => simp [scan, htokens, bind, Except.bind] at hscan
    | ok ts =>
        simp only [scan, htokens, bind, Except.bind, pure, Except.pure, Except.ok.injEq] at hscan
        rw [← hscan, ofTokens, isDirective_consText] at hcalls
        obtain ⟨run, rfl⟩ := eq_chars_of_gather hcalls
        exact ⟨run, plain?_of_tokens htokens⟩
  · rintro ⟨run, hrun⟩
    refine ⟨_, scan_of_plain? hrun, ?_⟩
    rw [isDirective_consText]
    rfl

instance (line : String) : Decidable (NoCalls line) :=
  decidable_of_iff ((plain? line.toList).isSome = true)
    (by rw [noCalls_iff, Option.isSome_iff_exists])

theorem plain?_of_notMem {cs : List Char} (h : '$' ∉ cs) : plain? cs = some cs := by
  induction cs with
  | nil => rfl
  | cons c cs ih =>
      obtain ⟨hc, hcs⟩ := not_or.1 (mt List.mem_cons.2 h)
      rw [plain?, ih hcs]
      · rfl
      · intro _ heq
        exact absurd heq.symm hc
      · intro _ _ heq
        exact absurd heq.symm hc

/-- But for dollar signs, a line without calls shows all of its characters. -/
theorem mem_plain?_iff {cs run : List Char} (h : plain? cs = some run) {c : Char} (hc : c ≠ '$') :
    c ∈ run ↔ c ∈ cs := by
  fun_induction plain? cs generalizing run with
  | case1 =>
      cases h
      exact Iff.rfl
  | case2 cs ih =>
      obtain ⟨rest, hrest, rfl⟩ := Option.map_eq_some_iff.1 h
      simp [hc, ih hrest]
  | case3 => cases h
  | case4 d cs hne hstart ih =>
      obtain ⟨rest, hrest, rfl⟩ := Option.map_eq_some_iff.1 h
      simp [hc, ih hrest]
  | case5 d cs hpair hname ih =>
      obtain ⟨rest, hrest, rfl⟩ := Option.map_eq_some_iff.1 h
      simp [ih hrest]

/-- A character at the end that is no part of a call is shown after the rest. -/
theorem plain?_append_singleton {c : Char} (hc : isNameStart c = false) (hdollar : c ≠ '$')
    (cs : List Char) : plain? (cs ++ [c]) = (plain? cs).map (· ++ [c]) := by
  have hsingle : plain? [c] = some [c] := plain?_of_notMem (by simpa using hdollar.symm)
  fun_induction plain? cs with
  | case1 => exact hsingle
  | case2 cs ih =>
      simp only [List.cons_append]
      rw [plain?, ih]
      cases plain? cs <;> rfl
  | case3 d cs hne hstart =>
      simp only [List.cons_append]
      rw [plain?.eq_3 _ _ hne, if_pos hstart]
      rfl
  | case4 d cs hne hstart ih =>
      simp only [List.cons_append] at ih ⊢
      rw [plain?.eq_3 _ _ hne, if_neg hstart, ih]
      cases plain? (d :: cs) <;> rfl
  | case5 d cs hpair hname ih =>
      cases cs with
      | nil =>
          by_cases hd : d = '$'
          · subst hd
            simp [plain?, hc]
          · simp [plain?, hd]
      | cons e cs =>
          have hd : d ≠ '$' := fun hd => hname e cs hd rfl
          simp only [List.cons_append] at ih ⊢
          rw [plain?, ih]
          · cases plain? (e :: cs) <;> rfl
          · intro _ heq
            exact absurd heq hd
          · intro _ _ heq
            exact absurd heq hd

theorem noCalls_dropReturn {line : String} (h : NoCalls line) : NoCalls (Text.dropReturn line) := by
  rcases Text.dropReturn_cases line with heq | heq
  · rwa [heq]
  · obtain ⟨run, hrun⟩ := noCalls_iff.1 h
    rw [heq, plain?_append_singleton (by decide) (by decide)] at hrun
    obtain ⟨run', hrun', _⟩ := Option.map_eq_some_iff.1 hrun
    exact noCalls_iff.2 ⟨run', hrun'⟩

theorem noCalls_of_notMem {line : String} (h : '$' ∉ line.toList) : NoCalls line :=
  noCalls_iff.2 ⟨_, plain?_of_notMem h⟩

/-- What a line without calls is expanded to. -/
def expanded (line : String) : String := String.ofList ((plain? line.toList).getD [])

theorem mem_expanded_iff {line : String} (h : NoCalls line) {c : Char} (hc : c ≠ '$') :
    c ∈ (expanded line).toList ↔ c ∈ line.toList := by
  obtain ⟨run, hrun⟩ := noCalls_iff.1 h
  simp [expanded, hrun, mem_plain?_iff hrun hc]

/-- What becomes of a line without calls that is put into a text, if the text is expanded and cut
into lines. -/
def shown (line : String) : String := Text.dropReturn (expanded (Text.dropReturn line))

theorem mem_of_mem_shown {line : String} (h : NoCalls line) {c : Char} (hc : c ≠ '$')
    (hmem : c ∈ (shown line).toList) : c ∈ line.toList :=
  Text.mem_of_mem_dropReturn
    ((mem_expanded_iff (noCalls_dropReturn h) hc).1 (Text.mem_of_mem_dropReturn hmem))

theorem mem_shown {line : String} (h : NoCalls line) {c : Char} (hc : c ≠ '$') (hreturn : c ≠ '\r')
    (hmem : c ∈ line.toList) : c ∈ (shown line).toList :=
  Text.mem_dropReturn
    ((mem_expanded_iff (noCalls_dropReturn h) hc).2 (Text.mem_dropReturn hmem hreturn)) hreturn

/-- A text that is one line, shows something and holds no call. -/
structure PlainLine (text : String) : Prop where
  noCalls : NoCalls text
  newline_notMem : '\n' ∉ text.toList
  visible : '_' ∈ text.toList

/-- A plain line enters a buffer as one line, whatever the style. -/
theorem PlainLine.applyAll_shown {text : String} (h : PlainLine text) (style : LineStyle) :
    ∃ row, style.applyAll (shown text) = [row] := by
  have hrows : Text.rows (shown text) = [shown text] :=
    Text.rows_of_notMem fun hmem => h.newline_notMem (mem_of_mem_shown h.noCalls (by decide) hmem)
  have hblank := Text.blank_eq_false_of_mem (mem_shown h.noCalls (by decide) (by decide) h.visible)
  simp [LineStyle.applyAll, hrows, LineStyle.apply, hblank]

/-! ### The characters of calls -/

theorem unescape_subset (cs : List Char) : unescape cs ⊆ cs := by
  fun_induction unescape cs with
  | case1 cs ih => grind
  | case2 cs ih => grind
  | case3 c cs hquote hslash ih => grind
  | case4 => exact List.Subset.refl _

theorem unquote?_subset {cs inner : List Char} (h : unquote? cs = some inner) : inner ⊆ cs := by
  unfold unquote? at h
  split at h
  · split at h
    · cases h
      exact fun c hc => List.mem_cons_of_mem _ (List.dropLast_subset _ hc)
    · cases h
  · cases h

theorem trimList_subset (cs : List Char) : Text.trimList cs ⊆ cs := by
  intro c hc
  have hreversed := List.dropWhile_subset _ (List.mem_reverse.1 hc)
  exact List.dropWhile_subset _ (List.mem_reverse.1 hreversed)

theorem argument_subset (raw : List Char) : (argument raw).toList ⊆ raw := by
  rw [argument, String.toList_ofList]
  cases h : unquote? (Text.trimList raw) with
  | none => exact trimList_subset raw
  | some inner =>
      exact fun c hc => trimList_subset raw (unquote?_subset h (unescape_subset inner hc))

/-- All characters of an argument list and of what follows it. -/
def RawArgs.chars (r : RawArgs) : List Char := r.first ++ r.others.flatten ++ r.rest

theorem RawArgs.chars_push_subset (c : Char) (r : RawArgs) : (r.push c).chars ⊆ c :: r.chars :=
  List.Subset.refl _

theorem RawArgs.chars_comma_subset (c : Char) (r : RawArgs) : r.comma.chars ⊆ c :: r.chars := by
  simp [chars, comma]

theorem chars_subset_map {read : Option RawArgs} {f : RawArgs → RawArgs} {c : Char}
    {cs : List Char} {r : RawArgs} (h : read.map f = some r)
    (hread : ∀ {r}, read = some r → r.chars ⊆ cs) (hf : ∀ r, (f r).chars ⊆ c :: r.chars) :
    r.chars ⊆ c :: cs := by
  obtain ⟨r', hr', rfl⟩ := Option.map_eq_some_iff.1 h
  exact List.Subset.trans (hf r') (List.cons_subset_cons c (hread hr'))

/-- An argument list and what follows it are made of the characters of the line. -/
theorem chars_rawArgs?_subset {depth : Nat} {inQuotes : Bool} {cs : List Char} {r : RawArgs}
    (h : rawArgs? depth inQuotes cs = some r) : r.chars ⊆ cs := by
  fun_induction rawArgs? depth inQuotes cs generalizing r with
  | case1 => cases h
  | case2 _ c cs ih =>
      obtain ⟨r', hr', rfl⟩ := Option.map_eq_some_iff.1 h
      exact List.cons_subset_cons _ (List.cons_subset_cons c (ih hr'))
  | case7 =>
      cases h
      exact List.subset_cons_self _ _
  | case9 _ _ _ _ ih => exact chars_subset_map h ih (RawArgs.chars_comma_subset _)
  | case3 _ _ _ _ _ ih => exact chars_subset_map h ih (RawArgs.chars_push_subset _)
  | case4 _ _ _ ih => exact chars_subset_map h ih (RawArgs.chars_push_subset _)
  | case5 _ _ _ ih => exact chars_subset_map h ih (RawArgs.chars_push_subset _)
  | case6 _ _ ih => exact chars_subset_map h ih (RawArgs.chars_push_subset _)
  | case8 _ _ _ _ ih => exact chars_subset_map h ih (RawArgs.chars_push_subset _)
  | case10 _ _ _ _ ih => exact chars_subset_map h ih (RawArgs.chars_push_subset _)
  | case11 _ _ _ _ _ _ _ _ _ ih => exact chars_subset_map h ih (RawArgs.chars_push_subset _)

theorem subset_of_mem_args {r : RawArgs} {a : String} (h : a ∈ r.args) : a.toList ⊆ r.chars := by
  unfold RawArgs.args at h
  split at h
  · cases h
  · obtain ⟨raw, hraw, rfl⟩ := List.mem_map.1 h
    intro c hc
    have hmem := argument_subset raw hc
    rcases List.mem_cons.1 hraw with rfl | hraw
    · simp [RawArgs.chars, hmem]
    · have : c ∈ r.others.flatten := List.mem_flatten.2 ⟨raw, hraw, hmem⟩
      simp [RawArgs.chars, this]

theorem readLabels_subset (cs : List Char) : (readLabels cs).2 ⊆ cs := by
  unfold readLabels
  split
  · rename_i cs
    split
    · exact List.Subset.refl _
    · rename_i c rest heq
      dsimp only
      split
      · intro d hd
        have hmem : d ∈ cs.dropWhile (· ≠ ']') := heq ▸ List.mem_cons_of_mem c hd
        exact List.mem_cons_of_mem _ (List.dropWhile_subset _ hmem)
      · exact List.Subset.refl _
  · exact List.Subset.refl _

end Segment

/-- The call's arguments are made of these characters, and its indices have the classes of their
labels and no values. -/
structure Directive.MadeOf (d : Directive) (cs : List Char) : Prop where
  args : ∀ a ∈ d.args, a.toList ⊆ cs
  indices : ∀ i ∈ d.indices, Index.ofLabel? i.label = some i

theorem Directive.MadeOf.mono {d : Directive} {cs ds : List Char} (h : d.MadeOf cs)
    (hsub : cs ⊆ ds) :
    d.MadeOf ds :=
  ⟨fun a ha => List.Subset.trans (h.args a ha) hsub, h.indices⟩

theorem Index.label_of_ofLabel? {label : Char} {i : Index} (h : ofLabel? label = some i) :
    i.label = label := by
  obtain ⟨cls, -, rfl⟩ := Option.map_eq_some_iff.1 h
  rfl

theorem Index.isSome_of_ofLabel? {i : Index} (h : ofLabel? i.label = some i) :
    (IndexClass.ofLabel? i.label).isSome := by
  obtain ⟨cls, hcls, -⟩ := Option.map_eq_some_iff.1 h
  rw [hcls]
  rfl

theorem Directive.ofLabel?_of_indicesOf {labels : List Char} {indices : List Index}
    (h : indicesOf labels = .ok indices) : ∀ i ∈ indices, Index.ofLabel? i.label = some i := by
  induction labels generalizing indices with
  | nil =>
      cases h
      simp
  | cons label labels ih =>
      rw [indicesOf] at h
      split at h
      · cases h
      · rename_i i hi
        cases hrest : indicesOf labels with
        | error e => simp [hrest, bind, Except.bind] at h
        | ok rest =>
            simp only [hrest, bind, Except.bind, pure, Except.pure, Except.ok.injEq] at h
            subst h
            intro j hj
            rcases List.mem_cons.1 hj with rfl | hj
            · rwa [Index.label_of_ofLabel? hi]
            · exact ih hrest j hj

namespace Segment

theorem madeOf_readDirective {cs rest : List Char} {d : Directive}
    (h : readDirective cs = .ok (d, rest)) : d.MadeOf cs ∧ rest ⊆ cs := by
  have hname : cs.dropWhile isNameChar ⊆ cs := List.dropWhile_subset _
  have hafter := List.Subset.trans (readLabels_subset (cs.dropWhile isNameChar)) hname
  unfold readDirective at h
  generalize readLabels (cs.dropWhile isNameChar) = labelled at h hafter
  obtain ⟨labels, after⟩ := labelled
  simp only at h hafter
  cases hi : Directive.indicesOf labels with
  | error e => simp [hi, bind, Except.bind] at h
  | ok indices =>
      have hindices := Directive.ofLabel?_of_indicesOf hi
      simp only [hi, bind, Except.bind] at h
      split at h
      · rename_i inner
        split at h
        · cases h
        · rename_i r hr
          have hchars : r.chars ⊆ cs :=
            List.Subset.trans (chars_rawArgs?_subset hr)
              (List.Subset.trans (List.subset_cons_self _ _) hafter)
          cases h
          refine ⟨⟨fun a ha => List.Subset.trans (subset_of_mem_args ha) hchars, hindices⟩, ?_⟩
          exact List.Subset.trans (List.subset_append_right _ _) hchars
      · cases h
        exact ⟨⟨by simp, hindices⟩, hafter⟩

/-- The calls of a line are read from places where a name starts. -/
theorem exists_readDirective {cs : List Char} {ts : List Token} (h : tokens cs = .ok ts)
    {d : Directive} (hd : .directive d ∈ ts) :
    ∃ c tail rest, isNameStart c = true ∧ readDirective (c :: tail) = .ok (d, rest) ∧
      c :: tail ⊆ cs := by
  fun_induction tokens cs generalizing ts with
  | case1 =>
      cases h
      cases hd
  | case2 cs ih =>
      obtain ⟨ts', rfl, hrest⟩ := tokens_cons_inv h
      have hmem : Token.directive d ∈ ts' := by simpa using hd
      obtain ⟨c, tail, rest, hstart, hread, hsub⟩ := ih hrest hmem
      exact ⟨c, tail, rest, hstart, hread, fun x hx => by simp [hsub hx]⟩
  | case3 => cases h
  | case4 c cs _ hstart call rest hread _ ih =>
      obtain ⟨ts', rfl, hrest⟩ := tokens_cons_inv h
      have hin := List.subset_cons_self '$' (c :: cs)
      rcases List.mem_cons.1 hd with heq | hmem
      · cases heq
        exact ⟨c, cs, rest, hstart, hread, hin⟩
      · obtain ⟨c', tail, rest', hstart', hread', hsub⟩ := ih hrest hmem
        have hrest' := (madeOf_readDirective hread).2
        exact ⟨c', tail, rest', hstart', hread', List.Subset.trans hsub (List.Subset.trans hrest' hin)⟩
  | case5 c cs _ _ ih =>
      obtain ⟨ts', rfl, hrest⟩ := tokens_cons_inv h
      have hmem : Token.directive d ∈ ts' := by simpa using hd
      obtain ⟨c', tail, rest, hstart, hread, hsub⟩ := ih hrest hmem
      exact ⟨c', tail, rest, hstart, hread, List.Subset.trans hsub (List.subset_cons_self _ _)⟩
  | case6 c cs _ _ ih =>
      obtain ⟨ts', rfl, hrest⟩ := tokens_cons_inv h
      have hmem : Token.directive d ∈ ts' := by simpa using hd
      obtain ⟨c', tail, rest, hstart, hread, hsub⟩ := ih hrest hmem
      exact ⟨c', tail, rest, hstart, hread, List.Subset.trans hsub (List.subset_cons_self _ _)⟩

theorem madeOf_tokens {cs : List Char} {ts : List Token} (h : tokens cs = .ok ts) {d : Directive}
    (hd : .directive d ∈ ts) : d.MadeOf cs := by
  obtain ⟨c, tail, rest, -, hread, hsub⟩ := exists_readDirective h hd
  exact (madeOf_readDirective hread).1.mono hsub

theorem mem_of_mem_consText {run : List Char} {segments : List Segment} {d : Directive}
    (h : .directive d ∈ consText run segments) : .directive d ∈ segments := by
  unfold consText at h
  split at h
  · exact h
  · simpa using h

theorem mem_of_mem_gather {ts : List Token} {d : Directive} (h : .directive d ∈ (gather ts).2) :
    .directive d ∈ ts := by
  induction ts with
  | nil => cases h
  | cons t ts ih =>
      cases t with
      | char c => exact List.mem_cons_of_mem _ (ih h)
      | directive call =>
          rcases List.mem_cons.1 h with heq | h
          · cases heq
            exact List.mem_cons_self
          · exact List.mem_cons_of_mem _ (ih (mem_of_mem_consText h))

/-- The calls of a line are made of the line's characters. -/
theorem madeOf_scan {line : String} {segments : List Segment} (h : scan line = .ok segments)
    {d : Directive} (hd : .directive d ∈ segments) : d.MadeOf line.toList := by
  cases htokens : tokens line.toList with
  | error e => simp [scan, htokens, bind, Except.bind] at h
  | ok ts =>
      simp only [scan, htokens, bind, Except.bind, pure, Except.pure, Except.ok.injEq] at h
      subst h
      exact madeOf_tokens htokens (mem_of_mem_gather (mem_of_mem_consText hd))

/-- The lines of an expanded text without calls are what its lines show. -/
theorem lines_unlines_expanded {ts : List String}
    (h : ∀ t ∈ ts, NoCalls t ∧ '\n' ∉ t.toList) :
    Text.lines (Text.unlines ((ts.map Text.dropReturn).map expanded)) = ts.map shown := by
  rw [Text.lines_unlines]
  · simp [shown]
  · intro line hline
    obtain ⟨t, ht, rfl⟩ := List.mem_map.1 (by simpa using hline)
    obtain ⟨hcalls, hnewline⟩ := h t ht
    rw [mem_expanded_iff (noCalls_dropReturn hcalls) (by decide)]
    exact fun hmem => hnewline (Text.mem_of_mem_dropReturn hmem)

end Segment

namespace ExpandM

/-- An action that leaves the state alone for every item leaves it alone for the list. -/
theorem mapM_eq_ok {ε σ α β : Type} {f : α → EStateM ε σ β} {g : α → β} {s : σ} {as : List α}
    (h : ∀ a ∈ as, f a s = .ok (g a) s) : as.mapM f s = .ok (as.map g) s := by
  induction as with
  | nil => rfl
  | cons a as ih =>
      have hrest := ih fun b hb => h b (List.mem_cons_of_mem _ hb)
      rw [List.mapM_cons]
      simp [bind, EStateM.bind, h a List.mem_cons_self, hrest, pure, EStateM.pure]

/-- A line without calls is expanded to itself, and nothing else happens. -/
theorem expandLine_of_noCalls (setup : Setup) (re : Reentry) {line : String}
    (h : Segment.NoCalls line) (s : State) :
    expandLine setup re line s = .ok ([Segment.expanded line], 0) s := by
  obtain ⟨run, hrun⟩ := Segment.noCalls_iff.1 h
  have hnone : (Segment.consText run []).any Segment.isDirective = false := by
    rw [Segment.isDirective_consText]
    rfl
  simp [expandLine, Segment.scan_of_plain? hrun, ofExcept, bind, EStateM.bind, pure, EStateM.pure,
    hnone, Segment.plainText_consText, Segment.expanded, hrun]

/-- A text of lines without calls is expanded line by line, and nothing else happens. -/
theorem expandText_unlines (setup : Setup) (re : Reentry) {ts : List String}
    (h : ∀ t ∈ ts, Segment.NoCalls t ∧ '\n' ∉ t.toList) (s : State) :
    expandText setup re (Text.unlines ts) s =
      .ok (Text.unlines ((ts.map Text.dropReturn).map Segment.expanded)) s := by
  have hcut := Text.lines_unlines fun t ht => (h t ht).2
  have hlines : ((ts.map Text.dropReturn).mapM (expandLine setup re)) s =
      .ok ((ts.map Text.dropReturn).map fun t => ([Segment.expanded t], 0)) s := by
    apply mapM_eq_ok
    intro line hline
    obtain ⟨t, ht, rfl⟩ := List.mem_map.1 hline
    exact expandLine_of_noCalls setup re (Segment.noCalls_dropReturn (h t ht).1) s
  simp only [expandText, expandLines, hcut, bind, EStateM.bind, hlines, pure, EStateM.pure]
  rw [List.flatMap_map, List.map_eq_flatMap (f := Segment.expanded)]

end ExpandM

end TensorTemplate
