import TensorTemplate.Proofs.WrittenLine

/-!
What scanning a line can give.

A line that scans gives texts that are not empty and do not follow each other, and
calls of rule names whose labels are letters. A line that does not scan has a call in
it whose argument list is open to the end: no closing brace stands where quotes and
inner braces are closed. Such a list stays open whatever is appended without a closing
brace. What is appended does not change how the line is read up to that call either,
because where a call ends is told by the characters before the next dollar sign.
-/

namespace TensorTemplate

namespace Segment

/-! ### Open argument lists -/

/-- A place in an argument list: `depth` inner braces are open there, and it is outside of double
quotes, inside, or inside and behind a backslash. -/
inductive Place where
  | outside (depth : Nat)
  | quoted (depth : Nat)
  | escaped (depth : Nat)
deriving DecidableEq, Repr

/-- The place behind a character. -/
def Place.step : Place → Char → Place
  | outside depth, '"' => quoted depth
  | outside depth, '\x7b' => outside (depth + 1)
  | outside depth, '\x7d' => outside (depth - 1)
  | quoted depth, '"' => outside depth
  | quoted depth, '\\' => escaped depth
  | escaped depth, _ => quoted depth
  | place, _ => place

/-- No closing brace stands where nothing else is open. -/
def StaysOpen (place : Place) (cs : List Char) : Prop :=
  ∀ body rest, cs = body ++ '\x7d' :: rest → body.foldl Place.step place ≠ .outside 0

theorem staysOpen_nil (place : Place) : StaysOpen place [] := by
  intro body rest h
  simp at h

theorem staysOpen_cons {place : Place} {c : Char} {cs : List Char} :
    StaysOpen place (c :: cs) ↔
      (c = '\x7d' → place ≠ .outside 0) ∧ StaysOpen (place.step c) cs := by
  constructor
  · intro h
    refine ⟨?_, fun body rest heq => ?_⟩
    · rintro rfl
      exact h [] cs rfl
    · subst heq
      exact h (c :: body) rest rfl
  · rintro ⟨hhead, htail⟩ body rest heq
    cases body with
    | nil => exact hhead (List.cons.inj heq).1
    | cons d body =>
        simp only [List.cons_append, List.cons.injEq] at heq
        obtain ⟨rfl, hrest⟩ := heq
        exact htail body rest hrest

/-- Only a closing brace can close the list. -/
theorem StaysOpen.append {place : Place} {cs more : List Char} (h : StaysOpen place cs)
    (hmore : '\x7d' ∉ more) : StaysOpen place (cs ++ more) := by
  intro body rest heq
  rcases List.append_eq_append_iff.1 heq with ⟨mid, rfl, htail⟩ | ⟨mid, rfl, htail⟩
  · exact absurd (htail ▸ List.mem_append_right mid List.mem_cons_self) hmore
  · cases mid with
    | nil => exact absurd (List.mem_of_mem_head? (congrArg List.head? htail).symm) hmore
    | cons c mid =>
        obtain ⟨rfl, -⟩ := List.cons.inj htail
        exact h body mid rfl

/-- Reads an argument list from a place on, one character after the other. -/
def rawArgsFrom? : Place → List Char → Option RawArgs
  | _, [] => none
  | place, c :: cs =>
    if place = .outside 0 ∧ c = '\x7d' then some ⟨[], [], cs⟩
    else
      (rawArgsFrom? (place.step c) cs).map
        (if place = .outside 0 ∧ c = ',' then RawArgs.comma else RawArgs.push c)

/-- But for what ends or separates arguments, a character belongs to the first of them. -/
theorem rawArgsFrom?_cons {place : Place} {c : Char} (cs : List Char)
    (h : place = .outside 0 → c ≠ '\x7d' ∧ c ≠ ',') :
    rawArgsFrom? place (c :: cs) = (rawArgsFrom? (place.step c) cs).map (·.push c) := by
  rw [rawArgsFrom?, if_neg fun ⟨hplace, hc⟩ => (h hplace).1 hc,
    if_neg fun ⟨hplace, hc⟩ => (h hplace).2 hc]

/-- The place where `depth` inner braces are open, and perhaps a double quote. -/
def Place.at (depth : Nat) (inQuotes : Bool) : Place :=
  if inQuotes then quoted depth else outside depth

theorem Place.step_at {c : Char} (hslash : c ≠ '\\') (hquote : c ≠ '"') (hopen : c ≠ '\x7b')
    (hclose : c ≠ '\x7d') (depth : Nat) (inQuotes : Bool) :
    (Place.at depth inQuotes).step c = Place.at depth inQuotes := by
  cases inQuotes <;> simp [Place.at, Place.step, *]

theorem rawArgs?_eq_rawArgsFrom? (depth : Nat) (inQuotes : Bool) (cs : List Char) :
    rawArgs? depth inQuotes cs = rawArgsFrom? (.at depth inQuotes) cs := by
  fun_induction rawArgs? depth inQuotes cs with
  | case1 => rfl
  | case2 depth c cs ih =>
      -- an escape in quotes is read at once there, and in two steps here
      have hescaped : (Place.at depth true).step '\\' = .escaped depth := rfl
      rw [ih, rawArgsFrom?_cons (c :: cs) (by simp), hescaped, rawArgsFrom?_cons cs (by simp),
        Option.map_map]
      rfl
  | case3 depth inQuotes c cs hq ih =>
      rw [Bool.not_eq_true] at hq
      subst hq
      rw [ih, rawArgsFrom?_cons (c :: cs) (by simp)]
      rfl
  | case4 depth inQuotes cs ih =>
      rw [ih, rawArgsFrom?_cons cs (by simp)]
      cases inQuotes <;> rfl
  | case5 depth inQuotes cs ih =>
      rw [ih, rawArgsFrom?_cons cs (by simp)]
      cases inQuotes <;> rfl
  | case6 depth cs ih =>
      rw [ih, rawArgsFrom?_cons _ (by simp [Place.at])]
      rfl
  | case7 inQuotes cs hq =>
      rw [Bool.not_eq_true] at hq
      subst hq
      rfl
  | case8 inQuotes cs hq depth ih =>
      rw [Bool.not_eq_true] at hq
      subst hq
      rw [ih, rawArgsFrom?_cons _ (by simp [Place.at])]
      rfl
  | case9 depth inQuotes cs hlist ih =>
      simp only [Bool.and_eq_true, Bool.not_eq_true', beq_iff_eq] at hlist
      obtain ⟨rfl, rfl⟩ := hlist
      rw [ih]
      rfl
  | case10 depth inQuotes cs hlist ih =>
      rw [ih, rawArgsFrom?_cons _ ?_, Place.step_at (by decide) (by decide) (by decide) (by decide)]
      cases inQuotes <;> simp_all [Place.at]
  | case11 depth inQuotes c cs hslash hquote hopen hclose hcomma ih =>
      rw [ih, rawArgsFrom?_cons _ fun _ => ⟨hclose, hcomma⟩]
      cases cs with
      | nil => rfl
      | cons d cs =>
          -- a backslash in quotes would make an escape with what follows it
          have hne : c ≠ '\\' := fun heq => hslash d cs heq rfl
          rw [Place.step_at hne hquote hopen hclose]

/-- An argument list cannot be read exactly if nothing closes it. -/
theorem rawArgsFrom?_eq_none_iff {place : Place} {cs : List Char} :
    rawArgsFrom? place cs = none ↔ StaysOpen place cs := by
  induction cs generalizing place with
  | nil => exact iff_of_true rfl (staysOpen_nil place)
  | cons c cs ih =>
      rw [rawArgsFrom?, staysOpen_cons, ← ih]
      split
      · simp_all
      · simp_all [imp_not_comm]

/-- Nothing behind its closing brace matters for an argument list. -/
theorem rawArgsFrom?_eq_some {place : Place} {cs : List Char} {r : RawArgs}
    (h : rawArgsFrom? place cs = some r) :
    ∃ body, cs = body ++ r.rest ∧
      ∀ rest, rawArgsFrom? place (body ++ rest) = some { r with rest } := by
  induction cs generalizing place r with
  | nil => cases h
  | cons c cs ih =>
      rw [rawArgsFrom?] at h
      split at h
      · rename_i hclose
        cases h
        exact ⟨[c], rfl, fun rest => by rw [List.singleton_append, rawArgsFrom?, if_pos hclose]⟩
      · rename_i hclose
        obtain ⟨r, hr, rfl⟩ := Option.map_eq_some_iff.1 h
        obtain ⟨body, rfl, hbody⟩ := ih hr
        refine ⟨c :: body, ?_, fun rest => ?_⟩
        · split <;> rfl
        · rw [List.cons_append, rawArgsFrom?, if_neg hclose, hbody]
          split <;> rfl

/-! ### Calls -/

/-- Letters and blanks in brackets, or nothing. -/
def IsSubscript (cs : List Char) : Prop :=
  cs = [] ∨ ∃ inner, cs = '[' :: (inner ++ [']']) ∧ ∀ c ∈ inner, isLabelChar c = true

theorem readLabels_subscript {inner : List Char} (hinner : ∀ c ∈ inner, isLabelChar c = true)
    (rest : List Char) :
    readLabels ('[' :: (inner ++ ']' :: rest)) = (inner.filter Char.isAlpha, rest) := by
  have hbracket : ']' ∉ inner := by
    intro hmem
    exact absurd (hinner _ hmem) (by decide)
  rw [readLabels_bracket hbracket, if_pos (List.all_eq_true.2 hinner), filter_letters hinner]

/-- Without letters and blanks in brackets there are no labels. -/
theorem readLabels_eq_self {cs : List Char}
    (h : ∀ inner rest, (∀ c ∈ inner, isLabelChar c = true) → cs ≠ '[' :: (inner ++ ']' :: rest)) :
    readLabels cs = ([], cs) := by
  unfold readLabels
  split
  · rename_i cs
    split
    · rfl
    · rename_i c rest hdrop
      dsimp only
      split
      · rename_i hall
        have hclose : c = ']' := by
          have hhead := List.head?_dropWhile_not (fun c => decide (c ≠ ']')) cs
          rw [hdrop] at hhead
          simpa using hhead
        have hsplit := List.takeWhile_append_dropWhile (p := fun c => decide (c ≠ ']')) (l := cs)
        rw [hdrop, hclose] at hsplit
        exact absurd (congrArg ('[' :: ·) hsplit.symm) (h _ rest (List.all_eq_true.1 hall))
      · rfl
  · rfl

/-- A rule's name and labels, if there are any, that end in front of `rest`. -/
structure Heads (name : String) (subscript rest : List Char) : Prop where
  isName : isName name = true
  isSubscript : IsSubscript subscript
  ends : subscript = [] →
    (∀ c, rest.head? = some c → isNameChar c = false) ∧
      ∀ inner after, (∀ c ∈ inner, isLabelChar c = true) → rest ≠ '[' :: (inner ++ ']' :: after)

theorem exists_heads {c : Char} (cs : List Char) (hstart : isNameStart c = true) :
    ∃ name subscript rest, c :: cs = name.toList ++ (subscript ++ rest) ∧
      Heads name subscript rest := by
  have hsplit : c :: cs = (String.ofList (c :: cs.takeWhile isNameChar)).toList ++
      cs.dropWhile isNameChar := by
    rw [String.toList_ofList, List.cons_append, List.takeWhile_append_dropWhile]
  have hname : isName (String.ofList (c :: cs.takeWhile isNameChar)) = true :=
    isName_iff.2 ⟨c, _, String.toList_ofList, hstart, List.all_eq_true.1 List.all_takeWhile⟩
  by_cases hlabels : ∃ inner after, (∀ c ∈ inner, isLabelChar c = true) ∧
      cs.dropWhile isNameChar = '[' :: (inner ++ ']' :: after)
  · obtain ⟨inner, after, hinner, hdrop⟩ := hlabels
    refine ⟨_, '[' :: (inner ++ [']']), after, ?_, hname, Or.inr ⟨inner, rfl, hinner⟩, by simp⟩
    rw [hsplit, hdrop]
    simp
  · refine ⟨_, [], _, hsplit, hname, Or.inl rfl, fun _ => ⟨?_, ?_⟩⟩
    · intro d hd
      have hhead := List.head?_dropWhile_not isNameChar cs
      rwa [hd] at hhead
    · intro inner after hinner hdrop
      exact hlabels ⟨inner, after, hinner, hdrop⟩

namespace Heads

variable {name : String} {subscript rest : List Char}

/-- An opening brace always ends the name and the labels. -/
theorem brace (hname : Segment.isName name = true) (hsub : IsSubscript subscript)
    (inner : List Char) : Heads name subscript ('\x7b' :: inner) := by
  refine ⟨hname, hsub, fun _ => ⟨?_, by simp⟩⟩
  intro c hc
  cases hc
  decide

theorem readDirective (h : Heads name subscript rest) {indices : List Index}
    (hindices : Directive.indicesOf (subscript.filter Char.isAlpha) = .ok indices) :
    Segment.readDirective (name.toList ++ (subscript ++ rest)) = readArgs name indices rest := by
  rcases h.isSubscript with rfl | ⟨inner, rfl, hinner⟩
  · obtain ⟨hend, hnone⟩ := h.ends rfl
    exact readDirective_append h.isName hend (readLabels_eq_self hnone) hindices
  · have hlabels := readLabels_subscript hinner rest
    have hletters : ('[' :: (inner ++ [']'])).filter Char.isAlpha = inner.filter Char.isAlpha := by
      simp
    rw [hletters] at hindices
    rw [List.cons_append, List.append_assoc, List.singleton_append]
    refine readDirective_append h.isName ?_ hlabels hindices
    intro c hc
    cases hc
    decide

end Heads

/-- The labels are letters, so all of them are classified. -/
theorem exists_indicesOf_letters (cs : List Char) :
    ∃ indices, Directive.indicesOf (cs.filter Char.isAlpha) = .ok indices := by
  have hletters : ∀ c ∈ cs.filter Char.isAlpha, c.isAlpha = true :=
    fun c hc => (List.mem_filter.1 hc).2
  obtain ⟨indices, hindices, -⟩ := exists_indicesOf hletters
  exact ⟨indices, hindices⟩

theorem readArgs_eq_error_iff {name : String} {indices : List Index} {rest : List Char}
    {e : Error} :
    readArgs name indices rest = .error e ↔
      e = .unterminatedArguments name ∧
        ∃ inner, rest = '\x7b' :: inner ∧ StaysOpen (.outside 0) inner := by
  have hopen : ∀ inner, rawArgs? 0 false inner = none ↔ StaysOpen (.outside 0) inner := by
    intro inner
    rw [rawArgs?_eq_rawArgsFrom?]
    exact rawArgsFrom?_eq_none_iff
  unfold readArgs
  split
  · rename_i inner
    split
    · rename_i hnone
      have hstays := (hopen inner).1 hnone
      simp [hstays, eq_comm]
    · rename_i r hsome
      have hstays := mt (hopen inner).2 (by simp [hsome])
      simp [hstays]
  · rename_i hne
    simp only [reduceCtorEq, false_iff, not_and, not_exists]
    rintro - inner rfl
    exact absurd rfl (hne inner)

/-! ### What follows a call -/

/-- Texts that differ only from a dollar sign on. -/
def Alike (xs ys : List Char) : Prop := xs.takeWhile (· ≠ '$') = ys.takeWhile (· ≠ '$')

namespace Alike

variable {xs ys : List Char}

theorem append_left (h : Alike xs ys) (run : List Char) : Alike (run ++ xs) (run ++ ys) := by
  unfold Alike at h ⊢
  rw [List.takeWhile_append, List.takeWhile_append, h]

theorem exists_append {run : List Char} (h : Alike (run ++ xs) ys) (hrun : '$' ∉ run) :
    ∃ zs, ys = run ++ zs := by
  have hkeep : ∀ c ∈ run, decide (c ≠ '$') = true := by
    intro c hc
    rw [decide_eq_true_eq]
    rintro rfl
    exact hrun hc
  have hsplit := List.takeWhile_append_dropWhile (p := fun c => decide (c ≠ '$')) (l := ys)
  rw [← h, List.takeWhile_append_of_pos hkeep, List.append_assoc] at hsplit
  exact ⟨_, hsplit.symm⟩

theorem head? (h : Alike xs ys) {c : Char} (hc : c ≠ '$') (hhead : xs.head? = some c) :
    ys.head? = some c := by
  obtain ⟨tail, rfl⟩ := List.head?_eq_some_iff.1 hhead
  have hsingle : Alike ([c] ++ tail) ys := h
  obtain ⟨zs, rfl⟩ := hsingle.exists_append (by simpa using hc.symm)
  rfl

theorem of_head? (hx : ∀ c, xs.head? = some c → c = '$') (hy : ∀ c, ys.head? = some c → c = '$') :
    Alike xs ys := by
  have hstop : ∀ zs : List Char, (∀ c, zs.head? = some c → c = '$') →
      zs.takeWhile (· ≠ '$') = [] := by
    intro zs hz
    cases zs with
    | nil => rfl
    | cons c zs =>
        rw [hz c rfl]
        rfl
  rw [Alike, hstop xs hx, hstop ys hy]

end Alike

/-- Names and labels hold no dollar signs. -/
theorem Heads.alike {name : String} {subscript rest rest' : List Char}
    (h : Heads name subscript rest) (halike : Alike rest' rest) : Heads name subscript rest' := by
  refine ⟨h.isName, h.isSubscript, fun hnone => ⟨?_, ?_⟩⟩
  · intro c hc
    by_cases hdollar : c = '$'
    · rw [hdollar]
      decide
    · exact (h.ends hnone).1 c (halike.head? hdollar hc)
  · intro inner after hinner heq
    have hrun : '$' ∉ '[' :: (inner ++ [']']) := by
      have hlabel : '$' ∉ inner := fun hmem => absurd (hinner _ hmem) (by decide)
      simp [hlabel]
    have hbrackets : rest' = ('[' :: (inner ++ [']'])) ++ after := by simp [heq]
    rw [hbrackets] at halike
    obtain ⟨zs, rfl⟩ := halike.exists_append hrun
    exact (h.ends hnone).2 inner zs hinner (by simp)

theorem readArgs_alike {name : String} {indices : List Index} {after rest : List Char}
    {d : Directive} (h : readArgs name indices after = .ok (d, rest)) :
    d.name = name ∧ ∃ used, after = used ++ rest ∧
      ∀ rest', Alike rest' rest → readArgs name indices (used ++ rest') = .ok (d, rest') := by
  unfold readArgs at h
  split at h
  · rename_i inner
    split at h
    · cases h
    · rename_i r hr
      cases h
      rw [rawArgs?_eq_rawArgsFrom?] at hr
      obtain ⟨body, hbody, hread⟩ := rawArgsFrom?_eq_some hr
      refine ⟨rfl, '\x7b' :: body, by rw [List.cons_append, ← hbody], fun rest' _ => ?_⟩
      rw [List.cons_append, readArgs, rawArgs?_eq_rawArgsFrom?, hread]
      rfl
  · rename_i hne
    cases h
    refine ⟨rfl, [], rfl, fun rest' halike => readArgs_of_ne fun hhead => ?_⟩
    obtain ⟨inner, hinner⟩ := List.head?_eq_some_iff.1 (halike.head? (by decide) hhead)
    exact hne inner hinner

/-- Where a call ends is told by the characters before the next dollar sign. -/
theorem readDirective_alike {c : Char} {cs rest : List Char} {d : Directive}
    (hstart : isNameStart c = true) (h : readDirective (c :: cs) = .ok (d, rest)) :
    isName d.name = true ∧ ∃ used, cs = used ++ rest ∧
      ∀ rest', Alike rest' rest → readDirective (c :: (used ++ rest')) = .ok (d, rest') := by
  obtain ⟨name, subscript, after, heq, hheads⟩ := exists_heads cs hstart
  obtain ⟨indices, hindices⟩ := exists_indicesOf_letters subscript
  obtain ⟨n, ns, hname, -, -⟩ := isName_iff.1 hheads.isName
  rw [heq, hheads.readDirective hindices] at h
  obtain ⟨hcall, used, rfl, hused⟩ := readArgs_alike h
  rw [hname, List.cons_append, List.cons.injEq] at heq
  obtain ⟨rfl, rfl⟩ := heq
  refine ⟨hcall ▸ hheads.isName, ns ++ (subscript ++ used), by simp, fun rest' halike => ?_⟩
  have hread := (hheads.alike (halike.append_left used)).readDirective hindices
  rw [hused rest' halike, hname] at hread
  simpa using hread

/-! ### Lines that do not scan -/

/-- The call of a rule with an argument list that nothing closes. -/
def Dangling (name : String) (call : List Char) : Prop :=
  isName name = true ∧ ∃ subscript inner, call = name.toList ++ (subscript ++ '\x7b' :: inner) ∧
    IsSubscript subscript ∧ StaysOpen (.outside 0) inner

theorem Dangling.append {name : String} {call more : List Char} (h : Dangling name call)
    (hmore : '\x7d' ∉ more) : Dangling name (call ++ more) := by
  obtain ⟨hname, subscript, inner, rfl, hsub, hopen⟩ := h
  exact ⟨hname, subscript, inner ++ more, by simp, hsub, hopen.append hmore⟩

/-- A call can fail to be read in one way only. -/
theorem readDirective_eq_error_iff {c : Char} {cs : List Char} {e : Error}
    (hstart : isNameStart c = true) :
    readDirective (c :: cs) = .error e ↔
      ∃ name, e = .unterminatedArguments name ∧ Dangling name (c :: cs) := by
  constructor
  · intro h
    obtain ⟨name, subscript, rest, heq, hheads⟩ := exists_heads cs hstart
    obtain ⟨indices, hindices⟩ := exists_indicesOf_letters subscript
    rw [heq, hheads.readDirective hindices, readArgs_eq_error_iff] at h
    obtain ⟨he, inner, rfl, hopen⟩ := h
    exact ⟨name, he, hheads.isName, subscript, inner, heq, hheads.isSubscript, hopen⟩
  · rintro ⟨name, rfl, hname, subscript, inner, heq, hsub, hopen⟩
    obtain ⟨indices, hindices⟩ := exists_indicesOf_letters subscript
    rw [heq, (Heads.brace hname hsub inner).readDirective hindices, readArgs_eq_error_iff]
    exact ⟨rfl, inner, rfl, hopen⟩

/-- The characters are read as these tokens, at the end of a line and in front of a dollar sign. -/
def ReadsAs (before : List Char) (ts : List Token) : Prop :=
  ∀ more, (∀ c, more.head? = some c → c = '$') →
    tokens (before ++ more) = (ts ++ ·) <$> tokens more

theorem tokens_cons_map (t : Token) (ts : List Token) (read : Except Error (List Token)) :
    (do return t :: (← (ts ++ ·) <$> read)) = (t :: ts ++ ·) <$> read := by
  cases read <;> rfl

namespace ReadsAs

variable {before : List Char} {ts : List Token}

protected theorem nil : ReadsAs [] [] := by
  intro more _
  rw [List.nil_append]
  cases tokens more <;> rfl

theorem dollars (h : ReadsAs before ts) : ReadsAs ('$' :: '$' :: before) (.char '$' :: ts) := by
  intro more hmore
  rw [List.cons_append, List.cons_append, tokens, h more hmore]
  exact tokens_cons_map _ ts _

theorem dollar {c : Char} (h : ReadsAs (c :: before) ts) (hne : c ≠ '$')
    (hstart : isNameStart c = false) : ReadsAs ('$' :: c :: before) (.char '$' :: ts) := by
  intro more hmore
  have hrest := h more hmore
  rw [List.cons_append] at hrest
  rw [List.cons_append, List.cons_append, tokens.eq_3 c _ (by simp [hne]),
    if_neg (by simp [hstart]), hrest]
  exact tokens_cons_map _ ts _

theorem char {c : Char} (h : ReadsAs before ts) (hne : c ≠ '$') :
    ReadsAs (c :: before) (.char c :: ts) := by
  intro more hmore
  rw [List.cons_append, tokens.eq_4 c _ (by simp [hne]) (by simp [hne]), h more hmore]
  exact tokens_cons_map _ ts _

theorem call {c : Char} {used : List Char} {d : Directive} (h : ReadsAs before ts)
    (hstart : isNameStart c = true)
    (hread : ∀ more, (∀ c, more.head? = some c → c = '$') →
      readDirective (c :: (used ++ (before ++ more))) = .ok (d, before ++ more)) :
    ReadsAs ('$' :: c :: (used ++ before)) (.directive d :: ts) := by
  intro more hmore
  rw [List.cons_append, List.cons_append, List.append_assoc, tokens_call _ hstart, hread more hmore]
  show (do return Token.directive d :: (← tokens (before ++ more))) = _
  rw [h more hmore]
  exact tokens_cons_map _ ts _

end ReadsAs

/-- The line is read up to the call of a rule with an argument list that nothing closes. -/
def Dangles (name : String) (cs : List Char) : Prop :=
  ∃ before ts call, cs = before ++ '$' :: call ∧ ReadsAs before ts ∧ Dangling name call

theorem Dangles.append {name : String} {cs more : List Char} (h : Dangles name cs)
    (hmore : '\x7d' ∉ more) : Dangles name (cs ++ more) := by
  obtain ⟨before, ts, call, rfl, hbefore, hcall⟩ := h
  exact ⟨before, ts, call ++ more, by simp, hbefore, hcall.append hmore⟩

theorem Dangles.tokens {name : String} {cs : List Char} (h : Dangles name cs) :
    Segment.tokens cs = .error (.unterminatedArguments name) := by
  obtain ⟨before, ts, call, rfl, hbefore, hcall⟩ := h
  obtain ⟨c, cs, hname, hstart, -⟩ := isName_iff.1 hcall.1
  obtain ⟨tail, rfl⟩ : ∃ tail, call = c :: tail := by
    obtain ⟨-, subscript, inner, rfl, -, -⟩ := hcall
    exact ⟨_, by rw [hname, List.cons_append]⟩
  have hread := (readDirective_eq_error_iff hstart).2 ⟨name, rfl, hcall⟩
  rw [hbefore _ (by simp), tokens_call tail hstart, hread]
  rfl

theorem tokens_cons_error {t : Token} {rest : Except Error (List Token)} {e : Error}
    (h : (do return t :: (← rest)) = Except.error e) : rest = .error e := by
  cases rest with
  | error e' => exact h
  | ok ts => cases h

theorem exists_dangles {cs : List Char} {e : Error} (h : tokens cs = .error e) :
    ∃ name, e = .unterminatedArguments name ∧ Dangles name cs := by
  fun_induction tokens cs with
  | case1 => cases h
  | case2 cs ih =>
      obtain ⟨name, he, before, ts, call, rfl, hbefore, hcall⟩ := ih (tokens_cons_error h)
      exact ⟨name, he, '$' :: '$' :: before, _, call, rfl, hbefore.dollars, hcall⟩
  | case3 c cs hne hstart e' hread =>
      cases h
      obtain ⟨name, he, hcall⟩ := (readDirective_eq_error_iff hstart).1 hread
      exact ⟨name, he, [], [], c :: cs, rfl, .nil, hcall⟩
  | case4 c cs hne hstart d rest hread _ ih =>
      obtain ⟨name, he, before, ts, call, rfl, hbefore, hcall⟩ := ih (tokens_cons_error h)
      obtain ⟨-, used, rfl, hused⟩ := readDirective_alike hstart hread
      -- the call is read alike at the end of a line and in front of any dollar sign
      have hread : ∀ more, (∀ c, more.head? = some c → c = '$') →
          readDirective (c :: (used ++ (before ++ more))) = .ok (d, before ++ more) := by
        intro more hmore
        exact hused _ ((Alike.of_head? hmore (by simp)).append_left before)
      exact ⟨name, he, '$' :: c :: (used ++ before), _, call, by simp, hbefore.call hstart hread,
        hcall⟩
  | case5 c cs hne hstart ih =>
      obtain ⟨name, he, before, ts, call, heq, hbefore, hcall⟩ := ih (tokens_cons_error h)
      cases before with
      | nil => exact absurd (List.cons.inj heq).1 hne
      | cons b before =>
          obtain ⟨rfl, rfl⟩ := List.cons.inj heq
          rw [Bool.not_eq_true] at hstart
          exact ⟨name, he, '$' :: c :: before, _, call, rfl, hbefore.dollar hne hstart, hcall⟩
  | case6 c cs hpair hname ih =>
      obtain ⟨name, he, before, ts, call, rfl, hbefore, hcall⟩ := ih (tokens_cons_error h)
      have hne : c ≠ '$' := by
        rintro rfl
        cases before with
        | nil => exact hpair _ rfl rfl
        | cons b before => exact hname _ _ rfl rfl
      exact ⟨name, he, c :: before, _, call, rfl, hbefore.char hne, hcall⟩

/-- A line does not scan exactly if it has an argument list in it that nothing closes. -/
theorem scan_eq_error_iff {line : String} {e : Error} :
    scan line = .error e ↔ ∃ name, e = .unterminatedArguments name ∧ Dangles name line.toList := by
  have htokens : scan line = .error e ↔ tokens line.toList = .error e := by
    unfold scan
    cases tokens line.toList with
    | error e' => simp [bind, Except.bind]
    | ok ts => simp [bind, Except.bind, pure, Except.pure]
  rw [htokens]
  constructor
  · exact exists_dangles
  · rintro ⟨name, rfl, hdangles⟩
    exact hdangles.tokens

/-! ### Lines that scan -/

/-- Texts that are not empty and do not follow each other. -/
structure Spaced (segments : List Segment) : Prop where
  texts : ∀ t, .text t ∈ segments → t ≠ ""
  apart : segments.IsChain fun s t => s.isDirective = true ∨ t.isDirective = true

/-- Spaced texts, and calls of rule names whose indices are letters with the class of the letter and
without a value. -/
structure Canonical (segments : List Segment) : Prop extends Spaced segments where
  names : ∀ d, .directive d ∈ segments → isName d.name = true
  indices : ∀ d, .directive d ∈ segments → ∀ i ∈ d.indices,
    i.label.isAlpha = true ∧ IndexClass.ofLabel? i.label = some i.cls ∧ i.value = none

theorem Spaced.consText {segments : List Segment} (h : Spaced segments)
    (hhead : ∀ s, segments.head? = some s → s.isDirective = true) (run : List Char) :
    Spaced (consText run segments) := by
  unfold Segment.consText
  split
  · exact h
  · rename_i hrun
    have hne : String.ofList run ≠ "" := by
      intro hempty
      exact hrun (by simpa [← String.toList_inj] using hempty)
    refine ⟨fun t ht => ?_, ?_⟩
    · rcases List.mem_cons.1 ht with heq | hmem
      · cases heq
        exact hne
      · exact h.texts t hmem
    · cases segments with
      | nil => exact List.isChain_singleton _
      | cons s segments => exact List.isChain_cons_cons.2 ⟨Or.inr (hhead s rfl), h.apart⟩

/-- What is gathered behind the characters at the head starts with a call. -/
theorem isDirective_head?_gather (ts : List Token) :
    ∀ s, (gather ts).2.head? = some s → s.isDirective = true := by
  intro s hs
  induction ts with
  | nil => cases hs
  | cons t ts ih =>
      cases t with
      | char c => exact ih hs
      | directive d =>
          cases hs
          rfl

theorem spaced_gather (ts : List Token) : Spaced (gather ts).2 := by
  induction ts with
  | nil => exact ⟨by simp [gather], List.isChain_nil⟩
  | cons t ts ih =>
      cases t with
      | char c => exact ih
      | directive d =>
          have hrest := ih.consText (isDirective_head?_gather ts) (gather ts).1
          refine ⟨fun t ht => ?_, ?_⟩
          · exact hrest.texts t (by simpa [gather] using ht)
          · exact List.isChain_cons.2 ⟨fun s _ => Or.inl rfl, hrest.apart⟩

theorem spaced_ofTokens (ts : List Token) : Spaced (ofTokens ts) :=
  (spaced_gather ts).consText (isDirective_head?_gather ts) (gather ts).1

theorem isName_of_tokens {cs : List Char} {ts : List Token} (h : tokens cs = .ok ts)
    {d : Directive} (hd : .directive d ∈ ts) : isName d.name = true := by
  obtain ⟨c, tail, rest, hstart, hread, -⟩ := exists_readDirective h hd
  exact (readDirective_alike hstart hread).1

theorem canonical_of_scan {line : String} {segments : List Segment}
    (h : scan line = .ok segments) : Canonical segments := by
  cases htokens : tokens line.toList with
  | error e => simp [scan, htokens, bind, Except.bind] at h
  | ok ts =>
      have hsegments : segments = ofTokens ts := by
        simpa [scan, htokens, eq_comm] using h
      subst hsegments
      refine ⟨spaced_ofTokens ts, fun d hd => ?_, fun d hd i hi => ?_⟩
      · exact isName_of_tokens htokens (mem_of_mem_gather (mem_of_mem_consText hd))
      · have hlabel := (madeOf_scan h hd).indices i hi
        obtain ⟨cls, hcls, heq⟩ := Option.map_eq_some_iff.1 hlabel
        refine ⟨isAlpha_of_ofLabel? hlabel, ?_, ?_⟩
        · rw [hcls, ← heq]
        · rw [← heq]

/-- A line that scans gives texts and calls in their normal form. It fails to scan exactly if the
argument list of a call in it is open to the end, and still fails so if anything without a closing
brace is appended. -/
theorem scan_outcome (line : String) :
    (∀ segments, scan line = .ok segments → Canonical segments) ∧
      (∀ e, scan line = .error e ↔
        ∃ name, e = .unterminatedArguments name ∧ Dangles name line.toList) ∧
      ∀ e more, scan line = .error e → '\x7d' ∉ more.toList → scan (line ++ more) = .error e := by
  refine ⟨fun segments => canonical_of_scan, fun e => scan_eq_error_iff, fun e more h hmore => ?_⟩
  obtain ⟨name, he, hdangles⟩ := scan_eq_error_iff.1 h
  refine scan_eq_error_iff.2 ⟨name, he, ?_⟩
  rw [String.toList_append]
  exact hdangles.append hmore

/-- The rule whose arguments are open at the end of the line. -/
def openRule? (line : String) : Option String :=
  match scan line with
  | .error (.unterminatedArguments name) => some name
  | _ => none

/-- So that the failure of a line can be found by evaluation. -/
theorem scan_eq_of_openRule? {line name : String} (h : openRule? line = some name) :
    scan line = .error (.unterminatedArguments name) := by
  unfold openRule? at h
  split at h
  · rename_i hscan
    cases h
    exact hscan
  · cases h

/-- A bracket in front of the call that stays open and a quote in its list, which are both closed by
what is appended, and a line with all kinds of segments. -/
theorem scan_outcome_quote :
    let line := "$A[b $C\x7bx, \"\x7d"
    let more := "\\\"\" ], \x7b"
    let segments : List Segment :=
      [.text "x$ ",
        .directive
          { name := "U2"
            indices := [⟨'A', .full, none⟩, ⟨'b', .field, none⟩]
            args := ["1", "\x7d"] },
        .text "[0]"]
    scan line = .error (.unterminatedArguments "C") ∧
      scan (line ++ more) = .error (.unterminatedArguments "C") ∧
      scan "x$$ $U2[A b]\x7b1, \"\x7d\"\x7d[0]" = .ok segments ∧ Canonical segments := by
  intro line more segments
  have hopen : scan line = .error (.unterminatedArguments "C") :=
    scan_eq_of_openRule? (by decide +kernel)
  have hsegments : scan "x$$ $U2[A b]\x7b1, \"\x7d\"\x7d[0]" = .ok segments :=
    scan_eq_of_toOption (by decide +kernel)
  exact ⟨hopen, (scan_outcome line).2.2 _ more hopen (by decide), hsegments,
    (scan_outcome _).1 _ hsegments⟩

end Segment

end TensorTemplate
