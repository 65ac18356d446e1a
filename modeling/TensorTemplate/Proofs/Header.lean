import TensorTemplate.Header
import TensorTemplate.Proofs.Names
import TensorTemplate.Proofs.PlainLine
import Mathlib.Data.Prod.Lex

/-!
Which first lines are accepted.

A version is written as one to three numbers with points between them, a header as a
backend and a version with blanks between them and around. Reading agrees with these
rules in both directions, so the line settles what a header says, whether it fits, and
for which of three reasons it is turned down.
-/

namespace TensorTemplate

/-! ### Words -/

namespace Text

theorem isBlank_eq_false_of_isDigit {c : Char} (h : c.isDigit = true) :
    isBlank c = false := by
  have hrange : 48 ≤ c.toNat ∧ c.toNat ≤ 57 := Char.isDigit_iff_toNat.1 h
  simp only [isBlank, Bool.or_eq_false_iff, Bool.and_eq_false_imp, decide_eq_true_eq,
    decide_eq_false_iff_not, beq_eq_false_iff_ne]
  omega

/-- A text without blanks has none to be taken off. -/
theorem trimList_of_shown {cs : List Char} (h : ∀ c ∈ cs, isBlank c = false) :
    trimList cs = cs := by
  have hdrop : ∀ ds : List Char, (∀ c ∈ ds, isBlank c = false) →
      ds.dropWhile isBlank = ds := by
    intro ds hds
    cases ds with
    | nil => rfl
    | cons d ds => simp [hds d List.mem_cons_self]
  have hreverse : ∀ c ∈ cs.reverse, isBlank c = false := fun c hc =>
    h c (List.mem_reverse.1 hc)
  rw [trimList, hdrop cs h, trimEndList, hdrop _ hreverse, List.reverse_reverse]

/-- At least one character, and none that is blank. -/
def IsWord (w : List Char) : Prop := w ≠ [] ∧ ∀ c ∈ w, isBlank c = false

/-- Two words, with blanks between them and perhaps around them, and nothing else. -/
def TwoWords (line first second : List Char) : Prop :=
  ∃ before between after, line = before ++ (first ++ (between ++ (second ++ after))) ∧
    IsWord first ∧ IsWord second ∧ between ≠ [] ∧
    ∀ c ∈ before ++ between ++ after, isBlank c = true

/-- The words of a list of characters. -/
def wordList (cs : List Char) : List (List Char) :=
  (cs.splitOnP isBlank).filter fun w => !w.isEmpty

theorem words_eq (s : String) : words s = (wordList s.toList).map String.ofList := rfl

theorem wordList_blank_cons {c : Char} (hc : isBlank c = true) (cs : List Char) :
    wordList (c :: cs) = wordList cs := by
  simp [wordList, List.splitOnP_cons_eq_if_modifyHead, hc]

theorem wordList_append_of_blank {bs : List Char} (hbs : ∀ c ∈ bs, isBlank c = true)
    (cs : List Char) : wordList (bs ++ cs) = wordList cs := by
  induction bs with
  | nil => rfl
  | cons b bs ih =>
      rw [List.cons_append, wordList_blank_cons (hbs b List.mem_cons_self)]
      exact ih fun c hc => hbs c (List.mem_cons_of_mem _ hc)

theorem wordList_of_blank {bs : List Char} (hbs : ∀ c ∈ bs, isBlank c = true) :
    wordList bs = [] := by
  have hnil : wordList [] = [] := rfl
  rw [← List.append_nil bs, wordList_append_of_blank hbs, hnil]

/-- A word that a blank or the end follows. -/
theorem wordList_append_of_isWord {w : List Char} (hw : IsWord w) {rest : List Char}
    (hrest : ∀ c ∈ rest.head?, isBlank c = true) : wordList (w ++ rest) = w :: wordList rest := by
  obtain ⟨hne, hshown⟩ := hw
  cases rest with
  | nil => simp [wordList, List.splitOnP_eq_singleton hshown, hne]
  | cons c cs =>
      have hc : isBlank c = true := hrest c rfl
      rw [wordList_blank_cons hc, wordList,
        List.splitOnP_append_cons_of_forall_mem hshown c hc, List.filter_cons_of_pos (by simpa)]
      rfl

/-- The characters in front of the first word, that word, and the rest. -/
theorem wordList_eq_cons {cs w : List Char} {ws : List (List Char)} (h : wordList cs = w :: ws) :
    ∃ before rest, cs = before ++ (w ++ rest) ∧ (∀ c ∈ before, isBlank c = true) ∧ IsWord w ∧
      (∀ c ∈ rest.head?, isBlank c = true) ∧ wordList rest = ws := by
  induction cs with
  | nil => cases h
  | cons c cs ih =>
      cases hc : isBlank c with
      | true =>
          rw [wordList_blank_cons hc] at h
          obtain ⟨before, rest, rfl, hbefore, hrest⟩ := ih h
          exact ⟨c :: before, rest, rfl, List.forall_mem_cons.2 ⟨hc, hbefore⟩, hrest⟩
      | false =>
          -- the word starts here and goes on to the next blank
          set rest := (c :: cs).dropWhile fun d => !isBlank d
          have hword : IsWord ((c :: cs).takeWhile fun d => !isBlank d) := by
            refine ⟨by simp [hc], fun d hd => ?_⟩
            simpa using List.all_eq_true.1 List.all_takeWhile d hd
          have hrest : ∀ d ∈ rest.head?, isBlank d = true := by
            intro d hd
            have hstop := List.head?_dropWhile_not (fun d => !isBlank d) (c :: cs)
            rw [Option.mem_def.1 hd] at hstop
            simpa using hstop
          have hcut : c :: cs = (c :: cs).takeWhile (fun d => !isBlank d) ++ rest :=
            List.takeWhile_append_dropWhile.symm
          rw [hcut, wordList_append_of_isWord hword hrest] at h
          obtain ⟨rfl, rfl⟩ := List.cons.inj h
          exact ⟨[], rest, hcut, by simp, hword, hrest, rfl⟩

theorem wordList_eq_nil {cs : List Char} (h : wordList cs = []) : ∀ c ∈ cs, isBlank c = true := by
  induction cs with
  | nil => simp
  | cons c cs ih =>
      cases hc : isBlank c with
      | true =>
          rw [wordList_blank_cons hc] at h
          exact List.forall_mem_cons.2 ⟨hc, ih h⟩
      | false =>
          obtain ⟨first, rest, hsplit⟩ :=
            List.exists_cons_of_ne_nil (List.splitOnP_ne_nil isBlank cs)
          simp [wordList, List.splitOnP_cons_eq_if_modifyHead, hc, hsplit] at h

theorem words_eq_pair_iff {line first second : String} :
    words line = [first, second] ↔ TwoWords line.toList first.toList second.toList := by
  have hpair : [first, second] = [first.toList, second.toList].map String.ofList := by simp
  rw [words_eq, hpair, List.map_inj_right fun _ _ => String.ofList_inj.1]
  constructor
  · intro h
    obtain ⟨before, rest, hline, hbefore, hfirst, hhead, hrest⟩ := wordList_eq_cons h
    obtain ⟨between, after, rfl, hbetween, hsecond, -, hafter⟩ := wordList_eq_cons hrest
    refine ⟨before, between, after, hline, hfirst, hsecond, ?_, ?_⟩
    · rintro rfl
      -- the first word would go on into the second
      obtain ⟨c, cs, hcs⟩ := List.exists_cons_of_ne_nil hsecond.1
      have hblank := hhead c (by simp [hcs])
      rw [hsecond.2 c (hcs ▸ List.mem_cons_self)] at hblank
      cases hblank
    · have hafter := wordList_eq_nil hafter
      simp only [List.mem_append]
      rintro c ((hc | hc) | hc)
      · exact hbefore c hc
      · exact hbetween c hc
      · exact hafter c hc
  · rintro ⟨before, between, after, hline, hfirst, hsecond, hne, hblank⟩
    simp only [List.mem_append, or_imp, forall_and] at hblank
    obtain ⟨⟨hbefore, hbetween⟩, hafter⟩ := hblank
    have hafter' : ∀ c ∈ after.head?, isBlank c = true := fun c hc =>
      hafter c (List.mem_of_mem_head? hc)
    obtain ⟨b, bs, rfl⟩ := List.exists_cons_of_ne_nil hne
    have hbetween' : ∀ c ∈ (b :: bs ++ (second.toList ++ after)).head?, isBlank c = true := by
      rintro c ⟨⟩
      exact hbetween b List.mem_cons_self
    rw [hline, wordList_append_of_blank hbefore, wordList_append_of_isWord hfirst hbetween',
      wordList_append_of_blank hbetween, wordList_append_of_isWord hsecond hafter',
      wordList_of_blank hafter]

end Text

/-! ### Versions -/

namespace Version

/-- Decimal digits, perhaps after a plus sign, of a value that fits in 32 bits. -/
def IsPart (part : List Char) (n : Nat) : Prop :=
  ∃ ds, (part = ds ∨ part = '+' :: ds) ∧ ds ≠ [] ∧ (∀ d ∈ ds, d.isDigit = true) ∧
    Nat.ofDigitChars 10 ds 0 = n ∧ n < 4294967296

/-- The ways to write a version. Parts that are left out are zero. -/
inductive Written : List Char → Version → Prop where
  | one {a : List Char} {i : Nat} (ha : IsPart a i) : Written a ⟨i, 0, 0⟩
  | two {a b : List Char} {i j : Nat} (ha : IsPart a i) (hb : IsPart b j) :
      Written (a ++ '.' :: b) ⟨i, j, 0⟩
  | three {a b c : List Char} {i j k : Nat} (ha : IsPart a i) (hb : IsPart b j)
      (hc : IsPart c k) : Written (a ++ '.' :: (b ++ '.' :: c)) ⟨i, j, k⟩

theorem eq_unsigned_or (part : List Char) :
    part = unsigned part ∨ part = '+' :: unsigned part := by
  unfold unsigned
  split
  · exact Or.inr rfl
  · exact Or.inl rfl

theorem unsigned_of_isDigit {ds : List Char} (h : ∀ d ∈ ds, d.isDigit = true) :
    unsigned ds = ds := by
  unfold unsigned
  split
  · exact absurd (h '+' List.mem_cons_self) (by decide)
  · rfl

theorem component?_eq_some_iff {part : List Char} {n : Nat} :
    component? part = some n ↔ IsPart part n := by
  have hvalue : ∀ ds, digitsValue ds = Nat.ofDigitChars 10 ds 0 := fun _ =>
    Nat.ofDigitChars_eq_foldl.symm
  simp only [component?, Option.ite_none_right_eq_some, Option.some.injEq, hvalue]
  constructor
  · rintro ⟨⟨hne, hdigits, hlt⟩, rfl⟩
    exact ⟨unsigned part, eq_unsigned_or part, hne, List.all_eq_true.1 hdigits, rfl, hlt⟩
  · rintro ⟨ds, hpart, hne, hdigits, rfl, hlt⟩
    have hunsigned : unsigned part = ds := by
      rcases hpart with rfl | rfl
      · exact unsigned_of_isDigit hdigits
      · rfl
    rw [hunsigned]
    exact ⟨⟨hne, List.all_eq_true.2 hdigits, hlt⟩, rfl⟩

/-- There is no point in a part, and no blank. -/
theorem IsPart.notMem {part : List Char} {n : Nat} (h : IsPart part n) {c : Char}
    (hdigit : c.isDigit = false) (hplus : c ≠ '+') : c ∉ part := by
  obtain ⟨ds, hpart, -, hdigits, -⟩ := h
  have hds : c ∉ ds := by
    intro hc
    rw [hdigits c hc] at hdigit
    cases hdigit
  rcases hpart with rfl | rfl
  · exact hds
  · simp [hplus, hds]

/-- Reading goes on behind a part that is a number. -/
theorem number_bind_eq_ok_iff {β : Type} {part : List Char} {text : String}
    {next : Nat → Except ParseError β} {b : β} :
    ((match component? part with
        | some n => .ok n
        | none => .error (.component (String.ofList part) text) : Except ParseError Nat) >>= next) =
      .ok b ↔ ∃ n, IsPart part n ∧ next n = .ok b := by
  simp only [← component?_eq_some_iff]
  cases component? part with
  | none => simp [bind, Except.bind]
  | some n => simp [bind, Except.bind]

/-- Reading a text gives the version that it is a way to write, blanks around it aside. -/
theorem parse_eq_ok_iff {text : String} {v : Version} :
    parse text = .ok v ↔ Written (Text.trimList text.toList) v := by
  have htrim : (Text.trim text).toList = Text.trimList text.toList := String.toList_ofList
  simp only [parse, htrim]
  generalize Text.trimList text.toList = cs
  constructor
  · intro h
    have hjoin : ['.'].intercalate (cs.splitOn '.') = cs := List.intercalate_splitOn '.'
    split at h
    · cases h
    · rename_i a hsplit
      obtain ⟨i, ha, hv⟩ := number_bind_eq_ok_iff.1 h
      cases hv
      rw [hsplit] at hjoin
      subst hjoin
      simpa [List.intercalate] using Written.one ha
    · rename_i a b hsplit
      obtain ⟨i, ha, h⟩ := number_bind_eq_ok_iff.1 h
      obtain ⟨j, hb, hv⟩ := number_bind_eq_ok_iff.1 h
      cases hv
      rw [hsplit] at hjoin
      subst hjoin
      simpa [List.intercalate] using Written.two ha hb
    · rename_i a b c hsplit
      obtain ⟨i, ha, h⟩ := number_bind_eq_ok_iff.1 h
      obtain ⟨j, hb, h⟩ := number_bind_eq_ok_iff.1 h
      obtain ⟨k, hc, hv⟩ := number_bind_eq_ok_iff.1 h
      cases hv
      rw [hsplit] at hjoin
      subst hjoin
      simpa [List.intercalate] using Written.three ha hb hc
    · obtain ⟨i, -, h⟩ := number_bind_eq_ok_iff.1 h
      obtain ⟨j, -, h⟩ := number_bind_eq_ok_iff.1 h
      obtain ⟨k, -, h⟩ := number_bind_eq_ok_iff.1 h
      cases h
  · intro h
    have hpoint : ∀ {part : List Char} {n : Nat}, IsPart part n → '.' ∉ part := fun hpart =>
      hpart.notMem (by decide) (by decide)
    cases h with
    | one ha =>
        rw [List.splitOn_eq_singleton (hpoint ha)]
        exact number_bind_eq_ok_iff.2 ⟨_, ha, rfl⟩
    | two ha hb =>
        rw [List.splitOn_append_cons_self_of_not_mem (hpoint ha),
          List.splitOn_eq_singleton (hpoint hb)]
        exact number_bind_eq_ok_iff.2 ⟨_, ha, number_bind_eq_ok_iff.2 ⟨_, hb, rfl⟩⟩
    | three ha hb hc =>
        rw [List.splitOn_append_cons_self_of_not_mem (hpoint ha),
          List.splitOn_append_cons_self_of_not_mem (hpoint hb),
          List.splitOn_eq_singleton (hpoint hc)]
        exact number_bind_eq_ok_iff.2 ⟨_, ha, number_bind_eq_ok_iff.2
          ⟨_, hb, number_bind_eq_ok_iff.2 ⟨_, hc, rfl⟩⟩⟩

theorem isPart_repr {n : Nat} (h : n < 4294967296) : IsPart n.repr.toList n := by
  refine ⟨n.repr.toList, Or.inl rfl, ?_, fun d hd => isDigit_of_mem_repr hd, ?_, h⟩
  · simp
  · rw [Nat.toList_repr, Nat.ofDigitChars_ten_toDigits]

/-- Reading what is written for a version gives that version. -/
theorem parse_render {v : Version} (hmajor : v.major < 4294967296) (hminor : v.minor < 4294967296)
    (hpatch : v.patch < 4294967296) : parse v.render = .ok v := by
  have hrender : v.render.toList =
      v.major.repr.toList ++ '.' :: (v.minor.repr.toList ++ '.' :: v.patch.repr.toList) := by
    simp [render]
  have hshown : ∀ c ∈ v.render.toList, Text.isBlank c = false := by
    intro c hc
    have hdigits : ∀ n : Nat, c ∈ n.repr.toList → Text.isBlank c = false := fun n hmem =>
      Text.isBlank_eq_false_of_isDigit (isDigit_of_mem_repr hmem)
    have hpoint : Text.isBlank '.' = false := by decide
    simp only [hrender, List.mem_append, List.mem_cons] at hc
    rcases hc with hc | rfl | hc | rfl | hc
    · exact hdigits _ hc
    · exact hpoint
    · exact hdigits _ hc
    · exact hpoint
    · exact hdigits _ hc
  rw [parse_eq_ok_iff, Text.trimList_of_shown hshown, hrender]
  exact .three (isPart_repr hmajor) (isPart_repr hminor) (isPart_repr hpatch)

/-- The numbers of a version, in the lexicographic order. -/
def numbers (v : Version) : ℕ ×ₗ ℕ ×ₗ ℕ := toLex (v.major, toLex (v.minor, v.patch))

theorem compare_eq_gt_iff {v w : Version} : v.compare w = .gt ↔ w.numbers < v.numbers := by
  simp only [compare, numbers, Prod.Lex.toLex_lt_toLex, Ordering.then_eq_gt, Nat.compare_eq_gt,
    Nat.compare_eq_eq]
  omega

end Version

/-! ### Headers -/

namespace Header

/-- The text has this first line and this body behind it. -/
def Cut (text line body : String) : Prop :=
  '\n' ∉ line.toList ∧ (text = line ∧ body = "" ∨ text = line ++ "\n" ++ body)

theorem splitFirst_eq_iff {text line body : String} :
    splitFirst text = (line, body) ↔ Cut text line body := by
  constructor
  · rintro ⟨⟩
    set front := text.toList.takeWhile (· ≠ '\n')
    set rest := text.toList.dropWhile (· ≠ '\n')
    have hfront : '\n' ∉ front := fun hmem => by
      simpa using List.all_eq_true.1 List.all_takeWhile _ hmem
    have hjoin : text.toList = front ++ rest := List.takeWhile_append_dropWhile.symm
    refine ⟨by rwa [String.toList_ofList], ?_⟩
    cases hrest : rest with
    | nil =>
        rw [hrest, List.append_nil] at hjoin
        exact Or.inl ⟨by rw [← hjoin, String.ofList_toList], rfl⟩
    | cons c cs =>
        have hstop := List.head?_dropWhile_not (· ≠ '\n') text.toList
        rw [show text.toList.dropWhile (· ≠ '\n') = c :: cs from hrest] at hstop
        have hc : c = '\n' := by simpa using hstop
        refine Or.inr (String.toList_injective ?_)
        rw [hjoin, hrest, hc]
        simp
  · rintro ⟨hline, htext⟩
    have hall : ∀ c ∈ line.toList, decide (c ≠ '\n') = true := by
      intro c hc
      simpa using fun heq : c = '\n' => hline (heq ▸ hc)
    rcases htext with ⟨rfl, rfl⟩ | rfl
    · rw [splitFirst, ← List.append_nil text.toList, List.takeWhile_append_of_pos hall,
        List.dropWhile_append_of_pos hall]
      simp
    · have hchars : (line ++ "\n" ++ body).toList = line.toList ++ '\n' :: body.toList := by simp
      rw [splitFirst, hchars, List.takeWhile_append_of_pos hall, List.dropWhile_append_of_pos hall]
      simp

/-- The line asks for this backend and this version. -/
def Asks (line backend : String) (v : Version) : Prop :=
  ∃ word : String, Text.TwoWords line.toList backend.toList word.toList ∧
    Version.Written word.toList v

theorem ofLine?_eq_some_iff {line : String} {h : Header} :
    ofLine? line = some h ↔ Asks line h.backend h.minVersion := by
  have hread : ∀ {word : String} {v : Version}, Text.IsWord word.toList →
      (Version.parse word = .ok v ↔ Version.Written word.toList v) := by
    intro word v hword
    rw [Version.parse_eq_ok_iff, Text.trimList_of_shown hword.2]
  constructor
  · intro hline
    unfold ofLine? at hline
    split at hline
    · rename_i backend word hwords
      have htwo := Text.words_eq_pair_iff.1 hwords
      split at hline
      · rename_i v hparse
        cases hline
        obtain ⟨-, -, -, -, -, hword, -⟩ := id htwo
        exact ⟨word, htwo, (hread hword).1 hparse⟩
      · cases hline
    · cases hline
  · rintro ⟨word, htwo, hwritten⟩
    obtain ⟨-, -, -, -, -, hword, -⟩ := id htwo
    rw [ofLine?, Text.words_eq_pair_iff.2 htwo]
    simp only [(hread hword).2 hwritten]

/-- The line asks for the backend in use and for a version that is there. -/
def Fits (backend : String) (available : Version) (line : String) : Prop :=
  ∃ v, Asks line backend v ∧ v.numbers ≤ available.numbers

/-- The complaint about a line that does not fit. -/
inductive Rejects (template backend : String) (available : Version) (line : String) :
    Error → Prop where
  | malformed (h : ∀ found v, ¬Asks line found v) :
      Rejects template backend available line (.malformedHeader template (Text.trimEnd line))
  | mismatch {found : String} {v : Version} (h : Asks line found v) (hne : found ≠ backend) :
      Rejects template backend available line (.backendMismatch template found backend)
  | tooLow {v : Version} (h : Asks line backend v) (hlt : available.numbers < v.numbers) :
      Rejects template backend available line (.versionTooLow template backend v available)

section Lines

variable {template backend text line body : String} {available : Version}

theorem ne_empty_of_asks {found : String} {v : Version} (h : Asks line found v) : line ≠ "" := by
  rintro rfl
  obtain ⟨word, htwo, -⟩ := h
  cases (Text.words_eq_pair_iff.2 htwo).symm.trans (show Text.words "" = [] by rfl)

/-- The lines of a text whose first line is not empty: the first one, and those of the body. -/
theorem exists_lines_eq (hcut : Cut text line body) (hne : line ≠ "") :
    ∃ first, Text.lines text = first :: Text.lines body := by
  obtain ⟨hline, ⟨rfl, rfl⟩ | rfl⟩ := hcut
  · have hnone : ∀ t ∈ ([] : List String), '\n' ∉ t.toList := by simp
    have hempty : Text.lines "" = [] := Text.lines_unlines hnone
    refine ⟨text, ?_⟩
    rw [hempty]
    simpa [Text.unlines, Text.dropFinalEmpty, hne] using Text.lines_unlines_append hnone hline
  · exact ⟨_, Text.lines_cons hline body⟩

theorem split_of_asks (hcut : Cut text line body) {found : String} {v : Version}
    (h : Asks line found v) : split template text = .ok (⟨found, v⟩, body) := by
  simp only [split, splitFirst_eq_iff.2 hcut, (ofLine?_eq_some_iff (h := ⟨found, v⟩)).2 h]

/-- A line that fits lets the body through. -/
theorem exists_of_fits (template : String) (hcut : Cut text line body)
    (h : Fits backend available line) :
    ∃ header, split template text = .ok (header, body) ∧
      header.validate template backend available = .ok () := by
  obtain ⟨v, hasks, hle⟩ := h
  refine ⟨⟨backend, v⟩, split_of_asks hcut hasks, ?_⟩
  have hlow : v.compare available ≠ .gt := fun hgt =>
    not_le_of_gt (Version.compare_eq_gt_iff.1 hgt) hle
  simp [validate, hlow]

/-- A complaint is what splitting or checking comes to. -/
theorem Rejects.error (hcut : Cut text line body) {e : Error}
    (h : Rejects template backend available line e) :
    split template text = .error e ∨
      ∃ header, split template text = .ok (header, body) ∧
        header.validate template backend available = .error e := by
  cases h with
  | malformed h =>
      refine Or.inl ?_
      have hnone : ofLine? line = none := by
        refine Option.eq_none_iff_forall_ne_some.2 fun header hheader => ?_
        exact h _ _ (ofLine?_eq_some_iff.1 hheader)
      simp only [split, splitFirst_eq_iff.2 hcut, hnone]
  | mismatch h hne =>
      exact Or.inr ⟨_, split_of_asks hcut h, by simp [validate, hne]⟩
  | tooLow h hlt =>
      exact Or.inr ⟨_, split_of_asks hcut h, by simp [validate, Version.compare_eq_gt_iff.2 hlt]⟩

/-- There is a complaint about every line that does not fit. -/
theorem exists_rejects (template : String) (h : ¬Fits backend available line) :
    ∃ e, Rejects template backend available line e := by
  by_cases hasks : ∃ found v, Asks line found v
  · obtain ⟨found, v, hasks⟩ := hasks
    by_cases hfound : found = backend
    · subst hfound
      exact ⟨_, .tooLow hasks (not_le.1 fun hle => h ⟨v, hasks, hle⟩)⟩
    · exact ⟨_, .mismatch hasks hfound⟩
  · exact ⟨_, .malformed fun found v hfound => hasks ⟨found, v, hfound⟩⟩

end Lines

end Header

end TensorTemplate
