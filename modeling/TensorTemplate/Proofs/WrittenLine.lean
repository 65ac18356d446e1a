import TensorTemplate.Proofs.PlainLine
import Mathlib.Data.List.Chain

/-!
Lines that are written from their segments.

Every list of segments that can be told apart in a line has a written form: dollar
signs of text are doubled, and a call is rendered with its arguments in double
quotes, where quotes and backslashes are escaped. Scanning the written form gives
the segments back. What has to be told apart are neighbours: texts that follow each
other would run together, and a call would take the head of a text for its own.
-/

namespace TensorTemplate

namespace Segment

/-! ### Writing -/

/-- The characters with every dollar sign doubled. -/
def doubled (cs : List Char) : List Char :=
  cs.flatMap fun c => if c = '$' then ['$', '$'] else [c]

/-- The characters with a backslash before every quote and backslash. -/
def escaped (cs : List Char) : List Char :=
  cs.flatMap fun c => if c = '\\' ∨ c = '"' then ['\\', c] else [c]

theorem doubled_cons (c : Char) (cs : List Char) :
    doubled (c :: cs) = (if c = '$' then ['$', '$'] else [c]) ++ doubled cs :=
  List.flatMap_cons

theorem escaped_cons (c : Char) (cs : List Char) :
    escaped (c :: cs) = (if c = '\\' ∨ c = '"' then ['\\', c] else [c]) ++ escaped cs :=
  List.flatMap_cons

/-- The argument in double quotes. -/
def inQuotes (arg : String) : String := "\"" ++ String.ofList (escaped arg.toList) ++ "\""

def write : Segment → String
  | text t => String.ofList (doubled t.toList)
  | directive d => { d with args := d.args.map inQuotes }.render

/-- The line that consists of these segments. -/
def writeLine (segments : List Segment) : String := String.join (segments.map write)

/-! ### What can be written -/

/-- The name of a rule: a capital or an underscore, then capitals, digits and underscores. -/
def isName (s : String) : Bool :=
  match s.toList with
  | [] => false
  | c :: cs => isNameStart c && cs.all isNameChar

/-- Whether the call, with this character directly behind it, would be read as a longer one. -/
def absorbs (d : Directive) (c : Char) : Bool :=
  if !d.args.isEmpty then false
  else if !d.indices.isEmpty then c == '\x7b'
  else isNameChar c || c == '[' || c == '\x7b'

/-- A text that is not empty, or a call of a rule's name with indices that are letters, have the
class of the letter and no value. -/
def isWritable : Segment → Bool
  | text t => !t.isEmpty
  | directive d => isName d.name && d.indices.all fun i => Index.ofLabel? i.label = some i

/-- Whether the second segment can stand directly behind the first. -/
def adjoins : Segment → Segment → Bool
  | text _, text _ => false
  | directive d, text t => t.toList.head?.all fun c => !absorbs d c
  | _, directive _ => true

/-- Segments that can be told apart in a line. -/
structure Writable (segments : List Segment) : Prop where
  each : ∀ s ∈ segments, s.isWritable = true
  apart : segments.IsChain fun s t => s.adjoins t = true

theorem Writable.tail {s : Segment} {segments : List Segment} (h : Writable (s :: segments)) :
    Writable segments :=
  ⟨fun t ht => h.each t (List.mem_cons_of_mem _ ht), h.apart.tail⟩

/-! ### Arguments -/

theorem unescape_escaped (cs : List Char) : unescape (escaped cs) = cs := by
  induction cs with
  | nil => rfl
  | cons c cs ih =>
      rw [escaped_cons]
      by_cases hslash : c = '\\'
      · subst hslash
        simp [unescape, ih]
      · by_cases hquote : c = '"'
        · subst hquote
          simp [unescape, ih]
        · simp [unescape, hslash, hquote, ih]

theorem toList_inQuotes (arg : String) :
    (inQuotes arg).toList = '"' :: (escaped arg.toList ++ ['"']) := by
  simp [inQuotes]

/-- Blanks in front of a quoted argument do not matter. -/
theorem argument_inQuotes (arg : String) (blanks : List Char)
    (hblanks : ∀ c ∈ blanks, Text.isBlank c = true) :
    argument (blanks ++ (inQuotes arg).toList) = arg := by
  have hquote : Text.isBlank '"' = false := by decide
  have hfront : (blanks ++ (inQuotes arg).toList).dropWhile Text.isBlank =
      (inQuotes arg).toList := by
    rw [List.dropWhile_append_of_pos hblanks, toList_inQuotes,
      List.dropWhile_cons_of_neg (by simp [hquote])]
  have htrim : Text.trimList (blanks ++ (inQuotes arg).toList) = (inQuotes arg).toList := by
    rw [Text.trimList, hfront, Text.trimEndList, toList_inQuotes]
    simp [hquote]
  have hunquote : unquote? (inQuotes arg).toList = some (escaped arg.toList) := by
    rw [toList_inQuotes, unquote?]
    simp
  rw [argument, htrim, hunquote]
  simp [unescape_escaped]

namespace RawArgs

/-- Characters at the head of the first argument. -/
def pushAll (cs : List Char) (r : RawArgs) : RawArgs := { r with first := cs ++ r.first }

end RawArgs

/-- An escaped text ends at the quote behind it. -/
theorem rawArgs?_escaped (depth : Nat) (cs rest : List Char) :
    rawArgs? depth true (escaped cs ++ '"' :: rest) =
      (rawArgs? depth false rest).map (·.pushAll (escaped cs ++ ['"'])) := by
  induction cs with
  | nil => rfl
  | cons c cs ih =>
      rw [escaped_cons, List.append_assoc, List.append_assoc]
      by_cases hmarked : c = '\\' ∨ c = '"'
      · rw [if_pos hmarked]
        simp only [List.cons_append, List.nil_append]
        rw [rawArgs?, if_pos rfl, ih, Option.map_map]
        rfl
      · rw [if_neg hmarked]
        obtain ⟨hslash, hquote⟩ := not_or.1 hmarked
        simp only [List.cons_append, List.nil_append]
        have hplain : rawArgs? depth true (c :: (escaped cs ++ '"' :: rest)) =
            (rawArgs? depth true (escaped cs ++ '"' :: rest)).map (·.push c) := by
          rw [rawArgs?.eq_def]
          split <;> simp_all
        rw [hplain, ih, Option.map_map]
        rfl

/-- In an argument list the text stands for the argument: it is read up to its end, and gives the
argument, whatever blanks are in front of it. -/
structure StandsFor (text arg : String) : Prop where
  read : ∀ rest, rawArgs? 0 false (text.toList ++ rest) =
    (rawArgs? 0 false rest).map (·.pushAll text.toList)
  argument : ∀ blanks, (∀ c ∈ blanks, Text.isBlank c = true) →
    argument (blanks ++ text.toList) = arg

theorem standsFor_inQuotes (arg : String) : StandsFor (inQuotes arg) arg where
  read rest := by
    rw [toList_inQuotes, List.cons_append, List.append_assoc, List.singleton_append, rawArgs?,
      Bool.not_false, rawArgs?_escaped, Option.map_map]
    rfl
  argument := argument_inQuotes arg

section Texts

variable {text arg : String} {texts args : List String} (h : StandsFor text arg)
  (hs : List.Forall₂ StandsFor texts args) (rest : List Char)

include h hs

/-- Texts that stand for arguments, joined by commas, are read up to the closing brace. -/
theorem rawArgs?_intercalate :
    rawArgs? 0 false ((", ".intercalate (text :: texts)).toList ++ '\x7d' :: rest) =
      some
        { first := text.toList
          others := texts.map fun t => ' ' :: t.toList
          rest } := by
  induction hs generalizing text arg with
  | nil =>
      rw [String.intercalate_singleton, h.read, rawArgs?]
      simp [RawArgs.pushAll]
  | @cons next _ texts _ hnext _ ih =>
      have hjoin : (", ".intercalate (text :: next :: texts)).toList =
          text.toList ++ ',' :: ' ' :: (", ".intercalate (next :: texts)).toList := by
        simp [String.intercalate_cons_cons]
      have hblank : ∀ cs,
          rawArgs? 0 false (' ' :: cs) = (rawArgs? 0 false cs).map (·.push ' ') := by
        intro cs
        rw [rawArgs?]
        all_goals simp
      rw [hjoin, List.append_assoc, h.read, List.cons_append, List.cons_append, rawArgs?,
        if_pos (by rfl), hblank, ih hnext]
      simp [RawArgs.pushAll, RawArgs.comma, RawArgs.push]

/-- The arguments that the texts stand for; a single text has to show something. -/
theorem args_of_standsFor (hshows : texts = [] → text.toList.all Text.isBlank = false) :
    RawArgs.args
      { first := text.toList
        others := texts.map fun t => ' ' :: t.toList
        rest } = arg :: args := by
  have hsome : ((texts.map fun t => ' ' :: t.toList).isEmpty && text.toList.all Text.isBlank) =
      false := by
    cases texts with
    | nil => exact hshows rfl
    | cons => rfl
  have hothers : (texts.map fun t => ' ' :: t.toList).map argument = args := by
    clear hshows hsome
    induction hs with
    | nil => rfl
    | cons hnext _ ih =>
        have hblank := hnext.argument [' '] (List.forall_mem_singleton.2 rfl)
        rw [List.map_cons, List.map_cons, ih]
        exact congrArg (· :: _) hblank
  simp only [RawArgs.args, hsome, Bool.false_eq_true, if_false, List.map_cons, hothers]
  exact congrArg (· :: args) (h.argument [] fun _ hc => nomatch hc)

end Texts

/-! ### Calls -/

/-- A run of characters of one kind, before something of another kind. -/
theorem span_eq {p : Char → Bool} {run rest : List Char} (hrun : ∀ c ∈ run, p c = true)
    (hrest : ∀ c, rest.head? = some c → p c = false) :
    (run ++ rest).takeWhile p = run ∧ (run ++ rest).dropWhile p = rest := by
  rw [List.takeWhile_append_of_pos hrun, List.dropWhile_append_of_pos hrun]
  cases rest with
  | nil => simp
  | cons c rest => simp [hrest c rfl]

theorem isName_iff {s : String} :
    isName s = true ↔
      ∃ c cs, s.toList = c :: cs ∧ isNameStart c = true ∧ ∀ d ∈ cs, isNameChar d = true := by
  unfold isName
  split
  · simp_all
  · rename_i c cs heq
    simp [heq]

theorem isNameChar_of_isNameStart {c : Char} (h : isNameStart c = true) : isNameChar c = true := by
  simp only [isNameStart, Bool.or_eq_true] at h
  simp only [isNameChar, Bool.or_eq_true]
  exact h.imp_left Or.inl

theorem isAlpha_iff {c : Char} :
    c.isAlpha = true ↔ 65 ≤ c.toNat ∧ c.toNat ≤ 90 ∨ 97 ≤ c.toNat ∧ c.toNat ≤ 122 := by
  have hletters : c.isAlpha = (decide (c.val ≥ 'A'.val ∧ c.val ≤ 'Z'.val) ||
      (decide (c.val ≥ 'a'.val) && decide (c.val ≤ 'z'.val))) := rfl
  rw [hletters]
  simp [UInt32.le_iff_toNat_le]

/-- Letters are what has a class. -/
theorem isSome_ofLabel? (c : Char) : (IndexClass.ofLabel? c).isSome = c.isAlpha := by
  rw [Bool.eq_iff_iff, isAlpha_iff, IndexClass.ofLabel?]
  simp only [Char.le_def, UInt32.le_iff_toNat_le, Char.reduceVal, UInt32.reduceToNat,
    Char.toNat_val]
  split
  · simp [*]
  · split
    · simp
      omega
    · split
      · simp
        omega
      · simp
        omega

theorem isAlpha_of_ofLabel? {i : Index} (h : Index.ofLabel? i.label = some i) :
    i.label.isAlpha = true := by
  rw [← isSome_ofLabel?]
  exact Index.isSome_of_ofLabel? h

theorem isBlank_of_isAlpha {c : Char} (h : c.isAlpha = true) : Text.isBlank c = false := by
  rw [isAlpha_iff] at h
  simp [Text.isBlank]
  omega

/-- Of letters and blanks, those that are not blank are the letters. -/
theorem filter_letters {inner : List Char} (h : ∀ c ∈ inner, isLabelChar c = true) :
    (inner.filter fun c => !Text.isBlank c) = inner.filter Char.isAlpha := by
  apply List.filter_congr
  intro c hc
  have hlabel := h c hc
  cases halpha : c.isAlpha with
  | false => simpa [isLabelChar, halpha] using hlabel
  | true => simp [isBlank_of_isAlpha halpha]

theorem readLabels_bracket {inner : List Char} (hinner : ']' ∉ inner) (rest : List Char) :
    readLabels ('[' :: (inner ++ ']' :: rest)) =
      if inner.all isLabelChar then (inner.filter (fun c => !Text.isBlank c), rest)
      else ([], '[' :: (inner ++ ']' :: rest)) := by
  have hrun : ∀ c ∈ inner, decide (c ≠ ']') = true := by
    intro c hc
    rw [decide_eq_true_eq]
    rintro rfl
    exact hinner hc
  have hclose : ∀ c, (']' :: rest).head? = some c → decide (c ≠ ']') = false := by simp
  obtain ⟨htake, hdrop⟩ := span_eq hrun hclose
  simp only [readLabels]
  rw [hdrop, htake]

/-- Labels in brackets are read as they are. -/
theorem readLabels_written {labels : List Char} (hlabels : ∀ c ∈ labels, c.isAlpha = true)
    (rest : List Char) : readLabels ('[' :: (labels ++ ']' :: rest)) = (labels, rest) := by
  have hinner : ']' ∉ labels := by
    intro hmem
    exact absurd (hlabels _ hmem) (by decide)
  have hall : labels.all isLabelChar = true :=
    List.all_eq_true.2 fun c hc => by simp [isLabelChar, hlabels c hc]
  have hfilter : (labels.filter fun c => !Text.isBlank c) = labels :=
    List.filter_eq_self.2 fun c hc => by simp [isBlank_of_isAlpha (hlabels c hc)]
  rw [readLabels_bracket hinner, if_pos hall, hfilter]

/-- Letters are labels of indices. -/
theorem exists_indicesOf {labels : List Char} (h : ∀ c ∈ labels, c.isAlpha = true) :
    ∃ indices, Directive.indicesOf labels = .ok indices ∧ indices.map (·.label) = labels := by
  induction labels with
  | nil => exact ⟨[], rfl, rfl⟩
  | cons c labels ih =>
      obtain ⟨indices, hindices, hlabels⟩ := ih fun d hd => h d (List.mem_cons_of_mem _ hd)
      have hclass : (IndexClass.ofLabel? c).isSome = true := by
        rw [isSome_ofLabel?]
        exact h c List.mem_cons_self
      obtain ⟨cls, hcls⟩ := Option.isSome_iff_exists.1 hclass
      refine ⟨⟨c, cls, none⟩ :: indices, ?_, by rw [List.map_cons, hlabels]⟩
      rw [Directive.indicesOf, Index.ofLabel?, hcls, hindices]
      rfl

theorem indicesOf_labels {indices : List Index}
    (h : ∀ i ∈ indices, Index.ofLabel? i.label = some i) :
    Directive.indicesOf (indices.map (·.label)) = .ok indices := by
  induction indices with
  | nil => rfl
  | cons i is ih =>
      rw [List.map_cons, Directive.indicesOf, h i List.mem_cons_self,
        ih fun j hj => h j (List.mem_cons_of_mem _ hj)]
      rfl

/-- The labels of the indices in brackets, if there are any. -/
def brackets (indices : List Index) : List Char :=
  if indices.isEmpty then [] else '[' :: (indices.map (·.label) ++ [']'])

/-- The texts of arguments in braces, if there are any. -/
def braces (texts : List String) : List Char :=
  if texts.isEmpty then [] else '\x7b' :: ((", ".intercalate texts).toList ++ ['\x7d'])

theorem toList_render (d : Directive) :
    d.render.toList = '$' :: (d.name.toList ++ (brackets d.indices ++ braces d.args)) := by
  simp only [Directive.render, Directive.subscript, Directive.labels, brackets, braces]
  split <;> split <;> simp

theorem toList_write_directive (d : Directive) :
    (write (.directive d)).toList =
      '$' :: (d.name.toList ++ (brackets d.indices ++ braces (d.args.map inQuotes))) :=
  toList_render _

theorem readLabels_brackets {indices : List Index}
    (hindices : ∀ i ∈ indices, Index.ofLabel? i.label = some i) {rest : List Char}
    (hrest : indices = [] → rest.head? ≠ some '[') :
    readLabels (brackets indices ++ rest) = (indices.map (·.label), rest) := by
  cases indices with
  | nil =>
      have hhead := hrest rfl
      simp only [brackets, List.isEmpty_nil, if_true, List.nil_append, List.map_nil]
      unfold readLabels
      split
      · simp at hhead
      · rfl
  | cons i is =>
      have halpha : ∀ c ∈ (i :: is).map (·.label), c.isAlpha = true := by
        intro c hc
        obtain ⟨j, hj, rfl⟩ := List.mem_map.1 hc
        exact isAlpha_of_ofLabel? (hindices j hj)
      have hwritten := readLabels_written halpha rest
      simpa [brackets] using hwritten

/-- What a call without arguments and indices does not absorb ends its name and starts no list. -/
theorem absorbs_eq_false {d : Directive} {c : Char} (h : absorbs d c = false) :
    (d.args = [] → c ≠ '\x7b') ∧
      (d.args = [] → d.indices = [] → isNameChar c = false ∧ c ≠ '[') := by
  unfold absorbs at h
  constructor
  · rintro hargs rfl
    by_cases hindices : d.indices = []
    · simp [hargs, hindices] at h
    · simp [hargs, hindices] at h
  · intro hargs hindices
    simp only [hargs, hindices, List.isEmpty_nil, Bool.not_true, Bool.false_eq_true, if_false,
      Bool.or_eq_false_iff, beq_eq_false_iff_ne] at h
    exact h.1

theorem head?_brackets {indices : List Index} {rest : List Char} {c : Char}
    (h : (brackets indices ++ rest).head? = some c) :
    c = '[' ∨ indices = [] ∧ rest.head? = some c := by
  cases indices with
  | nil => exact Or.inr ⟨rfl, h⟩
  | cons i is => exact Or.inl (by simpa [brackets, eq_comm] using h)

/-- The call of `name` with these indices and the arguments at the head, if there are any. -/
def readArgs (name : String) (indices : List Index) :
    List Char → Except Error (Directive × List Char)
  | '\x7b' :: inner =>
    match rawArgs? 0 false inner with
    | none => .error (.unterminatedArguments name)
    | some r => .ok ({ name, indices, args := r.args }, r.rest)
  | rest => .ok ({ name, indices }, rest)

theorem readArgs_of_ne {name : String} {indices : List Index} {rest : List Char}
    (h : rest.head? ≠ some '\x7b') :
    readArgs name indices rest = .ok ({ name, indices }, rest) := by
  unfold readArgs
  split
  · simp at h
  · rfl

section Named

variable {name : String} (hname : isName name = true)

include hname

/-- Behind its name a call is read as the labels there are, then as arguments. -/
theorem readDirective_append {after labels rest : List Char} {indices : List Index}
    (hafter : ∀ c, after.head? = some c → isNameChar c = false)
    (hlabels : readLabels after = (labels, rest))
    (hindices : Directive.indicesOf labels = .ok indices) :
    readDirective (name.toList ++ after) = readArgs name indices rest := by
  have hrun : ∀ c ∈ name.toList, isNameChar c = true := by
    obtain ⟨c, cs, heq, hstart, hcs⟩ := isName_iff.1 hname
    rw [heq]
    exact List.forall_mem_cons.2 ⟨isNameChar_of_isNameStart hstart, hcs⟩
  obtain ⟨htake, hdrop⟩ := span_eq hrun hafter
  simp only [readDirective, htake, hdrop, hlabels, hindices, String.ofList_toList, bind,
    Except.bind]
  split
  · rfl
  · rename_i hopen
    symm
    apply readArgs_of_ne
    intro hhead
    obtain ⟨inner, hinner⟩ := List.head?_eq_some_iff.1 hhead
    exact hopen inner hinner

/-- A name and its indices are read up to what follows. -/
theorem readDirective_brackets {indices : List Index}
    (hindices : ∀ i ∈ indices, Index.ofLabel? i.label = some i) {after : List Char}
    (hafter : indices = [] → ∀ c, after.head? = some c → isNameChar c = false ∧ c ≠ '[') :
    readDirective (name.toList ++ (brackets indices ++ after)) = readArgs name indices after := by
  have hend : ∀ c, (brackets indices ++ after).head? = some c → isNameChar c = false := by
    intro c hc
    rcases head?_brackets hc with rfl | ⟨hnone, hc⟩
    · decide
    · exact (hafter hnone c hc).1
  have hlabels : readLabels (brackets indices ++ after) = (indices.map (·.label), after) :=
    readLabels_brackets hindices fun hnone hc => (hafter hnone _ hc).2 rfl
  exact readDirective_append hname hend hlabels (indicesOf_labels hindices)

end Named

/-- A call is read back from texts that stand for its arguments, whatever follows that it does not
absorb. -/
theorem readDirective_braces {d : Directive} (hname : isName d.name = true)
    (hindices : ∀ i ∈ d.indices, Index.ofLabel? i.label = some i) {texts : List String}
    (hargs : List.Forall₂ StandsFor texts d.args)
    (hshows : ∀ text, texts = [text] → text.toList.all Text.isBlank = false) {rest : List Char}
    (hrest : ∀ c, rest.head? = some c → absorbs d c = false) :
    readDirective (d.name.toList ++ (brackets d.indices ++ (braces texts ++ rest))) =
      .ok (d, rest) := by
  obtain ⟨name, indices, args⟩ := d
  cases hargs with
  | nil =>
      have hread := readDirective_brackets hname hindices
        fun hnone c hc => (absorbs_eq_false (hrest c hc)).2 rfl hnone
      exact hread.trans (readArgs_of_ne fun hc => (absorbs_eq_false (hrest _ hc)).1 rfl rfl)
  | @cons text arg texts args htext htexts =>
      have hbraces : braces (text :: texts) ++ rest =
          '\x7b' :: ((", ".intercalate (text :: texts)).toList ++ '\x7d' :: rest) := by
        simp [braces]
      have hopen : indices = [] → ∀ c, ('\x7b' :: ((", ".intercalate (text :: texts)).toList ++
          '\x7d' :: rest)).head? = some c → isNameChar c = false ∧ c ≠ '[' := by
        rintro - c hc
        cases hc
        decide
      rw [hbraces, readDirective_brackets hname hindices hopen, readArgs,
        rawArgs?_intercalate htext htexts rest]
      dsimp only
      rw [args_of_standsFor htext htexts rest fun hnone => hshows text (by rw [hnone])]

/-- A written call is read back, whatever follows that it does not absorb. -/
theorem readDirective_written {d : Directive} (hname : isName d.name = true)
    (hindices : ∀ i ∈ d.indices, Index.ofLabel? i.label = some i) {rest : List Char}
    (hrest : ∀ c, rest.head? = some c → absorbs d c = false) :
    readDirective
        (d.name.toList ++ (brackets d.indices ++ (braces (d.args.map inQuotes) ++ rest))) =
      .ok (d, rest) := by
  have hargs : List.Forall₂ StandsFor (d.args.map inQuotes) d.args := by
    rw [List.forall₂_map_left_iff, List.forall₂_same]
    exact fun arg _ => standsFor_inQuotes arg
  refine readDirective_braces hname hindices hargs ?_ hrest
  intro text htext
  obtain ⟨arg, -, rfl⟩ := List.map_eq_singleton_iff.1 htext
  rw [toList_inQuotes, List.all_cons]
  rfl

/-! ### Lines -/

/-- What is read from the written segment. -/
def tokensOf : Segment → List Token
  | text t => t.toList.map .char
  | directive d => [.directive d]

theorem tokens_doubled (cs : List Char) {rest : List Char} {ts : List Token}
    (h : tokens rest = .ok ts) : tokens (doubled cs ++ rest) = .ok (cs.map .char ++ ts) := by
  induction cs with
  | nil => exact h
  | cons c cs ih =>
      rw [doubled_cons]
      by_cases hdollar : c = '$'
      · subst hdollar
        simp only [if_true, List.cons_append, List.nil_append]
        rw [tokens, ih]
        rfl
      · simp only [hdollar, if_false, List.cons_append, List.nil_append]
        rw [tokens.eq_4 c _ (by simp [hdollar]) (by simp [hdollar]), ih]
        rfl

/-- A dollar sign and a name are read as a call, then comes what follows it. -/
theorem tokens_call {c : Char} (cs : List Char) (hstart : isNameStart c = true) :
    tokens ('$' :: c :: cs) = (do
      let (d, rest) ← readDirective (c :: cs)
      return .directive d :: (← tokens rest)) := by
  have hne : c ≠ '$' := by
    rintro rfl
    exact absurd hstart (by decide)
  rw [tokens.eq_3 c _ (by simp [hne]), if_pos hstart]
  split
  · rename_i e he
    rw [he]
    rfl
  · rename_i d rest he
    simp only [he]
    rfl

theorem tokens_of_readDirective {c : Char} {cs rest : List Char} {d : Directive}
    (hstart : isNameStart c = true) (hread : readDirective (c :: cs) = .ok (d, rest))
    {ts : List Token} (h : tokens rest = .ok ts) :
    tokens ('$' :: c :: cs) = .ok (.directive d :: ts) := by
  rw [tokens_call cs hstart, hread]
  show (do return Token.directive d :: (← tokens rest)) = _
  rw [h]
  rfl

theorem tokens_directive {d : Directive} (hname : isName d.name = true)
    (hindices : ∀ i ∈ d.indices, Index.ofLabel? i.label = some i) {rest : List Char}
    (hrest : ∀ c, rest.head? = some c → absorbs d c = false) {ts : List Token}
    (h : tokens rest = .ok ts) :
    tokens ((write (.directive d)).toList ++ rest) = .ok (.directive d :: ts) := by
  have hread := readDirective_written hname hindices hrest
  obtain ⟨c, cs, heq, hstart, -⟩ := isName_iff.1 hname
  rw [heq, List.cons_append] at hread
  rw [toList_write_directive, List.cons_append, List.append_assoc, List.append_assoc, heq,
    List.cons_append]
  exact tokens_of_readDirective hstart hread h

theorem toList_writeLine_cons (s : Segment) (segments : List Segment) :
    (writeLine (s :: segments)).toList = s.write.toList ++ (writeLine segments).toList := by
  simp [writeLine]

/-- A call absorbs nothing of what is written behind it. -/
theorem absorbs_head?_writeLine {d : Directive} {segments : List Segment}
    (h : Writable (.directive d :: segments)) (c : Char)
    (hc : (writeLine segments).toList.head? = some c) : absorbs d c = false := by
  cases segments with
  | nil => simp [writeLine] at hc
  | cons s segments =>
      rw [toList_writeLine_cons] at hc
      have hadjoins : (Segment.directive d).adjoins s = true :=
        (List.isChain_cons_cons.1 h.apart).1
      cases s with
      | text t =>
          have hwritable := h.each (.text t) (by simp)
          cases ht : t.toList with
          | nil =>
              have hempty : t = "" := String.toList_eq_nil_iff.1 ht
              simp [isWritable, hempty] at hwritable
          | cons a cs =>
              have hhead : a = c := by
                simp only [write, ht, String.toList_ofList, doubled_cons] at hc
                split at hc
                · rename_i hdollar
                  rw [hdollar]
                  simpa using hc
                · simpa using hc
              subst hhead
              simpa [adjoins, ht] using hadjoins
      | directive e =>
          have hdollar : '$' = c := by simpa [toList_write_directive] using hc
          subst hdollar
          unfold absorbs
          split
          · rfl
          · split
            · decide
            · decide

theorem tokens_writeLine {segments : List Segment} (h : Writable segments) :
    tokens (writeLine segments).toList = .ok (segments.flatMap tokensOf) := by
  induction segments with
  | nil =>
      rw [writeLine]
      simp [tokens]
  | cons s segments ih =>
      have hrest := ih h.tail
      rw [toList_writeLine_cons, List.flatMap_cons]
      cases s with
      | text t =>
          rw [write, String.toList_ofList]
          exact tokens_doubled t.toList hrest
      | directive d =>
          have hwritable := h.each (.directive d) List.mem_cons_self
          simp only [isWritable, Bool.and_eq_true, List.all_eq_true, decide_eq_true_eq] at hwritable
          exact tokens_directive hwritable.1 hwritable.2 (absorbs_head?_writeLine h) hrest

theorem gather_append_chars (cs : List Char) (ts : List Token) :
    gather (cs.map .char ++ ts) = (cs ++ (gather ts).1, (gather ts).2) := by
  induction cs with
  | nil => rfl
  | cons c cs ih => simp [gather, ih]

/-- The characters of a text at the head, and the segments after it. -/
def uncons : List Segment → List Char × List Segment
  | text t :: segments => (t.toList, segments)
  | segments => ([], segments)

theorem consText_uncons {segments : List Segment} (h : ∀ s ∈ segments, s.isWritable = true) :
    consText (uncons segments).1 (uncons segments).2 = segments := by
  unfold uncons
  split
  · rename_i t segments
    have ht := h (.text t) List.mem_cons_self
    have hne : t.toList.isEmpty = false := by simpa [isWritable] using ht
    simp [consText, hne]
  · rfl

theorem gather_tokensOf {segments : List Segment} (h : Writable segments) :
    gather (segments.flatMap tokensOf) = uncons segments := by
  induction segments with
  | nil => rfl
  | cons s segments ih =>
      have hrest := ih h.tail
      rw [List.flatMap_cons]
      cases s with
      | text t =>
          -- no text follows a text, so nothing is joined to it
          have hnone : uncons segments = ([], segments) := by
            cases segments with
            | nil => rfl
            | cons s segments =>
                have hadjoins := (List.isChain_cons_cons.1 h.apart).1
                cases s with
                | text u => simp [adjoins] at hadjoins
                | directive d => rfl
          rw [tokensOf, gather_append_chars, hrest, hnone, List.append_nil]
          rfl
      | directive d =>
          simp only [tokensOf, List.cons_append, List.nil_append, gather, hrest,
            consText_uncons h.tail.each]
          rfl

/-- Segments that can be told apart are read back from the line that is written for them. -/
theorem scan_writeLine {segments : List Segment} (h : Writable segments) :
    scan (writeLine segments) = .ok segments := by
  have htokens := tokens_writeLine h
  have hsegments : ofTokens (segments.flatMap tokensOf) = segments := by
    rw [ofTokens, gather_tokensOf h]
    exact consText_uncons h.each
  rw [scan, htokens]
  exact congrArg Except.ok hsegments

/-- A line with dollar signs, a brace behind a call, and arguments that hold quotes, commas, braces
and a backslash at the end. -/
theorem scan_writeLine_price :
    scan (writeLine
      [.text "a$",
        .directive
          { name := "U2"
            indices := [⟨'A', .full, none⟩, ⟨'b', .field, none⟩]
            args := [" p, \"q\" \\", "", "\x7d"] },
        .text "\x7b[", .directive { name := "_M" }, .directive { name := "N" }, .text " $"]) =
      .ok
        [.text "a$",
          .directive
            { name := "U2"
              indices := [⟨'A', .full, none⟩, ⟨'b', .field, none⟩]
              args := [" p, \"q\" \\", "", "\x7d"] },
          .text "\x7b[", .directive { name := "_M" }, .directive { name := "N" }, .text " $"] :=
  scan_writeLine ⟨by decide, by decide⟩

end Segment

end TensorTemplate
