import TensorTemplate.Directive

/-!
A template line as text and directives.

A directive is a dollar sign and a name, then, if they follow directly, index
labels in brackets and arguments in braces. Two dollar signs stand for one, and a
dollar sign before anything but a name is text. Brackets that hold more than
letters and blanks are text too. The arguments are separated by commas; commas
inside inner braces or double quotes separate nothing, and an argument in double
quotes is taken without them.

The only way to fail is a line that ends inside an argument list.
-/

namespace TensorTemplate

/-- A piece of a template line. -/
inductive Segment where
  | text (text : String)
  | directive (call : Directive)
deriving DecidableEq, Repr

namespace Segment

/-- A character that can start the name of a rule. -/
def isNameStart (c : Char) : Bool := c.isUpper || c == '_'

/-- A character that can stand in the name of a rule. -/
def isNameChar (c : Char) : Bool := c.isUpper || c.isDigit || c == '_'

/-! ### Arguments -/

/-- A text with its escaped quotes and backslashes read; other backslashes stay. -/
def unescape : List Char → List Char
  | '\\' :: '"' :: cs => '"' :: unescape cs
  | '\\' :: '\\' :: cs => '\\' :: unescape cs
  | c :: cs => c :: unescape cs
  | [] => []

/-- What stands between a double quote at the head and another one at the end. -/
def unquote? : List Char → Option (List Char)
  | '"' :: cs => if cs.getLast? = some '"' then some cs.dropLast else none
  | _ => none

/-- An argument: blanks at the ends do not count, and quotes around it are taken off. -/
def argument (raw : List Char) : String :=
  let trimmed := Text.trimList raw
  String.ofList ((unquote? trimmed).elim trimmed unescape)

/-- The raw text of the first argument, of the others, and what follows the closing brace. -/
structure RawArgs where
  first : List Char
  others : List (List Char)
  rest : List Char
deriving Repr

namespace RawArgs

/-- One more character at the head of the first argument. -/
def push (c : Char) (r : RawArgs) : RawArgs := { r with first := c :: r.first }

/-- A comma: an empty argument before the others. -/
def comma (r : RawArgs) : RawArgs := { r with first := [], others := r.first :: r.others }

/-- The arguments; a single one that is blank is none. -/
def args (r : RawArgs) : List String :=
  if r.others.isEmpty && r.first.all Text.isBlank then [] else (r.first :: r.others).map argument

end RawArgs

/-- Reads an argument list up to its closing brace, `depth` inner braces and perhaps a double quote
being open. -/
def rawArgs? (depth : Nat) (inQuotes : Bool) : List Char → Option RawArgs
  | [] => none
  | '\\' :: c :: cs =>
    if inQuotes then (rawArgs? depth true cs).map fun r => (r.push c).push '\\'
    else (rawArgs? depth false (c :: cs)).map (·.push '\\')
  | '"' :: cs => (rawArgs? depth (!inQuotes) cs).map (·.push '"')
  | '\x7b' :: cs =>
    (rawArgs? (if inQuotes then depth else depth + 1) inQuotes cs).map (·.push '\x7b')
  | '\x7d' :: cs =>
    if inQuotes then (rawArgs? depth true cs).map (·.push '\x7d')
    else
      match depth with
      | 0 => some ⟨[], [], cs⟩
      | depth + 1 => (rawArgs? depth false cs).map (·.push '\x7d')
  | ',' :: cs =>
    if !inQuotes && depth == 0 then (rawArgs? 0 false cs).map (·.comma)
    else (rawArgs? depth inQuotes cs).map (·.push ',')
  | c :: cs => (rawArgs? depth inQuotes cs).map (·.push c)

/-! ### Directives -/

/-- A character that can stand between the brackets of index labels. -/
def isLabelChar (c : Char) : Bool := c.isAlpha || Text.isBlank c

/-- Index labels in brackets at the head, without blanks, and what follows them. -/
def readLabels : List Char → List Char × List Char
  | '[' :: cs =>
    let inner := cs.takeWhile (· ≠ ']')
    match cs.dropWhile (· ≠ ']') with
    | [] => ([], '[' :: cs)
    | _ :: rest =>
      if inner.all isLabelChar then (inner.filter fun c => !Text.isBlank c, rest)
      else ([], '[' :: cs)
  | cs => ([], cs)

/-- Reads the directive whose name starts here, and gives what follows it. -/
def readDirective (cs : List Char) : Except Error (Directive × List Char) := do
  let name := String.ofList (cs.takeWhile isNameChar)
  let (labels, rest) := readLabels (cs.dropWhile isNameChar)
  let indices ← Directive.indicesOf labels
  match rest with
  | '\x7b' :: inner =>
    match rawArgs? 0 false inner with
    | none => throw (.unterminatedArguments name)
    | some r => return ({ name, indices, args := r.args }, r.rest)
  | _ => return ({ name, indices }, rest)

theorem length_rest_map {read : Option RawArgs} {f : RawArgs → RawArgs} {n : Nat} {r : RawArgs}
    (h : read.map f = some r) (hread : ∀ {r}, read = some r → r.rest.length ≤ n)
    (hf : ∀ r, (f r).rest = r.rest) : r.rest.length ≤ n + 1 := by
  obtain ⟨r', hr', rfl⟩ := Option.map_eq_some_iff.1 h
  rw [hf]
  exact Nat.le_succ_of_le (hread hr')

/-- An argument list is read off the head of the line. -/
theorem length_rest_rawArgs? {depth : Nat} {inQuotes : Bool} {cs : List Char} {r : RawArgs}
    (h : rawArgs? depth inQuotes cs = some r) : r.rest.length ≤ cs.length := by
  fun_induction rawArgs? depth inQuotes cs generalizing r with
  | case1 => cases h
  | case2 _ _ _ ih => exact Nat.le_succ_of_le (length_rest_map h ih fun _ => rfl)
  | case7 => cases h; exact Nat.le_succ _
  | case3 _ _ _ _ _ ih => exact length_rest_map h ih fun _ => rfl
  | case4 _ _ _ ih => exact length_rest_map h ih fun _ => rfl
  | case5 _ _ _ ih => exact length_rest_map h ih fun _ => rfl
  | case6 _ _ ih => exact length_rest_map h ih fun _ => rfl
  | case8 _ _ _ _ ih => exact length_rest_map h ih fun _ => rfl
  | case9 _ _ _ _ ih => exact length_rest_map h ih fun _ => rfl
  | case10 _ _ _ _ ih => exact length_rest_map h ih fun _ => rfl
  | case11 _ _ _ _ _ _ _ _ _ ih => exact length_rest_map h ih fun _ => rfl

theorem length_readLabels (cs : List Char) : (readLabels cs).2.length ≤ cs.length := by
  unfold readLabels
  split
  · rename_i cs
    split
    · simp
    · rename_i c rest heq
      have hlen := (List.dropWhile_sublist (p := fun c : Char => c ≠ ']') (l := cs)).length_le
      rw [heq] at hlen
      simp only [List.length_cons] at hlen
      dsimp only
      split
      · simp only [List.length_cons]
        omega
      · simp
  · simp

/-- A directive is read off the head of the line. -/
theorem length_readDirective {cs rest : List Char} {d : Directive}
    (h : readDirective cs = .ok (d, rest)) : rest.length ≤ cs.length := by
  have hname : (cs.dropWhile isNameChar).length ≤ cs.length :=
    (List.dropWhile_sublist isNameChar).length_le
  have hlabels := length_readLabels (cs.dropWhile isNameChar)
  unfold readDirective at h
  generalize readLabels (cs.dropWhile isNameChar) = labelled at h hlabels
  obtain ⟨labels, after⟩ := labelled
  simp only at h hlabels
  cases hi : Directive.indicesOf labels with
  | error e => simp [hi, bind, Except.bind] at h
  | ok indices =>
    simp only [hi, bind, Except.bind] at h
    split at h
    · rename_i inner
      split at h
      · cases h
      · rename_i r hr
        have hargs := length_rest_rawArgs? hr
        cases h
        simp only [List.length_cons] at hlabels
        omega
    · cases h
      omega

/-! ### Lines -/

/-- A character of text, or a directive. -/
inductive Token where
  | char (c : Char)
  | directive (call : Directive)
deriving DecidableEq, Repr

/-- The line as single characters and directives. -/
def tokens : List Char → Except Error (List Token)
  | [] => .ok []
  | '$' :: '$' :: cs => return .char '$' :: (← tokens cs)
  | '$' :: c :: cs =>
    if isNameStart c then
      match h : readDirective (c :: cs) with
      | .error e => .error e
      | .ok (d, rest) =>
        have : rest.length ≤ (c :: cs).length := length_readDirective h
        return .directive d :: (← tokens rest)
    else return .char '$' :: (← tokens (c :: cs))
  | c :: cs => return .char c :: (← tokens cs)
termination_by cs => cs.length
decreasing_by
  · simp only [List.length_cons]
    omega
  · exact Nat.lt_succ_of_le this
  · exact Nat.lt_succ_self _
  · exact Nat.lt_succ_self _

/-- A run of characters as a text segment before the others, unless it is empty. -/
def consText (run : List Char) (segments : List Segment) : List Segment :=
  if run.isEmpty then segments else .text (String.ofList run) :: segments

/-- The characters at the head, and the segments after them. -/
def gather : List Token → List Char × List Segment
  | [] => ([], [])
  | .char c :: ts =>
    let (run, segments) := gather ts
    (c :: run, segments)
  | .directive d :: ts =>
    let (run, segments) := gather ts
    ([], .directive d :: consText run segments)

/-- The segments of a list of tokens, characters that follow each other joined to one text. -/
def ofTokens (ts : List Token) : List Segment :=
  let (run, segments) := gather ts
  consText run segments

/-- The segments of a template line. -/
def scan (line : String) : Except Error (List Segment) := do
  return ofTokens (← tokens line.toList)

end Segment

end TensorTemplate
