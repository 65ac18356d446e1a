import TensorTemplate.Proofs.StringLiteral

/-!
String literals, read.

Both target languages read a literal alike: it ends at the first double quote that
belongs to no escape, and an escape is a backslash and the character behind it. A line
that is escaped and put between the delimiters is such a literal. It ends where its
last delimiter ends, whatever follows, and stands for the line and a newline. So
escaping loses nothing, and it leaves no quote in the line that would end the literal
and no backslash at the end of the line that would make an escape with the delimiter.
-/

namespace TensorTemplate

namespace Literal

/-! ### Reading -/

/-- What a backslash with this character behind it stands for. -/
def escapeValue? : Char → Option Char
  | '\\' => some '\\'
  | '"' => some '"'
  | 't' => some '\t'
  | 'n' => some '\n'
  | _ => none

/-- What a literal stands for, and what follows its closing quote. -/
structure Reading where
  value : List Char
  rest : List Char
deriving DecidableEq, Repr

/-- One more character at the head of the value. -/
def Reading.push (c : Char) (r : Reading) : Reading := { r with value := c :: r.value }

/-- Reads a literal from behind its opening quote. -/
def readBody? : List Char → Option Reading
  | [] => none
  | '"' :: cs => some ⟨[], cs⟩
  | '\\' :: c :: cs => (escapeValue? c).bind fun d => (readBody? cs).map (·.push d)
  | c :: cs => (readBody? cs).map (·.push c)

/-- Reads the literal at the head. -/
def read? : List Char → Option Reading
  | '"' :: cs => readBody? cs
  | _ => none

/-- Whether a backslash at the end makes an escape with whatever comes next. -/
def opensEscape : List Char → Bool
  | [] => false
  | '\\' :: _ :: cs => opensEscape cs
  | ['\\'] => true
  | _ :: cs => opensEscape cs

/-- Every quote belongs to an escape. -/
def Guarded (cs : List Char) : Prop :=
  ∀ front back, cs = front ++ '"' :: back → opensEscape front = true

theorem Guarded.of_append {cs ds : List Char} (h : Guarded (cs ++ ds)) : Guarded cs := by
  rintro front back rfl
  exact h front (back ++ ds) (by simp)

theorem guarded_nil : Guarded [] := by
  intro front back h
  simp at h

theorem opensEscape_cons {c : Char} (hslash : c ≠ '\\') (cs : List Char) :
    opensEscape (c :: cs) = opensEscape cs := by
  rw [opensEscape.eq_def]
  split <;> simp_all

theorem Guarded.cons {c : Char} {cs : List Char} (hslash : c ≠ '\\') (hquote : c ≠ '"')
    (h : Guarded cs) : Guarded (c :: cs) := by
  intro front back heq
  cases front with
  | nil => exact absurd (List.cons.inj heq).1 hquote
  | cons d front =>
      simp only [List.cons_append, List.cons.injEq] at heq
      obtain ⟨rfl, hrest⟩ := heq
      rw [opensEscape_cons hslash]
      exact h front back hrest

theorem Guarded.escape {cs : List Char} (c : Char) (h : Guarded cs) :
    Guarded ('\\' :: c :: cs) := by
  intro front back heq
  match front with
  | [] => exact absurd (List.cons.inj heq).1 (by decide)
  | [d] =>
      obtain ⟨rfl, -⟩ := List.cons.inj heq
      rfl
  | d :: e :: front =>
      simp only [List.cons_append, List.cons.injEq] at heq
      obtain ⟨rfl, rfl, hrest⟩ := heq
      rw [opensEscape]
      exact h front back hrest

/-- A literal ends at the first quote that belongs to no escape. -/
theorem readBody?_closing {cs : List Char} {r : Reading} (h : readBody? cs = some r) :
    ∃ body, cs = body ++ '"' :: r.rest ∧ Guarded body ∧ opensEscape body = false := by
  fun_induction readBody? cs generalizing r with
  | case1 => cases h
  | case2 cs =>
      cases h
      exact ⟨[], rfl, guarded_nil, rfl⟩
  | case3 c cs ih =>
      obtain ⟨d, -, h⟩ := Option.bind_eq_some_iff.1 h
      obtain ⟨r, hr, rfl⟩ := Option.map_eq_some_iff.1 h
      obtain ⟨body, rfl, hguarded, hends⟩ := ih hr
      exact ⟨'\\' :: c :: body, rfl, hguarded.escape c, hends⟩
  | case4 c cs hquote hslash ih =>
      obtain ⟨r, hr, rfl⟩ := Option.map_eq_some_iff.1 h
      obtain ⟨body, rfl, hguarded, hends⟩ := ih hr
      -- there is something behind the character, so as a backslash it would be an escape
      have hne : c ≠ '\\' := by
        rintro rfl
        cases body with
        | nil => exact hslash _ _ rfl rfl
        | cons d body => exact hslash _ _ rfl rfl
      refine ⟨c :: body, rfl, hguarded.cons hne hquote, ?_⟩
      rw [opensEscape_cons hne, hends]

end Literal

namespace Backend

open Literal

/-! ### Escaped lines -/

/-- Reading takes back how one character is escaped. -/
theorem readBody?_escapedChar (c : Char) (cs : List Char) :
    readBody? (escapedChar c ++ cs) = (readBody? cs).map (·.push c) := by
  unfold escapedChar
  split
  · rfl
  · rfl
  · rfl
  · rename_i hslash hquote _
    rw [List.singleton_append, readBody?.eq_def]
    split <;> simp_all

theorem readBody?_escaped (line cs : List Char) :
    readBody? (line.flatMap escapedChar ++ cs) =
      (readBody? cs).map fun r => { r with value := line ++ r.value } := by
  induction line with
  | nil => exact Option.map_id'.symm
  | cons c line ih =>
      rw [List.flatMap_cons, List.append_assoc, readBody?_escapedChar, ih, Option.map_map]
      rfl

theorem opensEscape_escaped (line : List Char) :
    opensEscape (line.flatMap escapedChar) = false := by
  have hchar : ∀ c cs, opensEscape (escapedChar c ++ cs) = opensEscape cs := by
    intro c cs
    unfold escapedChar
    split
    · rfl
    · rfl
    · rfl
    · rename_i hslash _ _
      exact opensEscape_cons hslash cs
  induction line with
  | nil => rfl
  | cons c line ih => rw [List.flatMap_cons, hchar, ih]

variable (b : Backend)

theorem toList_enclose_escape (line : String) :
    (b.enclose (b.escape line)).toList =
      '"' :: (line.toList.flatMap escapedChar ++ ['\\', 'n', '"']) := by
  cases b <;> simp [enclose, escape, stringDelimiters]

/-- A literal made of a line is read up to its end. -/
theorem read?_enclose_escape (line : String) (rest : List Char) :
    read? ((b.enclose (b.escape line)).toList ++ rest) = some ⟨line.toList ++ ['\n'], rest⟩ := by
  rw [toList_enclose_escape, List.cons_append, List.append_assoc, read?, readBody?_escaped]
  rfl

/-- The quotes of an escaped line belong to escapes: the literal would end at one that does not. -/
theorem guarded_escape (line : String) : Guarded (b.escape line).toList := by
  have hread := b.read?_enclose_escape line []
  rw [List.append_nil, toList_enclose_escape, read?] at hread
  obtain ⟨body, hbody, hguarded, -⟩ := readBody?_closing hread
  have hquote : (line.toList.flatMap escapedChar ++ ['\\', 'n']) ++ ['"'] = body ++ ['"'] := by
    simpa using hbody
  have hlast := List.append_cancel_right hquote
  rw [escape, String.toList_ofList]
  exact Guarded.of_append (hlast ▸ hguarded)

theorem escape_injective : Function.Injective b.escape := by
  intro line line' h
  have hread := b.read?_enclose_escape line []
  rw [h, b.read?_enclose_escape line' []] at hread
  have hvalue := congrArg Reading.value (Option.some.inj hread)
  exact String.toList_injective (List.append_cancel_right hvalue.symm)

/-- A line that is escaped and enclosed is a literal that ends with its last delimiter, whatever
follows, and stands for the line and a newline. Different lines are escaped differently, and an
escaped line neither ends the literal nor takes a part of the delimiter behind it. -/
theorem escape_lossless :
    (∀ line rest, read? ((b.enclose (b.escape line)).toList ++ rest) =
        some ⟨(line ++ "\n").toList, rest⟩) ∧
      Function.Injective b.escape ∧
      ∀ line, Guarded (b.escape line).toList ∧ opensEscape (b.escape line).toList = false := by
  refine ⟨fun line rest => ?_, b.escape_injective, fun line => ⟨b.guarded_escape line, ?_⟩⟩
  · rw [read?_enclose_escape, String.toList_append]
    rfl
  · rw [escape, String.toList_ofList]
    exact opensEscape_escaped line.toList

/-- A line that ends in a backslash, and a quote behind its literal. -/
example :
    read? ((cpp.enclose (cpp.escape "\"\t\\")).toList ++ ['"']) =
      some ⟨"\"\t\\\n".toList, ['"']⟩ := by
  decide

end Backend

end TensorTemplate
