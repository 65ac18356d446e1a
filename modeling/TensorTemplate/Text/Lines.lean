import TensorTemplate.Text.Bytes

/-!
Two ways to cut a text into lines.

`lines` is for texts that are read: a line end is a newline, a carriage return
just before it belongs to it, and a newline at the very end opens no further
line. `rows` is for texts that are written into a buffer: one newline at the end
is dropped, nothing else is touched, and every text has at least one row.
`unlines` ends every line with a newline.
-/

namespace TensorTemplate.Text

/-- Whether there is a newline in the text. -/
def hasNewline (s : String) : Bool := anyByte (· == 10) s

theorem hasNewline_eq (s : String) : hasNewline s = s.toList.contains '\n' := by
  unfold hasNewline
  rw [anyByte_eq_any _ (by simp +contextual), List.contains_eq_any_beq]
  congr 1
  funext c
  rw [Bool.eq_iff_iff]
  simp only [Bool.and_eq_true, decide_eq_true_eq, beq_iff_eq]
  constructor
  · intro ⟨hascii, hten⟩
    have hvalue := congrArg UInt8.toNat hten
    simp only [UInt8.toNat_ofNat', UInt8.reduceToNat] at hvalue
    apply Char.toNat_inj.1
    simp only [Char.reduceToNat]
    omega
  · rintro rfl
    decide

/-- The pieces between the newlines of a text. -/
def pieces (s : String) : List String :=
  if hasNewline s then (s.toList.splitOn '\n').map String.ofList else [s]

theorem pieces_eq (s : String) : pieces s = (s.toList.splitOn '\n').map String.ofList := by
  unfold pieces
  split
  · rfl
  · rename_i hnone
    rw [hasNewline_eq, List.contains_iff_mem] at hnone
    rw [List.splitOn_eq_singleton hnone, List.map_singleton, String.ofList_toList]

/-- The line without one carriage return at its end. -/
def dropReturn (line : String) : String :=
  match line.toList.reverse with
  | '\r' :: rest => String.ofList rest.reverse
  | _ => line

/-- The pieces without the last one, if that is empty. -/
def dropFinalEmpty (pieces : List String) : List String :=
  if pieces.getLast? = some "" then pieces.dropLast else pieces

/-- The lines of a text that is read: every piece but the last was ended by a newline, and an empty
last piece is no line. -/
def lines (s : String) : List String :=
  let ps := pieces s
  ps.dropLast.map dropReturn ++ dropFinalEmpty ps.getLast?.toList

/-- The rows of a text that is written into a buffer. -/
def rows (s : String) : List String :=
  match pieces s with
  | [] => []
  | first :: rest => first :: dropFinalEmpty rest

/-- Each line followed by a newline. -/
def unlines (ls : List String) : String :=
  String.join (ls.map (· ++ "\n"))

end TensorTemplate.Text
