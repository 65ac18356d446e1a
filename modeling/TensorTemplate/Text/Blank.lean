import TensorTemplate.Text.Bytes

/-!
Blank characters and what is done with them at the edges of a text: trimming,
cutting a text into words, and the test for a text that shows nothing.

Blank means the Unicode property White_Space, so a no-break space and an
ideographic space are blank and a zero-width space is not.
-/

namespace TensorTemplate.Text

/-- The characters of the Unicode property White_Space. -/
def isBlank (c : Char) : Bool :=
  let n := c.toNat
  (0x9 ≤ n && n ≤ 0xd) || n == 0x20 || n == 0x85 || n == 0xa0 || n == 0x1680 ||
    (0x2000 ≤ n && n ≤ 0x200a) || n == 0x2028 || n == 0x2029 || n == 0x202f ||
    n == 0x205f || n == 0x3000

/-- A byte that is an ASCII character which shows. -/
def isVisibleByte (b : UInt8) : Bool := decide (0x21 ≤ b) && decide (b ≤ 0x7e)

/-- A text that shows nothing: empty, or blank characters only. Most texts that show something have
an ASCII character which does. -/
def blank (s : String) : Bool := !anyByte isVisibleByte s && s.toList.all isBlank

theorem isBlank_eq_false_of_isVisibleByte {c : Char} (hc : c.toNat ≤ 127)
    (h : isVisibleByte (.ofNat c.toNat) = true) : isBlank c = false := by
  simp only [isVisibleByte, Bool.and_eq_true, decide_eq_true_eq, UInt8.le_iff_toNat_le,
    UInt8.toNat_ofNat', UInt8.reduceToNat] at h
  simp only [isBlank, Bool.or_eq_false_iff, Bool.and_eq_false_imp, decide_eq_true_eq,
    decide_eq_false_iff_not, beq_eq_false_iff_ne]
  omega

theorem blank_eq (s : String) : blank s = s.toList.all isBlank := by
  have htest : ∀ b, isVisibleByte b = true → b.toNat < 128 := by
    intro b hb
    simp only [isVisibleByte, Bool.and_eq_true, decide_eq_true_eq, UInt8.le_iff_toNat_le,
      UInt8.reduceToNat] at hb
    omega
  unfold blank
  rw [anyByte_eq_any isVisibleByte htest]
  cases hany : s.toList.any fun c => decide (c.toNat ≤ 127) && isVisibleByte (.ofNat c.toNat) with
  | false => rfl
  | true =>
    obtain ⟨c, hmem, hc⟩ := List.any_eq_true.1 hany
    simp only [Bool.and_eq_true, decide_eq_true_eq] at hc
    symm
    exact List.all_eq_false.2 ⟨c, hmem, by simp [isBlank_eq_false_of_isVisibleByte hc.1 hc.2]⟩

/-- The characters without the blanks at their end. -/
def trimEndList (cs : List Char) : List Char := (cs.reverse.dropWhile isBlank).reverse

/-- The characters without the blanks at both ends. -/
def trimList (cs : List Char) : List Char := trimEndList (cs.dropWhile isBlank)

/-- The text without the blanks at its end. -/
def trimEnd (s : String) : String := String.ofList (trimEndList s.toList)

/-- The text without the blanks at both ends. -/
def trim (s : String) : String := String.ofList (trimList s.toList)

/-- The longest runs of characters that are not blank, in order. -/
def words (s : String) : List String :=
  ((s.toList.splitOnP isBlank).filter (fun w => !w.isEmpty)).map String.ofList

end TensorTemplate.Text
