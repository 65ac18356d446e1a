/-!
Looking for ASCII characters in the bytes of a text. An ASCII character is one
byte, and no other character has a byte below 128 in its encoding, so a search
for ASCII characters need not decode the text.
-/

namespace TensorTemplate.Text

/-- Whether one of the first `n` bytes passes the test. -/
def anyOfFirst (test : UInt8 → Bool) (bytes : ByteArray) : (n : Nat) → n ≤ bytes.size → Bool
  | 0, _ => false
  | n + 1, h => test bytes[n] || anyOfFirst test bytes n (Nat.le_of_succ_le h)

/-- Whether a byte of the text passes the test. -/
def anyByte (test : UInt8 → Bool) (s : String) : Bool :=
  let bytes := s.toByteArray
  anyOfFirst test bytes bytes.size (Nat.le_refl _)

theorem anyOfFirst_eq (test : UInt8 → Bool) (bytes : ByteArray) (n : Nat) (h : n ≤ bytes.size) :
    anyOfFirst test bytes n h = (bytes.data.toList.take n).any test := by
  induction n with
  | zero => simp [anyOfFirst]
  | succ n ih =>
    have hn : n < bytes.data.toList.length := h
    rw [anyOfFirst, ih, List.take_add_one, List.getElem?_eq_getElem hn, Bool.or_comm]
    simp [ByteArray.getElem_eq_getElem_data]

theorem anyByte_eq (test : UInt8 → Bool) (s : String) :
    anyByte test s = (s.toList.flatMap String.utf8EncodeChar).any test := by
  have hbytes : s.toByteArray.data.toList = s.toList.flatMap String.utf8EncodeChar := by
    conv => lhs; rw [← String.ofList_toList (s := s)]
    rw [String.toByteArray_ofList, List.utf8Encode, List.toList_data_toByteArray]
  have hall : s.toByteArray.data.toList.take s.toByteArray.size = s.toByteArray.data.toList :=
    List.take_of_length_le (Nat.le_refl _)
  unfold anyByte
  rw [anyOfFirst_eq, hall, hbytes]

/-- The encoding of a character that is not ASCII has no byte below 128. -/
theorem le_of_mem_utf8EncodeChar {c : Char} {b : UInt8} (hc : 127 < c.toNat)
    (hb : b ∈ String.utf8EncodeChar c) : 128 ≤ b.toNat := by
  have hc' : ¬ c.val.toNat ≤ 127 := Nat.not_le.2 hc
  simp only [String.utf8EncodeChar, hc', if_false] at hb
  split at hb
  · simp only [List.mem_cons, List.not_mem_nil, or_false] at hb
    rcases hb with rfl | rfl <;> simp only [UInt8.toNat_ofNat'] <;> omega
  · split at hb
    · simp only [List.mem_cons, List.not_mem_nil, or_false] at hb
      rcases hb with rfl | rfl | rfl <;> simp only [UInt8.toNat_ofNat'] <;> omega
    · simp only [List.mem_cons, List.not_mem_nil, or_false] at hb
      rcases hb with rfl | rfl | rfl | rfl <;> simp only [UInt8.toNat_ofNat'] <;> omega

/-- A test that only ASCII bytes pass finds the ASCII characters that pass it. -/
theorem anyByte_eq_any (test : UInt8 → Bool) (htest : ∀ b, test b = true → b.toNat < 128)
    (s : String) :
    anyByte test s = s.toList.any fun c => decide (c.toNat ≤ 127) && test (.ofNat c.toNat) := by
  rw [anyByte_eq, List.any_flatMap]
  congr 1
  funext c
  by_cases hc : c.toNat ≤ 127
  · have hc' : c.val.toNat ≤ 127 := hc
    simp only [String.utf8EncodeChar, hc', if_true, List.any_cons, List.any_nil, Bool.or_false, hc,
      decide_true, Bool.true_and]
    rfl
  · simp only [hc, decide_false, Bool.false_and, List.any_eq_false]
    intro b hb hpass
    exact absurd (le_of_mem_utf8EncodeChar (Nat.lt_of_not_le hc) hb) (Nat.not_le.2 (htest b hpass))

end TensorTemplate.Text
