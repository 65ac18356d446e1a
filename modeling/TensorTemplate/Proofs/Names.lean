import TensorTemplate.NameGen
import Mathlib.Data.List.Basic
import Std.Data.String.ToNat

/-!
Identifiers, and the names that a generator makes.

A made name can be taken apart again: the count is what follows the last
underscore, the generation what stands between the last two, and the kernel the
rest, whatever underscores and digits it has. So different kernels never make the
same name, and a generator makes each name once.
-/

namespace TensorTemplate

/-- A character that can stand in an identifier. -/
def isIdentChar (c : Char) : Bool := c.isAlphanum || c == '_'

/-- A character that can start an identifier: any of them but a digit. -/
def isIdentStart (c : Char) : Bool := isIdentChar c && !c.isDigit

/-- A letter or an underscore, then letters, digits and underscores. -/
def isIdentifier (s : String) : Bool :=
  match s.toList with
  | [] => false
  | c :: cs => isIdentStart c && cs.all isIdentChar

theorem isIdentChar_of_isIdentStart {c : Char} (h : isIdentStart c = true) :
    isIdentChar c = true := by
  simp only [isIdentStart, Bool.and_eq_true] at h
  exact h.1

theorem isIdentChar_of_isDigit {c : Char} (h : c.isDigit = true) : isIdentChar c = true := by
  simp [isIdentChar, Char.isAlphanum, h]

theorem isIdentStart_eq_false_of_isDigit {c : Char} (h : c.isDigit = true) :
    isIdentStart c = false := by
  simp [isIdentStart, h]

/-- An identifier is a start character and characters of identifiers after it. -/
theorem isIdentifier_iff {s : String} :
    isIdentifier s = true ↔
      ∃ c cs, s.toList = c :: cs ∧ isIdentStart c = true ∧ ∀ d ∈ cs, isIdentChar d = true := by
  unfold isIdentifier
  split
  · simp_all
  · rename_i c cs heq
    simp [heq]

theorem isIdentChar_of_mem_identifier {s : String} (hs : isIdentifier s = true) {c : Char}
    (hc : c ∈ s.toList) : isIdentChar c = true := by
  obtain ⟨d, ds, heq, hd, hds⟩ := isIdentifier_iff.1 hs
  rw [heq, List.mem_cons] at hc
  rcases hc with rfl | hc
  · exact isIdentChar_of_isIdentStart hd
  · exact hds c hc

theorem isIdentifier_append {s : String} (hs : isIdentifier s = true) {t : String}
    (ht : ∀ c ∈ t.toList, isIdentChar c = true) : isIdentifier (s ++ t) = true := by
  obtain ⟨d, ds, heq, hd, hds⟩ := isIdentifier_iff.1 hs
  refine isIdentifier_iff.2 ⟨d, ds ++ t.toList, by simp [heq], hd, ?_⟩
  intro c hc
  rcases List.mem_append.1 hc with hc | hc
  · exact hds c hc
  · exact ht c hc

/-- The characters of a decimal numeral are digits. -/
theorem isDigit_of_mem_repr {n : Nat} {c : Char} (hc : c ∈ n.repr.toList) : c.isDigit = true := by
  rw [Nat.toList_repr] at hc
  exact Nat.isDigit_of_mem_toDigits (by decide) (by decide) hc

namespace NameGen

/-- A name of the form that generators of this kernel give. -/
def Minted (kernel name : String) : Prop :=
  ∃ generation count, name = nameOf kernel generation count

theorem toList_nameOf (kernel : String) (generation count : Nat) :
    (nameOf kernel generation count).toList =
      (kernel.toList ++ '_' :: generation.repr.toList) ++ '_' :: count.repr.toList := by
  simp [nameOf]

/-- Lists are cut in one way at the last place where a mark stands. -/
theorem append_mark_inj {a b d e : List Char} {mark : Char} (hd : mark ∉ d) (he : mark ∉ e)
    (h : a ++ mark :: d = b ++ mark :: e) : a = b ∧ d = e := by
  rcases List.append_eq_append_iff.1 h with ⟨mid, hb, htail⟩ | ⟨mid, ha, htail⟩
  · cases mid with
    | nil => simp_all
    | cons c mid =>
        simp only [List.cons_append, List.cons.injEq] at htail
        exact absurd (htail.2 ▸ List.mem_append_right mid List.mem_cons_self) hd
  · cases mid with
    | nil => simp_all
    | cons c mid =>
        simp only [List.cons_append, List.cons.injEq] at htail
        exact absurd (htail.2 ▸ List.mem_append_right mid List.mem_cons_self) he

theorem underscore_notMem_repr (n : Nat) : '_' ∉ n.repr.toList := by
  intro h
  exact absurd (isDigit_of_mem_repr h) (by decide)

/-- Kernel, generation and count can be read off a made name. -/
theorem nameOf_inj {kernel kernel' : String} {generation generation' count count' : Nat}
    (h : nameOf kernel generation count = nameOf kernel' generation' count') :
    kernel = kernel' ∧ generation = generation' ∧ count = count' := by
  have hlist := congrArg String.toList h
  rw [toList_nameOf, toList_nameOf] at hlist
  obtain ⟨hfront, hcount⟩ :=
    append_mark_inj (underscore_notMem_repr count) (underscore_notMem_repr count') hlist
  obtain ⟨hkernel, hgeneration⟩ :=
    append_mark_inj (underscore_notMem_repr generation) (underscore_notMem_repr generation') hfront
  exact ⟨String.toList_injective hkernel, Nat.repr_injective (String.toList_injective hgeneration),
    Nat.repr_injective (String.toList_injective hcount)⟩

/-- A name without an underscore is not made by any generator. -/
theorem not_minted_of_notMem {kernel name : String} (h : '_' ∉ name.toList) :
    ¬Minted kernel name := by
  rintro ⟨generation, count, rfl⟩
  rw [toList_nameOf] at h
  simp at h

/-- Names made from an identifier are identifiers. -/
theorem isIdentifier_nameOf {kernel : String} (hkernel : isIdentifier kernel = true)
    (generation count : Nat) : isIdentifier (nameOf kernel generation count) = true := by
  have hdigits : ∀ n : Nat, ∀ c ∈ (toString n).toList, isIdentChar c = true := by
    intro n c hc
    exact isIdentChar_of_isDigit (isDigit_of_mem_repr hc)
  have hunderscore : ∀ c ∈ "_".toList, isIdentChar c = true := List.all_eq_true.1 (by decide)
  unfold nameOf
  exact isIdentifier_append (isIdentifier_append (isIdentifier_append (isIdentifier_append hkernel
    hunderscore) (hdigits generation)) hunderscore) (hdigits count)

end NameGen

end TensorTemplate
