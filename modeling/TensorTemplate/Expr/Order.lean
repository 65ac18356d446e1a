import TensorTemplate.Expr

/-!
The order of expressions is linear: comparing in the other direction swaps the
answer, smaller-or-equal is transitive, and only equal expressions compare as
equal. So expressions can be the keys of ordered maps.
-/

namespace TensorTemplate

open Std

/-- Two comparisons one after the other are transitive if each of them is. -/
theorem isLE_then_trans {α : Type} {cmp : α → α → Ordering} [OrientedCmp cmp] [LawfulEqCmp cmp]
    {a b c : α} {x y z : Ordering}
    (hfirst : (cmp a b).isLE → (cmp b c).isLE → (cmp a c).isLE)
    (hsecond : x.isLE → y.isLE → z.isLE)
    (hab : ((cmp a b).then x).isLE) (hbc : ((cmp b c).then y).isLE) :
    ((cmp a c).then z).isLE := by
  rw [Ordering.isLE_then_iff_or] at hab hbc ⊢
  rcases hab with hab | ⟨hab, hx⟩
  · rcases hbc with hbc | ⟨hbc, _⟩
    · left
      have hle := hfirst (by simp [hab]) (by simp [hbc])
      cases hac : cmp a c with
      | lt => rfl
      | gt => simp [hac] at hle
      | eq =>
        rw [← LawfulEqCmp.eq_of_compare hac, @OrientedCmp.eq_swap _ cmp, hab] at hbc
        cases hbc
    · rw [← LawfulEqCmp.eq_of_compare hbc]
      exact Or.inl hab
  · rw [LawfulEqCmp.eq_of_compare hab]
    exact hbc.imp_right fun h => ⟨h.1, hsecond hx h.2⟩

namespace Op

instance : OrientedCmp compare where
  eq_swap {a b} := by
    cases a <;> cases b <;> first | rfl | exact OrientedOrd.eq_swap

instance : LawfulEqCmp compare where
  compare_self {a} := by
    cases a <;> first | rfl | exact ReflOrd.compare_self
  eq_of_compare {a b} h := by
    cases a <;> cases b <;>
      first
      | rfl
      | cases h
      | exact congrArg call (LawfulEqOrd.eq_of_compare h)

instance : TransCmp compare where
  isLE_trans {a b c} hab hbc := by
    cases a <;> cases b <;> cases c <;>
      first
      | rfl
      | exact (Bool.false_ne_true hab).elim
      | exact (Bool.false_ne_true hbc).elim
      | exact TransOrd.isLE_trans hab hbc

end Op

namespace Expr

mutual

theorem compare_swap : (a b : Expr) → a.compare b = (b.compare a).swap
  | lit _, lit _ => OrientedOrd.eq_swap
  | var _, var _ => OrientedOrd.eq_swap
  | node o cs, node p ds => by
    rw [compare, compare, Ordering.swap_then, ← OrientedCmp.eq_swap, ← compareList_swap cs ds]
  | lit _, var _ | lit _, node _ _ | var _, lit _ => rfl
  | var _, node _ _ | node _ _, lit _ | node _ _, var _ => rfl

theorem compareList_swap : (as bs : List Expr) → compareList as bs = (compareList bs as).swap
  | [], [] | [], _ :: _ | _ :: _, [] => rfl
  | a :: as, b :: bs => by
    rw [compareList, compareList, Ordering.swap_then, ← compare_swap a b, ← compareList_swap as bs]

end

mutual

theorem compare_self : (a : Expr) → a.compare a = .eq
  | lit _ => ReflOrd.compare_self
  | var _ => ReflOrd.compare_self
  | node o cs => by
    rw [compare, @ReflCmp.compare_self _ Op.compare, compareList_self cs]
    rfl

theorem compareList_self : (as : List Expr) → compareList as as = .eq
  | [] => rfl
  | a :: as => by
    rw [compareList, compare_self a, compareList_self as]
    rfl

end

mutual

theorem eq_of_compare : {a b : Expr} → a.compare b = .eq → a = b
  | lit _, lit _, h => congrArg lit (LawfulEqOrd.eq_of_compare h)
  | var _, var _, h => congrArg var (LawfulEqOrd.eq_of_compare h)
  | node o cs, node p ds, h => by
    rw [compare, Ordering.then_eq_eq] at h
    rw [LawfulEqCmp.eq_of_compare h.1, eq_of_compareList h.2]

theorem eq_of_compareList : {as bs : List Expr} → compareList as bs = .eq → as = bs
  | [], [], _ => rfl
  | a :: as, b :: bs, h => by
    rw [compareList, Ordering.then_eq_eq] at h
    rw [eq_of_compare h.1, eq_of_compareList h.2]

end

instance : OrientedCmp compare where
  eq_swap := compare_swap _ _

instance : LawfulEqCmp compare where
  compare_self := compare_self _
  eq_of_compare := eq_of_compare

mutual

theorem isLE_compare_trans : (a b c : Expr) →
    (a.compare b).isLE → (b.compare c).isLE → (a.compare c).isLE
  | lit _, lit _, lit _, hab, hbc => TransOrd.isLE_trans hab hbc
  | var _, var _, var _, hab, hbc => TransOrd.isLE_trans hab hbc
  | node _ cs, node _ ds, node _ es, hab, hbc =>
    isLE_then_trans TransCmp.isLE_trans (isLE_compareList_trans cs ds es) hab hbc
  | lit _, _, var _, _, _ | lit _, _, node _ _, _, _ | var _, _, node _ _, _, _ => rfl

theorem isLE_compareList_trans : (as bs cs : List Expr) →
    (compareList as bs).isLE → (compareList bs cs).isLE → (compareList as cs).isLE
  | [], _, [], _, _ | [], _, _ :: _, _, _ => rfl
  | a :: as, b :: bs, c :: cs, hab, hbc =>
    isLE_then_trans (isLE_compare_trans a b c) (isLE_compareList_trans as bs cs) hab hbc

end

instance : TransCmp compare where
  isLE_trans := isLE_compare_trans _ _ _

end Expr

end TensorTemplate
