import TensorTemplate.Index
import Mathlib.Data.List.Forall2

/-!
What an odometer shows.

The readings of an odometer are the choices of one value below each limit, in
lexicographic order and each of them once. One turn leads from a choice to the next
one, so the readings from a place on are the choices from there on, and after the last
choice the odometer has no more.
-/

namespace TensorTemplate

namespace Odometer

/-! ### Choices -/

/-- All ways to choose a value below each limit. -/
def choices : List Nat → List (List Nat)
  | [] => [[]]
  | limit :: limits => (List.range limit).flatMap fun value => (choices limits).map (value :: ·)

theorem mem_choices {limits values : List Nat} :
    values ∈ choices limits ↔ List.Forall₂ (· < ·) values limits := by
  induction limits generalizing values with
  | nil => simp [choices]
  | cons limit limits ih =>
      simp only [choices, List.mem_flatMap, List.mem_range, List.mem_map]
      constructor
      · rintro ⟨value, hvalue, rest, hrest, rfl⟩
        exact .cons hvalue (ih.1 hrest)
      · rintro (_ | ⟨hvalue, hrest⟩)
        exact ⟨_, hvalue, _, ih.2 hrest, rfl⟩

/-- The choices stand in lexicographic order. -/
theorem pairwise_choices (limits : List Nat) : (choices limits).Pairwise (· < ·) := by
  induction limits with
  | nil => exact List.pairwise_singleton _ _
  | cons limit limits ih =>
      refine List.pairwise_flatMap.2 ⟨fun value _ => ?_, List.pairwise_lt_range.imp ?_⟩
      · refine List.pairwise_map.2 (ih.imp fun h => ?_)
        exact List.cons_lt_cons_iff.2 (Or.inr ⟨rfl, h⟩)
      · intro value value' hlt values hvalues values' hvalues'
        obtain ⟨rest, _, rfl⟩ := List.mem_map.1 hvalues
        obtain ⟨rest', _, rfl⟩ := List.mem_map.1 hvalues'
        exact List.cons_lt_cons_iff.2 (Or.inl hlt)

theorem length_choices (limits : List Nat) :
    (choices limits).length = limits.foldr (· * ·) 1 := by
  induction limits with
  | nil => rfl
  | cons limit limits ih =>
      simp [choices, List.length_flatMap, ih]

/-- Where there is a choice, no limit is zero. -/
theorem zero_notMem_of_forall₂ {values limits : List Nat}
    (h : List.Forall₂ (· < ·) values limits) : 0 ∉ limits := by
  induction h with
  | nil => exact List.not_mem_nil
  | cons hvalue _ ih => exact List.not_mem_cons_of_ne_of_not_mem (by omega) ih

/-- Zeros are a choice if no limit is zero. -/
theorem forall₂_zero {limits : List Nat} (h : 0 ∉ limits) :
    List.Forall₂ (· < ·) (limits.map fun _ => 0) limits := by
  rw [List.forall₂_map_left_iff, List.forall₂_same]
  intro limit hlimit
  exact Nat.pos_of_ne_zero fun hzero => h (hzero ▸ hlimit)

theorem choices_eq_nil_iff {limits : List Nat} : choices limits = [] ↔ 0 ∈ limits := by
  rw [List.eq_nil_iff_forall_not_mem]
  constructor
  · intro hnone
    by_contra hzero
    exact hnone _ (mem_choices.2 (forall₂_zero hzero))
  · intro hzero values hvalues
    exact zero_notMem_of_forall₂ (mem_choices.1 hvalues) hzero

/-! ### Turning -/

/-- The choices from the given one on. -/
def onward : List Nat → List Nat → List (List Nat)
  | value :: values, limit :: limits =>
    (onward values limits).map (value :: ·) ++
      (List.range' (value + 1) (limit - (value + 1))).flatMap fun later =>
        (choices limits).map (later :: ·)
  | _, _ => [[]]

/-- All choices come after the one of zeros. -/
theorem onward_zero {limits : List Nat} (h : 0 ∉ limits) :
    onward (limits.map fun _ => 0) limits = choices limits := by
  induction limits with
  | nil => rfl
  | cons limit limits ih =>
      obtain ⟨hlimit, hlimits⟩ := not_or.1 (mt List.mem_cons.2 h)
      obtain ⟨n, rfl⟩ := Nat.exists_eq_succ_of_ne_zero (Ne.symm hlimit)
      have hrange : List.range (n + 1) = 0 :: List.range' 1 n := by
        rw [List.range_eq_range', List.range'_succ]
      rw [List.map_cons, onward, ih hlimits, choices, hrange, List.flatMap_cons]
      rfl

/-- One turn leads to the next choice, or from the last one back to zeros. -/
theorem turn_spec {values limits : List Nat} (h : List.Forall₂ (· < ·) values limits) :
    ((turn values limits).2 = false → List.Forall₂ (· < ·) (turn values limits).1 limits ∧
      onward values limits = values :: onward (turn values limits).1 limits) ∧
    ((turn values limits).2 = true → (turn values limits).1 = (limits.map fun _ => 0) ∧
      onward values limits = [values]) := by
  induction h with
  | nil => simp [turn, onward]
  | @cons value limit values limits hvalue hrest ih =>
      obtain ⟨hmoves, hwraps⟩ := ih
      have hpositive := zero_notMem_of_forall₂ hrest
      rw [turn]
      cases hturn : turn values limits with
      | mk next wrapped =>
          rw [hturn] at hmoves hwraps
          dsimp only at hmoves hwraps
          cases wrapped with
          | false =>
              obtain ⟨hnext, honward⟩ := hmoves rfl
              refine ⟨fun _ => ⟨.cons hvalue hnext, ?_⟩, fun h => nomatch h⟩
              rw [onward, honward]
              rfl
          | true =>
              -- the dials to the right start again, so this one moves, or it starts again as well
              obtain ⟨rfl, honward⟩ := hwraps rfl
              by_cases hlt : value + 1 < limit
              · have hrange : List.range' (value + 1) (limit - (value + 1)) =
                    (value + 1) :: List.range' (value + 1 + 1) (limit - (value + 1 + 1)) := by
                  rw [← List.range'_succ]
                  congr 1
                  omega
                simp only [hlt, if_true]
                refine ⟨fun _ => ⟨.cons hlt (forall₂_zero hpositive), ?_⟩, fun h => nomatch h⟩
                rw [onward, onward, honward, hrange, List.flatMap_cons, onward_zero hpositive]
                rfl
              · have hrange : List.range' (value + 1) (limit - (value + 1)) = [] := by
                  rw [List.range'_eq_nil_iff]
                  omega
                simp only [hlt, if_false]
                refine ⟨fun h => (nomatch h), fun _ => ⟨rfl, ?_⟩⟩
                rw [onward, honward, hrange]
                rfl

theorem onward_ne_nil (values limits : List Nat) : onward values limits ≠ [] := by
  fun_induction onward values limits with
  | case1 value values limit limits ih => simp [ih]
  | case2 => simp

/-! ### Readings -/

/-- Asked again and again until it has no more, the odometer gives these readings. -/
inductive Gives : Odometer → List (List Index) → Prop where
  | ended {o : Odometer} (h : o.next? = none) : Gives o []
  | next {o o' : Odometer} {reading : List Index} {later : List (List Index)}
      (h : o.next? = some (reading, o')) (hlater : Gives o' later) : Gives o (reading :: later)

theorem Gives.unique {o : Odometer} {readings readings' : List (List Index)}
    (h : o.Gives readings) (h' : o.Gives readings') : readings = readings' := by
  induction h generalizing readings' with
  | ended hended =>
      cases h' with
      | ended => rfl
      | next hnext => cases hended.symm.trans hnext
  | next hnext _ ih =>
      cases h' with
      | ended hended => cases hended.symm.trans hnext
      | next hnext' hlater =>
          cases hnext.symm.trans hnext'
          rw [ih hlater]

/-- Asked often enough, it gives all of them. -/
theorem Gives.take_eq {o : Odometer} {readings : List (List Index)} (h : o.Gives readings) {n : Nat}
    (hn : readings.length ≤ n) : o.take n = readings := by
  induction h generalizing n with
  | ended hended =>
      cases n with
      | zero => rfl
      | succ n => rw [take, takeAfter, hended, List.reverse_nil]
  | next hnext _ ih =>
      cases n with
      | zero => exact absurd hn (Nat.not_succ_le_zero _)
      | succ n =>
          rw [take, takeAfter, hnext]
          dsimp only
          rw [takeAfter_eq, ih (Nat.le_of_succ_le_succ hn)]
          rfl

theorem gives_of_done {o : Odometer} (h : o.done = true) : o.Gives [] := by
  refine .ended ?_
  rw [next?, h]
  rfl

/-- One step: the present reading, and then what the odometer gives after one turn. -/
theorem gives_cons {o : Odometer} (h : o.done = false) {later : List (List Index)}
    (hlater : Gives { o with
      current := (turn o.current o.limits).1, done := (turn o.current o.limits).2 } later) :
    o.Gives (o.reading :: later) := by
  refine .next ?_ hlater
  rw [next?, h]
  rfl

/-- The readings from a place on are the choices from there on. -/
theorem gives_onward {o : Odometer} (hdone : o.done = false)
    (hcurrent : List.Forall₂ (· < ·) o.current o.limits) :
    o.Gives ((onward o.current o.limits).map (List.zipWith Index.withValue o.indices)) := by
  generalize hchoices : onward o.current o.limits = left
  induction left generalizing o with
  | nil => exact absurd hchoices (onward_ne_nil _ _)
  | cons choice left ih =>
      obtain ⟨hmoves, hwraps⟩ := turn_spec hcurrent
      cases hturn : (turn o.current o.limits).2 with
      | true =>
          cases hchoices.symm.trans (hwraps hturn).2
          exact gives_cons hdone (gives_of_done hturn)
      | false =>
          obtain ⟨hnext, honward⟩ := hmoves hturn
          obtain ⟨rfl, rfl⟩ := List.cons.inj (hchoices.symm.trans honward)
          exact gives_cons hdone (ih hturn hnext rfl)

end Odometer

namespace Index

theorem map_value_withValue {indices : List Index} {values : List Nat}
    (h : indices.length = values.length) :
    (List.zipWith withValue indices values).map (·.value) = values.map some := by
  rw [List.map_zipWith]
  induction indices generalizing values with
  | nil =>
      rw [List.length_eq_zero_iff.1 h.symm]
      rfl
  | cons i indices ih =>
      cases values with
      | nil => cases h
      | cons value values =>
          rw [List.zipWith_cons_cons, ih (Nat.succ.inj h)]
          rfl

theorem map_abstract_withValue {indices : List Index} {values : List Nat}
    (h : indices.length = values.length) :
    (List.zipWith withValue indices values).map abstract = indices.map abstract := by
  induction indices generalizing values with
  | nil => rfl
  | cons i indices ih =>
      cases values with
      | nil => cases h
      | cons value values =>
          rw [List.zipWith_cons_cons, List.map_cons, ih (Nat.succ.inj h)]
          rfl

end Index

namespace Ranges

open Odometer

variable (r : Ranges) (indices : List Index)

/-- How many values each of the indices can take. -/
def limits : List Nat := indices.map fun i => r.size i.cls

theorem gives_choices :
    (r.odometer indices).Gives
      ((choices (r.limits indices)).map (List.zipWith Index.withValue indices)) := by
  by_cases hzero : 0 ∈ r.limits indices
  · have hdone : (r.odometer indices).done = true := by
      simpa [odometer, limits, List.any_eq_true] using hzero
    rw [choices_eq_nil_iff.2 hzero]
    exact gives_of_done hdone
  · have hdone : (r.odometer indices).done = false := by
      simpa [odometer, limits, List.any_eq_false] using hzero
    have hstart : (r.odometer indices).current = (r.limits indices).map fun _ => 0 := by
      simp [odometer, limits, Function.comp_def]
    have hcurrent : List.Forall₂ (· < ·) (r.odometer indices).current
        (r.odometer indices).limits := by
      rw [hstart]
      exact forall₂_zero hzero
    have hgives := gives_onward hdone hcurrent
    rw [hstart] at hgives
    rw [← onward_zero hzero]
    exact hgives

/-- The assignments are the choices of values within the ranges of the indices. -/
theorem assignments_eq :
    r.assignments indices =
      (choices (r.limits indices)).map (List.zipWith Index.withValue indices) := by
  apply (r.gives_choices indices).take_eq
  rw [List.length_map, length_choices]
  exact Nat.le_refl _

variable {indices} in
theorem length_of_mem_choices {values : List Nat} (h : values ∈ choices (r.limits indices)) :
    indices.length = values.length := by
  rw [(mem_choices.1 h).length_eq, limits, List.length_map]

theorem map_value_assignments :
    (r.assignments indices).map (List.map (·.value)) =
      (choices (r.limits indices)).map (List.map some) := by
  rw [assignments_eq, List.map_map]
  exact List.map_congr_left fun values hvalues =>
    Index.map_value_withValue (r.length_of_mem_choices hvalues)

/-- The values that the assignments give are all choices within the ranges. -/
theorem values_assignments :
    (r.assignments indices).map (fun assignment => assignment.map fun i => i.value.getD 0) =
      choices (r.limits indices) := by
  have hvalues := congrArg (List.map (List.map (·.getD 0))) (r.map_value_assignments indices)
  simpa [Function.comp_def] using hvalues

/-- Asked again and again, the odometer of some indices gives their assignments and then no more.
There are as many as the product of the ranges, each has the labels and classes of the indices, and
their values run through all tuples within the ranges in lexicographic order, through each once. So
there is none if a range is empty, and one if there are no indices. -/
theorem gives_assignments (r : Ranges) (indices : List Index) :
    let sizes := indices.map fun i => r.size i.cls
    let items := assignments r indices
    (∀ readings, Gives (odometer r indices) readings ↔ readings = items) ∧
      items.length = sizes.foldr (· * ·) 1 ∧
      (∀ item ∈ items, item.map Index.abstract = indices.map Index.abstract) ∧
      (∃ tuples : List (List Nat),
        items.map (List.map (·.value)) = tuples.map (List.map some) ∧
        (∀ values, values ∈ tuples ↔ List.Forall₂ (· < ·) values sizes) ∧
        tuples.Pairwise (· < ·)) ∧
      (items = [] ↔ 0 ∈ sizes) ∧
      assignments r [] = [[]] := by
  intro sizes items
  have hitems : items = (choices sizes).map (List.zipWith Index.withValue indices) :=
    r.assignments_eq indices
  have hgives : (r.odometer indices).Gives items := by
    rw [hitems]
    exact r.gives_choices indices
  refine ⟨fun readings => ⟨fun h => h.unique hgives, fun h => h ▸ hgives⟩, ?_, ?_, ?_, ?_, rfl⟩
  · rw [hitems, List.length_map, length_choices]
  · intro item hitem
    rw [hitems] at hitem
    obtain ⟨values, hvalues, rfl⟩ := List.mem_map.1 hitem
    exact Index.map_abstract_withValue (r.length_of_mem_choices hvalues)
  · exact ⟨choices sizes, r.map_value_assignments indices, fun values => mem_choices,
      pairwise_choices sizes⟩
  · rw [hitems, List.map_eq_nil_iff]
    exact choices_eq_nil_iff

end Ranges

end TensorTemplate
