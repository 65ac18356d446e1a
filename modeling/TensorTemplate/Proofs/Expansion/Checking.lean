import TensorTemplate.Proofs.Expansion.Session

/-!
Lines are checked before anything is done for them.

A call is at fault if it names no rule, or if its arguments or indices are not those
that its rule takes. All calls of a line are checked from left to right before the
first one runs, so a line with a fault changes nothing, wherever the fault is. A call
is checked once more when it runs; if the line has passed, this never fails.
-/

namespace TensorTemplate

/-! ### Faults -/

/-- The slot accepts the index. -/
def Index.Fits (slot : IndexClass) (i : Index) : Prop := slot.accepts i.cls = true

/-- The call has as many arguments as the rule takes, and in each of its slots a fitting index. -/
structure Rule.Takes (rule : Rule) (d : Directive) : Prop where
  args : d.args.length = rule.arity
  indices : List.Forall₂ Index.Fits rule.shape.slots d.indices

namespace Registry

/-- The call is one of a rule that takes it. -/
def Accepts (r : Registry) (d : Directive) : Prop :=
  ∃ rule, r.get? d.name = some rule ∧ rule.Takes d

/-- What is wrong with a call. -/
inductive Fault (r : Registry) (d : Directive) : Error → Prop where
  | unknownRule (h : r.get? d.name = none) : Fault r d (.unknownRule d.name)
  | argumentCount {rule : Rule} (hrule : r.get? d.name = some rule)
      (h : d.args.length ≠ rule.arity) :
      Fault r d (.argumentCount d.name rule.arity d.args.length)
  | indexCount {rule : Rule} (hrule : r.get? d.name = some rule)
      (hargs : d.args.length = rule.arity) (h : d.indices.length ≠ rule.shape.slots.length) :
      Fault r d (.indexCount d.name rule.shape.slots.length d.indices.length)
  /-- The first slot that does not accept its index. -/
  | indexClass {rule : Rule} (hrule : r.get? d.name = some rule)
      (hargs : d.args.length = rule.arity) (hcount : d.indices.length = rule.shape.slots.length)
      {n : Nat} {slot : IndexClass} {i : Index} (hslot : rule.shape.slots[n]? = some slot)
      (hindex : d.indices[n]? = some i)
      (hbefore : List.Forall₂ Index.Fits (rule.shape.slots.take n) (d.indices.take n))
      (h : slot.accepts i.cls = false) :
      Fault r d (.indexClass d.name i.label slot i.cls)

/-- The first call that is at fault, and its fault. -/
inductive FirstFault (r : Registry) : List Directive → Error → Prop where
  | here {d : Directive} {ds : List Directive} {e : Error} (h : r.Fault d e) :
      FirstFault r (d :: ds) e
  | later {d : Directive} {ds : List Directive} {e : Error} (hd : r.Accepts d)
      (h : FirstFault r ds e) : FirstFault r (d :: ds) e

/-! ### Checking a call -/

theorem mismatch?_eq_none_iff {slots : List IndexClass} {is : List Index}
    (h : is.length = slots.length) :
    mismatch? slots is = none ↔ List.Forall₂ Index.Fits slots is := by
  induction slots generalizing is with
  | nil =>
      rw [List.length_eq_zero_iff.1 h]
      exact ⟨fun _ => .nil, fun _ => rfl⟩
  | cons slot slots ih =>
      cases is with
      | nil => cases h
      | cons i is =>
          rw [mismatch?, List.forall₂_cons, ← ih (Nat.succ.inj h)]
          by_cases hfits : slot.accepts i.cls = true
          · simp [hfits, Index.Fits]
          · simp [hfits, Index.Fits]

theorem mismatch?_eq_some_iff {slots : List IndexClass} {is : List Index} {slot : IndexClass}
    {i : Index} :
    mismatch? slots is = some (slot, i) ↔
      ∃ n, slots[n]? = some slot ∧ is[n]? = some i ∧
        List.Forall₂ Index.Fits (slots.take n) (is.take n) ∧ slot.accepts i.cls = false := by
  induction slots generalizing is with
  | nil => simp [mismatch?]
  | cons first slots ih =>
      cases is with
      | nil => simp [mismatch?]
      | cons j is =>
          rw [mismatch?]
          by_cases hfits : first.accepts j.cls = true
          · rw [if_pos hfits, ih]
            constructor
            · rintro ⟨n, hslot, hindex, hbefore, h⟩
              exact ⟨n + 1, hslot, hindex, .cons hfits hbefore, h⟩
            · rintro ⟨n, hslot, hindex, hbefore, h⟩
              cases n with
              | zero =>
                  cases hslot
                  cases hindex
                  rw [hfits] at h
                  cases h
              | succ n => exact ⟨n, hslot, hindex, (List.forall₂_cons.1 hbefore).2, h⟩
          · rw [if_neg hfits]
            constructor
            · intro h
              cases h
              exact ⟨0, rfl, rfl, .nil, Bool.eq_false_iff.2 hfits⟩
            · rintro ⟨n, hslot, hindex, hbefore, h⟩
              cases n with
              | zero =>
                  cases hslot
                  cases hindex
                  rfl
              | succ n => exact absurd (List.forall₂_cons.1 hbefore).1 hfits

variable {r : Registry} {d : Directive} {rule : Rule} {e : Error}

theorem validate_of_takes (hrule : r.get? d.name = some rule) (h : rule.Takes d) :
    r.validate d = .ok rule := by
  have hcount := h.indices.length_eq.symm
  have hmismatch := (mismatch?_eq_none_iff hcount).2 h.indices
  simp [validate, hrule, h.args, hcount, hmismatch]

theorem validate_of_fault (h : r.Fault d e) : r.validate d = .error e := by
  cases h with
  | unknownRule h => simp [validate, h]
  | argumentCount hrule h => simp [validate, hrule, h]
  | indexCount hrule hargs h => simp [validate, hrule, hargs, h]
  | indexClass hrule hargs hcount hslot hindex hbefore h =>
      have hmismatch := mismatch?_eq_some_iff.2 ⟨_, hslot, hindex, hbefore, h⟩
      simp [validate, hrule, hargs, hcount, hmismatch]

/-- A call is accepted, or something is wrong with it. -/
theorem accepts_or_fault (r : Registry) (d : Directive) : r.Accepts d ∨ ∃ e, r.Fault d e := by
  cases hrule : r.get? d.name with
  | none => exact Or.inr ⟨_, .unknownRule hrule⟩
  | some rule =>
      by_cases hargs : d.args.length = rule.arity
      · by_cases hcount : d.indices.length = rule.shape.slots.length
        · cases hmismatch : mismatch? rule.shape.slots d.indices with
          | none =>
              exact Or.inl ⟨rule, hrule, hargs, (mismatch?_eq_none_iff hcount).1 hmismatch⟩
          | some pair =>
              obtain ⟨n, hslot, hindex, hbefore, h⟩ := mismatch?_eq_some_iff.1 hmismatch
              exact Or.inr ⟨_, .indexClass hrule hargs hcount hslot hindex hbefore h⟩
        · exact Or.inr ⟨_, .indexCount hrule hargs hcount⟩
      · exact Or.inr ⟨_, .argumentCount hrule hargs⟩

theorem Accepts.no_fault (h : r.Accepts d) (e : Error) : ¬r.Fault d e := by
  intro hfault
  obtain ⟨rule, hrule, htakes⟩ := h
  cases (validate_of_takes hrule htakes).symm.trans (validate_of_fault hfault)

theorem accepts_iff : r.Accepts d ↔ (r.validate d).isOk = true := by
  constructor
  · rintro ⟨rule, hrule, htakes⟩
    rw [validate_of_takes hrule htakes]
    rfl
  · intro hok
    refine (r.accepts_or_fault d).resolve_right ?_
    rintro ⟨e, hfault⟩
    rw [validate_of_fault hfault] at hok
    cases hok

instance (r : Registry) (d : Directive) : Decidable (r.Accepts d) :=
  decidable_of_iff _ accepts_iff.symm

theorem exists_firstFault {ds : List Directive} (h : ∃ d ∈ ds, ∃ e, r.Fault d e) :
    ∃ e, r.FirstFault ds e := by
  induction ds with
  | nil =>
      obtain ⟨d, hd, -⟩ := h
      cases hd
  | cons first ds ih =>
      rcases r.accepts_or_fault first with haccepts | ⟨e, hfault⟩
      · obtain ⟨d, hd, e, hfault⟩ := h
        rcases List.mem_cons.1 hd with rfl | hd
        · exact absurd hfault (haccepts.no_fault e)
        · obtain ⟨e, hfirst⟩ := ih ⟨d, hd, e, hfault⟩
          exact ⟨e, .later haccepts hfirst⟩
      · exact ⟨e, .here hfault⟩

end Registry

/-! ### Checking a line -/

namespace Segment

def call? : Segment → Option Directive
  | .directive d => some d
  | .text _ => none

/-- The calls among the segments, in order. -/
def calls (segments : List Segment) : List Directive := segments.filterMap call?

theorem mem_calls {segments : List Segment} {d : Directive} :
    d ∈ calls segments ↔ .directive d ∈ segments := by
  rw [calls, List.mem_filterMap]
  constructor
  · rintro ⟨segment, hmem, heq⟩
    cases segment with
    | text t => cases heq
    | directive call =>
        cases heq
        exact hmem
  · exact fun hmem => ⟨_, hmem, rfl⟩

/-- Brackets that are cut off leave the calls where they were. -/
theorem any_isDirective_of_calls {r : Registry} {segments : List Segment}
    (h : calls (segments.flatMap (detachSubscript r)) ≠ []) : segments.any isDirective = true := by
  obtain ⟨d, hcall⟩ := List.exists_mem_of_ne_nil _ h
  obtain ⟨segment, hsegment, hd⟩ := List.mem_flatMap.1 (mem_calls.1 hcall)
  refine List.any_eq_true.2 ⟨segment, hsegment, ?_⟩
  cases segment with
  | text t => cases List.mem_singleton.1 hd
  | directive call => rfl

end Segment

theorem LinePlan.ofSegments_of_firstFault {r : Registry} {e : Error} {segments : List Segment}
    (h : r.FirstFault (Segment.calls segments) e) (p : LinePlan) :
    ofSegments r p segments = .error e := by
  induction segments generalizing p with
  | nil => cases h
  | cons segment segments ih =>
      cases segment with
      | text t => exact ih h p
      | directive d =>
          rw [ofSegments]
          cases h with
          | here hfault =>
              rw [Registry.validate_of_fault hfault]
              rfl
          | later haccepts hrest =>
              obtain ⟨rule, hrule, htakes⟩ := haccepts
              rw [Registry.validate_of_takes hrule htakes]
              exact ih hrest _

namespace ExpandM

variable (setup : Setup) (re : Reentry) {s : State} {r : Registry} {line : String}

/-- Counts the calls that were replaced in the lines, and drops blank lines. -/
def tally (segments : List Segment) (lines : List String) : ExpandM (List String × Nat) := do
  let count := lines.length * (segments.filter Segment.isDirective).length
  modify fun s => { s with replacements := s.replacements + count }
  pure (lines.filter fun line => !Text.blank line, count)

/-- A line with calls is planned, which checks all of them, before any of them runs. -/
theorem expandLine_eq (hregistry : s.stack.registry = .ok r) {segments : List Segment}
    (hscan : Segment.scan line = .ok segments) {shown : List Segment}
    (hshown : segments.flatMap (Segment.detachSubscript r) = shown)
    (hcalls : Segment.calls shown ≠ []) :
    expandLine setup re line s =
      (do
        let plan ← ofExcept (LinePlan.ofSegments r {} shown)
        tally shown (← plan.mapAssignments setup.model.ranges (expandSegments setup re r shown)))
        s := by
  subst hshown
  rw [expandLine, bind_eq (ofExcept_eq hscan), if_pos (Segment.any_isDirective_of_calls hcalls),
    get_bind, bind_eq (ofExcept_eq hregistry)]
  rfl

theorem expandLine_of_scan_error {e : Error} (h : Segment.scan line = .error e) :
    expandLine setup re line s = .error e s := by
  rw [expandLine, h]
  rfl

theorem expandLine_of_firstFault (hregistry : s.stack.registry = .ok r) {segments : List Segment}
    (hscan : Segment.scan line = .ok segments) {e : Error}
    (h : r.FirstFault (Segment.calls (segments.flatMap (Segment.detachSubscript r))) e) :
    expandLine setup re line s = .error e s := by
  have hcalls : Segment.calls (segments.flatMap (Segment.detachSubscript r)) ≠ [] := by
    intro hnil
    rw [hnil] at h
    cases h
  rw [expandLine_eq setup re hregistry hscan rfl hcalls, LinePlan.ofSegments_of_firstFault h]
  rfl

/-- A call that is accepted passes the check that is made when it runs, and its rule runs. -/
theorem invoke_eq {d : Directive} {rule : Rule} (hrule : r.get? d.name = some rule)
    (htakes : rule.Takes d) (assignment : List Index) :
    invoke setup re r assignment d =
      evaluate setup re d.name rule.body d.args (d.indices.map (Index.valued assignment)) := by
  rw [invoke, Registry.validate_of_takes hrule htakes]
  rfl

/-- A line that cannot be scanned fails with the error of the scanner. One that has a call at fault,
once the brackets behind simple rules are cut off, fails with the first fault. In both cases nothing
in the state changes. If no call is at fault, none is when it is checked again for any assignment:
its rule runs. -/
theorem expandLine_checked (hregistry : s.stack.registry = .ok r) (line : String) :
    (∀ e, Segment.scan line = .error e → expandLine setup re line s = .error e s) ∧
      ∀ segments, Segment.scan line = .ok segments →
        let calls := Segment.calls (segments.flatMap (Segment.detachSubscript r))
        ((∃ d ∈ calls, ∃ e, r.Fault d e) →
          ∃ e, r.FirstFault calls e ∧ expandLine setup re line s = .error e s) ∧
        ((∀ d ∈ calls, ∀ e, ¬r.Fault d e) →
          ∀ d ∈ calls, ∃ rule, r.get? d.name = some rule ∧ ∀ assignment t,
            invoke setup re r assignment d t =
              evaluate setup re d.name rule.body d.args
                (d.indices.map (Index.valued assignment)) t) := by
  refine ⟨fun e h => expandLine_of_scan_error setup re h, ?_⟩
  intro segments hscan calls
  constructor
  · intro hfault
    obtain ⟨e, hfirst⟩ := Registry.exists_firstFault hfault
    exact ⟨e, hfirst, expandLine_of_firstFault setup re hregistry hscan hfirst⟩
  · intro hnone d hd
    rcases r.accepts_or_fault d with ⟨rule, hrule, htakes⟩ | ⟨e, hfault⟩
    · exact ⟨rule, hrule, fun assignment t => by rw [invoke_eq setup re hrule htakes]⟩
    · exact absurd hfault (hnone d hd e)

/-- A line that would import a template and name a temporary, had its last call no index. -/
theorem expandLine_checked_import :
    let setup := Request.squareSetup "" "cpp 0.1\n$V\n"
    let main : Frame := { id := 0, buffer := {}, pass := .core, template := "main" }
    let s := ((State.initial setup {}).opened main.buffer .core "main").withTop (main.equip setup)
    expandLine setup (reentry setup 1) "$IMPORT\x7binner\x7d $V $MODEL[i] $V[A] $NOPE" s =
      .error (.indexCount "V" 0 1) s := by
  intro setup main s
  have hregistry : s.stack.registry = .ok (addRules {} (builtinRules setup.model 0 .core)) := rfl
  have hscan : Segment.scan "$IMPORT\x7binner\x7d $V $MODEL[i] $V[A] $NOPE" =
      .ok [.directive { name := "IMPORT", args := ["inner"] }, .text " ",
        .directive { name := "V" }, .text " ",
        .directive { name := "MODEL", indices := [⟨'i', .field, none⟩] }, .text " ",
        .directive { name := "V", indices := [⟨'A', .full, none⟩] }, .text " ",
        .directive { name := "NOPE" }] :=
    Segment.scan_eq_of_toOption (by decide +kernel)
  obtain ⟨-, hline⟩ := expandLine_checked setup (reentry setup 1) hregistry _
  obtain ⟨e, hfirst, herror⟩ := (hline _ hscan).1
    ⟨{ name := "V", indices := [⟨'A', .full, none⟩] }, by decide, _,
      .indexCount rfl rfl (by decide)⟩
  cases LinePlan.ofSegments_of_firstFault hfirst {}
  exact herror

end ExpandM

end TensorTemplate
