import TensorTemplate.Proofs.Expansion.Checking
import TensorTemplate.Proofs.Odometer

/-!
The values that rules get for the indices of their calls.

A line is repeated over the values of its labels, each label once, in the order in
which they first stand in it. In every repetition a label has one value, the same in
all calls of the line, and the value is in the range of every slot that the label
stands in. So rules that look a name of the model up by a value always find one. If
a rule forbids that the line is repeated, no label has a value.
-/

namespace TensorTemplate

/-! ### What rules do with values -/

/-- The class of the slot of a rule that looks something up in the model. -/
def RuleBody.lookupClass? : RuleBody → Option IndexClass
  | .fieldName => some .field
  | .parameter => some .parameter
  | .coordinate => some .full
  | _ => none

/-- Whether the rule needs a value for each of its indices. -/
def RuleBody.needsValues : RuleBody → Bool
  | .fieldName => true
  | .parameter => true
  | .coordinate => true
  | .tensor _ => true
  | _ => false

/-- What a rule that looks something up shows for a value. -/
inductive RuleBody.Shows (setup : Setup) : RuleBody → Nat → String → Prop where
  | fieldName {n : Nat} (h : n < setup.model.fields.length) :
      Shows setup .fieldName n ("\"" ++ setup.model.fields[n] ++ "\"")
  | parameter {n : Nat} (h : n < setup.model.parameters.length) :
      Shows setup .parameter n setup.model.parameters[n]
  | field {n : Nat} (h : n < setup.model.fields.length) :
      Shows setup .coordinate n (setup.backend.print (.var setup.model.fields[n]))
  | momentum {n : Nat} (h : n < setup.model.fields.length) :
      Shows setup .coordinate (setup.model.fields.length + n)
        (setup.backend.print (.var ("__d" ++ setup.model.fields[n])))

namespace ExpandM

theorem pick_eq_ok {α : Type} {rule : String} {i : Index} {n : Nat} (hvalue : i.value = some n)
    {item? : Nat → Option α} {a : α} (hitem : item? n = some a) : pick rule [i] item? = .ok a := by
  simp [pick, valuesFor, hvalue, hitem, bind, Except.bind, pure, Except.pure]

theorem valuesFor_eq_error {rule : String} {i : Index} (hvalue : i.value = none)
    (is : List Index) : valuesFor rule (i :: is) = .error (.unresolvedIndex rule i.label) := by
  rw [valuesFor, hvalue]

theorem pick_eq_error {α : Type} {rule : String} {i : Index} (hvalue : i.value = none)
    (is : List Index) (item? : Nat → Option α) :
    pick rule (i :: is) item? = .error (.unresolvedIndex rule i.label) := by
  rw [pick, valuesFor_eq_error hvalue]
  rfl

variable (setup : Setup) (re : Reentry) (name : String) (args : List String)

/-- A value in the range of the slot is found. -/
theorem evaluate_lookup {body : RuleBody} {slot : IndexClass}
    (hbody : body.lookupClass? = some slot) {i : Index} {n : Nat} (hvalue : i.value = some n)
    (hn : n < setup.model.ranges.size slot) :
    ∃ text, body.Shows setup n text ∧ ∀ t, evaluate setup re name body args [i] t = .ok text t := by
  cases body with
  | fieldName =>
      cases hbody
      have hitem : setup.model.fields[n]? = some setup.model.fields[n] :=
        List.getElem?_eq_getElem hn
      refine ⟨_, .fieldName hn, fun t => ?_⟩
      rw [evaluate, pick_eq_ok hvalue hitem]
      rfl
  | parameter =>
      cases hbody
      have hitem : setup.model.parameters[n]? = some setup.model.parameters[n] :=
        List.getElem?_eq_getElem hn
      refine ⟨_, .parameter hn, fun t => ?_⟩
      rw [evaluate, pick_eq_ok hvalue hitem]
      rfl
  | coordinate =>
      cases hbody
      have hn : n < 2 * setup.model.fields.length := hn
      by_cases hfield : n < setup.model.fields.length
      · have hitem : setup.model.coordinate? n = some (.var setup.model.fields[n]) := by
          rw [Model.coordinate?, if_pos hfield, List.getElem?_eq_getElem hfield]
          rfl
        refine ⟨_, .field hfield, fun t => ?_⟩
        rw [evaluate, pick_eq_ok hvalue hitem]
        rfl
      · obtain ⟨m, rfl⟩ := Nat.exists_eq_add_of_le (Nat.le_of_not_lt hfield)
        have hm : m < setup.model.fields.length := by omega
        have hitem : setup.model.coordinate? (setup.model.fields.length + m) =
            some (.var ("__d" ++ setup.model.fields[m])) := by
          rw [Model.coordinate?, if_neg hfield, Nat.add_sub_cancel_left,
            List.getElem?_eq_getElem hm]
          rfl
        refine ⟨_, .momentum hm, fun t => ?_⟩
        rw [evaluate, pick_eq_ok hvalue hitem]
        rfl
  | _ => cases hbody

/-- A rule that needs values fails at the first index without one. -/
theorem evaluate_unresolved {body : RuleBody} (hbody : body.needsValues = true) {i : Index}
    (hvalue : i.value = none) (is : List Index) (t : State) :
    evaluate setup re name body args (i :: is) t = .error (.unresolvedIndex name i.label) t := by
  cases body with
  | fieldName =>
      rw [evaluate, pick_eq_error hvalue]
      rfl
  | parameter =>
      rw [evaluate, pick_eq_error hvalue]
      rfl
  | coordinate =>
      rw [evaluate, pick_eq_error hvalue]
      rfl
  | tensor tensor =>
      rw [evaluate, valuesFor_eq_error hvalue]
      rfl
  | _ => cases hbody

/-- Built-in rules that look something up have one slot. -/
theorem slots_of_lookupClass? {model : Model} {id : Nat} {pass : Pass} {entry : String × Rule}
    (h : entry ∈ builtinRules model id pass) {slot : IndexClass}
    (hbody : entry.2.body.lookupClass? = some slot) : entry.2.shape.slots = [slot] := by
  have hfixed : ∀ entry ∈
      fundamentalRules ++ [("TEMP_POOL", .simple 1 (.setPool id))] ++ embedRules,
      ∀ slot, entry.2.body.lookupClass? = some slot → entry.2.shape.slots = [slot] := by
    simp [fundamentalRules, embedRules, Rule.simple, Rule.indexed, RuleBody.lookupClass?,
      Shape.slots]
  simp only [builtinRules, List.mem_append] at h
  rcases h with ((h | h) | h) | h
  · exact hfixed entry (List.mem_append_left _ (List.mem_append.2 h)) slot hbody
  · obtain ⟨tensor, -, rfl⟩ := List.mem_map.1 h
    cases hbody
  · split at h
    · obtain ⟨tensor, -, rfl⟩ := List.mem_map.1 h
      cases hbody
    · cases h
  · exact hfixed entry (List.mem_append_right _ h) slot hbody

end ExpandM

/-! ### The plan of a line -/

/-- Whether lines with a rule of this shape may be repeated. -/
def Shape.repeats : Shape → Bool
  | .simple => true
  | .indexed _ unroll => unroll

/-- Whether the rule of the call lets its line be repeated. -/
def Registry.repeats (r : Registry) (d : Directive) : Bool :=
  (r.get? d.name).all fun rule => rule.shape.repeats

namespace LinePlan

/-- The plan of a line without faults has the labels of its calls, and forbids repetition if a rule
does. -/
theorem ofSegments_of_accepts {r : Registry} {segments : List Segment}
    (h : ∀ d ∈ Segment.calls segments, r.Accepts d) (p : LinePlan) :
    ofSegments r p segments = .ok
      { labels := (p.addLabels ((Segment.calls segments).flatMap (·.indices))).labels
        unroll := p.unroll && (Segment.calls segments).all r.repeats } := by
  induction segments generalizing p with
  | nil => simp [ofSegments, Segment.calls, addLabels]
  | cons segment segments ih =>
      cases segment with
      | text t => exact ih h p
      | directive d =>
          obtain ⟨⟨rule, hrule, htakes⟩, hrest⟩ := List.forall_mem_cons.1 h
          rw [ofSegments, Registry.validate_of_takes hrule htakes]
          refine (ih hrest _).trans ?_
          have hcalls : Segment.calls (.directive d :: segments) = d :: Segment.calls segments :=
            rfl
          rw [hcalls, List.flatMap_cons, List.all_cons, Registry.repeats, hrule]
          obtain ⟨arity, shape, body⟩ := rule
          cases shape with
          | simple =>
              have hnone : d.indices = [] := List.forall₂_nil_left_iff.1 htakes.indices
              rw [hnone]
              rfl
          | indexed slots unroll =>
              simp [call, addLabels, Shape.repeats, List.foldl_append, Bool.and_assoc]

/-- A line that may be repeated is, over all choices of values for its labels; without labels there
is one choice. -/
theorem assignments_of_unroll {p : LinePlan} (h : p.unroll = true) (ranges : Ranges) :
    p.assignments ranges =
      (Odometer.choices (ranges.limits p.labels)).map (List.zipWith Index.withValue p.labels) := by
  obtain ⟨labels, unroll⟩ := p
  cases h
  cases labels with
  | nil => rfl
  | cons l labels => exact ranges.assignments_eq (l :: labels)

theorem assignments_of_not_unroll {p : LinePlan} (h : p.unroll = false) (ranges : Ranges) :
    p.assignments ranges = [p.labels] := by
  rw [assignments, h]
  rfl

theorem addLabels_concat (p : LinePlan) (is : List Index) (i : Index) :
    (p.addLabels (is ++ [i])).labels =
      if i.label ∈ (p.addLabels is).labels.map (·.label) then (p.addLabels is).labels
      else (p.addLabels is).labels ++ [i] := by
  simp [addLabels, List.foldl_append, List.any_eq_true]

/-- The labels of a plan are those that stand in the line, each at its first place. -/
theorem map_label_addLabels (is : List Index) :
    (addLabels {} is).labels.map (·.label) = (is.map (·.label)).eraseDups := by
  induction is using List.reverseRecOn with
  | nil => rfl
  | append_singleton is i ih =>
      rw [addLabels_concat, ih, List.map_append, List.eraseDups_append]
      by_cases hmem : i.label ∈ is.map (·.label)
      · have hold : [i.label].removeAll (is.map (·.label)) = [] := by
          rw [List.removeAll, List.filter_cons_of_neg (by simpa using hmem)]
          rfl
        rw [if_pos (List.mem_eraseDups.2 hmem), ih, List.map_singleton, hold, List.eraseDups_nil,
          List.append_nil]
      · have hnew : [i.label].removeAll (is.map (·.label)) = [i.label] := by
          rw [List.removeAll, List.filter_cons_of_pos (by simpa using hmem)]
          rfl
        rw [if_neg (mt List.mem_eraseDups.1 hmem), List.map_append, ih, List.map_singleton, hnew]
        rfl

theorem mem_of_mem_addLabels {is : List Index} {l : Index} (h : l ∈ (addLabels {} is).labels) :
    l ∈ is := by
  induction is using List.reverseRecOn with
  | nil => exact h
  | append_singleton is i ih =>
      rw [addLabels_concat] at h
      split at h
      · exact List.mem_append_left _ (ih h)
      · rcases List.mem_append.1 h with h | h
        · exact List.mem_append_left _ (ih h)
        · exact List.mem_append_right _ h

theorem nodup_addLabels (is : List Index) :
    ((addLabels {} is).labels.map (·.label)).Nodup := by
  induction is using List.reverseRecOn with
  | nil => exact List.nodup_nil
  | append_singleton is i ih =>
      rw [addLabels_concat]
      split
      · exact ih
      · rename_i hnew
        rw [List.map_append]
        exact List.nodup_append.2 ⟨ih, List.nodup_singleton _, by simpa using hnew⟩

end LinePlan

/-! ### Values for labels -/

/-- The value that a tuple has for a label, in the place of the label. -/
def valueIn (labels : List Char) (values : List Nat) (label : Char) : Option Nat :=
  (labels.zip values).lookup label

theorem valueIn_lt {labels : List Char} {values : List Nat} {size : Char → Nat}
    (h : List.Forall₂ (· < ·) values (labels.map size)) {label : Char} (hlabel : label ∈ labels) :
    ∃ n, valueIn labels values label = some n ∧ n < size label := by
  induction labels generalizing values with
  | nil => cases hlabel
  | cons first labels ih =>
      cases h with
      | @cons value _ values _ hvalue hvalues =>
          rw [valueIn, List.zip_cons_cons, List.lookup_cons]
          by_cases hfirst : label = first
          · subst hfirst
            exact ⟨value, by simp, hvalue⟩
          · rw [beq_false_of_ne hfirst]
            exact ih hvalues ((List.mem_cons.1 hlabel).resolve_left hfirst)

/-- Labels that are all different have the values of the tuple. -/
theorem map_valueIn {labels : List Char} (hlabels : labels.Nodup) {values : List Nat}
    (h : labels.length = values.length) :
    labels.map (valueIn labels values) = values.map some := by
  induction labels generalizing values with
  | nil =>
      rw [List.length_eq_zero_iff.1 h.symm]
      rfl
  | cons first labels ih =>
      cases values with
      | nil => cases h
      | cons value values =>
          obtain ⟨hnot, hrest⟩ := List.nodup_cons.1 hlabels
          have hlater : ∀ label ∈ labels,
              valueIn (first :: labels) (value :: values) label = valueIn labels values label := by
            intro label hlabel
            have hne : label ≠ first := by
              rintro rfl
              exact hnot hlabel
            rw [valueIn, List.zip_cons_cons, List.lookup_cons, beq_false_of_ne hne]
            rfl
          rw [List.map_cons, List.map_congr_left hlater, ih hrest (Nat.succ.inj h), valueIn,
            List.zip_cons_cons, List.lookup_cons_self]
          rfl

namespace Index

theorem find?_withValue (labels : List Index) (values : List Nat) (label : Char) :
    ((List.zipWith withValue labels values).find? (fun a => a.label = label)).bind (·.value) =
      valueIn (labels.map (·.label)) values label := by
  induction labels generalizing values with
  | nil => rfl
  | cons l labels ih =>
      cases values with
      | nil => rfl
      | cons value values =>
          rw [valueIn, List.zipWith_cons_cons, List.map_cons, List.zip_cons_cons, List.lookup_cons]
          by_cases hlabel : l.label = label
          · have hfirst : decide ((l.withValue value).label = label) = true := decide_eq_true hlabel
            rw [List.find?_cons, hfirst, hlabel, beq_self_eq_true]
            rfl
          · have hfirst : decide ((l.withValue value).label = label) = false :=
              decide_eq_false hlabel
            rw [List.find?_cons, hfirst, beq_false_of_ne (Ne.symm hlabel)]
            exact ih values

theorem value_of_ofLabel? {i : Index} (h : ofLabel? i.label = some i) : i.value = none := by
  obtain ⟨cls, -, heq⟩ := Option.map_eq_some_iff.1 h
  rw [← heq]

/-- Labels without values have none for any label. -/
theorem find?_abstract {labels : List Index} (h : ∀ l ∈ labels, l.value = none) (label : Char) :
    (labels.find? (fun a => a.label = label)).bind (·.value) = none := by
  cases hfind : labels.find? (fun a => a.label = label) with
  | none => rfl
  | some l => exact h l (List.mem_of_find?_eq_some hfind)

/-- An index without a value gets the one that the assignment has for its label. -/
theorem valued_eq {assignment : List Index} {i : Index} (hvalue : i.value = none)
    {value? : Option Nat}
    (h : (assignment.find? (fun a => a.label = i.label)).bind (·.value) = value?) :
    i.valued assignment = { i with value := value? } := by
  rw [valued, h]
  cases value? with
  | some n => rfl
  | none =>
      obtain ⟨label, cls, value⟩ := i
      cases hvalue
      rfl

end Index

namespace Ranges

/-- How many values an index with this label can take. -/
def sizeOf (r : Ranges) (label : Char) : Nat := (IndexClass.ofLabel? label).elim 0 r.size

theorem sizeOf_label (r : Ranges) {i : Index} (h : Index.ofLabel? i.label = some i) :
    r.sizeOf i.label = r.size i.cls := by
  obtain ⟨cls, hcls, heq⟩ := Option.map_eq_some_iff.1 h
  rw [sizeOf, hcls, ← heq]
  rfl

/-- An index that a slot accepts stays in the range of the slot. -/
theorem size_le_of_accepts (r : Ranges) {slot cls : IndexClass} (h : slot.accepts cls = true) :
    r.size cls ≤ r.size slot := by
  cases slot with
  | full =>
      cases cls with
      | full => exact Nat.le_refl _
      | field => exact Nat.le_mul_of_pos_left _ (by decide)
      | parameter => cases h
  | field =>
      cases cls with
      | field => exact Nat.le_refl _
      | full => cases h
      | parameter => cases h
  | parameter =>
      cases cls with
      | parameter => exact Nat.le_refl _
      | full => cases h
      | field => cases h

end Ranges

/-! ### Running a line -/

namespace ExpandM

section Run

variable (setup : Setup) (re : Reentry) (r : Registry)

/-- Runs the rule of a call, each index having the value of its label. -/
def runCall (value? : Char → Option Nat) (d : Directive) : ExpandM String :=
  match r.get? d.name with
  | none => throw (.unknownRule d.name)
  | some rule =>
    evaluate setup re d.name rule.body d.args
      (d.indices.map fun i => { i with value := value? i.label })

def runSegment (value? : Char → Option Nat) : Segment → ExpandM String
  | .text t => pure t
  | .directive d => do
    let text ← runCall setup re r value? d
    see (.evaluated re.frame)
    pure text

/-- One line: the texts, and what the rules of the calls return. -/
def runSegments (segments : List Segment) (value? : Char → Option Nat) : ExpandM String := do
  pure (String.join (← segments.mapM (runSegment setup re r value?)))

/-- The lines with these values for labels, one after the other. -/
def runLine (segments : List Segment) (repetitions : List (Char → Option Nat)) :
    ExpandM (List String × Nat) := do
  tally segments (← repetitions.mapM (runSegments setup re r segments))

end Run

theorem mapM_congr {α β γ : Type} {f : α → ExpandM γ} {g : β → ExpandM γ} {as : List α}
    {bs : List β} (h : List.Forall₂ (fun a b => f a = g b) as bs) : as.mapM f = bs.mapM g := by
  induction h with
  | nil => rfl
  | cons h _ ih => rw [List.mapM_cons, List.mapM_cons, h, ih]

/-- The assignment gives the indices of the calls these values. -/
def Assigns (calls : List Directive) (assignment : List Index) (value? : Char → Option Nat) :
    Prop :=
  ∀ d ∈ calls, ∀ i ∈ d.indices, i.valued assignment = { i with value := value? i.label }

variable (setup : Setup) (re : Reentry) {r : Registry} {segments : List Segment}

theorem runCall_eq {d : Directive} {rule : Rule} (hrule : r.get? d.name = some rule)
    (value? : Char → Option Nat) :
    runCall setup re r value? d =
      evaluate setup re d.name rule.body d.args
        (d.indices.map fun i => { i with value := value? i.label }) := by
  rw [runCall, hrule]

/-- An assignment counts only for the values that it has for the labels. -/
theorem expandSegments_eq (haccepts : ∀ d ∈ Segment.calls segments, r.Accepts d)
    {assignment : List Index} {value? : Char → Option Nat}
    (hvalues : Assigns (Segment.calls segments) assignment value?) :
    expandSegments setup re r segments assignment = runSegments setup re r segments value? := by
  have hsegments : segments.mapM (expandSegment setup re r assignment) =
      segments.mapM (runSegment setup re r value?) := by
    refine mapM_congr (List.forall₂_same.2 fun segment hsegment => ?_)
    cases segment with
    | text t => rfl
    | directive d =>
        have hd := Segment.mem_calls.2 hsegment
        obtain ⟨rule, hrule, htakes⟩ := haccepts d hd
        rw [expandSegment, invoke_eq setup re hrule htakes, runSegment, runCall_eq setup re hrule,
          List.map_congr_left (hvalues d hd)]
  rw [expandSegments, hsegments, runSegments]

/-- A line runs once for each of its assignments, with the values that this gives the labels. -/
theorem expandLine_run {s : State} {line : String} (hregistry : s.stack.registry = .ok r)
    (hscan : Segment.scan line = .ok segments) {shown : List Segment}
    (hshown : segments.flatMap (Segment.detachSubscript r) = shown)
    (hcalls : Segment.calls shown ≠ []) (haccepts : ∀ d ∈ Segment.calls shown, r.Accepts d)
    {plan : LinePlan} (hplan : LinePlan.ofSegments r {} shown = .ok plan)
    {repetitions : List (Char → Option Nat)}
    (hvalues : List.Forall₂ (Assigns (Segment.calls shown)) (plan.assignments setup.model.ranges)
      repetitions) :
    expandLine setup re line s = runLine setup re r shown repetitions s := by
  have hlines : plan.mapAssignments setup.model.ranges (expandSegments setup re r shown) =
      repetitions.mapM (runSegments setup re r shown) := by
    rw [LinePlan.mapAssignments_eq]
    exact mapM_congr (hvalues.imp fun _ _ => expandSegments_eq setup re haccepts)
  rw [expandLine_eq setup re hregistry hscan hshown hcalls, bind_eq (ofExcept_eq hplan), hlines,
    runLine]

end ExpandM

/-- The labels of calls, each at its first place. -/
def distinctLabels (calls : List Directive) : List Char :=
  (calls.flatMap Directive.labels).eraseDups

/-- Every index of the call has a value in the range of its slot. -/
def Rule.InRange (rule : Rule) (ranges : Ranges) (value? : Char → Option Nat) (d : Directive) :
    Prop :=
  List.Forall₂ (fun slot i => ∃ n, value? i.label = some n ∧ n < ranges.size slot)
    rule.shape.slots d.indices

section Line

variable {calls : List Directive}
  (hindices : ∀ d ∈ calls, ∀ i ∈ d.indices, Index.ofLabel? i.label = some i)

theorem map_label_plan :
    (LinePlan.addLabels {} (calls.flatMap (·.indices))).labels.map (·.label) =
      distinctLabels calls := by
  rw [LinePlan.map_label_addLabels, List.map_flatMap]
  rfl

theorem nodup_distinctLabels : (distinctLabels calls).Nodup := by
  rw [← map_label_plan]
  exact LinePlan.nodup_addLabels _

theorem mem_distinctLabels {d : Directive} (hd : d ∈ calls) {i : Index} (hi : i ∈ d.indices) :
    i.label ∈ distinctLabels calls :=
  List.mem_eraseDups.2 (List.mem_flatMap.2 ⟨d, hd, List.mem_map_of_mem hi⟩)

include hindices

/-- The ranges of the labels of a plan. -/
theorem limits_plan (ranges : Ranges) :
    ranges.limits (LinePlan.addLabels {} (calls.flatMap (·.indices))).labels =
      (distinctLabels calls).map ranges.sizeOf := by
  rw [← map_label_plan, List.map_map]
  refine List.map_congr_left fun l hl => ?_
  obtain ⟨d, hd, hmem⟩ := List.mem_flatMap.1 (LinePlan.mem_of_mem_addLabels hl)
  exact (ranges.sizeOf_label (hindices d hd l hmem)).symm

/-- In every choice of values for the labels, a call that a rule takes is in the range of its
slots. -/
theorem inRange_of_mem_choices {ranges : Ranges} {values : List Nat}
    (hvalues : values ∈ Odometer.choices ((distinctLabels calls).map ranges.sizeOf))
    {d : Directive} (hd : d ∈ calls) {rule : Rule} (htakes : rule.Takes d) :
    rule.InRange ranges (valueIn (distinctLabels calls) values) d := by
  have hvalue : ∀ i ∈ d.indices, ∃ n, valueIn (distinctLabels calls) values i.label = some n ∧
      n < ranges.size i.cls := by
    intro i hi
    rw [← ranges.sizeOf_label (hindices d hd i hi)]
    exact valueIn_lt (Odometer.mem_choices.1 hvalues) (mem_distinctLabels hd hi)
  have htaken := htakes.indices
  rw [Rule.InRange]
  generalize rule.shape.slots = slots at htaken ⊢
  generalize d.indices = is at htaken hvalue ⊢
  induction htaken with
  | nil => exact .nil
  | cons hfits _ ih =>
      obtain ⟨⟨n, hsome, hn⟩, hrest⟩ := List.forall_mem_cons.1 hvalue
      exact .cons ⟨n, hsome, hn.trans_le (ranges.size_le_of_accepts hfits)⟩ (ih hrest)

end Line

namespace ExpandM

variable (setup : Setup) (re : Reentry)

section Runs

variable {s : State} {r : Registry} {line : String} {segments : List Segment}
  (hregistry : s.stack.registry = .ok r) (hscan : Segment.scan line = .ok segments)
  {shown : List Segment} (hshown : segments.flatMap (Segment.detachSubscript r) = shown)

include hscan hshown in
theorem ofLabel?_of_mem_calls {d : Directive} (hd : d ∈ Segment.calls shown) :
    ∀ i ∈ d.indices, Index.ofLabel? i.label = some i := by
  have hmem : .directive d ∈ segments.flatMap (Segment.detachSubscript r) := by
    rw [hshown]
    exact Segment.mem_calls.1 hd
  exact (Segment.madeOf_detachSubscript (Segment.madeOf_scan hscan) hmem).indices

variable (hcalls : Segment.calls shown ≠ []) (haccepts : ∀ d ∈ Segment.calls shown, r.Accepts d)

include hregistry hscan hshown hcalls haccepts

/-- A line that may be repeated runs for all choices of values for its labels. -/
theorem expandLine_repeated (hrepeats : ∀ d ∈ Segment.calls shown, r.repeats d = true) :
    let labels := distinctLabels (Segment.calls shown)
    let tuples := Odometer.choices (labels.map setup.model.ranges.sizeOf)
    expandLine setup re line s = runLine setup re r shown (tuples.map (valueIn labels)) s := by
  intro labels tuples
  have hindices := fun d hd => ofLabel?_of_mem_calls hscan hshown (d := d) hd
  have hplan := LinePlan.ofSegments_of_accepts haccepts {}
  rw [List.all_eq_true.2 hrepeats] at hplan
  refine expandLine_run setup re hregistry hscan hshown hcalls haccepts hplan ?_
  rw [LinePlan.assignments_of_unroll rfl, limits_plan hindices, List.forall₂_map_left_iff,
    List.forall₂_map_right_iff]
  refine List.forall₂_same.2 fun values _ d hd i hi => ?_
  refine Index.valued_eq (Index.value_of_ofLabel? (hindices d hd i hi)) ?_
  rw [Index.find?_withValue, map_label_plan]

/-- A line with a rule that forbids repetition runs once, without values. -/
theorem expandLine_once (hforbids : ∃ d ∈ Segment.calls shown, r.repeats d = false) :
    expandLine setup re line s = runLine setup re r shown [fun _ => none] s := by
  have hindices := fun d hd => ofLabel?_of_mem_calls hscan hshown (d := d) hd
  have hplan := LinePlan.ofSegments_of_accepts haccepts {}
  rw [List.all_eq_false.2 (by simpa using hforbids)] at hplan
  refine expandLine_run setup re hregistry hscan hshown hcalls haccepts hplan ?_
  rw [LinePlan.assignments_of_not_unroll rfl]
  refine .cons (fun d hd i hi => ?_) .nil
  refine Index.valued_eq (Index.value_of_ofLabel? (hindices d hd i hi)) (Index.find?_abstract ?_ _)
  intro l hl
  obtain ⟨d, hd, hmem⟩ := List.mem_flatMap.1 (LinePlan.mem_of_mem_addLabels hl)
  exact Index.value_of_ofLabel? (hindices d hd l hmem)

end Runs

/-- A built-in rule that looks something up finds it. -/
theorem runCall_lookup {id : Nat} {pass : Pass} {value? : Char → Option Nat} {d : Directive}
    {rule : Rule} (hrule : (addRules {} (builtinRules setup.model id pass)).get? d.name = some rule)
    (hrange : rule.InRange setup.model.ranges value? d)
    (hbody : rule.body.lookupClass?.isSome = true) :
    ∃ i n text, d.indices = [i] ∧ value? i.label = some n ∧ rule.body.Shows setup n text ∧
      ∀ t, runCall setup re (addRules {} (builtinRules setup.model id pass)) value? d t =
        .ok text t := by
  obtain ⟨slot, hslot⟩ := Option.isSome_iff_exists.1 hbody
  have hentry := mem_of_get?_addRules hrule
  rw [Rule.InRange, slots_of_lookupClass? hentry hslot] at hrange
  cases hd : d.indices with
  | nil =>
      rw [hd] at hrange
      cases hrange
  | cons i is =>
      rw [hd] at hrange
      obtain ⟨⟨n, hvalue, hn⟩, hrest⟩ := List.forall₂_cons.1 hrange
      obtain rfl := List.forall₂_nil_left_iff.1 hrest
      obtain ⟨text, hshows, hrun⟩ := evaluate_lookup setup re d.name d.args hslot
        (i := { i with value := value? i.label }) hvalue hn
      refine ⟨i, n, text, rfl, hvalue, hshows, fun t => ?_⟩
      rw [runCall_eq setup re hrule, hd]
      exact hrun t

/-- Without values, a rule that needs them says so. -/
theorem runCall_unresolved {r : Registry} {d : Directive} {rule : Rule}
    (hrule : r.get? d.name = some rule) (htakes : rule.Takes d)
    (hbody : rule.body.needsValues = true) (hslots : rule.shape.slots ≠ []) :
    ∃ i is, d.indices = i :: is ∧ ∀ t, runCall setup re r (fun _ => none) d t =
      .error (.unresolvedIndex d.name i.label) t := by
  obtain ⟨slot, slots, hcons⟩ := List.exists_cons_of_ne_nil hslots
  have htaken := htakes.indices
  rw [hcons] at htaken
  obtain ⟨i, is, -, -, hd⟩ := List.forall₂_cons_left_iff.1 htaken
  refine ⟨i, is, hd, fun t => ?_⟩
  rw [runCall_eq setup re hrule, hd]
  exact evaluate_unresolved setup re d.name d.args hbody rfl _ t

/-- What a line hands to the built-in rules. If all rules of its calls let it be repeated, it runs
for one tuple of values after the other, where the tuples give each label of the line, taken at its
first place, a value below its range, all of them in lexicographic order and each once. In each run
an index has the value of its label, whatever call it stands in. This is in the range of its slot,
so rules that look up a field, a parameter or a coordinate show it. If a rule forbids repetition,
the line runs once, no index has a value, and a rule that needs values for its slots fails with the
first index that it has. -/
theorem expandLine_values {s : State} {id : Nat} {pass : Pass}
    (hregistry : s.stack.registry = .ok (addRules {} (builtinRules setup.model id pass)))
    {line : String} {segments : List Segment} (hscan : Segment.scan line = .ok segments) :
    let rules := addRules {} (builtinRules setup.model id pass)
    let shown := segments.flatMap (Segment.detachSubscript rules)
    let calls := Segment.calls shown
    let labels := distinctLabels calls
    let ranges := setup.model.ranges
    let sizes := labels.map ranges.sizeOf
    let tuples := Odometer.choices sizes
    calls ≠ [] → (∀ d ∈ calls, rules.Accepts d) →
      (∀ values, values ∈ tuples ↔ List.Forall₂ (· < ·) values sizes) ∧
      tuples.Pairwise (· < ·) ∧
      ((∀ d ∈ calls, rules.repeats d = true) →
        expandLine setup re line s =
          runLine setup re rules shown (tuples.map (valueIn labels)) s ∧
        ∀ values ∈ tuples,
          labels.map (valueIn labels values) = values.map some ∧
          ∀ d ∈ calls, ∀ rule, rules.get? d.name = some rule →
            rule.InRange ranges (valueIn labels values) d ∧
            (rule.body.lookupClass?.isSome = true →
              ∃ i n text, d.indices = [i] ∧ valueIn labels values i.label = some n ∧
                rule.body.Shows setup n text ∧
                ∀ t, runCall setup re rules (valueIn labels values) d t = .ok text t)) ∧
      ((∃ d ∈ calls, rules.repeats d = false) →
        expandLine setup re line s = runLine setup re rules shown [fun _ => none] s ∧
        ∀ d ∈ calls, ∀ rule, rules.get? d.name = some rule →
          rule.body.needsValues = true → rule.shape.slots ≠ [] →
            ∃ i is, d.indices = i :: is ∧
              ∀ t, runCall setup re rules (fun _ => none) d t =
                .error (.unresolvedIndex d.name i.label) t) := by
  intro rules shown calls labels ranges sizes tuples hcalls haccepts
  have hindices : ∀ d ∈ calls, ∀ i ∈ d.indices, Index.ofLabel? i.label = some i :=
    fun d hd => ofLabel?_of_mem_calls hscan rfl hd
  have htakes : ∀ d ∈ calls, ∀ rule, rules.get? d.name = some rule → rule.Takes d := by
    intro d hd rule hrule
    obtain ⟨rule', hrule', htakes⟩ := haccepts d hd
    cases hrule.symm.trans hrule'
    exact htakes
  refine ⟨fun values => Odometer.mem_choices, Odometer.pairwise_choices sizes, ?_, ?_⟩
  · intro hrepeats
    refine ⟨expandLine_repeated setup re hregistry hscan rfl hcalls haccepts hrepeats, ?_⟩
    intro values hvalues
    have hlength : labels.length = values.length := by
      rw [(Odometer.mem_choices.1 hvalues).length_eq, List.length_map]
    refine ⟨map_valueIn nodup_distinctLabels hlength, fun d hd rule hrule => ?_⟩
    have hrange := inRange_of_mem_choices hindices hvalues hd (htakes d hd rule hrule)
    exact ⟨hrange, runCall_lookup setup re hrule hrange⟩
  · intro hforbids
    refine ⟨expandLine_once setup re hregistry hscan rfl hcalls haccepts hforbids, ?_⟩
    exact fun d hd rule hrule => runCall_unresolved setup re hrule (htakes d hd rule hrule)

/-- A line over a field and a coordinate, and one that a function value keeps from being
repeated. -/
theorem expandLine_values_form :
    let setup : Setup :=
      { settings := {}
        backend := .cpp
        model :=
          { name := "form", fields := ["x", "y"]
            tensors := ⟨[("G", ⟨[.full], fun _ => some (.var "g")⟩)]⟩ }
        source := .memory {} }
    let main : Frame := { id := 0, buffer := {}, pass := .implementation, template := "main" }
    let s := ((State.initial setup {}).opened main.buffer .implementation "main").withTop
      (main.equip setup)
    let rules := addRules {} (builtinRules setup.model 0 .implementation)
    let field : Directive := { name := "FIELD_NAME", indices := [⟨'a', .field, none⟩] }
    let coordinate : Directive := { name := "COORDINATE", indices := [⟨'A', .full, none⟩] }
    let function : Directive := { name := "G_LAMBDA", indices := [⟨'a', .field, none⟩] }
    expandLine setup (reentry setup 1) "$FIELD_NAME[a] $COORDINATE[A]" s =
        runLine setup (reentry setup 1) rules [.directive field, .text " ", .directive coordinate]
          ([[0, 0], [0, 1], [0, 2], [0, 3], [1, 0], [1, 1], [1, 2], [1, 3]].map
            (valueIn ['a', 'A'])) s ∧
      expandLine setup (reentry setup 1) "$FIELD_NAME[a] $G_LAMBDA[a]" s =
        runLine setup (reentry setup 1) rules [.directive field, .text " ", .directive function]
          [fun _ => none] s ∧
      ∀ t, runCall setup (reentry setup 1) rules (fun _ => none) field t =
        .error (.unresolvedIndex "FIELD_NAME" 'a') t := by
  intro setup main s rules field coordinate function
  have hregistry : s.stack.registry = .ok rules := rfl
  have hrepeated : Segment.scan "$FIELD_NAME[a] $COORDINATE[A]" =
      .ok [.directive field, .text " ", .directive coordinate] :=
    Segment.scan_eq_of_toOption (by decide +kernel)
  have honce : Segment.scan "$FIELD_NAME[a] $G_LAMBDA[a]" =
      .ok [.directive field, .text " ", .directive function] :=
    Segment.scan_eq_of_toOption (by decide +kernel)
  obtain ⟨-, -, hlines, -⟩ := expandLine_values setup (reentry setup 1) hregistry hrepeated
    (by decide +kernel) (by decide +kernel)
  obtain ⟨-, -, -, hline⟩ := expandLine_values setup (reentry setup 1) hregistry honce
    (by decide +kernel) (by decide +kernel)
  obtain ⟨hruns, -⟩ := hlines (by decide +kernel)
  obtain ⟨hrun, hcalls⟩ := hline (by decide +kernel)
  have hshown : ∀ d ∈ [coordinate, function],
      [.directive field, .text " ", .directive d].flatMap (Segment.detachSubscript rules) =
        [.directive field, .text " ", .directive d] := by
    decide +kernel
  rw [hshown coordinate List.mem_cons_self] at hruns
  rw [hshown function (List.mem_cons_of_mem _ List.mem_cons_self)] at hrun
  have hname : rules.get? field.name = some (.indexed [.field] .fieldName) := rfl
  obtain ⟨i, is, hindices, herror⟩ := hcalls field (by decide +kernel) _ hname rfl (by decide)
  cases hindices
  exact ⟨hruns, hrun, herror⟩

end ExpandM

end TensorTemplate
