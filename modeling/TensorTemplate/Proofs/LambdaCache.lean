import TensorTemplate.Expansion.Rule
import TensorTemplate.Proofs.Odometer
import TensorTemplate.Proofs.Temporaries

/-!
Function values of tensors, and the cache that hands them out.

What a tensor's function value computes is settled by the tensor and by the tags of its
parameters: all components that there are, in the order of their index values. The cache
compares kinds and tags only. That is enough while all of its records are function values
of the tensors of one model: the record that a call goes to then is the function value
that was asked for, whoever asked first.
-/

namespace TensorTemplate

open NameGen

/-! ### What is computed -/

/-- What a function value computes, in the target language. -/
inductive Payload where
  | value (text : String)
  | cases (cs : List PrintedCase)

namespace Payload

/-- The payload under the names of the parameters. -/
def render (b : Backend) (params : List String) : Payload → String
  | value text => b.atomicLambda params text
  | cases cs => b.mapLambda params cs

/-- The payload is that of the tensor, for parameters with these tags: without parameters its
component, or zero; else the components that there are within the ranges of the parameters' classes,
in the order of their index values. -/
def Tabulates (b : Backend) (ranges : Ranges) (t : Tensor) (tags : List IndexTag) : Payload → Prop
  | value text => tags = [] ∧ text = (t.component []).elim "0" b.print
  | cases cs => tags ≠ [] ∧ (cs.map (·.values)).Pairwise (· < ·) ∧
      ∀ c, c ∈ cs ↔ List.Forall₂ (fun value tag => value < ranges.size tag.cls) c.values tags ∧
        (t.component c.values).map b.print = some c.value

end Payload

namespace Lambda

def payload (b : Backend) (l : Lambda) : Payload :=
  match l.body with
  | .value e => .value (b.print e)
  | .cases cs => .cases (cs.get.map fun c => ⟨c.1, b.print c.2⟩)

/-- All that is written of a function value is its parameters and its payload. -/
theorem render_eq (b : Backend) (l : Lambda) : l.render b = (l.payload b).render b l.params := by
  unfold render payload
  cases l.body <;> rfl

/-- What the cache knows a function value by. -/
def identity (l : Lambda) : String × List IndexTag := (l.kind, l.tags)

theorem sameIdentity_iff {l k : Lambda} : l.sameIdentity k = true ↔ l.identity = k.identity := by
  simp [sameIdentity, identity]

end Lambda

namespace Tensor

variable (t : Tensor) (kind : String) (ranges : Ranges)

theorem cases_eq (indices : List Index) :
    t.cases ranges indices =
      (Odometer.choices (ranges.limits indices)).filterMap fun values =>
        (t.component values).map fun e => (values, e) := by
  have hlimits : ranges.limits (indices.map Index.abstract) = ranges.limits indices := by
    simp [Ranges.limits, Function.comp_def, Index.abstract]
  rw [← hlimits, ← ranges.values_assignments, List.filterMap_map]
  rfl

theorem map_fst_cases (indices : List Index) :
    (t.cases ranges indices).map (·.1) =
      (Odometer.choices (ranges.limits indices)).filter fun values =>
        (t.component values).isSome := by
  rw [cases_eq, List.map_filterMap, ← List.filterMap_eq_filter]
  congr 1
  funext values
  cases h : t.component values <;> simp [h, Option.guard]

theorem mem_cases {indices : List Index} {values : List Nat} {e : Expr} :
    (values, e) ∈ t.cases ranges indices ↔
      List.Forall₂ (fun value tag => value < ranges.size tag.cls) values (indices.map Index.tag) ∧
        t.component values = some e := by
  simp [cases_eq, Odometer.mem_choices, Ranges.limits, List.forall₂_map_right_iff, Index.tag]

/-- The function value of a tensor computes the tensor. -/
theorem tabulates_toLambda (b : Backend) (indices : List Index) :
    ((t.toLambda kind ranges indices).payload b).Tabulates b ranges t (indices.map Index.tag) := by
  cases indices with
  | nil =>
      refine ⟨rfl, ?_⟩
      cases t.component [] with
      | none => cases b <;> rfl
      | some e => rfl
  | cons i is =>
      refine ⟨List.cons_ne_nil _ _, ?_, ?_⟩
      · -- the values of the cases are those choices at which there is a component
        rw [List.map_map]
        show ((t.cases ranges (i :: is)).map (·.1)).Pairwise (· < ·)
        rw [map_fst_cases]
        exact (Odometer.pairwise_choices _).filter _
      · rintro ⟨values, text⟩
        rw [Option.map_eq_some_iff]
        constructor
        · intro hmem
          obtain ⟨⟨values', e⟩, hcase, heq⟩ := List.mem_map.1 hmem
          cases heq
          obtain ⟨hvalues, he⟩ := (t.mem_cases ranges).1 hcase
          exact ⟨hvalues, e, he, rfl⟩
        · rintro ⟨hvalues, e, he, rfl⟩
          exact List.mem_map_of_mem ((t.mem_cases ranges).2 ⟨hvalues, he⟩)

theorem params_toLambda (indices : List Index) :
    (t.toLambda kind ranges indices).params =
      indices.map fun i => String.singleton i.label := by
  show (indices.map Index.tag).map _ = _
  rw [List.map_map]
  rfl

/-- Only the tags of the indices count. -/
theorem toLambda_congr {indices indices' : List Index}
    (h : indices.map Index.tag = indices'.map Index.tag) :
    t.toLambda kind ranges indices = t.toLambda kind ranges indices' := by
  have habstract : ∀ is : List Index,
      is.map Index.abstract = (is.map Index.tag).map fun tag => ⟨tag.label, tag.cls, none⟩ := by
    intro is
    rw [List.map_map]
    rfl
  have hempty : indices.isEmpty = indices'.isEmpty := by
    rw [← List.isEmpty_map (f := Index.tag), h, List.isEmpty_map]
  simp only [toLambda, cases, habstract, h, hempty]

end Tensor

/-! ### Function values of one model -/

/-- The function value is that of one of the tensors of the model, under the tensor's name. -/
def Lambda.OfModel (model : Model) (l : Lambda) : Prop :=
  ∃ kind t indices, (kind, t) ∈ model.tensors.entries ∧ l = t.toLambda kind model.ranges indices

/-- Function values of one model that the cache cannot tell apart are the same. -/
theorem Lambda.OfModel.eq_of_identity {model : Model} (hnames : model.tensors.names.Nodup)
    {l k : Lambda} (hl : l.OfModel model) (hk : k.OfModel model) (h : l.identity = k.identity) :
    l = k := by
  obtain ⟨kind, t, indices, ht, rfl⟩ := hl
  obtain ⟨kind', t', indices', ht', rfl⟩ := hk
  have hkind : kind = kind' := congrArg Prod.fst h
  have htags : indices.map Index.tag = indices'.map Index.tag := congrArg Prod.snd h
  cases List.inj_on_of_nodup_map hnames ht ht' hkind
  exact t.toLambda_congr kind model.ranges htags

namespace LambdaCache

/-- All records are function values of the model; no two of them have one identity, and their names
were made in this generation and are different. -/
structure OfModel (model : Model) (generation : Nat) (c : LambdaCache) : Prop where
  atomic : ∀ r ∈ c.atomic, r.lambda.isAtomic = true
  mapped : ∀ r ∈ c.mapped, r.lambda.isAtomic = false
  lambda : ∀ r ∈ c.records, r.lambda.OfModel model
  name : ∀ r ∈ c.records, ∃ n < c.names.count, r.name = nameOf c.names.kernel generation n
  names_nodup : (c.records.map (·.name)).Nodup
  identities_nodup : (c.records.map (·.lambda.identity)).Nodup

variable {model : Model} {generation : Nat} {c : LambdaCache}

theorem ofModel_of_records (h : c.records = []) : c.OfModel model generation := by
  obtain ⟨hatomic, hmapped⟩ := List.append_eq_nil_iff.1 h
  constructor <;> simp [h, hatomic, hmapped]

theorem OfModel.eq_of_name (hc : c.OfModel model generation) {r r' : LambdaRecord}
    (hr : r ∈ c.records) (hr' : r' ∈ c.records) (h : r.name = r'.name) : r = r' :=
  List.inj_on_of_nodup_map hc.names_nodup hr hr' h

/-- A record that is looked for by its function value is found. -/
theorem OfModel.find?_isSome (hc : c.OfModel model generation) {r : LambdaRecord}
    (hr : r ∈ c.records) : (c.find? r.lambda).isSome := by
  rw [find?, List.find?_isSome]
  refine ⟨r, ?_, Lambda.sameIdentity_iff.2 rfl⟩
  -- each record stands in the list of its shape, which is the one that is searched
  rcases List.mem_append.1 hr with hr | hr
  · rwa [hc.atomic r hr]
  · rwa [hc.mapped r hr]

section Enter

variable (hc : c.OfModel model generation) (hnames : model.tensors.names.Nodup) {l : Lambda}
  (hl : l.OfModel model)

include hc hnames hl

/-- What is found is the function value that was asked for. -/
theorem OfModel.lambda_of_find? {r : LambdaRecord} (h : c.find? l = some r) : r.lambda = l := by
  have hmem := mem_records_of_find? h
  rw [find?] at h
  have hsame := List.find?_some h
  exact (hc.lambda r hmem).eq_of_identity hnames hl (Lambda.sameIdentity_iff.1 hsame)

theorem OfModel.identity_ne (h : c.find? l = none) {r : LambdaRecord} (hr : r ∈ c.records) :
    r.lambda.identity ≠ l.identity := by
  intro hidentity
  have hsome := hc.find?_isSome hr
  rw [(hc.lambda r hr).eq_of_identity hnames hl hidentity, h] at hsome
  cases hsome

/-- A function value that is not there goes in under the next name. -/
theorem OfModel.push (h : c.find? l = none) :
    let r : LambdaRecord := ⟨nameOf c.names.kernel generation c.names.count, l⟩
    ({ c with names := { c.names with count := c.names.count + 1 },
              misses := c.misses + 1 }.push r).OfModel model generation := by
  intro r
  set d : LambdaCache :=
    { c with names := { c.names with count := c.names.count + 1 }, misses := c.misses + 1 }
  obtain ⟨-, hframe⟩ := d.push_frame r
  refine ⟨?_, ?_, ?_, ?_, ?_, ?_⟩
  · intro r' hr'
    unfold LambdaCache.push at hr'
    split at hr'
    · rename_i hatomic
      rcases List.mem_append.1 hr' with hr' | hr'
      · exact hc.atomic r' hr'
      · rwa [List.mem_singleton.1 hr']
    · exact hc.atomic r' hr'
  · intro r' hr'
    unfold LambdaCache.push at hr'
    split at hr'
    · exact hc.mapped r' hr'
    · rename_i hmapped
      rcases List.mem_append.1 hr' with hr' | hr'
      · exact hc.mapped r' hr'
      · rw [List.mem_singleton.1 hr']
        exact Bool.not_eq_true _ ▸ hmapped
  · intro r' hr'
    rcases mem_records_push.1 hr' with hr' | rfl
    · exact hc.lambda r' hr'
    · exact hl
  · intro r' hr'
    rw [hframe]
    rcases mem_records_push.1 hr' with hr' | rfl
    · obtain ⟨n, hn, hname⟩ := hc.name r' hr'
      exact ⟨n, Nat.lt_succ_of_lt hn, hname⟩
    · exact ⟨c.names.count, Nat.lt_succ_self _, rfl⟩
  · refine nodup_map_push hc.names_nodup fun r' hr' hname => ?_
    obtain ⟨n, hn, hmade⟩ := hc.name r' hr'
    rw [hmade] at hname
    exact absurd (nameOf_inj hname).2.2 hn.ne
  · exact nodup_map_push hc.identities_nodup fun r' hr' => hc.identity_ne hnames hl h hr'

/-- A call goes to the function value that is asked for. It was there, or it has a new name. -/
theorem OfModel.enter :
    (c.enter generation l).2.OfModel model generation ∧
      (c.enter generation l).1.lambda = l ∧
      (∀ r, r ∈ (c.enter generation l).2.records ↔
        r ∈ c.records ∨ r = (c.enter generation l).1) := by
  unfold LambdaCache.enter
  cases h : c.find? l with
  | some r =>
      refine ⟨⟨hc.atomic, hc.mapped, hc.lambda, hc.name, hc.names_nodup, hc.identities_nodup⟩,
        hc.lambda_of_find? hnames hl h, fun r' => ⟨Or.inl, ?_⟩⟩
      rintro (hr' | rfl)
      · exact hr'
      · exact mem_records_of_find? h
  | none => exact ⟨hc.push hnames hl h, rfl, fun r' => mem_records_push⟩

end Enter

end LambdaCache

end TensorTemplate
