import Mathlib.Data.List.Chain
import Mathlib.Data.List.Perm.Subperm
import Mathlib.Logic.Relation
import TensorTemplate.Proofs.Expansion.Checking

/-!
Templates that lead to templates.

A template leads to those that its body imports or embeds. If none leads back to
itself, a way from template to template names every one of them at most once, so no way
is longer than there are templates.
-/

namespace TensorTemplate

namespace Segment

/-- The calls on the line, if it can be read. -/
def callsOn (line : String) : List Directive :=
  match scan line with
  | .ok segments => calls segments
  | .error _ => []

theorem mem_callsOn {line : String} {d : Directive} :
    d ∈ callsOn line ↔ ∃ segments, scan line = .ok segments ∧ .directive d ∈ segments := by
  unfold callsOn
  cases scan line <;> simp [mem_calls]

end Segment

namespace Table

variable {texts : Table String} {template inner : String}

/-- The calls on the lines of the template's body. -/
def calls (texts : Table String) (template : String) : List Directive :=
  match texts.get? template with
  | some text =>
    match Header.split template text with
    | .ok (_, body) => (Text.lines body).flatMap Segment.callsOn
    | .error _ => []
  | none => []

theorem calls_eq {text body : String} {header : Header} (htext : texts.get? template = some text)
    (hsplit : Header.split template text = .ok (header, body)) :
    texts.calls template = (Text.lines body).flatMap Segment.callsOn := by
  simp only [calls, htext, hsplit]

/-- The first template imports or embeds the second. -/
def Imports (texts : Table String) (template inner : String) : Prop :=
  ∃ d ∈ texts.calls template, (d.name = "IMPORT" ∨ d.name = "EMBED_STRING") ∧ d.args = [inner]

/-- At most this many templates are being expanded at a time when the template is expanded. -/
def Shallow (texts : Table String) : Nat → String → Prop
  | 0, template => texts.get? template = none
  | height + 1, template => ∀ inner, texts.Imports template inner → Shallow texts height inner

theorem mem_names_of_get? {text : String} (h : texts.get? template = some text) :
    template ∈ texts.names := List.mem_map_of_mem (mem_of_get? h)

/-- Only a template that is there has calls. -/
theorem mem_names_of_mem_calls {d : Directive} (hd : d ∈ texts.calls template) :
    template ∈ texts.names := by
  cases htext : texts.get? template with
  | none =>
      rw [calls, htext] at hd
      cases hd
  | some text => exact mem_names_of_get? htext

theorem Imports.mem_names (h : texts.Imports template inner) : template ∈ texts.names := by
  obtain ⟨d, hd, -⟩ := h
  exact mem_names_of_mem_calls hd

/-- A template that is not shallow is the first of a way that is too long. -/
theorem exists_chain_of_not_shallow {height : Nat} (h : ¬texts.Shallow height template) :
    ∃ way, way.length = height ∧ (template :: way).IsChain texts.Imports ∧
      ∀ name ∈ template :: way, name ∈ texts.names := by
  induction height generalizing template with
  | zero =>
      obtain ⟨text, hget⟩ := Option.ne_none_iff_exists'.1 h
      exact ⟨[], rfl, .singleton template, by simpa using mem_names_of_get? hget⟩
  | succ height ih =>
      obtain ⟨inner, himports, hinner⟩ : ∃ inner, texts.Imports template inner ∧
          ¬texts.Shallow height inner := by simpa [Shallow] using h
      obtain ⟨way, hlength, hchain, hnames⟩ := ih hinner
      refine ⟨inner :: way, by simp [hlength], hchain.cons_cons himports, ?_⟩
      exact List.forall_mem_cons.2 ⟨himports.mem_names, hnames⟩

theorem nodup_of_isChain (hacyclic : ∀ name, ¬Relation.TransGen texts.Imports name name)
    {way : List String} (h : way.IsChain texts.Imports) : way.Nodup := by
  have hways : way.IsChain (Relation.TransGen texts.Imports) := h.imp fun _ _ => .single
  refine hways.pairwise.imp ?_
  rintro first second hway rfl
  exact hacyclic first hway

/-- If no template leads back to itself, no more are expanded at a time than there are. -/
theorem shallow_size (hacyclic : ∀ name, ¬Relation.TransGen texts.Imports name name)
    (template : String) : texts.Shallow texts.size template := by
  by_contra hdeep
  obtain ⟨way, hlength, hchain, hnames⟩ := exists_chain_of_not_shallow hdeep
  have hle := (List.subperm_of_subset (nodup_of_isChain hacyclic hchain) hnames).length_le
  have hsize : texts.names.length = texts.size := List.length_map _
  rw [hsize, List.length_cons, hlength] at hle
  omega

end Table

end TensorTemplate
