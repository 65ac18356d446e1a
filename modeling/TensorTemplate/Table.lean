/-!
Tables: values under names, in the order in which the names were first entered.
A value entered under a name that is already there takes the old value's place.
-/

namespace TensorTemplate

/-- Values under names, in order of entry. -/
structure Table (α : Type) where
  entries : List (String × α) := []

namespace Table

variable {α : Type}

instance : Inhabited (Table α) := ⟨{}⟩

/-- The entries with `value` under `name`, in the place of an earlier value of that name. -/
def enter (name : String) (value : α) : List (String × α) → List (String × α)
  | [] => [(name, value)]
  | entry :: rest =>
    if entry.1 = name then (name, value) :: rest else entry :: enter name value rest

/-- Enters `value` under `name`. -/
def insert (t : Table α) (name : String) (value : α) : Table α :=
  ⟨enter name value t.entries⟩

/-- The value under `name`. -/
def get? (t : Table α) (name : String) : Option α :=
  (t.entries.find? (fun entry => entry.1 = name)).map (·.2)

theorem mem_of_get? {t : Table α} {name : String} {value : α} (h : t.get? name = some value) :
    (name, value) ∈ t.entries := by
  obtain ⟨entry, hfind, rfl⟩ := Option.map_eq_some_iff.1 h
  have hname : entry.1 = name := by simpa using List.find?_some hfind
  exact hname ▸ List.mem_of_find?_eq_some hfind

/-- The names, in order of entry. -/
def names (t : Table α) : List String := t.entries.map (·.1)

/-- The number of names. -/
def size (t : Table α) : Nat := t.entries.length

def isEmpty (t : Table α) : Bool := t.entries.isEmpty

/-- Enters a list of values, the first one first. -/
def ofList (entries : List (String × α)) : Table α :=
  entries.foldl (fun t entry => t.insert entry.1 entry.2) {}

end Table

end TensorTemplate
