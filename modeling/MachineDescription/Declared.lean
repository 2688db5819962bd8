namespace MachineDescription

/-- A definition and the serial number of its declaration. Register files and instruction formats
are shared by several definitions, and two declarations stay two even if their contents agree. -/
structure Declared (α : Type) where
  serial : Nat
  item : α

namespace Declared

variable {α : Type}

/-- One and the same declaration. -/
def isSame (d e : Declared α) : Bool :=
  d.serial == e.serial

end Declared

/-- A member and the label under which it was declared and is found. -/
structure Labelled (α : Type) where
  label : String
  item : α

namespace Labelled

variable {α : Type}

def find? (members : List (Labelled α)) (label : String) : Option (Labelled α) :=
  members.find? (·.label == label)

def labels (members : List (Labelled α)) : List String :=
  members.map (·.label)

theorem find?_eq_some {members : List (Labelled α)} {label : String} {m : Labelled α}
    (found : find? members label = some m) : m ∈ members ∧ m.label = label :=
  ⟨List.mem_of_find?_eq_some found, by simpa using List.find?_some found⟩

theorem find?_eq_none {members : List (Labelled α)} {label : String} :
    find? members label = none ↔ label ∉ labels members := by
  simp [find?, labels]

end Labelled

/-- All pairs of two elements of a list, the earlier one first. -/
def pairs {α : Type} : List α → List (α × α)
  | [] => []
  | a :: rest => rest.map (a, ·) ++ pairs rest

end MachineDescription
