import ProcessDiagram.Binary64.Basic

/-!
JSON values. Integers are unbounded and apart from binary64 numbers, and an object keeps its
fields in the order in which they first appeared.
-/
namespace ProcessDiagram

inductive Json
  | null
  | bool (value : Bool)
  | int (value : Int)
  | float (value : Binary64)
  | str (value : String)
  | arr (items : List Json)
  | obj (fields : List (String × Json))

namespace Json

abbrev Fields := List (String × Json)

mutual

/-- How many values are nested in each other. -/
def depth : Json → Nat
  | arr items => depthOfItems items + 1
  | obj fields => depthOfFields fields + 1
  | _ => 1

def depthOfItems : List Json → Nat
  | [] => 0
  | item :: rest => max item.depth (depthOfItems rest)

def depthOfFields : List (String × Json) → Nat
  | [] => 0
  | (_, value) :: rest => max value.depth (depthOfFields rest)

end

mutual

/-- Every number is finite, at every depth. -/
def Finite : Json → Prop
  | float x => x.isFinite = true
  | arr items => FiniteItems items
  | obj fields => FiniteFields fields
  | _ => True

def FiniteItems : List Json → Prop
  | [] => True
  | item :: rest => item.Finite ∧ FiniteItems rest

def FiniteFields : List (String × Json) → Prop
  | [] => True
  | (_, value) :: rest => value.Finite ∧ FiniteFields rest

end

/-- The field's value is replaced in place, or the field is added at the end. -/
def setField (name : String) (value : Json) : Fields → Fields
  | [] => [(name, value)]
  | (n, v) :: rest =>
    if n = name then (n, value) :: rest else (n, v) :: setField name value rest

/-- An empty, zero or absent value, which carries no state. -/
def isVoid : Json → Bool
  | null => true
  | bool b => !b
  | int n => n == 0
  | float x => x.isZero
  | str s => s.isEmpty
  | arr items => items.isEmpty
  | obj fields => fields.isEmpty

theorem lookup_setField (name : String) (value : Json) (fields : Fields) :
    (setField name value fields).lookup name = some value := by
  induction fields with
  | nil => simp [setField]
  | cons f rest ih =>
    obtain ⟨n, v⟩ := f
    by_cases h : n = name
    · simp [setField, h]
    · have : (name == n) = false := by simpa using fun e => h e.symm
      simp [setField, h, List.lookup_cons, this, ih]

theorem lookup_setField_of_ne {name other : String} (h : other ≠ name) (value : Json)
    (fields : Fields) : (setField name value fields).lookup other = fields.lookup other := by
  induction fields with
  | nil =>
    have : (other == name) = false := by simpa using h
    simp [setField, List.lookup_cons, this]
  | cons f rest ih =>
    obtain ⟨n, v⟩ := f
    by_cases hn : n = name
    · subst hn
      have : (other == n) = false := by simpa using h
      simp [setField, List.lookup_cons, this]
    · simp only [setField, hn, if_false, List.lookup_cons]
      cases other == n <;> simp [ih]

end Json
end ProcessDiagram
