/-!
Numbers for ids. The first id gets 1 and every new id the next number; a number is never
given away again.
-/
namespace ProcessDiagram

/-- The numbered ids, the one with number 1 first. -/
structure Numbering where
  ids : List String
  deriving DecidableEq

namespace Numbering

def empty : Numbering := ⟨[]⟩

def contains (n : Numbering) (id : String) : Bool :=
  n.ids.contains id

def size (n : Numbering) : Nat :=
  n.ids.length

def number (n : Numbering) (id : String) : Nat :=
  n.ids.idxOf id + 1

/-- The number of an id, and the numbering in which it has that number. -/
def intern (n : Numbering) (id : String) : Nat × Numbering :=
  if n.contains id then (n.number id, n) else (n.size + 1, ⟨n.ids ++ [id]⟩)

def internAll (n : Numbering) (ids : List String) : Numbering :=
  ids.foldl (fun n id => (n.intern id).2) n

/-- Every number with its id. -/
def toPairs (n : Numbering) : List (Nat × String) :=
  n.ids.mapIdx fun i id => (i + 1, id)

theorem intern_fst (n : Numbering) (id : String) :
    (n.intern id).1 = (n.intern id).2.number id := by
  by_cases h : id ∈ n.ids
  · simp [intern, contains, h]
  · simp [intern, contains, h, number, size, List.idxOf_append]

theorem contains_intern (n : Numbering) (id : String) : (n.intern id).2.contains id = true := by
  by_cases h : id ∈ n.ids <;> simp [intern, contains, h]

/-- An id keeps its number. -/
theorem number_intern {n : Numbering} {id : String} (h : n.contains id = true) (other : String) :
    (n.intern other).2.number id = n.number id := by
  have h : id ∈ n.ids := by simpa [contains] using h
  by_cases ho : other ∈ n.ids
  · simp [intern, contains, ho]
  · simp [intern, contains, ho, number, List.idxOf_append, h]

end Numbering
end ProcessDiagram
