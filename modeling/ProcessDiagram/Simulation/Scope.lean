import ProcessDiagram.Element

/-!
Scopes: the running instances of elements. Scopes are never removed, so the place of a scope
among them is its id for good; a finished one is marked as destroyed.
-/
namespace ProcessDiagram

inductive ScopeState
  | idle
  | entered
  | waiting
  | exited
  deriving DecidableEq

namespace ScopeState

def name : ScopeState → String
  | idle => "idle"
  | entered => "entered"
  | waiting => "waiting"
  | exited => "exited"

def ofName? (s : String) : Option ScopeState :=
  [idle, entered, waiting, exited].find? (·.name == s)

theorem ofName?_name (s : ScopeState) : ofName? s.name = some s := by
  cases s <;> decide

end ScopeState

abbrev ScopeId := Nat

/-- A pending scope holds a token until it is signalled. -/
structure Scope where
  element : Element
  parent : Option ScopeId
  state : ScopeState
  destroyed : Bool
  pending : Bool
  deriving DecidableEq

namespace Scope

def isWaiting (s : Scope) : Bool :=
  s.state == .waiting && s.pending

def enter (e : Element) (parent : Option ScopeId) : Scope :=
  ⟨e, parent, .entered, false, false⟩

def destroy (s : Scope) : Scope :=
  { s with destroyed := true, pending := false, state := .exited }

end Scope

abbrev Scopes := List Scope

namespace Scopes

/-- Every scope with its id. -/
def indexed (scopes : Scopes) : List (ScopeId × Scope) :=
  scopes.zipIdx.map fun (s, i) => (i, s)

/-- The ids of the scopes of a kind, in the order in which they were made. -/
def idsWhere (scopes : Scopes) (p : Scope → Bool) : List ScopeId :=
  (scopes.indexed.filter fun (_, s) => p s).map (·.1)

def children (scopes : Scopes) (parent : ScopeId) : List ScopeId :=
  scopes.idsWhere (·.parent == some parent)

def liveChildren (scopes : Scopes) (parent : ScopeId) : List ScopeId :=
  scopes.idsWhere fun s => !s.destroyed && s.parent == some parent

def roots (scopes : Scopes) : List ScopeId :=
  scopes.idsWhere (·.parent.isNone)

def live (scopes : Scopes) : List ScopeId :=
  scopes.idsWhere (!·.destroyed)

/-- The live scopes of an element. -/
def ofElement (scopes : Scopes) (id : String) : List ScopeId :=
  scopes.idsWhere fun s => !s.destroyed && s.element.id == id

def ofElementIn (scopes : Scopes) (id : String) (state : ScopeState) : List ScopeId :=
  scopes.idsWhere fun s => !s.destroyed && s.element.id == id && s.state == state

theorem mem_idsWhere {scopes : Scopes} {p : Scope → Bool} {i : ScopeId} :
    i ∈ scopes.idsWhere p ↔ ∃ s, scopes[i]? = some s ∧ p s = true := by
  simp only [idsWhere, indexed, List.mem_map, List.mem_filter, Prod.exists, Prod.mk.injEq]
  constructor
  · rintro ⟨j, s, ⟨⟨t, k, ht, rfl, rfl⟩, hp⟩, rfl⟩
    exact ⟨t, List.mem_zipIdx_iff_getElem?.1 ht, hp⟩
  · rintro ⟨s, hs, hp⟩
    exact ⟨i, s, ⟨⟨s, i, List.mem_zipIdx_iff_getElem?.2 hs, rfl, rfl⟩, hp⟩, rfl⟩

end Scopes
end ProcessDiagram
