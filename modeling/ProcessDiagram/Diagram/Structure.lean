import ProcessDiagram.Diagram.Join
import ProcessDiagram.Text.Quoted

/-!
What makes a diagram well structured: every process scope has one start event and one end
event, and every split closes at a join of its own. `StructuralError` says what is wrong.
-/
namespace ProcessDiagram

/-- A scope with its counts of start and end events, not both one. -/
structure ScopeViolation where
  scope : Element
  starts : Nat
  ends : Nat
  deriving DecidableEq

def ScopeViolation.message (v : ScopeViolation) : String :=
  let problems := (if v.starts = 1 then [] else [toString v.starts ++ " Start Events"])
    ++ (if v.ends = 1 then [] else [toString v.ends ++ " End Events"])
  "Scope '" ++ v.scope.name ++ "' has " ++ " and ".intercalate problems ++ " (must be 1)."

inductive StructuralError
  | scopes (violations : List ScopeViolation)
  | noParticipant (name : String)
  | startCount (name : String) (found : Nat)
  | revisited (id : String)
  | reopened (split : String)
  | joinNotFound (split : String)
  | ambiguousJoin (split : String) (candidates : List String)
  deriving DecidableEq

namespace StructuralError

def errors : StructuralError → List String
  | scopes violations => violations.map (·.message)
  | noParticipant name => ["Collaboration '" ++ name ++ "' has no participants."]
  | startCount name found =>
    ["Scope '" ++ name ++ "' must have exactly one Start Event (SESE constraint), found "
      ++ toString found ++ "."]
  | revisited id => ["Cycle without split detected at '" ++ id ++ "'"]
  | reopened split => ["Cycle through split '" ++ split ++ "'"]
  | joinNotFound split => ["Closing join not found for '" ++ split ++ "'"]
  | ambiguousJoin split candidates =>
    ["Ambiguous join for '" ++ split ++ "': candidates " ++ Text.quotedList candidates]

def message (e : StructuralError) : String :=
  "; ".intercalate e.errors

end StructuralError

namespace Diagram

def countKind (elements : List Element) (kind : ElementKind) : Nat :=
  elements.countP (·.kind == kind)

def scopeViolation? (d : Diagram) (scope : Element) : Option ScopeViolation :=
  let starts := countKind (d.children scope) .startEvent
  let ends := countKind (d.children scope) .endEvent
  if starts = 1 ∧ ends = 1 then none else some ⟨scope, starts, ends⟩

def scopeViolations (d : Diagram) : List ScopeViolation :=
  d.processScopes.filterMap d.scopeViolation?

/-- The violations, each of them reported. -/
def validate (d : Diagram) : Logged (List ScopeViolation) :=
  let violations := d.scopeViolations
  ⟨violations, violations.map fun v => ⟨.debug, .singleEntry, "[sese] " ++ v.message⟩⟩

def ensureValid (d : Diagram) : Logged (Except StructuralError Unit) := do
  let violations ← d.validate
  return if violations.isEmpty then .ok () else .error (.scopes violations)

/-- The join of a split, none when its branches never meet at a gateway. -/
def resolveJoin (d : Diagram) (split : Element) :
    Logged (Except StructuralError (Option Element)) :=
  let found := d.findJoin split
  ⟨match found with
    | .closesAt join => .ok (some join)
    | .noBranch | .noGateway => .ok none
    | .ambiguous candidates => .error (.ambiguousJoin split.id (candidates.map (·.id))),
    found.records split⟩

end Diagram
end ProcessDiagram
