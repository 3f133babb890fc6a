import ProcessDiagram.Json.Check

/-!
Requests to the stepping service: a region tree together with the execution state that the
previous answer gave. Decisions may be sent only along with a derived state.
-/
namespace ProcessDiagram

structure StepRequest where
  graph : Json.Fields
  derivedState : Json
  executionTrace : Json
  decisions : Json
  preview : Bool

namespace StepRequest

open Checked

def toJson (r : StepRequest) : Json :=
  .obj [("graph", .obj r.graph), ("derived_state", r.derivedState),
    ("execution_trace", r.executionTrace), ("decisions", r.decisions), ("preview", .bool r.preview)]

/-- How deep the values are nested that a request carries. -/
def depth (r : StepRequest) : Nat :=
  max (Json.depthOfFields r.graph)
    (max r.derivedState.depth (max r.executionTrace.depth r.decisions.depth))

/-- The decisions rule is looked at once all fields are sound. -/
def ofFields (fields : Json.Fields) : Checked StepRequest :=
  (both (Json.required "graph" Json.toFields fields)
    (Json.optional "preview" false Json.toBool fields)).bind fun (graph, preview) =>
      let state (name : String) := (fields.lookup name).getD .null
      match state "derived_state", state "decisions" with
      | .null, .null => .ok ⟨graph, .null, state "execution_trace", .null, preview⟩
      | .null, _ => fail .valueError
      | derived, decisions => .ok ⟨graph, derived, state "execution_trace", decisions, preview⟩

/-- A part of the previous answer, when it carries any state. -/
def carried (name : String) (prior : Json.Fields) : Json :=
  match prior.lookup name with
  | some value => if value.isVoid then .null else value
  | none => .null

/-- The request for a tree after the previous answer. Decisions are never carried over. -/
def build (graph : Json.Fields) (prior : Option Json.Fields) : StepRequest :=
  let prior := prior.getD []
  { graph
    derivedState := carried "derived_state" prior
    executionTrace := carried "execution_trace" prior
    decisions := .null
    preview := false }

end StepRequest

end ProcessDiagram
