import ProcessDiagram.Diagram.Basic
import ProcessDiagram.Sorting
import ProcessDiagram.Trace.Basic

/-!
Triggers: what a replay does to get from one snapshot to the next. Start events are never
triggered, and subprocesses complete through what they contain.
-/
namespace ProcessDiagram

inductive TriggerAction
  | complete
  | activate
  deriving DecidableEq

def TriggerAction.name : TriggerAction → String
  | complete => "complete"
  | activate => "activate"

structure Trigger where
  element : Element
  action : TriggerAction
  deriving DecidableEq

namespace Trigger

/-- What a change of status asks for, by the kind of the element. -/
def action? (kind : ElementKind) (before after : Status) : Option TriggerAction :=
  match after with
  | .completed =>
    if before = .active ∧ kind ≠ .startEvent ∧ kind ≠ .subProcess then some .complete else none
  | .active =>
    if before ≠ .active ∧ (kind = .subProcess ∨ kind = .intermediateCatchEvent) then
      some .activate
    else none
  | .absent => none

/-- From left to right; elements at one place go by their ids. An element whose place is not a
number goes before no element elsewhere, and none of those goes before it. -/
def precedes (a b : Trigger) : Bool :=
  let (a, b) := (a.element, b.element)
  if a.x.same b.x then decide (a.id < b.id) else a.x.lt b.x

/-- A trigger may stay in front of those that do not go before it. -/
def before (a b : Trigger) : Bool :=
  !b.precedes a

/-- The triggers between two snapshots. -/
def between (d : Diagram) (before after : Snapshot) : List Trigger :=
  Sorting.sort Trigger.before <| after.states.filterMap fun (id, status) => do
    let e ← d.find? id
    let action ← action? e.kind (before.status id) status
    return ⟨e, action⟩

/-- The triggers of the step from a place of the trace to the next. -/
def ofStep (d : Diagram) (t : Trace) (i : Nat) : List Trigger :=
  match t.snapshots[i]?, t.snapshots[i + 1]? with
  | some before, some after => between d before after
  | _, _ => []

theorem mem_between {d : Diagram} {before after : Snapshot} {t : Trigger} :
    t ∈ between d before after ↔ ∃ id status, (id, status) ∈ after.states ∧
      d.find? id = some t.element ∧
        action? t.element.kind (before.status id) status = some t.action := by
  simp only [between, Sorting.mem_sort, List.mem_filterMap, Prod.exists]
  constructor
  · rintro ⟨id, status, h, ht⟩
    simp only [bind, Option.bind_eq_some_iff, pure, Option.some.injEq] at ht
    obtain ⟨e, he, action, ha, rfl⟩ := ht
    exact ⟨id, status, h, he, ha⟩
  · rintro ⟨id, status, h, he, ha⟩
    exact ⟨id, status, h, by simp [he, ha]⟩

end Trigger
end ProcessDiagram
