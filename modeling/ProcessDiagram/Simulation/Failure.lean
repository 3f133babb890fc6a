import ProcessDiagram.Sorting
import ProcessDiagram.Text.Quoted

/-!
Why an operation on a simulation is refused or cannot be finished.
-/
namespace ProcessDiagram

inductive TriggerReason
  | scopeNotWaiting
  | subprocessNotRunning (container : String)
  | noToken
  | noStartEvent
  | subprocessNotReached
  | catchEventNotReached
  deriving DecidableEq

def TriggerReason.text : TriggerReason → String
  | scopeNotWaiting => "scope is not waiting"
  | subprocessNotRunning container => "subprocess '" ++ container ++ "' is not running"
  | noToken => "no token is waiting there"
  | noStartEvent => "diagram has no start event"
  | subprocessNotReached => "subprocess has not been reached"
  | catchEventNotReached => "no token has reached the catch event"

structure TriggerFailure where
  element : String
  reason : TriggerReason
  deriving DecidableEq

def TriggerFailure.message (f : TriggerFailure) : String :=
  "Cannot trigger '" ++ f.element ++ "': " ++ f.reason.text

/-- Elements that are asked for but not part of the diagram, sorted. -/
structure UnknownElements where
  ids : List String
  deriving DecidableEq

def UnknownElements.ofList (ids : List String) : UnknownElements :=
  ⟨Sorting.texts ids⟩

def UnknownElements.message (u : UnknownElements) : String :=
  "Unknown element ids in trace: " ++ Text.quotedList u.ids

/-- A join has no siblings to wait for when its scope has no parent, and the root is no
element of any scope. A bounded run may also end with its agenda unfinished. -/
inductive SimulationError
  | refused (failure : TriggerFailure)
  | unknown (elements : UnknownElements)
  | noContainer (element : String)
  | orphanJoin (element : String)
  | unfinished
  deriving DecidableEq

end ProcessDiagram
