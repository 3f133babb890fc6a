import ProcessDiagram.Binary64.Basic

/-!
Elements of a process diagram and the flows between them. A kind is read from its own name or
from a type name of the interchange format; an interchange name that stands for no kind gives
an unknown element.
-/
namespace ProcessDiagram

inductive ElementKind
  | task
  | exclusiveGateway
  | parallelGateway
  | startEvent
  | endEvent
  | subProcess
  | intermediateCatchEvent
  | process
  | participant
  | collaboration
  | unknown
  deriving DecidableEq

namespace ElementKind

def all : List ElementKind :=
  [task, exclusiveGateway, parallelGateway, startEvent, endEvent, subProcess,
    intermediateCatchEvent, process, participant, collaboration, unknown]

def name : ElementKind → String
  | task => "Task"
  | exclusiveGateway => "ExclusiveGateway"
  | parallelGateway => "ParallelGateway"
  | startEvent => "StartEvent"
  | endEvent => "EndEvent"
  | subProcess => "SubProcess"
  | intermediateCatchEvent => "IntermediateCatchEvent"
  | process => "Process"
  | participant => "Participant"
  | collaboration => "Collaboration"
  | unknown => "Unknown"

def ofName? (s : String) : Option ElementKind :=
  all.find? (·.name == s)

/-- The interchange format's names for a piece of work. -/
def taskTypes : List String :=
  ["Task", "UserTask", "ServiceTask", "ManualTask", "SendTask", "ReceiveTask", "ScriptTask",
    "BusinessRuleTask", "CallActivity"]

/-- The kind that an interchange type name stands for, given without its `bpmn:`. -/
def ofTypeName (s : String) : ElementKind :=
  if taskTypes.contains s then task else (ofName? s).getD unknown

def read? (s : String) : Option ElementKind :=
  let mark := "bpmn:".toList
  if mark.isPrefixOf s.toList then some (ofTypeName (String.ofList (s.toList.drop mark.length)))
  else ofName? s

def isGateway (k : ElementKind) : Bool :=
  k == exclusiveGateway || k == parallelGateway

def isActivity (k : ElementKind) : Bool :=
  k == task || k == subProcess

theorem mem_all (k : ElementKind) : k ∈ all := by
  cases k <;> decide

theorem ofName?_name (k : ElementKind) : ofName? k.name = some k := by
  cases k <;> decide

end ElementKind

/-- An element with the id of the scope that contains it; only the root has none. Elements
lie on a line from left to right, at `x`. -/
structure Element where
  id : String
  kind : ElementKind
  label : String
  parent : Option String
  x : Binary64
  deriving DecidableEq

/-- The label where there is one. -/
def Element.name (e : Element) : String :=
  if e.label.isEmpty then e.id else e.label

structure Flow where
  id : String
  source : Element
  target : Element
  deriving DecidableEq

end ProcessDiagram
