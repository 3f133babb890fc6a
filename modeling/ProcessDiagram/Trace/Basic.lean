import ProcessDiagram.Json.Check
import ProcessDiagram.Sorting
import ProcessDiagram.Text.Quoted
import ProcessDiagram.Trace.StepIndex

/-!
Target traces: snapshots of the status that elements are expected to have, in the order of
time. An element that a snapshot does not list is absent from it.
-/
namespace ProcessDiagram

inductive Status
  | absent
  | active
  | completed
  deriving DecidableEq

namespace Status

def name : Status → String
  | absent => "absent"
  | active => "active"
  | completed => "completed"

def ofName? (s : String) : Option Status :=
  [absent, active, completed].find? (·.name == s)

def ofJson : Json → Checked Status
  | .str s =>
    match ofName? s with
    | some status => .ok status
    | none => .fail .unknownStatus
  | _ => .fail .unknownStatus

theorem ofName?_name (s : Status) : ofName? s.name = some s := by
  cases s <;> decide

end Status

/-- Why a trace cannot be read. -/
inductive TraceError
  | notObject (snapshot type : String)
  | invalidStatus (snapshot : String) (issues : List Issue)
  | noStepIndex (file : String)
  | duplicateIndex (index : Nat) (folder : String)
  | folderNotFound (folder : String)
  | invalidJson (file : String)
  | fileIsFolder (file : String)
  | fileIsNotText (file : String)
  deriving DecidableEq

def TraceError.message : TraceError → String
  | notObject snapshot type =>
    "Snapshot '" ++ snapshot ++ "' must be a JSON object, got " ++ type
  | invalidStatus snapshot _ => "Snapshot '" ++ snapshot ++ "' has an invalid status"
  | noStepIndex file => "Trace file '" ++ file ++ "' has no trailing step index"
  | duplicateIndex index folder => "Duplicate step index " ++ toString index ++ " in " ++ folder
  | folderNotFound folder => "Trace directory not found: " ++ folder
  | invalidJson file => "Invalid JSON in " ++ file
  | fileIsFolder file => file ++ " is a directory"
  | fileIsNotText file => file ++ " is not UTF-8 text"

/-- The index of the step that a file belongs to. -/
def Trace.stepIndex (path : String) : Except TraceError Nat :=
  match Trace.stemIndex? (Trace.stem (Trace.fileName path)) with
  | some index => .ok index
  | none => .error (.noStepIndex (Trace.fileName path))

structure Snapshot where
  name : String
  index : Int
  states : List (String × Status)
  deriving DecidableEq

namespace Snapshot

def status (s : Snapshot) (id : String) : Status :=
  (s.states.lookup id).getD .absent

def isActive (s : Snapshot) (id : String) : Bool :=
  s.status id == .active

/-- What a value is called when an object was expected. -/
def typeName : Json → String
  | .null => "NoneType"
  | .bool _ => "bool"
  | .int _ => "int"
  | .float _ => "float"
  | .str _ => "str"
  | .arr _ => "list"
  | .obj _ => "dict"

def statesOf : Json.Fields → Checked (List (String × Status))
  | [] => .ok []
  | (id, value) :: rest =>
    (Checked.both (Checked.under (.field id) (Status.ofJson value)) (statesOf rest)).map
      fun (status, others) => (id, status) :: others

def ofJson (name : String) (index : Int) : Json → Except TraceError Snapshot
  | .obj fields =>
    match Checked.under (.field "states") (statesOf fields) with
    | .ok states => .ok ⟨name, index, states⟩
    | .error issues => .error (.invalidStatus name issues)
  | other => .error (.notObject name (typeName other))

end Snapshot

structure Trace where
  snapshots : List Snapshot
  deriving DecidableEq

namespace Trace

def size (t : Trace) : Nat :=
  t.snapshots.length

/-- The ids that some snapshot lists, sorted. -/
def elementIds (t : Trace) : List String :=
  Sorting.texts (t.snapshots.flatMap fun s => s.states.map Prod.fst).eraseDups

/-- Snapshots named by their place, `t0` first. -/
def ofJsonList (items : List Json) : Except TraceError Trace := do
  let snapshots ← (items.zipIdx).mapM fun (item, i) => Snapshot.ofJson ("t" ++ toString i) i item
  return ⟨snapshots⟩

theorem mem_elementIds {t : Trace} {id : String} :
    id ∈ t.elementIds ↔ ∃ s ∈ t.snapshots, ∃ status, (id, status) ∈ s.states := by
  simp [elementIds]

end Trace
end ProcessDiagram
