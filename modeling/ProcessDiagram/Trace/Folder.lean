import ProcessDiagram.Journal
import ProcessDiagram.Json.Parser
import ProcessDiagram.Sorting
import ProcessDiagram.Trace.Basic

/-!
Reading a trace from a folder. Every file named `*.json` directly in the folder is one
snapshot, in the order of their step indices; no two files may have the same index.
-/
namespace ProcessDiagram

inductive FileBody
  | text (content : String)
  | bytes (content : ByteArray)
  | folder

/-- Files and folders by their paths, as they were made. -/
structure FileTree where
  entries : List (List String × FileBody)

namespace FileTree

/-- A file that is made again is overwritten. -/
def make (path : List String) (body : FileBody) :
    List (List String × FileBody) → List (List String × FileBody)
  | [] => [(path, body)]
  | (p, b) :: rest => if p = path then (p, body) :: rest else (p, b) :: make path body rest

def ofList (files : List (String × FileBody)) : FileTree :=
  ⟨files.foldl (fun entries (path, body) => make (Trace.pathSteps path) body entries) []⟩

def isFolder (t : FileTree) (path : List String) : Bool :=
  path.isEmpty || t.entries.any fun (p, body) =>
    p == path && match body with
      | .folder => true
      | _ => false

/-- What stands directly in a folder, none when there is no such folder. -/
def listing? (t : FileTree) (path : List String) : Option (List (String × FileBody)) :=
  if t.isFolder path then
    some (t.entries.filterMap fun (p, body) =>
      match p.getLast? with
      | some name => if p.dropLast = path then some (name, body) else none
      | none => none)
  else none

end FileTree

namespace Trace

def isTraceFile (name : String) : Bool :=
  ".json".toList.isSuffixOf name.toList

def fileText (name : String) : FileBody → Except TraceError String
  | .text content => .ok content
  | .folder => .error (.fileIsFolder name)
  | .bytes content =>
    match String.fromUTF8? content with
    | some text => .ok text
    | none => .error (.fileIsNotText name)

def readSnapshot (name : String) (index : Nat) (body : FileBody) : Except TraceError Snapshot := do
  let text ← fileText name body
  match Json.parse? text with
  | some value => Snapshot.ofJson (stem name) index value
  | none => .error (.invalidJson name)

/-- Reads the files in the order of their indices; `seen` holds the indices read before. -/
def readAll (folder : String) (seen : List Nat) :
    List (Nat × String × FileBody) → Except TraceError (List Snapshot)
  | [] => .ok []
  | (index, name, body) :: rest =>
    if seen.contains index then .error (.duplicateIndex index folder)
    else do
      let snapshot ← readSnapshot name index body
      let others ← readAll folder (index :: seen) rest
      return snapshot :: others

/-- The trace in a folder, given as the folder's listing in any order. -/
def ofListing (folder : String) (files : List (String × FileBody)) :
    Except TraceError (List Snapshot) := do
  let indexed ← (files.filter fun (name, _) => isTraceFile name).mapM fun (name, body) => do
    return (← stepIndex name, name, body)
  readAll folder [] (Sorting.sort (fun a b => decide (a.1 ≤ b.1)) indexed)

def load (folder : String) (files : Option (List (String × FileBody))) :
    Logged (Except TraceError Trace) :=
  match files with
  | none => return .error (.folderNotFound folder)
  | some files =>
    match ofListing folder files with
    | .error e => return .error e
    | .ok snapshots => do
      Logged.note .info .trace
        ("[trace] Loaded " ++ toString snapshots.length ++ " snapshots from " ++ folder)
      return .ok ⟨snapshots⟩

end Trace
end ProcessDiagram
