import ProcessDiagram.Diagram.Basic

/-!
The tables behind a diagram: its elements and its flows under their ids, and every flow a second and
a third time, with the flows that leave its source and with those that reach its target. An addition
checks first and writes afterwards; what it has written stays, also when it fails later on.
-/
namespace ProcessDiagram

/-- Values under keys, in the order in which the keys were first put. -/
abbrev Table (α : Type) := List (String × α)

namespace Table

variable {α : Type}

/-- The value of the key is replaced in place, or the key is added at the end. -/
def alter (change : Option α → α) (key : String) : Table α → Table α
  | [] => [(key, change none)]
  | (k, a) :: rest =>
    if k = key then (k, change (some a)) :: rest else (k, a) :: alter change key rest

def put (key : String) (a : α) (t : Table α) : Table α :=
  t.alter (fun _ => a) key

def values (t : Table α) : List α :=
  t.map (·.2)

end Table

/-- The edges of a directed multigraph as it keeps them: a dictionary from each node to the
dictionary of its neighbours on one side, and for each of these the dictionary of the edges between
the two by their keys. All three keep the order in which their keys were first put. -/
abbrev Adjacency := Table (Table (Table Flow))

namespace Adjacency

/-- Adds a node without neighbours; one that is there already stays as it is. -/
def addVertex (a : Adjacency) (id : String) : Adjacency :=
  a.alter (·.getD []) id

/-- Puts a flow between the near end and the far end. -/
def link (a : Adjacency) (near far : String) (f : Flow) : Adjacency :=
  a.alter (fun ends => (ends.getD []).alter (fun flows => (flows.getD []).put f.id f) far) near

/-- The flows at a flow node, as the graph lists its edges: one neighbour after the other. -/
def flowsAt (a : Adjacency) (id : String) : List Flow :=
  ((a.lookup id).getD []).values.flatMap Table.values

end Adjacency

structure Registry where
  root : Element
  elements : Table Element
  flows : Table Flow
  leaving : Adjacency
  arriving : Adjacency
  deriving DecidableEq

namespace Registry

/-- An addition is refused, or an element that it needs is missing from its table. -/
inductive Failure
  | refused (error : DiagramError)
  | adrift (id : String)
  deriving DecidableEq

abbrev Action (α : Type) := ExceptT Failure (StateM Registry) α

variable {α : Type}

/-- What comes of an action, and the tables afterwards. -/
def Action.on (x : Action α) (r : Registry) : Except Failure α × Registry :=
  x.run.run r

def refuse (error : DiagramError) : Action α :=
  throw (.refused error)

def empty (id : String) (kind : ElementKind) (label : String) : Except DiagramError Registry :=
  if kind = .process ∨ kind = .collaboration then
    let root : Element := ⟨id, kind, label, none, .zero⟩
    .ok ⟨root, [(id, root)], [], [], []⟩
  else .error (.rootKind kind)

/-- A participant gets no place among the flow nodes. -/
def writeElement (e : Element) : Action Unit := do
  modify fun r => { r with elements := r.elements.put e.id e }
  if e.kind = .participant then return
  else modify fun r => { r with
    leaving := r.leaving.addVertex e.id
    arriving := r.arriving.addVertex e.id }

def addNode (spec : Diagram.NodeSpec) : Action Element := do
  let r ← get
  if (r.elements.lookup spec.id).isSome then refuse (.duplicateElement spec.id)
  else
    let parent := if spec.parent.isEmpty then r.root.id else spec.parent
    match r.elements.lookup parent with
    | none => refuse (.unknownParent parent spec.id)
    | some container =>
      if spec.kind = .participant ∧ container.kind ≠ .collaboration then
        refuse (.strayParticipant spec.id)
      else
        let node : Element := ⟨spec.id, spec.kind, spec.label, some parent, spec.x⟩
        writeElement node
        return node

/-- The id of a flow that is given none: it counts the flows, whatever their ids are. -/
def defaultFlowId (r : Registry) : String :=
  "Flow_" ++ toString (r.flows.length + 1)

def requireVertex (id : String) : Action Unit := do
  if ((← get).leaving.lookup id).isSome then return else refuse (.notFlowNode id)

def element (id : String) : Action Element := do
  match (← get).elements.lookup id with
  | some e => return e
  | none => throw (.adrift id)

def writeFlow (source target : String) (f : Flow) : Action Unit := do
  modify fun r => { r with flows := r.flows.put f.id f }
  modify fun r => { r with
    leaving := r.leaving.link source target f
    arriving := r.arriving.link target source f }

def addFlow (source target id : String) : Action Flow := do
  requireVertex source
  requireVertex target
  let r ← get
  let id := if id.isEmpty then r.defaultFlowId else id
  if (r.flows.lookup id).isSome then refuse (.duplicateFlow id)
  else
    let flow : Flow := ⟨id, ← element source, ← element target⟩
    writeFlow source target flow
    return flow

def find? (r : Registry) (id : String) : Option Element :=
  r.elements.lookup id

def flow? (r : Registry) (id : String) : Option Flow :=
  r.flows.lookup id

def contains (r : Registry) (id : String) : Bool :=
  (r.find? id).isSome

/-- All elements but the root. -/
def nodes (r : Registry) : List Element :=
  r.elements.values.filter (· ≠ r.root)

def nodeCount (r : Registry) : Nat :=
  r.elements.length - 1

def children (r : Registry) (scope : Element) : List Element :=
  r.nodes.filter (·.parent == some scope.id)

def outgoing (r : Registry) (e : Element) : List Flow :=
  r.leaving.flowsAt e.id

def incoming (r : Registry) (e : Element) : List Flow :=
  r.arriving.flowsAt e.id

/-- What the tables say, without the places of the flows. -/
def diagram (r : Registry) : Diagram :=
  ⟨r.root, r.nodes, r.flows.values⟩

/-- What is asked of a diagram under construction. -/
inductive Addition
  | node (spec : Diagram.NodeSpec)
  | flow (source target id : String)

inductive Added
  | node (e : Element)
  | flow (f : Flow)
  deriving DecidableEq

def add : Addition → Action Added
  | .node spec => .node <$> addNode spec
  | .flow source target id => .flow <$> addFlow source target id

end Registry
end ProcessDiagram
