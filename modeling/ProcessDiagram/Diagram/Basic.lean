import ProcessDiagram.Element

/-!
Process diagrams: a root, the elements nested below it and the flows between flow nodes. A
diagram grows by `addNode` and `addFlow`, which refuse what would make it inconsistent.
-/
namespace ProcessDiagram

inductive DiagramError
  | rootKind (kind : ElementKind)
  | duplicateElement (id : String)
  | unknownParent (parent id : String)
  | strayParticipant (id : String)
  | notFlowNode (id : String)
  | duplicateFlow (id : String)
  deriving DecidableEq

def DiagramError.message : DiagramError → String
  | rootKind kind => "Root element must be a Process or Collaboration, got " ++ kind.name
  | duplicateElement id => "Duplicate element id '" ++ id ++ "'"
  | unknownParent parent id => "Unknown parent '" ++ parent ++ "' for element '" ++ id ++ "'"
  | strayParticipant id => "Participant '" ++ id ++ "' must be placed in a Collaboration"
  | notFlowNode id => "Flow endpoint '" ++ id ++ "' is not a flow node"
  | duplicateFlow id => "Duplicate flow id '" ++ id ++ "'"

/-- The elements below the root and the flows, each in the order in which they were added. -/
structure Diagram where
  root : Element
  nodes : List Element
  flows : List Flow
  deriving DecidableEq

/-- Removing repetitions leaves none. -/
theorem nodup_eraseDups (ids : List String) : ids.eraseDups.Nodup := by
  induction left : ids.length using Nat.strongRecOn generalizing ids with
  | _ n ih =>
    cases ids with
    | nil => exact .nil
    | cons id rest =>
      rw [List.eraseDups_cons, List.nodup_cons, List.mem_eraseDups, List.mem_filter]
      refine ⟨fun inside => by simp at inside, ih _ ?_ _ rfl⟩
      have fewer := List.length_filter_le (fun other => !other == id) rest
      rw [List.length_cons] at left
      omega

namespace Diagram

def empty (id : String) (kind : ElementKind) (label : String) : Except DiagramError Diagram :=
  if kind = .process ∨ kind = .collaboration then
    .ok ⟨⟨id, kind, label, none, .zero⟩, [], []⟩
  else .error (.rootKind kind)

def find? (d : Diagram) (id : String) : Option Element :=
  if d.root.id = id then some d.root else d.nodes.find? (·.id == id)

def flow? (d : Diagram) (id : String) : Option Flow :=
  d.flows.find? (·.id == id)

def contains (d : Diagram) (id : String) : Bool :=
  (d.find? id).isSome

/-- Neither the root nor a participant can be the end of a flow. -/
def isFlowNode (d : Diagram) (id : String) : Bool :=
  d.nodes.any fun e => e.id == id && e.kind != .participant

/-- What is said of a new element; an empty parent stands for the root. -/
structure NodeSpec where
  id : String
  kind : ElementKind
  label : String
  parent : String
  x : Binary64

def addNode (d : Diagram) (spec : NodeSpec) : Except DiagramError (Diagram × Element) :=
  if d.contains spec.id then .error (.duplicateElement spec.id)
  else
    let parent := if spec.parent.isEmpty then d.root.id else spec.parent
    match d.find? parent with
    | none => .error (.unknownParent parent spec.id)
    | some container =>
      if spec.kind = .participant ∧ container.kind ≠ .collaboration then
        .error (.strayParticipant spec.id)
      else
        let node : Element := ⟨spec.id, spec.kind, spec.label, some parent, spec.x⟩
        .ok ({ d with nodes := d.nodes ++ [node] }, node)

/-- The id of a flow that is given none: it counts the flows, whatever their ids are. -/
def defaultFlowId (d : Diagram) : String :=
  "Flow_" ++ toString (d.flows.length + 1)

def endpoint (d : Diagram) (id : String) : Except DiagramError Element :=
  match d.nodes.find? (fun e => e.id == id && e.kind != .participant) with
  | some e => .ok e
  | none => .error (.notFlowNode id)

def addFlow (d : Diagram) (source target id : String) : Except DiagramError (Diagram × Flow) := do
  let source ← d.endpoint source
  let target ← d.endpoint target
  let id := if id.isEmpty then d.defaultFlowId else id
  if (d.flow? id).isSome then .error (.duplicateFlow id)
  else
    let flow : Flow := ⟨id, source, target⟩
    .ok ({ d with flows := d.flows ++ [flow] }, flow)

def children (d : Diagram) (scope : Element) : List Element :=
  d.nodes.filter (·.parent == some scope.id)

def startEvents (d : Diagram) (scope : Element) : List Element :=
  (d.children scope).filter (·.kind == .startEvent)

def participants (d : Diagram) : List Element :=
  d.nodes.filter (·.kind == .participant)

/-- The root process, or the participants of a collaboration. -/
def topScopes (d : Diagram) : List Element :=
  if d.root.kind = .process then [d.root] else d.participants

/-- The top scopes and then every subprocess. -/
def processScopes (d : Diagram) : List Element :=
  d.topScopes ++ d.nodes.filter (·.kind == .subProcess)

/-- Flows sorted into groups of one key, the groups in the order of their first flows. -/
def grouped (key : Flow → String) (flows : List Flow) : List Flow :=
  (flows.map key).eraseDups.flatMap fun k => flows.filter (key · == k)

/-- The flows out of an element, in the order of the edges of a directed multigraph that keeps them
in a dictionary by target and for each target in a dictionary by id, both in insertion order. So
flows that share a target stand together. -/
def outgoing (d : Diagram) (e : Element) : List Flow :=
  grouped (·.target.id) (d.flows.filter (·.source.id == e.id))

/-- The flows into an element, likewise with a dictionary by source. -/
def incoming (d : Diagram) (e : Element) : List Flow :=
  grouped (·.source.id) (d.flows.filter (·.target.id == e.id))

theorem id_of_find? {d : Diagram} {id : String} {e : Element} (h : d.find? id = some e) :
    e.id = id := by
  rw [find?] at h
  split at h
  next root => exact Option.some.inj h ▸ root
  next => simpa using List.find?_some h

theorem mem_grouped {key : Flow → String} {flows : List Flow} {f : Flow} :
    f ∈ grouped key flows ↔ f ∈ flows := by
  simp only [grouped, List.mem_flatMap, List.mem_eraseDups, List.mem_map, List.mem_filter]
  constructor
  · rintro ⟨_, _, h, _⟩
    exact h
  · exact fun h => ⟨key f, ⟨f, h, rfl⟩, h, by simp⟩

theorem grouped_cons (key : Flow → String) (f : Flow) (rest : List Flow) :
    grouped key (f :: rest)
      = (f :: rest).filter (key · == key f) ++ grouped key (rest.filter (key · != key f)) := by
  simp only [grouped, List.map_cons, List.eraseDups_cons, List.flatMap_cons, List.filter_map]
  refine congrArg _ ?_
  have others : ∀ k ∈ (((rest.filter (key · != key f)).map key).eraseDups),
      (f :: rest).filter (key · == k) = (rest.filter (key · != key f)).filter (key · == k) := by
    intro k hk
    simp only [List.mem_eraseDups, List.mem_map, List.mem_filter, bne_iff_ne] at hk
    obtain ⟨g, ⟨_, hg⟩, rfl⟩ := hk
    simp only [List.filter_cons, List.filter_filter, beq_eq_false_iff_ne.2 (Ne.symm hg),
      Bool.false_eq_true, if_false]
    refine List.filter_congr fun h _ => ?_
    by_cases e : key h = key g <;> simp_all
  exact congrArg List.flatten (List.map_congr_left others)

/-- Grouping loses no flow and repeats none. -/
theorem grouped_perm (key : Flow → String) (flows : List Flow) :
    (grouped key flows).Perm flows := by
  induction h : flows.length using Nat.strongRecOn generalizing flows with
  | _ n ih =>
    cases flows with
    | nil => exact .refl _
    | cons f rest =>
      rw [grouped_cons]
      have shorter : (rest.filter (key · != key f)).length < n := by
        have := List.length_filter_le (key · != key f) rest
        simp only [List.length_cons] at h
        omega
      have same : (f :: rest).filter (fun g => !(key g == key f))
          = rest.filter (key · != key f) := by
        simp [bne]
      refine ((ih _ shorter _ rfl).append_left _).trans ?_
      rw [← same]
      exact List.filter_append_perm _ _

theorem length_outgoing_le (d : Diagram) (e : Element) :
    (d.outgoing e).length ≤ d.flows.length := by
  rw [outgoing, (grouped_perm _ _).length_eq]
  exact List.length_filter_le ..

theorem mem_outgoing {d : Diagram} {e : Element} {f : Flow} :
    f ∈ d.outgoing e ↔ f ∈ d.flows ∧ f.source.id = e.id := by
  simp [outgoing, mem_grouped]

theorem mem_incoming {d : Diagram} {e : Element} {f : Flow} :
    f ∈ d.incoming e ↔ f ∈ d.flows ∧ f.target.id = e.id := by
  simp [incoming, mem_grouped]

end Diagram
end ProcessDiagram
