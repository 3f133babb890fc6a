import ProcessDiagram.Diagram.Registry
import ProcessDiagram.Proofs.Diagram.Built

/-!
The tables against the diagram. The tables of a diagram hold just what it says, and an addition to
them does what the addition to the diagram does: the same answer, and afterwards the tables of what
has become of the diagram. A refused addition has written nothing.
-/
namespace ProcessDiagram

namespace Table

variable {α β : Type} {key : β → String} {g : β → α} {items : List β}

/-- The table of some items under their keys. -/
def keyed (key : β → String) (g : β → α) (items : List β) : Table α :=
  items.map fun x => (key x, g x)

theorem keyed_append (key : β → String) (g : β → α) (items more : List β) :
    keyed key g (items ++ more) = keyed key g items ++ keyed key g more :=
  List.map_append

theorem keyed_congr {g' : β → α} (same : ∀ x ∈ items, g x = g' x) :
    keyed key g items = keyed key g' items :=
  List.map_congr_left fun x hx => congrArg (Prod.mk (key x)) (same x hx)

theorem values_keyed (key : β → String) (g : β → α) (items : List β) :
    (keyed key g items).values = items.map g := by
  simp [keyed, values]

theorem lookup_keyed (key : β → String) (g : β → α) (items : List β) (k : String) :
    (keyed key g items).lookup k = (items.find? (key · == k)).map g := by
  induction items with
  | nil => rfl
  | cons x rest ih =>
      rw [keyed, List.map_cons, List.lookup_cons, List.find?_cons]
      by_cases here : key x = k
      · simp [here]
      · rw [beq_eq_false_iff_ne.mpr (Ne.symm here), beq_eq_false_iff_ne.mpr here]
        exact ih

theorem alter_keyed_of_not_mem {change : Option α → α} {k : String} (absent : k ∉ items.map key) :
    (keyed key g items).alter change k = keyed key g items ++ [(k, change none)] := by
  induction items with
  | nil => rfl
  | cons x rest ih =>
      rw [List.map_cons, List.mem_cons, not_or] at absent
      rw [keyed, List.map_cons, alter, if_neg (Ne.symm absent.1)]
      exact congrArg (List.cons _) (ih absent.2)

theorem alter_keyed_of_mem {change : Option α → α} (nodup : (items.map key).Nodup) {k : String}
    (present : k ∈ items.map key) :
    (keyed key g items).alter change k
      = keyed key (fun x => if key x = k then change (some (g x)) else g x) items := by
  induction items with
  | nil => cases present
  | cons x rest ih =>
      rw [List.map_cons, List.nodup_cons] at nodup
      rw [keyed, List.map_cons, alter, keyed, List.map_cons]
      by_cases here : key x = k
      · have others : ∀ y ∈ rest, g y = if key y = k then change (some (g y)) else g y := by
          intro y hy
          have other : key y ≠ k := by
            rintro same
            exact nodup.1 (here.trans same.symm ▸ List.mem_map_of_mem hy)
          rw [if_neg other]
        rw [if_pos here, if_pos here]
        exact congrArg (List.cons _) (keyed_congr others)
      · rw [if_neg here, if_neg here]
        have later := (List.mem_cons.mp present).resolve_left (Ne.symm here)
        exact congrArg (List.cons _) (ih nodup.2 later)

end Table

namespace Adjacency

open Table

/-- Flows in groups of one far end, the groups in the order of their first flows. -/
def bundles (far : Flow → String) (flows : List Flow) : Table (Table Flow) :=
  keyed (fun k => k) (fun k => keyed (·.id) (fun f => f) (flows.filter (far · == k)))
    (flows.map far).eraseDups

theorem values_bundles (far : Flow → String) (flows : List Flow) :
    (bundles far flows).values.flatMap Table.values = Diagram.grouped far flows := by
  rw [bundles, values_keyed, Diagram.grouped, List.flatMap_map]
  congr 1
  funext k
  rw [values_keyed, List.map_id']

/-- A flow that comes last goes to the end of its group, or opens one. -/
theorem alter_bundles {far : Flow → String} {flows : List Flow} {f : Flow}
    (fresh : f.id ∉ flows.map (·.id)) :
    (bundles far flows).alter (fun group : Option (Table Flow) => (group.getD []).put f.id f) (far f)
      = bundles far (flows ++ [f]) := by
  have grown (k : String) : (flows ++ [f]).filter (far · == k)
      = flows.filter (far · == k) ++ if far f = k then [f] else [] := by
    by_cases here : far f = k <;> simp [List.filter_append, here]
  have keys : ((flows ++ [f]).map far).eraseDups
      = (flows.map far).eraseDups ++ if far f ∈ flows.map far then [] else [far f] := by
    rw [List.map_append, List.eraseDups_append, List.removeAll, List.map_singleton]
    by_cases known : far f ∈ flows.map far
    · have dropped : [far f].filter (fun k => !(flows.map far).elem k) = [] := by
        simpa using known
      rw [dropped, if_pos known]
      rfl
    · have kept : [far f].filter (fun k => !(flows.map far).elem k) = [far f] := by
        simpa using known
      rw [kept, if_neg known]
      rfl
  have put (k : String) : (keyed (·.id) (fun f => f) (flows.filter (far · == k))).put f.id f
      = keyed (·.id) (fun f => f) (flows.filter (far · == k) ++ [f]) := by
    rw [keyed_append]
    refine alter_keyed_of_not_mem fun used => fresh ?_
    exact (List.filter_sublist.map _).subset used
  by_cases known : far f ∈ flows.map far
  · rw [bundles, alter_keyed_of_mem (by simpa using nodup_eraseDups _) (by simpa using known),
      bundles, keys, if_pos known, List.append_nil]
    refine keyed_congr fun k _ => ?_
    by_cases here : k = far f
    · rw [if_pos here, grown, if_pos here.symm, Option.getD_some, put]
    · rw [if_neg here, grown, if_neg (Ne.symm here), List.append_nil]
  · rw [bundles, alter_keyed_of_not_mem (by simpa using known), bundles, keys, if_neg known,
      keyed_append]
    congr 1
    · refine keyed_congr fun k hk => ?_
      have other : far f ≠ k := by
        rintro rfl
        exact known (List.mem_eraseDups.mp hk)
      rw [grown, if_neg other, List.append_nil]
    · have none : flows.filter (far · == far f) = [] := by
        rw [List.filter_eq_nil_iff]
        intro g hg same
        exact known (beq_iff_eq.mp same ▸ List.mem_map_of_mem hg)
      rw [keyed, List.map_singleton, grown, none, if_pos rfl]
      rfl

end Adjacency

namespace Diagram

open Table Adjacency

variable {d : Diagram}

/-- The elements that flows can end at. -/
def flowNodes (d : Diagram) : List Element :=
  d.nodes.filter (·.kind != .participant)

/-- The flows at every flow node, by their near ends and then by their far ends. -/
def adjacency (d : Diagram) (near far : Flow → String) : Adjacency :=
  keyed (·.id) (fun e => bundles far (d.flows.filter (near · == e.id))) d.flowNodes

/-- The tables that hold just what a diagram says. -/
def registry (d : Diagram) : Registry where
  root := d.root
  elements := keyed (·.id) (fun e => e) (d.root :: d.nodes)
  flows := keyed (·.id) (fun f => f) d.flows
  leaving := d.adjacency (·.source.id) (·.target.id)
  arriving := d.adjacency (·.target.id) (·.source.id)

theorem find?_registry (d : Diagram) (id : String) : d.registry.find? id = d.find? id := by
  rw [Registry.find?, registry, lookup_keyed, Option.map_id', List.find?_cons, Diagram.find?]
  by_cases here : d.root.id = id
  · simp [here]
  · rw [if_neg here, beq_eq_false_iff_ne.mpr here]

theorem flow?_registry (d : Diagram) (id : String) : d.registry.flow? id = d.flow? id := by
  rw [Registry.flow?, registry, lookup_keyed, Option.map_id']
  rfl

theorem find?_flowNodes (d : Diagram) (id : String) :
    d.flowNodes.find? (·.id == id) = (d.endpoint id).toOption := by
  have same : d.flowNodes.find? (·.id == id)
      = d.nodes.find? fun e => e.id == id && e.kind != .participant := by
    rw [flowNodes, List.find?_filter]
    congr 1
    funext e
    by_cases here : e.id = id <;> by_cases stray : e.kind = .participant <;> simp [here, stray]
  rw [same, endpoint]
  split
  next found => rw [found]; rfl
  next none => rw [none]; rfl

theorem flowNodes_ids_sublist (d : Diagram) :
    (d.flowNodes.map (·.id)).Sublist (d.nodes.map (·.id)) :=
  List.filter_sublist.map _

theorem Consistent.flowNodes_nodup (c : d.Consistent) : (d.flowNodes.map (·.id)).Nodup := by
  have ids := c.ids
  rw [List.map_cons, List.nodup_cons] at ids
  exact (flowNodes_ids_sublist d).nodup ids.2

/-- A new flow node comes last, and no flow ends at it. -/
theorem adjacency_append (near far : Flow → String) {e : Element}
    (unmet : ∀ f ∈ d.flows, near f ≠ e.id) :
    adjacency { d with nodes := d.nodes ++ [e] } near far
      = d.adjacency near far ++ if e.kind = .participant then [] else [(e.id, [])] := by
  have apart : d.flows.filter (near · == e.id) = [] := by
    simpa [List.filter_eq_nil_iff] using unmet
  rw [adjacency, flowNodes, List.filter_append, keyed_append]
  by_cases stray : e.kind = .participant
  · simp [stray, keyed, adjacency, flowNodes]
  · simp [stray, keyed, adjacency, flowNodes, apart, bundles]

theorem addVertex_adjacency (near far : Flow → String) {e : Element} (kind : e.kind ≠ .participant)
    (fresh : e.id ∉ d.nodes.map (·.id)) (unmet : ∀ f ∈ d.flows, near f ≠ e.id) :
    (d.adjacency near far).addVertex e.id
      = adjacency { d with nodes := d.nodes ++ [e] } near far := by
  rw [adjacency_append near far unmet, if_neg kind, addVertex, adjacency]
  exact alter_keyed_of_not_mem fun old => fresh ((flowNodes_ids_sublist d).subset old)

/-- A new flow goes to its near end, and there to its far end. -/
theorem link_adjacency (c : d.Consistent) (near far : Flow → String) {f : Flow}
    (fresh : f.id ∉ d.flows.map (·.id)) (vertex : near f ∈ d.flowNodes.map (·.id)) :
    (d.adjacency near far).link (near f) (far f) f
      = adjacency { d with flows := d.flows ++ [f] } near far := by
  rw [link, adjacency, alter_keyed_of_mem c.flowNodes_nodup vertex, adjacency]
  refine keyed_congr fun e _ => ?_
  dsimp only
  rw [List.filter_append]
  by_cases here : e.id = near f
  · have met : [f].filter (near · == e.id) = [f] := by simp [here]
    rw [if_pos here, met]
    refine alter_bundles fun used => fresh ?_
    exact (List.filter_sublist.map _).subset used
  · have unmet : [f].filter (near · == e.id) = [] := by simp [Ne.symm here]
    rw [if_neg here, unmet, List.append_nil]

end Diagram

namespace Registry

open Diagram Table Adjacency

variable {d : Diagram}

section Actions

variable {α β : Type} {r r' : Registry}

theorem on_pure (a : α) (r : Registry) : (pure a : Action α).on r = (.ok a, r) := rfl

theorem on_get_bind (next : Registry → Action α) (r : Registry) :
    (get >>= next : Action α).on r = (next r).on r := rfl

theorem on_modify_bind (change : Registry → Registry) (next : PUnit → Action α) (r : Registry) :
    (modify change >>= next : Action α).on r = (next ⟨⟩).on (change r) := rfl

theorem on_bind_of_ok {x : Action α} {next : α → Action β} {a : α} (done : x.on r = (.ok a, r')) :
    (x >>= next).on r = (next a).on r' := by
  rw [Action.on] at done
  rw [Action.on, ExceptT.run_bind, StateT.run_bind, done]
  rfl

theorem on_bind_of_error {x : Action α} {next : α → Action β} {failure : Failure}
    (failed : x.on r = (.error failure, r')) : (x >>= next).on r = (.error failure, r') := by
  rw [Action.on] at failed
  rw [Action.on, ExceptT.run_bind, StateT.run_bind, failed]
  rfl

end Actions

theorem empty_eq_map (id : String) (kind : ElementKind) (label : String) :
    Registry.empty id kind label = (Diagram.empty id kind label).map Diagram.registry := by
  rw [Registry.empty, Diagram.empty]
  split <;> rfl

theorem on_requireVertex (d : Diagram) (id : String) :
    (requireVertex id).on d.registry
      = (((d.endpoint id).map fun _ => ()).mapError .refused, d.registry) := by
  have known : (d.registry.leaving.lookup id).isSome = (d.endpoint id).toOption.isSome := by
    rw [registry, adjacency, lookup_keyed, find?_flowNodes, Option.isSome_map]
  rw [requireVertex, on_get_bind, known, endpoint]
  split <;> rfl

theorem lookup_elements (d : Diagram) (id : String) :
    d.registry.elements.lookup id = d.find? id :=
  find?_registry d id

theorem lookup_flows (d : Diagram) (id : String) : d.registry.flows.lookup id = d.flow? id :=
  flow?_registry d id

theorem on_element (c : d.Consistent) {id : String} {e : Element} (found : d.endpoint id = .ok e) :
    (element id).on d.registry = (.ok e, d.registry) := by
  obtain ⟨node, rfl, _⟩ := endpoint_eq_ok found
  rw [element, on_get_bind, lookup_elements, c.find?_node node]
  rfl

theorem on_writeElement (c : d.Consistent) {e : Element}
    (fresh : e.id ∉ (d.root :: d.nodes).map (·.id)) :
    (writeElement e).on d.registry = (.ok (), registry { d with nodes := d.nodes ++ [e] }) := by
  have unused : e.id ∉ d.nodes.map (·.id) := fun old => fresh (List.mem_cons_of_mem _ old)
  have elements : d.registry.elements.put e.id e
      = (registry { d with nodes := d.nodes ++ [e] }).elements := by
    rw [put, registry, alter_keyed_of_not_mem fresh, registry, ← List.cons_append, keyed_append]
    rfl
  have unleft : ∀ f ∈ d.flows, f.source.id ≠ e.id := fun f hf same =>
    unused (same ▸ List.mem_map_of_mem (c.source f hf))
  have unreached : ∀ f ∈ d.flows, f.target.id ≠ e.id := fun f hf same =>
    unused (same ▸ List.mem_map_of_mem (c.target f hf))
  have leaving := adjacency_append (·.source.id) (·.target.id) unleft
  have arriving := adjacency_append (·.target.id) (·.source.id) unreached
  have after : registry { d with nodes := d.nodes ++ [e] } = { d.registry with
      elements := (registry { d with nodes := d.nodes ++ [e] }).elements
      leaving := adjacency { d with nodes := d.nodes ++ [e] } (·.source.id) (·.target.id)
      arriving := adjacency { d with nodes := d.nodes ++ [e] } (·.target.id) (·.source.id) } := rfl
  rw [writeElement, on_modify_bind, elements, after]
  by_cases kind : e.kind = .participant
  · rw [if_pos kind, List.append_nil] at leaving arriving
    rw [if_pos kind, on_pure, leaving, arriving]
    rfl
  · have left := addVertex_adjacency (·.source.id) (·.target.id) kind unused unleft
    have reached := addVertex_adjacency (·.target.id) (·.source.id) kind unused unreached
    rw [if_neg kind, ← left, ← reached]
    rfl

theorem on_addNode (c : d.Consistent) (spec : NodeSpec) : (addNode spec).on d.registry =
    match d.addNode spec with
    | .ok r => (.ok r.2, r.1.registry)
    | .error error => (.error (.refused error), d.registry) := by
  rw [Diagram.addNode, addNode, on_get_bind, lookup_elements]
  by_cases taken : d.contains spec.id
  · rw [if_pos taken, if_pos (by exact taken)]
    rfl
  · rw [if_neg taken, if_neg (by exact taken)]
    have root : d.registry.root = d.root := rfl
    dsimp only
    rw [root]
    generalize (if spec.parent.isEmpty then d.root.id else spec.parent) = parent
    rw [lookup_elements]
    cases d.find? parent with
    | none => rfl
    | some container =>
        dsimp only
        by_cases stray : spec.kind = .participant ∧ container.kind ≠ .collaboration
        · rw [if_pos stray, if_pos stray]
          rfl
        · rw [if_neg stray, if_neg stray]
          have fresh : spec.id ∉ (d.root :: d.nodes).map (·.id) := by
            rw [← find?_eq_none_iff]
            simpa [Diagram.contains] using taken
          exact on_bind_of_ok (on_writeElement c fresh)

theorem on_writeFlow (c : d.Consistent) {f : Flow} (fresh : f.id ∉ d.flows.map (·.id))
    (source : f.source ∈ d.flowNodes) (target : f.target ∈ d.flowNodes) :
    (writeFlow f.source.id f.target.id f).on d.registry
      = (.ok (), registry { d with flows := d.flows ++ [f] }) := by
  have flows : d.registry.flows.put f.id f
      = (registry { d with flows := d.flows ++ [f] }).flows := by
    rw [put, registry, alter_keyed_of_not_mem fresh, registry, keyed_append]
    rfl
  have leaving := link_adjacency c (·.source.id) (·.target.id) fresh (List.mem_map_of_mem source)
  have arriving := link_adjacency c (·.target.id) (·.source.id) fresh (List.mem_map_of_mem target)
  have after : registry { d with flows := d.flows ++ [f] } = { d.registry with
      flows := (registry { d with flows := d.flows ++ [f] }).flows
      leaving := adjacency { d with flows := d.flows ++ [f] } (·.source.id) (·.target.id)
      arriving := adjacency { d with flows := d.flows ++ [f] } (·.target.id) (·.source.id) } := rfl
  rw [writeFlow, on_modify_bind, flows, after, ← leaving, ← arriving]
  rfl

theorem defaultFlowId_registry (d : Diagram) : d.registry.defaultFlowId = d.defaultFlowId := by
  have count : d.registry.flows.length = d.flows.length := List.length_map _
  rw [defaultFlowId, count]
  rfl

theorem on_addFlow (c : d.Consistent) (source target id : String) :
    (addFlow source target id).on d.registry =
      match d.addFlow source target id with
      | .ok r => (.ok r.2, r.1.registry)
      | .error error => (.error (.refused error), d.registry) := by
  have first := on_requireVertex d source
  have second := on_requireVertex d target
  rw [addFlow]
  cases hs : d.endpoint source with
  | error e =>
      rw [hs] at first
      rw [on_bind_of_error first, Diagram.addFlow, hs]
      rfl
  | ok s =>
      rw [hs] at first
      rw [on_bind_of_ok first]
      cases ht : d.endpoint target with
      | error e =>
          rw [ht] at second
          rw [on_bind_of_error second, Diagram.addFlow, hs, ht]
          rfl
      | ok t =>
          rw [ht] at second
          rw [on_bind_of_ok second, on_get_bind, addFlow_of_endpoints id hs ht,
            defaultFlowId_registry]
          change (if (d.registry.flows.lookup (d.flowIdFor id)).isSome then _ else _ :
            Action Flow).on d.registry = _
          rw [lookup_flows]
          by_cases taken : (d.flow? (d.flowIdFor id)).isSome
          · rw [if_pos taken, if_pos taken]
            rfl
          · obtain ⟨sourceNode, rfl, sourceKind⟩ := endpoint_eq_ok hs
            obtain ⟨targetNode, rfl, targetKind⟩ := endpoint_eq_ok ht
            rw [if_neg taken, if_neg taken]
            refine (on_bind_of_ok (on_element c hs)).trans ?_
            refine (on_bind_of_ok (on_element c ht)).trans ?_
            refine on_bind_of_ok (on_writeFlow (f := ⟨d.flowIdFor id, s, t⟩) c
              (mt isSome_flow?_iff.mpr taken) ?_ ?_)
            · simpa [flowNodes] using ⟨sourceNode, sourceKind⟩
            · simpa [flowNodes] using ⟨targetNode, targetKind⟩

theorem flowsAt_adjacency (near far : Flow → String)
    (placed : ∀ f ∈ d.flows, near f ∈ d.flowNodes.map (·.id)) (id : String) :
    (d.adjacency near far).flowsAt id = grouped far (d.flows.filter (near · == id)) := by
  rw [flowsAt, adjacency, lookup_keyed]
  cases found : d.flowNodes.find? (·.id == id) with
  | some e =>
      have same : e.id = id := by simpa using List.find?_some found
      rw [Option.map_some, Option.getD_some, values_bundles, same]
  | none =>
      have unmet : d.flows.filter (near · == id) = [] := by
        rw [List.filter_eq_nil_iff]
        intro f hf same
        obtain ⟨e, he, here⟩ := List.mem_map.mp (placed f hf)
        exact List.find?_eq_none.mp found e he (by rw [here]; exact same)
      rw [unmet]
      rfl

theorem outgoing_registry (built : d.Built) (e : Element) :
    d.registry.outgoing e = d.outgoing e := by
  refine flowsAt_adjacency _ _ (fun f hf => List.mem_map_of_mem ?_) e.id
  simpa [flowNodes] using ⟨built.consistent.source f hf, built.sourceKind f hf⟩

theorem incoming_registry (c : d.Consistent) (e : Element) :
    d.registry.incoming e = d.incoming e := by
  refine flowsAt_adjacency _ _ (fun f hf => List.mem_map_of_mem ?_) e.id
  simpa [flowNodes] using ⟨c.target f hf, c.targetKind f hf⟩

theorem nodes_registry (c : d.Consistent) : d.registry.nodes = d.nodes := by
  have below : ∀ e ∈ d.nodes, decide (e ≠ d.root) = true := by
    intro e he
    rw [decide_eq_true_eq]
    rintro rfl
    exact c.root_id_ne he rfl
  rw [nodes, registry, values_keyed, List.map_id', List.filter_cons_of_neg (by simp)]
  exact List.filter_eq_self.mpr below

theorem nodeCount_registry (d : Diagram) : d.registry.nodeCount = d.nodes.length := by
  rw [nodeCount, registry, keyed, List.length_map]
  rfl

theorem children_registry (c : d.Consistent) (scope : Element) :
    d.registry.children scope = d.children scope := by
  rw [children, nodes_registry c]
  rfl

theorem diagram_registry (c : d.Consistent) : d.registry.diagram = d := by
  have flows : d.registry.flows.values = d.flows := by
    rw [registry, values_keyed, List.map_id']
  rw [diagram, nodes_registry c, flows]
  rfl

end Registry
end ProcessDiagram
