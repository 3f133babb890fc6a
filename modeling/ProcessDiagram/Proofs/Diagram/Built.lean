import ProcessDiagram.Diagram.Basic
import Mathlib.Data.List.Nodup

/-!
Diagrams that come out of the adapter: an empty diagram, grown by accepted elements and flows.
What the additions refuse makes such a diagram consistent, and the theory of walks and of runs
rests on these facts alone.
-/
namespace ProcessDiagram.Diagram

inductive Built : Diagram → Prop
  | empty {id : String} {kind : ElementKind} {label : String} {d : Diagram} :
      Diagram.empty id kind label = .ok d → Built d
  | addNode {d : Diagram} {spec : NodeSpec} {r : Diagram × Element} :
      Built d → d.addNode spec = .ok r → Built r.1
  | addFlow {d : Diagram} {source target id : String} {r : Diagram × Flow} :
      Built d → d.addFlow source target id = .ok r → Built r.1

/-- Ids are distinct and the ends of flows are elements of the diagram. -/
structure Consistent (d : Diagram) : Prop where
  rootKind : d.root.kind = .process ∨ d.root.kind = .collaboration
  rootParent : d.root.parent = none
  ids : ((d.root :: d.nodes).map (·.id)).Nodup
  source : ∀ f ∈ d.flows, f.source ∈ d.nodes
  target : ∀ f ∈ d.flows, f.target ∈ d.nodes
  targetKind : ∀ f ∈ d.flows, f.target.kind ≠ .participant
  flowIds : (d.flows.map (·.id)).Nodup

theorem find?_eq_none_iff (d : Diagram) (id : String) :
    d.find? id = none ↔ id ∉ (d.root :: d.nodes).map (·.id) := by
  simp only [find?, List.map_cons, List.mem_cons, List.mem_map, not_or]
  by_cases h : d.root.id = id
  · simp [h]
  · simp only [h, ite_false, List.find?_eq_none, beq_iff_eq, not_exists, not_and]
    exact ⟨fun hn => ⟨fun he => h he.symm, hn⟩, fun hn => hn.2⟩

theorem endpoint_eq_ok {d : Diagram} {id : String} {e : Element} (h : d.endpoint id = .ok e) :
    e ∈ d.nodes ∧ e.id = id ∧ e.kind ≠ .participant := by
  rw [endpoint] at h
  split at h
  next found =>
      cases h
      have named := List.find?_some found
      simp only [Bool.and_eq_true, beq_iff_eq, bne_iff_ne] at named
      exact ⟨List.mem_of_find?_eq_some found, named⟩
  next => cases h

theorem addNode_eq_ok {d : Diagram} {spec : NodeSpec} {r : Diagram × Element}
    (h : d.addNode spec = .ok r) :
    spec.id ∉ (d.root :: d.nodes).map (·.id) ∧ r.2.id = spec.id ∧
      r.1 = { d with nodes := d.nodes ++ [r.2] } := by
  rw [addNode] at h
  split at h
  · cases h
  next absent =>
      have fresh : d.find? spec.id = none := by simpa [contains] using absent
      simp only at h
      split at h
      · cases h
      · split at h
        · cases h
        · cases h
          exact ⟨(find?_eq_none_iff d spec.id).mp fresh, rfl, rfl⟩

theorem isSome_flow?_iff {d : Diagram} {id : String} :
    (d.flow? id).isSome ↔ id ∈ d.flows.map (·.id) := by
  rw [flow?, List.find?_isSome, List.mem_map]
  exact exists_congr fun f => and_congr_right fun _ => beq_iff_eq

/-- The id that a flow gets when it is added with the given one. -/
def flowIdFor (d : Diagram) (id : String) : String :=
  if id.isEmpty then d.defaultFlowId else id

theorem addFlow_of_endpoints {d : Diagram} {source target : String} (id : String) {s t : Element}
    (hs : d.endpoint source = .ok s) (ht : d.endpoint target = .ok t) :
    d.addFlow source target id =
      if (d.flow? (d.flowIdFor id)).isSome then .error (.duplicateFlow (d.flowIdFor id))
      else .ok ({ d with flows := d.flows ++ [⟨d.flowIdFor id, s, t⟩] }, ⟨d.flowIdFor id, s, t⟩) := by
  rw [addFlow, hs, ht]
  rfl

theorem endpoints_of_addFlow {d : Diagram} {source target id : String} {r : Diagram × Flow}
    (h : d.addFlow source target id = .ok r) :
    d.endpoint source = .ok r.2.source ∧ d.endpoint target = .ok r.2.target ∧
      r.2.id = d.flowIdFor id := by
  cases hs : d.endpoint source with
  | error e => simp [addFlow, hs, bind, Except.bind] at h
  | ok s =>
      cases ht : d.endpoint target with
      | error e => simp [addFlow, hs, ht, bind, Except.bind] at h
      | ok t =>
          rw [addFlow_of_endpoints id hs ht] at h
          split at h
          · cases h
          · cases h
            exact ⟨rfl, rfl, rfl⟩

theorem addFlow_eq_ok {d : Diagram} {source target id : String} {r : Diagram × Flow}
    (h : d.addFlow source target id = .ok r) :
    r.2.source ∈ d.nodes ∧ r.2.target ∈ d.nodes ∧ r.2.source.kind ≠ .participant ∧
      r.2.target.kind ≠ .participant ∧ r.2.id ∉ d.flows.map (·.id) ∧ r.1 = { d with flows := d.flows ++ [r.2] } := by
  obtain ⟨hs, ht, named⟩ := endpoints_of_addFlow h
  obtain ⟨source, _, sourceKind⟩ := endpoint_eq_ok hs
  obtain ⟨target, _, targetKind⟩ := endpoint_eq_ok ht
  rw [addFlow_of_endpoints id hs ht] at h
  split at h
  · cases h
  next free =>
      obtain ⟨grown, flow⟩ := Prod.ext_iff.mp (Except.ok.inj h)
      refine ⟨source, target, sourceKind, targetKind, ?_, flow ▸ grown.symm⟩
      rw [named]
      exact mt isSome_flow?_iff.mpr free

theorem empty_eq_ok {id : String} {kind : ElementKind} {label : String} {d : Diagram}
    (h : Diagram.empty id kind label = .ok d) :
    (kind = .process ∨ kind = .collaboration) ∧ d = ⟨⟨id, kind, label, none, .zero⟩, [], []⟩ := by
  rw [Diagram.empty] at h
  split at h
  next allowed => exact ⟨allowed, (Except.ok.inj h).symm⟩
  next => cases h

theorem consistent_empty {id : String} {kind : ElementKind} {label : String} {d : Diagram}
    (h : Diagram.empty id kind label = .ok d) : d.Consistent := by
  obtain ⟨allowed, rfl⟩ := empty_eq_ok h
  exact ⟨allowed, rfl, by simp, by simp, by simp, by simp, by simp⟩

theorem Consistent.addNode {d : Diagram} {spec : NodeSpec} {r : Diagram × Element}
    (c : d.Consistent) (h : d.addNode spec = .ok r) : r.1.Consistent := by
  obtain ⟨fresh, named, grown⟩ := addNode_eq_ok h
  rw [grown]
  refine ⟨c.rootKind, c.rootParent, ?_, ?_, ?_, c.targetKind, c.flowIds⟩
  · have split : (d.root :: (d.nodes ++ [r.2])).map (·.id)
        = (d.root :: d.nodes).map (·.id) ++ [spec.id] := by simp [named]
    rw [split, List.nodup_append]
    refine ⟨c.ids, by simp, ?_⟩
    intro a ha b hb same
    rw [List.mem_singleton] at hb
    exact fresh (hb ▸ same ▸ ha)
  · intro f hf
    exact List.mem_append_left _ (c.source f hf)
  · intro f hf
    exact List.mem_append_left _ (c.target f hf)

theorem Consistent.addFlow {d : Diagram} {source target id : String} {r : Diagram × Flow}
    (c : d.Consistent) (h : d.addFlow source target id = .ok r) : r.1.Consistent := by
  obtain ⟨hs, ht, _, kind, fresh, grown⟩ := addFlow_eq_ok h
  rw [grown]
  have either : ∀ f ∈ d.flows ++ [r.2], f ∈ d.flows ∨ f = r.2 := by
    intro f hf
    simpa using hf
  refine ⟨c.rootKind, c.rootParent, c.ids, ?_, ?_, ?_, ?_⟩
  · intro f hf
    rcases either f hf with old | rfl
    · exact c.source f old
    · exact hs
  · intro f hf
    rcases either f hf with old | rfl
    · exact c.target f old
    · exact ht
  · intro f hf
    rcases either f hf with old | rfl
    · exact c.targetKind f old
    · exact kind
  · rw [List.map_append, List.nodup_append]
    refine ⟨c.flowIds, by simp, ?_⟩
    intro a ha b hb same
    simp only [List.map_cons, List.map_nil, List.mem_singleton] at hb
    exact fresh (hb ▸ same ▸ ha)

theorem Built.consistent {d : Diagram} (h : d.Built) : d.Consistent := by
  induction h with
  | empty h => exact consistent_empty h
  | addNode _ h ih => exact ih.addNode h
  | addFlow _ h ih => exact ih.addFlow h

/-- A participant is no end of a flow, and no start of one. -/
theorem Built.sourceKind {d : Diagram} (h : d.Built) : ∀ f ∈ d.flows, f.source.kind ≠ .participant := by
  induction h with
  | empty h =>
      obtain ⟨_, rfl⟩ := empty_eq_ok h
      exact List.forall_mem_nil _
  | addNode _ h ih =>
      rw [(addNode_eq_ok h).2.2]
      exact ih
  | @addFlow d source target id r _ h ih =>
      obtain ⟨_, _, kind, _, _, grown⟩ := addFlow_eq_ok h
      intro f hf
      rw [grown, List.mem_append, List.mem_singleton] at hf
      cases hf with
      | inl old => exact ih f old
      | inr new => exact new ▸ kind

theorem find?_append {d : Diagram} {id : String} {e : Element} (found : d.find? id = some e) (n : Element) :
    Diagram.find? { d with nodes := d.nodes ++ [n] } id = some e := by
  rw [find?] at found ⊢
  split at found
  next root => rw [if_pos root, found]
  next other => rw [if_neg other, List.find?_append, found, Option.some_or]

theorem addNode_container {d : Diagram} {spec : NodeSpec} {r : Diagram × Element} (h : d.addNode spec = .ok r) :
    ∃ container, r.2.parent.bind d.find? = some container := by
  rw [addNode] at h
  split at h
  · cases h
  · simp only at h
    split at h
    · cases h
    next container found =>
        split at h
        · cases h
        · cases h
          exact ⟨container, found⟩

theorem Built.exists_container {d : Diagram} (h : d.Built) :
    ∀ e ∈ d.nodes, ∃ container, e.parent.bind d.find? = some container := by
  induction h with
  | empty h =>
      obtain ⟨_, rfl⟩ := empty_eq_ok h
      exact List.forall_mem_nil _
  | @addNode d spec r _ h ih =>
      rw [(addNode_eq_ok h).2.2, List.forall_mem_append, List.forall_mem_singleton]
      have wider {e : Element} (old : ∃ container, e.parent.bind d.find? = some container) :
          ∃ container, e.parent.bind (Diagram.find? { d with nodes := d.nodes ++ [r.2] })
            = some container := by
        obtain ⟨container, found⟩ := old
        obtain ⟨p, parent, found⟩ := Option.bind_eq_some_iff.mp found
        exact ⟨container, Option.bind_eq_some_iff.mpr ⟨p, parent, find?_append found r.2⟩⟩
      exact ⟨fun e he => wider (ih e he), wider (addNode_container h)⟩
  | addFlow _ h ih =>
      obtain ⟨_, _, _, _, _, grown⟩ := addFlow_eq_ok h
      rw [grown]
      exact ih

/-- Adds elements and then flows between them, each flow given by its two ends. -/
def grow (d : Diagram) (specs : List NodeSpec) (flows : List (String × String)) :
    Except DiagramError Diagram := do
  let d ← specs.foldlM (fun d spec => Prod.fst <$> d.addNode spec) d
  flows.foldlM (fun d ends => Prod.fst <$> d.addFlow ends.1 ends.2 "") d

theorem Built.foldlM {α : Type} {add : Diagram → α → Except DiagramError Diagram}
    (keeps : ∀ d a d', Built d → add d a = .ok d' → Built d') (items : List α) {d d' : Diagram}
    (h : Built d) (grown : items.foldlM add d = .ok d') : Built d' := by
  induction items generalizing d with
  | nil =>
      cases grown
      exact h
  | cons a rest ih =>
      rw [List.foldlM_cons] at grown
      cases added : add d a with
      | error e =>
          rw [added] at grown
          cases grown
      | ok next =>
          rw [added] at grown
          exact ih (keeps d a next h added) grown

theorem Built.grow {d d' : Diagram} {specs : List NodeSpec} {flows : List (String × String)}
    (h : Built d) (grown : d.grow specs flows = .ok d') : Built d' := by
  rw [Diagram.grow] at grown
  cases nodes : specs.foldlM (fun d spec => Prod.fst <$> d.addNode spec) d with
  | error e =>
      rw [nodes] at grown
      cases grown
  | ok middle =>
      rw [nodes] at grown
      have built : Built middle := by
        apply h.foldlM _ specs nodes
        intro d a d' h added
        cases result : d.addNode a with
        | error e =>
            rw [result] at added
            cases added
        | ok r =>
            rw [result] at added
            cases added
            exact .addNode h result
      apply built.foldlM _ flows grown
      intro d a d' h added
      cases result : d.addFlow a.1 a.2 "" with
      | error e =>
          rw [result] at added
          cases added
      | ok r =>
          rw [result] at added
          cases added
          exact .addFlow h result

/-- A diagram is built when it is what its own elements and flows grow its root to. -/
theorem built_of_grow {d : Diagram}
    (root : Diagram.empty d.root.id d.root.kind d.root.label = .ok ⟨d.root, [], []⟩)
    (grown : (⟨d.root, [], []⟩ : Diagram).grow
      (d.nodes.map fun e => ⟨e.id, e.kind, e.label, e.parent.getD "", e.x⟩)
      (d.flows.map fun f => (f.source.id, f.target.id)) = .ok d) : d.Built :=
  (Built.empty root).grow grown

namespace Consistent

variable {d : Diagram}

theorem eq_of_id (c : d.Consistent) {a b : Element} (ha : a ∈ d.nodes) (hb : b ∈ d.nodes)
    (same : a.id = b.id) : a = b := by
  have distinct : (d.nodes.map (·.id)).Nodup := by
    have h := c.ids
    rw [List.map_cons, List.nodup_cons] at h
    exact h.2
  exact List.inj_on_of_nodup_map distinct ha hb same

theorem eq_of_id_of_known (c : d.Consistent) {a b : Element} (ha : a ∈ d.root :: d.nodes)
    (hb : b ∈ d.root :: d.nodes) (same : a.id = b.id) : a = b :=
  List.inj_on_of_nodup_map c.ids ha hb same

theorem nodes_nodup (c : d.Consistent) : d.nodes.Nodup := by
  have h := c.ids
  rw [List.map_cons, List.nodup_cons] at h
  exact List.Nodup.of_map _ h.2

theorem flows_nodup (c : d.Consistent) : d.flows.Nodup :=
  List.Nodup.of_map _ c.flowIds

theorem find?_root (d : Diagram) : d.find? d.root.id = some d.root := by
  simp [Diagram.find?]

theorem root_id_ne (c : d.Consistent) {e : Element} (h : e ∈ d.nodes) : d.root.id ≠ e.id := by
  have ids := c.ids
  rw [List.map_cons, List.nodup_cons] at ids
  intro same
  exact ids.1 (same ▸ List.mem_map_of_mem h)

theorem find?_node (c : d.Consistent) {e : Element} (h : e ∈ d.nodes) :
    d.find? e.id = some e := by
  rw [Diagram.find?, if_neg (c.root_id_ne h)]
  cases found : d.nodes.find? (·.id == e.id) with
  | none =>
      rw [List.find?_eq_none] at found
      exact absurd (by simp) (found e h)
  | some other =>
      have same : other.id = e.id := by simpa using List.find?_some found
      rw [c.eq_of_id (List.mem_of_find?_eq_some found) h same]

theorem endpoint_of_mem (c : d.Consistent) {e : Element} (h : e ∈ d.nodes)
    (kind : e.kind ≠ .participant) : d.endpoint e.id = .ok e := by
  rw [endpoint]
  split
  next found =>
      have here := List.find?_some found
      simp only [Bool.and_eq_true, beq_iff_eq] at here
      rw [c.eq_of_id (List.mem_of_find?_eq_some found) h here.1]
  next none =>
      rw [List.find?_eq_none] at none
      exact absurd (by simpa using kind) (none e h)

theorem of_find? {id : String} {e : Element} (h : d.find? id = some e) :
    e = d.root ∨ e ∈ d.nodes := by
  rw [Diagram.find?] at h
  split at h
  · exact .inl (Option.some.inj h).symm
  · exact .inr (List.mem_of_find?_eq_some h)

theorem mem_of_find? (c : d.Consistent) {id : String} {e : Element} (found : d.find? id = some e)
    (kind : e.kind ≠ .process ∧ e.kind ≠ .collaboration) : e ∈ d.nodes := by
  refine (of_find? found).resolve_left ?_
  rintro rfl
  exact c.rootKind.elim kind.1 kind.2

theorem target_mem (c : d.Consistent) {e : Element} {f : Flow} (h : f ∈ d.outgoing e) :
    f.target ∈ d.nodes :=
  c.target f (mem_outgoing.mp h).1

end Consistent

def forkNode (id : String) (kind : ElementKind) : Element :=
  ⟨id, kind, "", some "p", .zero⟩

/-- A process with two tasks one after the other. -/
def lane : Diagram :=
  let start := forkNode "s" .startEvent
  let first := forkNode "a" .task
  let second := forkNode "b" .task
  let done := forkNode "e" .endEvent
  ⟨⟨"p", .process, "", none, .zero⟩, [start, first, second, done],
    [⟨"Flow_1", start, first⟩, ⟨"Flow_2", first, second⟩, ⟨"Flow_3", second, done⟩]⟩

theorem built_lane : lane.Built :=
  built_of_grow rfl (by decide +kernel)

/-- A process with one choice between two tasks. -/
def fork : Diagram :=
  let start := forkNode "s" .startEvent
  let split := forkNode "g" .exclusiveGateway
  let left := forkNode "a" .task
  let right := forkNode "b" .task
  let join := forkNode "j" .exclusiveGateway
  let done := forkNode "e" .endEvent
  ⟨⟨"p", .process, "", none, .zero⟩, [start, split, left, right, join, done],
    [⟨"Flow_1", start, split⟩, ⟨"Flow_2", split, left⟩, ⟨"Flow_3", split, right⟩,
      ⟨"Flow_4", left, join⟩, ⟨"Flow_5", right, join⟩, ⟨"Flow_6", join, done⟩]⟩

theorem built_fork : fork.Built :=
  built_of_grow rfl (by decide +kernel)

/-- A process with two tasks side by side, split and joined by parallel gateways. -/
def twin : Diagram :=
  let start := forkNode "s" .startEvent
  let split := forkNode "g" .parallelGateway
  let left := forkNode "a" .task
  let right := forkNode "b" .task
  let join := forkNode "j" .parallelGateway
  let done := forkNode "e" .endEvent
  ⟨⟨"p", .process, "", none, .zero⟩, [start, split, left, right, join, done],
    [⟨"Flow_1", start, split⟩, ⟨"Flow_2", split, left⟩, ⟨"Flow_3", split, right⟩,
      ⟨"Flow_4", left, join⟩, ⟨"Flow_5", right, join⟩, ⟨"Flow_6", join, done⟩]⟩

theorem built_twin : twin.Built :=
  built_of_grow rfl (by decide +kernel)

end ProcessDiagram.Diagram
