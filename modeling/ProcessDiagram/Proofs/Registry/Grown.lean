import ProcessDiagram.Proofs.Registry.Mirrored

/-!
Tables after any series of additions, refused ones among them. They are the tables of a diagram that
the accepted additions alone have built, so whatever holds of such diagrams can be read off the
tables.

Main statement: `Grown.inStep`.
-/
namespace ProcessDiagram

/-- The element that many scopes further out; `find?` looks scopes up. -/
def outward (find? : String → Option Element) : Nat → Element → Option Element
  | 0, e => some e
  | n + 1, e => (e.parent.bind find?).bind (outward find? n)

theorem outward_mono {find? more? : String → Option Element}
    (more : ∀ id e, find? id = some e → more? id = some e) {n : Nat} {e out : Element}
    (h : outward find? n e = some out) : outward more? n e = some out := by
  induction n generalizing e with
  | zero => exact h
  | succ n ih =>
      obtain ⟨scope, found, further⟩ := Option.bind_eq_some_iff.mp h
      obtain ⟨id, parent, found⟩ := Option.bind_eq_some_iff.mp found
      rw [outward, parent, Option.bind_some, more id scope found, Option.bind_some]
      exact ih further

theorem Diagram.Built.rooted {d : Diagram} (h : d.Built) :
    ∀ e ∈ d.nodes, ∃ n ≤ d.nodes.length, outward d.find? n e = some d.root := by
  induction h with
  | empty h =>
      obtain ⟨_, rfl⟩ := empty_eq_ok h
      exact List.forall_mem_nil _
  | @addNode d spec r _ h ih =>
      have wider (id : String) (e : Element) (found : d.find? id = some e) :
          Diagram.find? { d with nodes := d.nodes ++ [r.2] } id = some e := find?_append found r.2
      obtain ⟨container, found⟩ := addNode_container h
      have outside : ∃ n ≤ d.nodes.length, outward d.find? n container = some d.root := by
        obtain ⟨id, _, found⟩ := Option.bind_eq_some_iff.mp found
        cases Consistent.of_find? found with
        | inl root => exact ⟨0, Nat.zero_le _, by rw [root]; rfl⟩
        | inr node => exact ih container node
      rw [(addNode_eq_ok h).2.2]
      dsimp only
      rw [List.length_append, List.length_singleton]
      intro e he
      cases List.mem_append.mp he with
      | inl old =>
          obtain ⟨n, few, out⟩ := ih e old
          exact ⟨n, by omega, outward_mono wider out⟩
      | inr new =>
          obtain ⟨n, few, out⟩ := outside
          rw [List.mem_singleton] at new
          refine ⟨n + 1, by omega, outward_mono wider ?_⟩
          rw [new, outward, found]
          exact out
  | addFlow _ h ih =>
      obtain ⟨_, _, _, _, _, grown⟩ := addFlow_eq_ok h
      rw [grown]
      exact ih

theorem Diagram.Built.contained {d : Diagram} (h : d.Built) {e : Element} (he : e ∈ d.nodes) :
    ∃ scope ∈ d.root :: d.nodes, ∀ other ∈ d.root :: d.nodes,
      (d.children other).count e = if other = scope then 1 else 0 := by
  have c := h.consistent
  obtain ⟨scope, found⟩ := h.exists_container e he
  obtain ⟨id, parent, found⟩ := Option.bind_eq_some_iff.mp found
  have known : scope ∈ d.root :: d.nodes := List.mem_cons.mpr (Consistent.of_find? found)
  have named : scope.id = id := id_of_find? found
  refine ⟨scope, known, fun other hother => ?_⟩
  rw [children]
  by_cases here : other = scope
  · rw [if_pos here, List.count_filter (by simp [parent, here, named])]
    exact List.count_eq_one_of_mem c.nodes_nodup he
  · rw [if_neg here, List.count_eq_zero]
    intro child
    have same := (List.mem_filter.mp child).2
    rw [parent, beq_iff_eq, Option.some.injEq, ← named] at same
    exact here (c.eq_of_id_of_known hother known same.symm)

theorem Diagram.Consistent.flow?_of_mem {d : Diagram} (c : d.Consistent) {f : Flow}
    (hf : f ∈ d.flows) : d.flow? f.id = some f := by
  cases found : d.flow? f.id with
  | none =>
      rw [flow?, List.find?_eq_none] at found
      exact absurd (beq_self_eq_true f.id) (found f hf)
  | some g =>
      have same : g.id = f.id := by simpa using List.find?_some found
      rw [List.inj_on_of_nodup_map c.flowIds (List.mem_of_find?_eq_some found) hf same]

/-- A flow is listed once, and only at the end that the list is about. -/
theorem Diagram.Consistent.count_grouped {d : Diagram} (c : d.Consistent) (near far : Flow → String)
    {f : Flow} (hf : f ∈ d.flows) (id : String) :
    (grouped far (d.flows.filter (near · == id))).count f = if id = near f then 1 else 0 := by
  rw [(grouped_perm _ _).count_eq]
  by_cases here : id = near f
  · rw [if_pos here, List.count_filter (by simp [here])]
    exact List.count_eq_one_of_mem c.flows_nodup hf
  · rw [if_neg here, List.count_eq_zero]
    intro listed
    exact here (beq_iff_eq.mp (List.mem_filter.mp listed).2).symm

namespace Registry

open Diagram

variable {d : Diagram} {r : Registry}

/-- What can come of an addition to the tables of a diagram. -/
inductive Outcome (d : Diagram) : Addition → Except Failure Added × Registry → Prop
  | refused (a : Addition) (error : DiagramError) :
      Outcome d a (.error (.refused error), d.registry)
  | node {spec : NodeSpec} {p : Diagram × Element} :
      d.addNode spec = .ok p → Outcome d (.node spec) (.ok (.node p.2), p.1.registry)
  | flow {source target id : String} {p : Diagram × Flow} :
      d.addFlow source target id = .ok p →
        Outcome d (.flow source target id) (.ok (.flow p.2), p.1.registry)

theorem on_map {α β : Type} (g : α → β) (x : Action α) (r : Registry) :
    (g <$> x).on r = ((x.on r).1.map g, (x.on r).2) := by
  rw [Action.on, ExceptT.run_map, StateT.run_map]
  rfl

theorem outcome (c : d.Consistent) (a : Addition) : Outcome d a ((add a).on d.registry) := by
  cases a with
  | node spec =>
      rw [add, on_map, on_addNode c]
      cases done : d.addNode spec with
      | error error => exact .refused _ error
      | ok p => exact .node done
  | flow source target id =>
      rw [add, on_map, on_addFlow c]
      cases done : d.addFlow source target id with
      | error error => exact .refused _ error
      | ok p => exact .flow done

/-- The additions that were asked for so far, each with its answer. -/
abbrev Record := List (Addition × Except Failure Added)

/-- Tables that any additions have led to. -/
inductive Grown : Registry → Record → Prop
  | empty {id : String} {kind : ElementKind} {label : String} {r : Registry} :
      Registry.empty id kind label = .ok r → Grown r []
  | step {r : Registry} {record : Record} (a : Addition) :
      Grown r record → Grown ((add a).on r).2 (record ++ [(a, ((add a).on r).1)])

def accepted? : Addition × Except Failure Added → Option Flow
  | (_, .ok (.flow f)) => some f
  | _ => none

/-- The flows that were accepted, in the order in which they were added. -/
def accepted (record : Record) : List Flow :=
  record.filterMap accepted?

theorem accepted_concat (record : Record) (entry : Addition × Except Failure Added) :
    accepted (record ++ [entry]) = accepted record ++ (accepted? entry).toList := by
  rw [accepted, List.filterMap_append]
  cases found : accepted? entry <;> simp [accepted, found]

theorem mirrored_empty {id : String} {kind : ElementKind} {label : String}
    (h : Registry.empty id kind label = .ok r) :
    ∃ d : Diagram, d.Built ∧ r = d.registry ∧ d.flows = [] := by
  rw [empty_eq_map] at h
  cases started : Diagram.empty id kind label with
  | error _ =>
      rw [started] at h
      cases h
  | ok d =>
      rw [started] at h
      cases h
      obtain ⟨_, rfl⟩ := empty_eq_ok started
      exact ⟨_, .empty started, rfl, rfl⟩

theorem Grown.mirrored {record : Record} (h : Grown r record) :
    ∃ d : Diagram, d.Built ∧ r = d.registry ∧ d.flows = accepted record := by
  induction h with
  | empty h => exact mirrored_empty h
  | @step r record a _ ih =>
      obtain ⟨d, built, rfl, flows⟩ := ih
      rw [accepted_concat]
      have came := outcome built.consistent a
      generalize (add a).on d.registry = result at came ⊢
      cases came with
      | refused => exact ⟨d, built, rfl, by simpa [accepted?] using flows⟩
      | node done =>
          have same := (addNode_eq_ok done).2.2
          exact ⟨_, .addNode built done, rfl, by simpa [accepted?, same] using flows⟩
      | flow done =>
          obtain ⟨_, _, _, _, _, same⟩ := addFlow_eq_ok done
          exact ⟨_, .addFlow built done, rfl, by simp [accepted?, same, flows]⟩

theorem grown_registry (h : d.Built) : ∃ record, Grown d.registry record := by
  induction h with
  | @empty id kind label d h =>
      have started := empty_eq_map id kind label
      rw [h] at started
      exact ⟨_, .empty started⟩
  | @addNode d spec p built done ih =>
      obtain ⟨record, grown⟩ := ih
      have next := grown.step (.node spec)
      rw [add, on_map, on_addNode built.consistent, done] at next
      exact ⟨_, next⟩
  | @addFlow d source target id p built done ih =>
      obtain ⟨record, grown⟩ := ih
      have next := grown.step (.flow source target id)
      rw [add, on_map, on_addFlow built.consistent, done] at next
      exact ⟨_, next⟩

/-- The tables that additions lead to are those of the diagrams that accepted additions build. -/
theorem exists_grown_iff : (∃ record, Grown r record) ↔ ∃ d : Diagram, d.Built ∧ d.registry = r := by
  constructor
  · rintro ⟨record, grown⟩
    obtain ⟨d, built, rfl, _⟩ := grown.mirrored
    exact ⟨d, built, rfl⟩
  · rintro ⟨d, built, rfl⟩
    exact grown_registry built

theorem Grown.asked {record : Record} (h : Grown r record) {source target id : String} {f : Flow}
    (accepted : (.flow source target id, .ok (.flow f)) ∈ record) :
    f.source.id = source ∧ f.target.id = target := by
  induction h with
  | empty => cases accepted
  | @step r record a grown ih =>
      obtain ⟨d, built, rfl, _⟩ := grown.mirrored
      have came := outcome built.consistent a
      generalize (add a).on d.registry = result at came accepted
      obtain ⟨answer, r'⟩ := result
      cases List.mem_append.mp accepted with
      | inl old => exact ih old
      | inr new =>
          cases List.mem_singleton.mp new
          cases came with
          | flow done =>
              obtain ⟨hs, ht, _⟩ := endpoints_of_addFlow done
              exact ⟨(endpoint_eq_ok hs).2.1, (endpoint_eq_ok ht).2.1⟩

/-- The tables agree with each other and with the additions so far. -/
structure InStep (r : Registry) (record : Record) : Prop where
  /-- No table is missing anything, and a refused addition leaves no trace. -/
  refusal : ∀ a failure r', (add a).on r = (.error failure, r') →
    r' = r ∧ ∃ error, failure = .refused error
  rooted : ∀ e ∈ r.nodes, ∃ n ≤ r.nodeCount, outward r.find? n e = some r.root
  contained : ∀ e ∈ r.nodes, ∃ scope ∈ r.root :: r.nodes, ∀ other ∈ r.root :: r.nodes,
    (r.children other).count e = if other = scope then 1 else 0
  asked : ∀ source target id f, (.flow source target id, .ok (.flow f)) ∈ record →
    f.source.id = source ∧ f.target.id = target
  found : ∀ f ∈ accepted record, r.flow? f.id = some f
  ends : ∀ f ∈ accepted record, f.source ∈ r.nodes ∧ f.target ∈ r.nodes
  leaving : ∀ f ∈ accepted record, ∀ e,
    (r.outgoing e).count f = if e.id = f.source.id then 1 else 0
  arriving : ∀ f ∈ accepted record, ∀ e,
    (r.incoming e).count f = if e.id = f.target.id then 1 else 0
  listed : ∀ e, ∀ f ∈ r.outgoing e ++ r.incoming e, f ∈ accepted record

theorem Grown.inStep {record : Record} (h : Grown r record) : InStep r record := by
  obtain ⟨d, built, rfl, flows⟩ := h.mirrored
  have c := built.consistent
  have nodes := nodes_registry c
  have lookup : d.registry.find? = d.find? := funext (find?_registry d)
  have root : d.registry.root = d.root := rfl
  constructor
  case refusal =>
    intro a failure r' failed
    have came := outcome c a
    rw [failed] at came
    cases came with
    | refused _ error => exact ⟨rfl, error, rfl⟩
  case rooted =>
    rw [nodes, nodeCount_registry, lookup]
    exact built.rooted
  case contained =>
    intro e he
    rw [nodes] at he ⊢
    obtain ⟨scope, known, only⟩ := built.contained he
    refine ⟨scope, known, fun other hother => ?_⟩
    rw [children_registry c]
    exact only other hother
  case asked => exact fun _ _ _ _ accepted => h.asked accepted
  case found =>
    intro f hf
    rw [← flows] at hf
    rw [flow?_registry]
    exact c.flow?_of_mem hf
  case ends =>
    intro f hf
    rw [← flows] at hf
    rw [nodes]
    exact ⟨c.source f hf, c.target f hf⟩
  case leaving =>
    intro f hf e
    rw [← flows] at hf
    rw [outgoing_registry built]
    exact c.count_grouped (·.source.id) (·.target.id) hf e.id
  case arriving =>
    intro f hf e
    rw [← flows] at hf
    rw [incoming_registry c]
    exact c.count_grouped (·.target.id) (·.source.id) hf e.id
  case listed =>
    intro e f hf
    rw [outgoing_registry built, incoming_registry c, List.mem_append, mem_outgoing,
      mem_incoming] at hf
    rw [← flows]
    exact hf.elim And.left And.left

/-- Two flows join the same two elements, another one starts where it ends, and three additions are
refused in between. -/
theorem inStep_knotted : ∃ r record, Grown r record ∧
    record.map (fun entry => entry.2.isOk) = [true, true, false, true, true, false, true, false] ∧
    (accepted record).map (fun f => (f.id, f.source.id, f.target.id))
      = [("Flow_1", "a", "s"), ("x", "a", "s"), ("Flow_3", "a", "a")] ∧ InStep r record := by
  have start : Grown _ [] := @Grown.empty "p" .process "" _ rfl
  have nodes := ((start.step (.node ⟨"s", .subProcess, "", "", .zero⟩)).step
    (.node ⟨"a", .task, "", "s", .zero⟩)).step (.node ⟨"a", .task, "", "p", .zero⟩)
  have joined := ((nodes.step (.flow "a" "s" "")).step (.flow "a" "s" "x")).step (.flow "a" "p" "")
  have knotted := (joined.step (.flow "a" "a" "")).step (.flow "s" "a" "x")
  exact ⟨_, _, knotted, by decide +kernel, by decide +kernel, knotted.inStep⟩

end Registry
end ProcessDiagram
