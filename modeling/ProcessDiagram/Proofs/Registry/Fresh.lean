import ProcessDiagram.Proofs.Registry.Grown

/-!
Flows that are added without an id. Such a flow is numbered by the count of the flows, which has
grown beyond the numbers of all earlier flows that came without one; so its id is taken only where
an earlier flow was given this very id.

Main statement: `Grown.default_fresh_iff`.
-/
namespace ProcessDiagram

open Diagram

def numberedId (n : Nat) : String :=
  "Flow_" ++ toString (n + 1)

theorem numberedId_inj {m n : Nat} : numberedId m = numberedId n ↔ m = n := by
  refine ⟨fun same => ?_, congrArg numberedId⟩
  have digits := congrArg String.toList ((String.append_right_inj _).mp same)
  have values := congrArg (Nat.ofDigitChars 10 · 0) digits
  simpa [Nat.toString_eq_ofList_toDigits] using values

namespace Registry

variable {r : Registry} {record : Record}

def given? : Addition × Except Failure Added → Option String
  | (.flow _ _ id, .ok (.flow _)) => if id.isEmpty then none else some id
  | _ => none

/-- The ids that came with accepted flows. -/
def given (record : Record) : List String :=
  record.filterMap given?

theorem given_concat (record : Record) (entry : Addition × Except Failure Added) :
    given (record ++ [entry]) = given record ++ (given? entry).toList := by
  rw [given, List.filterMap_append]
  cases found : given? entry <;> simp [given, found]

/-- An accepted flow has the id that came with it, or is numbered by the flows before it. -/
structure Named (record : Record) : Prop where
  taken : ∀ id ∈ given record, id ∈ (accepted record).map (·.id)
  origin : ∀ f ∈ accepted record,
    f.id ∈ given record ∨ ∃ n < (accepted record).length, f.id = numberedId n

/-- Nothing is given and nothing accepted. -/
theorem Named.skip (h : Named record) {entry : Addition × Except Failure Added}
    (unnamed : given? entry = none) (unflowing : accepted? entry = none) :
    Named (record ++ [entry]) := by
  constructor
  case taken =>
    rw [given_concat, accepted_concat, unnamed, unflowing]
    simpa using h.taken
  case origin =>
    rw [given_concat, accepted_concat, unnamed, unflowing]
    simpa using h.origin

theorem Named.flow (h : Named record) (source target : String) {id : String} {f : Flow}
    (named : f.id = if id.isEmpty then numberedId (accepted record).length else id) :
    Named (record ++ [(.flow source target id, .ok (.flow f))]) := by
  have flows : accepted (record ++ [(.flow source target id, .ok (.flow f))])
      = accepted record ++ [f] := accepted_concat _ _
  have ids : given (record ++ [(.flow source target id, .ok (.flow f))])
      = given record ++ if id.isEmpty then [] else [id] := by
    rw [given_concat, given?]
    split <;> rfl
  constructor
  case taken =>
    rw [flows, ids, List.map_append, List.forall_mem_append]
    refine ⟨fun i hi => List.mem_append_left _ (h.taken i hi), fun i hi => ?_⟩
    split at hi
    · cases hi
    next chosen =>
        rw [if_neg chosen] at named
        rw [List.mem_singleton.mp hi, ← named]
        exact List.mem_append_right _ (List.mem_singleton_self _)
  case origin =>
    rw [flows, ids, List.forall_mem_append, List.forall_mem_singleton, List.length_append,
      List.length_singleton]
    constructor
    · intro g hg
      obtain chosen | ⟨n, early, numbered⟩ := h.origin g hg
      · exact .inl (List.mem_append_left _ chosen)
      · exact .inr ⟨n, by omega, numbered⟩
    · split at named
      next => exact .inr ⟨_, Nat.lt_succ_self _, named⟩
      next chosen =>
          rw [if_neg chosen, named]
          exact .inl (List.mem_append_right _ (List.mem_singleton_self _))

theorem Grown.named (h : Grown r record) : Named record := by
  induction h with
  | empty => exact ⟨List.forall_mem_nil _, List.forall_mem_nil _⟩
  | @step r record a grown ih =>
      obtain ⟨d, built, rfl, flows⟩ := grown.mirrored
      have came := outcome built.consistent a
      generalize (add a).on d.registry = result at came ⊢
      cases came with
      | refused => exact ih.skip (by cases a <;> rfl) rfl
      | node => exact ih.skip rfl rfl
      | flow done =>
          refine ih.flow _ _ ((endpoints_of_addFlow done).2.2.trans ?_)
          rw [← flows]
          rfl

/-- Between two flow nodes a flow without an id is accepted, with an id that no flow has, unless just
this id came with an earlier flow. -/
theorem Grown.default_fresh_iff (h : Grown r record) {source target : Element}
    (hs : source ∈ r.nodes ∧ source.kind ≠ .participant)
    (ht : target ∈ r.nodes ∧ target.kind ≠ .participant) :
    ((∃ f r', (add (.flow source.id target.id "")).on r = (.ok (.flow f), r') ∧
        f.source = source ∧ f.target = target ∧ f.id ∉ (accepted record).map (·.id)) ↔
      numberedId (accepted record).length ∉ given record) ∧
    (numberedId (accepted record).length ∈ given record →
      (add (.flow source.id target.id "")).on r
        = (.error (.refused (.duplicateFlow (numberedId (accepted record).length))), r)) := by
  have named := h.named
  obtain ⟨d, built, rfl, flows⟩ := h.mirrored
  have c := built.consistent
  rw [nodes_registry c] at hs ht
  have number : d.flowIdFor "" = numberedId (accepted record).length := by
    rw [← flows]
    rfl
  have taken_iff : (d.flow? (numberedId (accepted record).length)).isSome
      ↔ numberedId (accepted record).length ∈ given record := by
    rw [isSome_flow?_iff, flows]
    refine ⟨fun used => ?_, named.taken _⟩
    obtain ⟨f, hf, same⟩ := List.mem_map.mp used
    obtain chosen | ⟨n, early, numbered⟩ := named.origin f hf
    · exact same ▸ chosen
    · -- A flow that was numbered has the number of fewer flows.
      have := numberedId_inj.mp (numbered.symm.trans same)
      omega
  have result := addFlow_of_endpoints "" (c.endpoint_of_mem hs.1 hs.2) (c.endpoint_of_mem ht.1 ht.2)
  rw [number] at result
  rw [add, on_map, on_addFlow c, ← taken_iff]
  by_cases taken : (d.flow? (numberedId (accepted record).length)).isSome
  · rw [if_pos taken] at result
    rw [result]
    refine ⟨iff_of_false ?_ (not_not.mpr taken), fun _ => rfl⟩
    rintro ⟨f, r', came, _⟩
    cases came
  · rw [if_neg taken] at result
    have free := mt isSome_flow?_iff.mpr taken
    rw [flows] at free
    rw [result]
    exact ⟨iff_of_true ⟨_, _, rfl, rfl, rfl, free⟩ taken, fun used => absurd used taken⟩

theorem default_fresh_iff_labelled : ∃ r record, Grown r record ∧
    (accepted record).map (·.id) = ["Flow_1", "Flow_7"] ∧
    ∃ f r', (add (.flow "a" "b" "")).on r = (.ok (.flow f), r') ∧
      f.id ∉ (accepted record).map (·.id) := by
  have start : Grown _ [] := @Grown.empty "p" .process "" _ rfl
  have nodes := (start.step (.node ⟨"a", .task, "", "", .zero⟩)).step
    (.node ⟨"b", .task, "", "", .zero⟩)
  have labelled := (nodes.step (.flow "a" "b" "")).step (.flow "a" "b" "Flow_7")
  refine ⟨_, _, labelled, by decide +kernel, ?_⟩
  have fresh := (labelled.default_fresh_iff (by decide +kernel :
      (⟨"a", .task, "", some "p", .zero⟩ : Element) ∈ _ ∧ _) (by decide +kernel :
      (⟨"b", .task, "", some "p", .zero⟩ : Element) ∈ _ ∧ _)).1.mpr (by decide +kernel)
  obtain ⟨f, r', done, _, _, free⟩ := fresh
  exact ⟨f, r', done, free⟩

/-- The second flow would have the id that the first one was given. -/
theorem not_default_fresh_labelled : ∃ r record, Grown r record ∧
    (accepted record).map (·.id) = ["Flow_2"] ∧
    ((add (.flow "a" "b" "")).on r).1 = .error (.refused (.duplicateFlow "Flow_2")) := by
  have start : Grown _ [] := @Grown.empty "p" .process "" _ rfl
  have nodes := (start.step (.node ⟨"a", .task, "", "", .zero⟩)).step
    (.node ⟨"b", .task, "", "", .zero⟩)
  have labelled := nodes.step (.flow "a" "b" "Flow_2")
  exact ⟨_, _, labelled, by decide +kernel, by decide +kernel⟩

end Registry
end ProcessDiagram
