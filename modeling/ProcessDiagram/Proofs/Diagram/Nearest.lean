import ProcessDiagram.Diagram.Join
import ProcessDiagram.Proofs.Diagram.Leads

/-!
The join search in terms of ways along the flows: a split closes at the one common gateway of
its branches that leads to every common gateway.
-/
namespace ProcessDiagram.Diagram

variable {d : Diagram}

theorem mem_commonGateways {split e : Element} :
    e ∈ d.commonGateways split ↔ e ∈ d.nodes ∧ e.kind.isGateway = true ∧
      ∀ f ∈ d.outgoing split, d.Leads f.target.id e.id := by
  simp only [commonGateways, List.mem_filter, Bool.and_eq_true, List.all_map, List.all_eq_true,
    Function.comp, List.contains_iff_mem, mem_reachable]

theorem mem_nearestOf {candidates : List Element} {e : Element} :
    e ∈ d.nearestOf candidates ↔ e ∈ candidates ∧ ∀ c ∈ candidates, d.Leads e.id c.id := by
  simp only [nearestOf, List.mem_filter, List.all_eq_true, List.contains_iff_mem, mem_reachable]

theorem nearest_of_findJoin {split join : Element} (h : d.findJoin split = .closesAt join) :
    join ∈ d.nearestOf (d.commonGateways split) := by
  rw [findJoin] at h
  split at h
  · cases h
  · simp only at h
    split at h
    · cases h
    · split at h
      next one =>
          cases h
          rw [one]
          exact List.mem_singleton_self _
      next => cases h
      next => cases h

/-- A join is a gateway that every branch leads to, and it leads to every other such gateway. -/
theorem findJoin_spec {split join : Element} (h : d.findJoin split = .closesAt join) :
    join ∈ d.nodes ∧ join.kind.isGateway = true ∧
      (∀ f ∈ d.outgoing split, d.Leads f.target.id join.id) ∧
      ∀ e ∈ d.nodes, e.kind.isGateway = true →
        (∀ f ∈ d.outgoing split, d.Leads f.target.id e.id) → d.Leads join.id e.id := by
  obtain ⟨common, first⟩ := mem_nearestOf.mp (nearest_of_findJoin h)
  obtain ⟨node, gateway, onward⟩ := mem_commonGateways.mp common
  refine ⟨node, gateway, onward, ?_⟩
  intro e he hg hf
  exact first e (mem_commonGateways.mpr ⟨he, hg, hf⟩)

theorem findJoin_of_unique (distinct : d.nodes.Nodup) {split join : Element}
    (leaves : d.outgoing split ≠ []) (common : join ∈ d.commonGateways split)
    (first : ∀ c ∈ d.commonGateways split, d.Leads join.id c.id)
    (unique : ∀ c ∈ d.commonGateways split, d.Leads c.id join.id → c = join) :
    d.findJoin split = .closesAt join := by
  have members : ∀ c, c ∈ d.nearestOf (d.commonGateways split) ↔ c = join := by
    intro c
    rw [mem_nearestOf]
    constructor
    · rintro ⟨hc, onward⟩
      exact unique c hc (onward join common)
    · rintro rfl
      exact ⟨common, first⟩
  have nodup : (d.nearestOf (d.commonGateways split)).Nodup :=
    (distinct.filter _).filter _
  have one : d.nearestOf (d.commonGateways split) = [join] := by
    rw [← List.perm_singleton]
    exact (List.perm_ext_iff_of_nodup nodup (List.nodup_singleton join)).mpr (by simpa using members)
  have some : (d.commonGateways split).isEmpty = false := by
    rw [List.isEmpty_eq_false_iff]
    exact List.ne_nil_of_mem common
  rw [findJoin, if_neg (by simpa using leaves)]
  simp only [some, Bool.false_eq_true, if_false, one]

end ProcessDiagram.Diagram
