import ProcessDiagram.Replay.Branch
import ProcessDiagram.Replay.Trigger

/-!
Snapshots as maps from elements to statuses. A snapshot lists an element once, so that what it
triggers after another one can be read off the two statuses of each element.
-/
namespace ProcessDiagram

/-- No snapshot lists an element twice. -/
def Trace.Keyed (t : Trace) : Prop :=
  ∀ s ∈ t.snapshots, (s.states.map Prod.fst).Nodup

instance (t : Trace) : Decidable t.Keyed :=
  inferInstanceAs (Decidable (∀ s ∈ t.snapshots, (s.states.map Prod.fst).Nodup))

theorem lookup_of_mem {states : List (String × Status)} (distinct : (states.map Prod.fst).Nodup)
    {id : String} {status : Status} (inside : (id, status) ∈ states) :
    states.lookup id = some status := by
  induction states with
  | nil => cases inside
  | cons first rest ih =>
      obtain ⟨id', status'⟩ := first
      rw [List.map_cons, List.nodup_cons] at distinct
      rw [List.lookup_cons]
      cases List.mem_cons.mp inside with
      | inl here =>
          cases here
          rw [beq_self_eq_true]
      | inr later =>
          have other : id ≠ id' := by
            intro same
            subst same
            exact distinct.1 (List.mem_map.mpr ⟨_, later, rfl⟩)
          rw [beq_eq_false_iff_ne.mpr other]
          exact ih distinct.2 later

theorem Snapshot.mem_of_status {s : Snapshot} {id : String} (shown : s.status id ≠ .absent) :
    (id, s.status id) ∈ s.states := by
  rw [Snapshot.status] at shown ⊢
  cases listed : s.states.lookup id with
  | none =>
      rw [listed] at shown
      exact absurd rfl shown
  | some status =>
      obtain ⟨before, after, split, _⟩ := List.lookup_eq_some_iff.mp listed
      rw [split]
      exact List.mem_append_right _ List.mem_cons_self

namespace Trigger

/-- What is triggered from one snapshot to the next is told by the statuses of each element. -/
theorem mem_ofStep_iff {d : Diagram} {t : Trace} (keyed : t.Keyed) {i : Nat} {trigger : Trigger} :
    trigger ∈ ofStep d t i ↔ d.find? trigger.element.id = some trigger.element ∧
      action? trigger.element.kind (t.status i trigger.element.id)
        (t.status (i + 1) trigger.element.id) = some trigger.action := by
  constructor
  · intro inside
    rw [ofStep] at inside
    split at inside
    next before after here next =>
        obtain ⟨id, status, listed, found, action⟩ := mem_between.mp inside
        obtain rfl := Diagram.id_of_find? found
        have distinct := keyed after (List.mem_of_getElem? next)
        refine ⟨found, ?_⟩
        rw [Trace.status, Trace.status, here, next]
        simp only [Option.map_some, Option.getD_some, Snapshot.status, lookup_of_mem distinct listed]
        exact action
    next => cases inside
  · intro ⟨found, action⟩
    cases next : t.snapshots[i + 1]? with
    | none =>
        have absent : t.status (i + 1) trigger.element.id = .absent := by rw [Trace.status, next]; rfl
        rw [absent] at action
        cases action
    | some after =>
        have within : i < t.snapshots.length :=
          Nat.lt_of_succ_lt (List.getElem?_eq_some_iff.mp next).1
        have here := List.getElem?_eq_getElem within
        rw [Trace.status, Trace.status, here, next] at action
        simp only [Option.map_some, Option.getD_some] at action
        rw [ofStep, here, next]
        refine mem_between.mpr ⟨trigger.element.id, _, Snapshot.mem_of_status ?_, found, action⟩
        intro absent
        rw [absent] at action
        cases action

theorem nodup_ofStep {d : Diagram} {t : Trace} (keyed : t.Keyed) (i : Nat) :
    ((ofStep d t i).map (·.element.id)).Nodup := by
  rw [ofStep]
  split
  next before after _ next =>
      have distinct := keyed after (List.mem_of_getElem? next)
      rw [between, ((Sorting.sort_perm ..).map _).nodup_iff, List.Nodup, List.pairwise_map,
        List.pairwise_filterMap]
      apply (List.pairwise_map.mp distinct).imp
      intro entry entry' apart trigger made trigger' made' same
      simp only [bind, Option.bind_eq_some_iff, pure, Option.some.injEq] at made made'
      obtain ⟨e, found, _, _, rfl⟩ := made
      obtain ⟨e', found', _, _, rfl⟩ := made'
      rw [Diagram.id_of_find? found, Diagram.id_of_find? found'] at same
      exact apart same
  next => exact .nil

end Trigger
end ProcessDiagram
