import ProcessDiagram.Proofs.Simulation.Moves
import ProcessDiagram.Proofs.Diagram.Paths
import Mathlib.Algebra.Order.BigOperators.Group.List
import Mathlib.Algebra.Order.Ring.Nat

/-!
Runs come to an end. On an acyclic diagram an element weighs more than everything that its flows
lead to, and every move takes weight off the agenda.
-/
namespace ProcessDiagram

namespace Diagram

variable {d : Diagram}

/-- Heavier than everything ahead. -/
def weight (d : Diagram) (e : Element) : Nat :=
  (d.flows.length + 3) ^ ((d.flowsAhead e.id).length + 1)

theorem three_le_weight (d : Diagram) (e : Element) : 3 ≤ d.weight e := by
  calc 3 ≤ d.flows.length + 3 := Nat.le_add_left 3 _
    _ ≤ d.weight e := Nat.le_self_pow (Nat.succ_ne_zero _) _

theorem sum_weight_add_le (c : d.Consistent) (acyclic : d.Acyclic) (e : Element) :
    ((d.targets e).map d.weight).sum + 3 ≤ d.weight e := by
  have each : ∀ n ∈ (d.targets e).map d.weight,
      n ≤ (d.flows.length + 3) ^ (d.flowsAhead e.id).length := by
    intro n hn
    obtain ⟨target, ht, rfl⟩ := List.mem_map.mp hn
    obtain ⟨f, hf, rfl⟩ := List.mem_map.mp ht
    exact Nat.pow_le_pow_right (Nat.succ_pos _) (length_flowsAhead_lt c acyclic hf)
  have few : ((d.targets e).map d.weight).length ≤ d.flows.length := by
    rw [List.length_map, targets, List.length_map]
    exact d.length_outgoing_le e
  have positive : 1 ≤ (d.flows.length + 3) ^ (d.flowsAhead e.id).length :=
    Nat.one_le_pow _ _ (Nat.succ_pos _)
  have bound := List.sum_le_card_nsmul _ _ each
  rw [Nat.nsmul_eq_mul] at bound
  calc ((d.targets e).map d.weight).sum + 3
      ≤ d.flows.length * (d.flows.length + 3) ^ (d.flowsAhead e.id).length
          + 3 * (d.flows.length + 3) ^ (d.flowsAhead e.id).length :=
        Nat.add_le_add (bound.trans (Nat.mul_le_mul_right _ few)) (Nat.le_mul_of_pos_right 3 positive)
    _ = d.weight e := by rw [weight, Nat.pow_succ, ← Nat.add_mul, Nat.mul_comm]

theorem sum_routes_add_le (c : d.Consistent) (acyclic : d.Acyclic)
    (takes : Element → Nat → Bool) (e : Element) :
    ((d.routes takes e).map d.weight).sum + 3 ≤ d.weight e := by
  have fewer : ((d.routes takes e).map d.weight).sum ≤ ((d.targets e).map d.weight).sum :=
    ((kept_sublist _ _).map d.weight).sum_le_sum fun n _ => Nat.zero_le n
  have whole := sum_weight_add_le c acyclic e
  omega

end Diagram

namespace Scopes

def elements (scopes : Scopes) : List Element :=
  scopes.map (·.element)

theorem elements_modify (scopes : Scopes) (i : Nat) {f : Scope → Scope}
    (same : ∀ x, (f x).element = x.element) : elements (scopes.modify i f) = scopes.elements :=
  map_modify scopes i same

theorem elements_destroyAll (tokens : List Nat) (scopes : Scopes) :
    (scopes.destroyAll tokens).elements = scopes.elements := by
  induction tokens generalizing scopes with
  | nil => rfl
  | cons i rest ih => exact (ih _).trans (elements_modify scopes i fun _ => rfl)

theorem elements_enterAll (scopes : Scopes) (elements : List Element) (parent : Option Nat) :
    (scopes.enterAll elements parent).elements = scopes.elements ++ elements := by
  rw [Scopes.elements, enterAll, List.map_append, List.map_map]
  exact congrArg _ (List.map_id _)

end Scopes

/-- What the element of a scope weighs; after its exit a little less, and the root nearly nothing. -/
def Task.cost (d : Diagram) (elements : List Element) : Task → Nat
  | .enter i | .signal i => (elements[i]?.map d.weight).getD 0
  | .finishExit i => if i = 0 then 1 else (elements[i]?.map d.weight).getD 0 - 1

theorem Task.cost_append {d : Diagram} {elements : List Element} {t : Task}
    (known : t.scope < elements.length) (more : List Element) :
    t.cost d (elements ++ more) = t.cost d elements := by
  cases t with
  | enter i | signal i | finishExit i =>
      have old : (elements ++ more)[i]? = elements[i]? := List.getElem?_append_left known
      simp only [Task.cost, old]

namespace Simulation

variable {d : Diagram} {c : ConfigStore} {s s' : Simulation}

/-- The weight that is still to be moved. -/
def potential (d : Diagram) (s : Simulation) : Nat :=
  (s.agenda.map (Task.cost d s.scopes.elements)).sum

theorem sum_cost_entering (scopes : Scopes) (more : List Element) :
    (((List.range' scopes.length more.length).map Task.enter).map
      (Task.cost d (scopes.elements ++ more))).sum = (more.map d.weight).sum := by
  congr 1
  apply List.ext_getElem
  · rw [List.length_map, List.length_map, List.length_range', List.length_map]
  · intro i _ below
    rw [List.length_map] at below
    simp [Task.cost, Scopes.elements, below]

theorem Effect.potential_eq {scopes : Scopes} {added : List Task} {counts : List (String × Nat)}
    (effect : Effect s s' scopes added counts) {more : List Element}
    (grown : scopes.elements = s.scopes.elements ++ more)
    (known : ∀ t ∈ s.agenda, t.scope < s.scopes.length) :
    potential d s' = potential d s
      + (added.map (Task.cost d (s.scopes.elements ++ more))).sum := by
  have old : s.agenda.map (Task.cost d (s.scopes.elements ++ more))
      = s.agenda.map (Task.cost d s.scopes.elements) := by
    apply List.map_congr_left
    intro t ht
    apply Task.cost_append
    rw [Scopes.elements, List.length_map]
    exact known t ht
  rw [potential, effect.scopes, effect.agenda, grown, List.map_append, List.sum_append, old]
  rfl

/-- Every move takes weight off the agenda. -/
theorem Move.potential_lt (consistent : d.Consistent) (acyclic : d.Acyclic)
    (flat : Flat d s.scopes) {t : Task} (known : ∀ t' ∈ t :: s.agenda, t'.scope < s.scopes.length) (move : Move d c s t s') :
    potential d s' < t.cost d s.scopes.elements + potential d s := by
  have later := fun t' ht => known t' (List.mem_cons_of_mem t ht)
  have weighs : ∀ (i : Nat) (x : Scope), s.scopes[i]? = some x →
      (s.scopes.elements[i]?.map d.weight).getD 0 = d.weight x.element := by
    intro i x hx
    rw [Scopes.elements, List.getElem?_map, hx]
    rfl
  have same : s.scopes.elements = s.scopes.elements ++ [] := (List.append_nil _).symm
  have inner : ∀ (i : Nat) (x : Scope), s.scopes[i]? = some x → x.element ∈ d.nodes → i ≠ 0 := by
    intro i x hx node outer
    subst outer
    obtain ⟨root, atRoot, own, _⟩ := flat.root
    rw [Option.some.inj (hx.symm.trans atRoot), own] at node
    exact consistent.root_id_ne node rfl
  have left : ∀ (i : Nat) (elements : List Element),
      Scopes.elements ((s.scopes.enterAll elements (some 0)).modify i Scope.destroy)
        = s.scopes.elements ++ elements := by
    intro i elements
    rw [Scopes.elements_modify _ i (f := Scope.destroy) fun _ => rfl, Scopes.elements_enterAll]
  cases move with
  | @held i _ effect =>
      have below : i < s.scopes.length := known _ List.mem_cons_self
      have positive := d.three_le_weight s.scopes[i].element
      rw [effect.potential_eq same later, Task.cost, weighs i _ (List.getElem?_eq_getElem below),
        List.map_nil, List.sum_nil]
      omega
  | @pass i x tokens _ ready node _ _ _ effect =>
      have kept : Scopes.elements ((s.scopes.destroyAll tokens).modify i Scope.leave)
          = s.scopes.elements ++ [] := by
        rw [Scopes.elements_modify _ i (f := Scope.leave) fun _ => rfl,
          Scopes.elements_destroyAll, List.append_nil]
      have positive := d.three_le_weight x.element
      rw [effect.potential_eq kept later, List.append_nil, List.map_singleton, List.sum_singleton,
        Task.cost, Task.cost, if_neg (inner i x ready.found node), weighs i x ready.found]
      omega
  | @leave i x _ exiting node effect =>
      have bound := d.sum_routes_add_le consistent acyclic (d.takes c) x.element
      rw [effect.potential_eq (left i _) later, sum_cost_entering, Task.cost,
        if_neg (inner i x exiting.found node), weighs i x exiting.found]
      omega
  | @last i x _ exiting node effect =>
      have bound := d.sum_routes_add_le consistent acyclic (d.takes c) x.element
      have grown := Scopes.elements_modify ((s.scopes.enterAll (d.routes (d.takes c) x.element)
        (some 0)).modify i Scope.destroy) 0 (f := Scope.leave) fun _ => rfl
      rw [left] at grown
      rw [effect.potential_eq grown later, List.map_append, List.sum_append, sum_cost_entering,
        Task.cost, if_neg (inner i x exiting.found node), weighs i x exiting.found,
        List.map_singleton, List.sum_singleton, Task.cost, if_pos rfl]
      omega
  | close effect =>
      have kept : Scopes.elements (s.scopes.modify 0 Scope.destroy)
          = s.scopes.elements ++ [] := by
        rw [Scopes.elements_modify _ 0 (f := Scope.destroy) fun _ => rfl, List.append_nil]
      rw [effect.potential_eq kept later, Task.cost, if_pos rfl, List.map_nil, List.sum_nil]
      omega

end Simulation
end ProcessDiagram
