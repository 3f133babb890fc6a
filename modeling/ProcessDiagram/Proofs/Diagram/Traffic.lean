import ProcessDiagram.Proofs.Diagram.Built
import Mathlib

/-!
Traffic on the flows of a diagram. Every time an element is left, tokens go along the flows that
it takes; what flows into an element is counted by the elements that are left.
-/
namespace ProcessDiagram

section Kept

variable {α β : Type}

/-- The items at the positions that are taken. -/
def kept (takes : Nat → Bool) : List α → List α
  | [] => []
  | a :: rest =>
    if takes 0 then a :: kept (fun i => takes (i + 1)) rest else kept (fun i => takes (i + 1)) rest

theorem kept_sublist (takes : Nat → Bool) (items : List α) : (kept takes items).Sublist items := by
  induction items generalizing takes with
  | nil => exact .slnil
  | cons a rest ih =>
      rw [kept]
      split
      · exact (ih _).cons_cons a
      · exact (ih _).cons a

theorem kept_map (takes : Nat → Bool) (f : α → β) (items : List α) :
    kept takes (items.map f) = (kept takes items).map f := by
  induction items generalizing takes with
  | nil => rfl
  | cons a rest ih =>
      rw [List.map_cons, kept, kept, ih]
      split <;> rfl

theorem mem_kept {takes : Nat → Bool} {items : List α} {a : α} :
    a ∈ kept takes items ↔ ∃ i, items[i]? = some a ∧ takes i = true := by
  induction items generalizing takes with
  | nil => simp [kept]
  | cons b rest ih =>
      have later := @ih fun i => takes (i + 1)
      rw [kept]
      constructor
      · intro h
        by_cases first : takes 0 = true
        · rw [if_pos first, List.mem_cons] at h
          cases h with
          | inl here => exact ⟨0, by rw [here]; rfl, first⟩
          | inr there =>
              obtain ⟨i, hi, taken⟩ := later.mp there
              exact ⟨i + 1, hi, taken⟩
        · rw [if_neg first] at h
          obtain ⟨i, hi, taken⟩ := later.mp h
          exact ⟨i + 1, hi, taken⟩
      · intro h
        obtain ⟨i, hi, taken⟩ := h
        cases i with
        | zero =>
            rw [if_pos taken]
            exact Option.some.inj hi ▸ List.mem_cons_self
        | succ i =>
            have inside := later.mpr ⟨i, hi, taken⟩
            split
            · exact List.mem_cons_of_mem _ inside
            · exact inside

theorem kept_all {takes : Nat → Bool} (h : ∀ i, takes i = true) (items : List α) :
    kept takes items = items := by
  induction items generalizing takes with
  | nil => rfl
  | cons a rest ih => rw [kept, if_pos (h 0), ih fun i => h (i + 1)]

theorem kept_none {takes : Nat → Bool} (h : ∀ i, takes i = false) (items : List α) :
    kept takes items = [] := by
  induction items generalizing takes with
  | nil => rfl
  | cons a rest ih => rw [kept, h 0, if_neg (by decide), ih fun i => h (i + 1)]

theorem kept_at (position : Nat) (items : List α) :
    kept (fun i => i == position) items = items[position]?.toList := by
  induction items generalizing position with
  | nil => rfl
  | cons a rest ih =>
      cases position with
      | zero =>
          have none : kept (fun i => i + 1 == 0) rest = [] := kept_none (fun i => rfl) rest
          rw [kept, none]
          rfl
      | succ position =>
          have later : (fun i => i + 1 == position + 1) = fun i => i == position := by
            funext i
            simp
          rw [kept, later, ih]
          rfl

end Kept

theorem sum_map_single {α : Type} [DecidableEq α] {x : α} {elements : List α} (hx : x ∈ elements)
    (nodup : elements.Nodup) (g : α → Nat) :
    (elements.map fun e => if x = e then g e else 0).sum = g x := by
  rw [List.sum_map_eq_nsmul_single x _ fun e other _ => if_neg other.symm,
    List.count_eq_one_of_mem nodup hx, if_pos rfl, one_nsmul]

namespace Diagram

variable {d : Diagram} {takes : Element → Nat → Bool} {left : Element → Nat}

/-- What the outgoing flows of an element lead to, in their order. -/
def targets (d : Diagram) (e : Element) : List Element :=
  (d.outgoing e).map (·.target)

/-- What the flows that are taken lead to. -/
def routes (d : Diagram) (takes : Element → Nat → Bool) (e : Element) : List Element :=
  kept (takes e) (d.targets e)

theorem mem_targets_of_mem_routes {e x : Element} (h : x ∈ d.routes takes e) : x ∈ d.targets e :=
  (kept_sublist _ _).subset h

/-- How many tokens some elements send to an element, when each is left a number of times. -/
def inflow (d : Diagram) (takes : Element → Nat → Bool) (left : Element → Nat)
    (elements : List Element) (x : Element) : Nat :=
  (elements.map fun e => left e * (d.routes takes e).count x).sum

theorem inflow_cons (e : Element) (rest : List Element) (x : Element) :
    d.inflow takes left (e :: rest) x
      = left e * (d.routes takes e).count x + d.inflow takes left rest x := by
  rw [inflow, List.map_cons, List.sum_cons]
  rfl

theorem inflow_append (first second : List Element) (x : Element) :
    d.inflow takes left (first ++ second) x
      = d.inflow takes left first x + d.inflow takes left second x := by
  rw [inflow, List.map_append, List.sum_append]
  rfl

theorem inflow_perm {elements others : List Element} (h : elements.Perm others) (x : Element) :
    d.inflow takes left elements x = d.inflow takes left others x :=
  (h.map _).sum_nat

theorem inflow_eq_zero {elements : List Element} {x : Element}
    (h : ∀ e ∈ elements, x ∉ d.targets e) : d.inflow takes left elements x = 0 := by
  rw [inflow, List.sum_eq_zero]
  intro n hn
  obtain ⟨e, he, rfl⟩ := List.mem_map.mp hn
  rw [List.count_eq_zero_of_not_mem fun again => h e he (mem_targets_of_mem_routes again),
    Nat.mul_zero]

theorem inflow_of_never_left {elements : List Element} (h : ∀ e ∈ elements, left e = 0)
    (x : Element) : d.inflow takes left elements x = 0 := by
  rw [inflow, List.sum_eq_zero]
  intro n hn
  obtain ⟨e, he, rfl⟩ := List.mem_map.mp hn
  rw [h e he, Nat.zero_mul]

theorem inflow_congr {left' : Element → Nat} {elements : List Element}
    (h : ∀ e ∈ elements, left' e = left e) (x : Element) :
    d.inflow takes left' elements x = d.inflow takes left elements x := by
  rw [inflow, inflow]
  congr 1
  apply List.map_congr_left
  intro e he
  rw [h e he]

/-- An element that is left once more sends one more token along each flow that it takes. -/
theorem inflow_bump {left' : Element → Nat} {elements : List Element} {e : Element}
    (he : e ∈ elements) (nodup : elements.Nodup)
    (more : ∀ e' ∈ elements, left' e' = left e' + if e = e' then 1 else 0) (x : Element) :
    d.inflow takes left' elements x
      = d.inflow takes left elements x + (d.routes takes e).count x := by
  have single := sum_map_single he nodup fun e => (d.routes takes e).count x
  rw [inflow, inflow, ← single, ← List.sum_map_add]
  congr 1
  apply List.map_congr_left
  intro e' he'
  rw [more e' he', Nat.add_mul]
  split
  · rw [Nat.one_mul]
  · rw [Nat.zero_mul]

theorem length_incoming (c : d.Consistent) {e : Element} (he : e ∈ d.nodes) :
    (d.incoming e).length = d.inflow (fun _ _ => true) (fun _ => 1) d.nodes e := by
  have own : ∀ e' ∈ d.nodes, 1 * (d.routes (fun _ _ => true) e').count e
      = d.flows.countP fun f => f.target == e && f.source == e' := by
    intro e' he'
    rw [Nat.one_mul, routes, kept_all fun _ => rfl, targets, List.count, List.countP_map, outgoing,
      (grouped_perm _ _).countP_eq, List.countP_filter]
    apply List.countP_congr
    intro f hf
    have same : f.source.id = e'.id ↔ f.source = e' :=
      ⟨c.eq_of_id (c.source f hf) he', congrArg Element.id⟩
    simp [same]
  have total : ∀ flows : List Flow, (∀ f ∈ flows, f ∈ d.flows) →
      (d.nodes.map fun e' => flows.countP fun f => f.target == e && f.source == e').sum
        = flows.countP fun f => f.target == e := by
    intro flows known
    induction flows with
    | nil => simp
    | cons f rest ih =>
        have later := ih fun g hg => known g (List.mem_cons_of_mem _ hg)
        have here := sum_map_single (c.source f (known f List.mem_cons_self)) c.nodes_nodup
          fun _ => if f.target = e then 1 else 0
        simp only [List.countP_cons, List.sum_map_add, later, Bool.and_eq_true, beq_iff_eq]
        rw [Nat.add_left_cancel_iff, ← here]
        congr 1
        apply List.map_congr_left
        intro e' _
        by_cases source : f.source = e' <;> simp [source]
  rw [inflow, List.map_congr_left own, total d.flows fun _ hf => hf, incoming,
    (grouped_perm _ _).length_eq, List.countP_eq_length_filter]
  congr 1
  apply List.filter_congr
  intro f hf
  have same : f.target.id = e.id ↔ f.target = e :=
    ⟨c.eq_of_id (c.target f hf) he, congrArg Element.id⟩
  by_cases h : f.target = e <;> simp [h, same]

end Diagram
end ProcessDiagram
