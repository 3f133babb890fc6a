import ProcessDiagram.Proofs.Registry.Grown

/-!
The order in which flows are listed. The tables list the flows at a flow node one far end after the
other, so the order of the additions shows only as long as the flows to one far end were added with
none to another in between.

Main statement: `Grown.in_order_iff`.
-/
namespace ProcessDiagram

open Diagram

variable {key : Flow → String} {flows : List Flow}

/-- Between two flows of one key stand only flows of this key. -/
def Unbroken (key : Flow → String) (flows : List Flow) : Prop :=
  ∀ f g h, [f, g, h].Sublist flows → key f = key h → key g = key f

theorem Unbroken.sublist {fewer : List Flow} (h : Unbroken key flows)
    (part : fewer.Sublist flows) : Unbroken key fewer :=
  fun f g last inside same => h f g last (inside.trans part) same

theorem Unbroken.append {k : String} {group : List Flow} (one : ∀ f ∈ group, key f = k)
    (others : ∀ f ∈ flows, key f ≠ k) (h : Unbroken key flows) :
    Unbroken key (group ++ flows) := by
  intro f g last inside same
  obtain ⟨front, back, split, inGroup, behind⟩ := List.sublist_append_iff.mp inside
  cases List.eq_nil_or_concat back with
  | inl none =>
      rw [none, List.append_nil] at split
      have members := inGroup.subset
      rw [← split] at members
      rw [one f (members (by simp)), one g (members (by simp))]
  | inr ended =>
      obtain ⟨back, x, rfl⟩ := ended
      obtain rfl : last = x := by simpa using congrArg List.getLast? split
      have other : key last ≠ k := others last (behind.subset (by simp))
      cases front with
      | nil => exact h f g last (split ▸ behind) same
      | cons y front =>
          obtain ⟨rfl, _⟩ := List.cons.inj split
          exact absurd (same ▸ one f (inGroup.subset List.mem_cons_self)) other

/-- Grouping takes the flows with the key of the first one and goes on with the others. -/
theorem grouped_induction (key : Flow → String) {P : List Flow → Prop} (nil : P [])
    (cons : ∀ f rest, P (rest.filter (key · != key f)) → P (f :: rest)) (flows : List Flow) :
    P flows := by
  induction left : flows.length using Nat.strongRecOn generalizing flows with
  | _ n ih =>
      cases flows with
      | nil => exact nil
      | cons f rest =>
          have fewer := List.length_filter_le (key · != key f) rest
          rw [List.length_cons] at left
          exact cons f rest (ih _ (by omega) _ rfl)

theorem unbroken_grouped (key : Flow → String) (flows : List Flow) :
    Unbroken key (grouped key flows) := by
  induction flows using grouped_induction key with
  | nil => exact fun _ _ _ inside => absurd (inside.subset List.mem_cons_self) List.not_mem_nil
  | cons f rest ih =>
      rw [grouped_cons]
      refine ih.append (k := key f) ?_ ?_
      · intro g hg
        simpa using (List.mem_filter.mp hg).2
      · intro g hg
        simpa using (List.mem_filter.mp (mem_grouped.mp hg)).2

/-- Items that are picked out stay in their places when all of them stand in front. -/
theorem filter_append_filter_not {α : Type} {p : α → Bool} {items : List α}
    (front : ∀ a b, [a, b].Sublist items → p b = true → p a = true) :
    items.filter p ++ items.filter (!p ·) = items := by
  induction items with
  | nil => rfl
  | cons a rest ih =>
      have later := ih fun b c inside => front b c (inside.cons a)
      by_cases picked : p a = true
      · simpa [picked] using later
      · have none : ∀ b ∈ rest, ¬ p b = true := fun b hb chosen =>
          picked (front a b ((List.singleton_sublist.mpr hb).cons_cons a) chosen)
        rw [List.filter_eq_nil_iff.mpr none] at later
        simpa [picked, List.filter_eq_nil_iff.mpr none] using later

theorem grouped_of_unbroken (h : Unbroken key flows) : grouped key flows = flows := by
  induction flows using grouped_induction key with
  | nil => rfl
  | cons f rest ih =>
      have others := ih (h.sublist (List.filter_sublist.cons f))
      have front : ∀ a b, [a, b].Sublist rest → (key b == key f) = true → (key a == key f) = true := by
        intro a b inside same
        rw [beq_iff_eq] at same ⊢
        exact h f a b (inside.cons_cons f) same.symm
      rw [grouped_cons, others, List.filter_cons_of_pos (by simp), List.cons_append]
      exact congrArg _ (filter_append_filter_not front)

theorem grouped_eq_self_iff : grouped key flows = flows ↔ Unbroken key flows :=
  ⟨fun same => same ▸ unbroken_grouped key flows, grouped_of_unbroken⟩

namespace Registry

variable {r : Registry} {record : Record}

/-- The flows at a flow node come in groups of one far end each; the groups, and the flows of a
group, come in the order of the additions. So do all of them only if no group was broken. -/
theorem Grown.in_order_iff (h : Grown r record) (e : Element) :
    (r.outgoing e = grouped (·.target.id) ((accepted record).filter (·.source.id == e.id)) ∧
      r.incoming e = grouped (·.source.id) ((accepted record).filter (·.target.id == e.id))) ∧
    (r.outgoing e = (accepted record).filter (·.source.id == e.id) ↔
      Unbroken (·.target.id) ((accepted record).filter (·.source.id == e.id))) ∧
    (r.incoming e = (accepted record).filter (·.target.id == e.id) ↔
      Unbroken (·.source.id) ((accepted record).filter (·.target.id == e.id))) := by
  obtain ⟨d, built, rfl, flows⟩ := h.mirrored
  have outgoing := outgoing_registry built e
  have incoming := incoming_registry built.consistent e
  rw [Diagram.outgoing, flows] at outgoing
  rw [Diagram.incoming, flows] at incoming
  rw [outgoing, incoming]
  exact ⟨⟨rfl, rfl⟩, grouped_eq_self_iff, grouped_eq_self_iff⟩

/-- Two flows to the same element, one right after the other. -/
theorem in_order_iff_doubled : ∃ r record, Grown r record ∧
    (accepted record).map (fun f => (f.id, f.target.id))
      = [("Flow_1", "b"), ("Flow_2", "b"), ("Flow_3", "a")] ∧
    Unbroken (·.target.id) ((accepted record).filter (·.source.id == "a")) := by
  have start : Grown _ [] := @Grown.empty "p" .process "" _ rfl
  have nodes := (start.step (.node ⟨"a", .task, "", "", .zero⟩)).step
    (.node ⟨"b", .task, "", "", .zero⟩)
  have doubled := ((nodes.step (.flow "a" "b" "")).step (.flow "a" "b" "")).step (.flow "a" "a" "")
  refine ⟨_, _, doubled, by decide +kernel, ?_⟩
  exact (doubled.in_order_iff ⟨"a", .task, "", some "p", .zero⟩).2.1.mp (by decide +kernel)

/-- A flow to another element comes in between, and is listed last. -/
theorem not_in_order_broken : ∃ r record, Grown r record ∧
    (accepted record).map (fun f => (f.id, f.source.id, f.target.id))
      = [("Flow_1", "a", "b"), ("Flow_2", "a", "c"), ("Flow_3", "a", "b")] ∧
    (r.find? "a").map (fun e => (r.outgoing e).map (·.id)) = some ["Flow_1", "Flow_3", "Flow_2"] := by
  have start : Grown _ [] := @Grown.empty "p" .process "" _ rfl
  have nodes := ((start.step (.node ⟨"a", .task, "", "", .zero⟩)).step
    (.node ⟨"b", .task, "", "", .zero⟩)).step (.node ⟨"c", .task, "", "", .zero⟩)
  have broken := ((nodes.step (.flow "a" "b" "")).step (.flow "a" "c" "")).step (.flow "a" "b" "")
  exact ⟨_, _, broken, by decide +kernel, by decide +kernel⟩

end Registry
end ProcessDiagram
