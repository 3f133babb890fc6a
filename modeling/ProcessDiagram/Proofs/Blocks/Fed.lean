import ProcessDiagram.Proofs.Blocks.Joins

/-!
Traffic through a row of blocks. What reaches the row at its entry reaches its parts one after the
other, and a join gets what the branches that are taken let through.
-/
namespace ProcessDiagram.Blocks

variable {d : Diagram} {takes : Element → Nat → Bool} {left reached : Element → Nat}

/-- The elements of a row are reached by a number of tokens at its entry and by what they send to
one another. -/
def Fed (d : Diagram) (takes : Element → Nat → Bool) (left reached : Element → Nat) (bs : Blocks)
    (next : Element) (n : Nat) : Prop :=
  ∀ e ∈ bs.elements,
    reached e = (if bs.entry next = e then n else 0) + d.inflow takes left bs.elements e

theorem mul_count_singleton (n : Nat) (a x : Element) :
    n * [a].count x = if a = x then n else 0 := by
  rw [List.count_singleton]
  by_cases same : a = x
  · simp [same]
  · simp [same, beq_eq_false_iff_ne.mpr same]

theorem entry_ne {bs : Blocks} {next x : Element} (outside : x ∉ bs.elements) (other : next ≠ x) :
    bs.entry next ≠ x := by
  intro same
  cases entry_eq_or_mem bs next with
  | inl empty => exact other (empty.2.symm.trans same)
  | inr inside => exact outside (same ▸ inside)

theorem targets_inside (bs : Blocks) : ∀ next, bs.Linked d next → ∀ e ∈ bs.elements,
    ∀ x ∈ d.targets e, x ∈ bs.elements ∨ x = next := by
  induction bs using Blocks.induction with
  | nil =>
      intro next _ e he
      cases he
  | task work rest ih =>
      intro next linked e he x hx
      obtain ⟨onward, linked⟩ := linked
      have behind : x ∈ rest.elements ∨ x = next := by
        cases List.mem_cons.mp he with
        | inl here =>
            rw [here, onward] at hx
            exact (List.mem_append.mp (List.mem_singleton.mp hx ▸ entry_mem rest next)).imp_right
              List.mem_singleton.mp
        | inr later => exact ih next linked e later x hx
      exact behind.imp_left (List.mem_cons_of_mem _)
  | split gateway branches join rest ihs ih =>
      intro next linked e he x hx
      obtain ⟨out, inner, behind, linked⟩ := linked
      have branch : ∀ b ∈ branches, x ∈ b.elements ∨ x = join →
          x ∈ (split gateway branches join rest).elements := by
        intro b hb into
        cases into with
        | inl inside => exact mem_split_of_inside (mem_elementsAll.mpr ⟨b, hb, inside⟩)
        | inr joined => exact joined ▸ join_mem_split
      have later : x ∈ rest.elements ∨ x = next →
          x ∈ (split gateway branches join rest).elements ∨ x = next := by
        intro into
        exact into.imp_left mem_split_of_rest
      obtain rfl | inside | rfl | after := mem_elements_split.mp he
      · rw [out] at hx
        obtain ⟨b, hb, rfl⟩ := List.mem_map.mp hx
        refine .inl (branch b hb ?_)
        exact (List.mem_append.mp (entry_mem b join)).imp_right List.mem_singleton.mp
      · obtain ⟨b, hb, inside⟩ := mem_elementsAll.mp inside
        refine .inl (branch b hb ?_)
        exact ihs b hb join (allLinked_iff.mp inner b hb) e inside x hx
      · rw [behind, List.mem_singleton] at hx
        subst hx
        apply later
        exact (List.mem_append.mp (entry_mem rest next)).imp_right List.mem_singleton.mp
      · exact later (ih next linked e after x hx)

theorem inflow_outside {bs : Blocks} {next x : Element} (linked : bs.Linked d next)
    (outside : x ∉ bs.elements) (other : next ≠ x) :
    d.inflow takes left bs.elements x = 0 := by
  apply Diagram.inflow_eq_zero
  intro e he hx
  cases targets_inside bs next linked e he x hx with
  | inl inside => exact outside inside
  | inr behind => exact other behind.symm

theorem inflow_elementsAll_outside {branches : List Blocks} {join x : Element}
    (linked : AllLinked d branches join) (outside : x ∉ elementsAll branches)
    (other : join ≠ x) : d.inflow takes left (elementsAll branches) x = 0 := by
  apply Diagram.inflow_eq_zero
  intro e he hx
  obtain ⟨b, hb, inside⟩ := mem_elementsAll.mp he
  cases targets_inside b join (allLinked_iff.mp linked b hb) e inside x hx with
  | inl within => exact outside (mem_elementsAll.mpr ⟨b, hb, within⟩)
  | inr behind => exact other behind.symm

/-- Branches send nothing into one another. -/
theorem inflow_elementsAll_inside {branches : List Blocks} {join : Element}
    (linked : AllLinked d branches join) (nodup : (elementsAll branches).Nodup)
    (absent : join ∉ elementsAll branches) {b : Blocks} (hb : b ∈ branches) {x : Element}
    (hx : x ∈ b.elements) :
    d.inflow takes left (elementsAll branches) x = d.inflow takes left b.elements x := by
  have other : join ≠ x := fun same => absent (same ▸ mem_elementsAll.mpr ⟨b, hb, hx⟩)
  induction branches with
  | nil => cases hb
  | cons head others ih =>
      rw [elementsAll, List.nodup_append] at nodup
      rw [elementsAll, List.mem_append, not_or] at absent
      obtain ⟨first, linked⟩ := linked
      obtain ⟨_, later, apart⟩ := nodup
      rw [elementsAll, Diagram.inflow_append]
      cases List.mem_cons.mp hb with
      | inl same =>
          subst same
          rw [inflow_elementsAll_outside linked (fun again => apart x hx x again rfl) other,
            Nat.add_zero]
      | inr second =>
          have away : x ∉ head.elements := by
            intro again
            exact apart x again x (mem_elementsAll.mpr ⟨b, second, hx⟩) rfl
          rw [inflow_outside first away other, Nat.zero_add, ih linked later absent.2 second]

theorem count_entries_eq_zero {branches : List Blocks} {join x : Element}
    (outside : x ∉ elementsAll branches) (other : join ≠ x) (taken : Nat → Bool) :
    (kept taken (branches.map (entry · join))).count x = 0 := by
  rw [List.count_eq_zero]
  intro again
  obtain ⟨b, hb, same⟩ := List.mem_map.mp ((kept_sublist _ _).subset again)
  exact entry_ne (fun inside => outside (mem_elementsAll.mpr ⟨b, hb, inside⟩)) other same

theorem count_entries {branches : List Blocks} {join : Element}
    (nodup : (elementsAll branches).Nodup) (absent : join ∉ elementsAll branches)
    (taken : Nat → Bool) {i : Nat} {b : Blocks} (hb : branches[i]? = some b) {x : Element}
    (hx : x ∈ b.elements) :
    (kept taken (branches.map (entry · join))).count x
      = if b.entry join = x then (if taken i then 1 else 0) else 0 := by
  have other : join ≠ x :=
    fun same => absent (same ▸ mem_elementsAll.mpr ⟨b, List.mem_of_getElem? hb, hx⟩)
  induction branches generalizing taken i with
  | nil => cases hb
  | cons head others ih =>
      rw [elementsAll, List.nodup_append] at nodup
      rw [elementsAll, List.mem_append, not_or] at absent
      obtain ⟨_, later, apart⟩ := nodup
      rw [List.map_cons, kept]
      cases i with
      | zero =>
          cases hb
          have none := count_entries_eq_zero (fun again => apart x hx x again rfl) other
            fun i => taken (i + 1)
          cases taken 0 <;> simp [List.count_cons, none]
      | succ i =>
          have away : entry head join ≠ x := by
            apply entry_ne _ other
            intro again
            exact apart x again x
              (mem_elementsAll.mpr ⟨b, List.mem_of_getElem? hb, hx⟩) rfl
          rw [← ih later absent.2 (fun i => taken (i + 1)) hb]
          split
          · rw [List.count_cons_of_ne away]
          · rfl

/-- What the branches that are taken let through reaches the join. -/
theorem inflow_join {branches : List Blocks} {join : Element} (taken : Nat → Bool) {n : Nat}
    (through : ∀ (i : Nat) (b : Blocks), branches[i]? = some b →
      (if b.entry join = join then (if taken i then n else 0) else 0)
        + d.inflow takes left b.elements join = if taken i then n else 0) :
    n * (kept taken (branches.map (entry · join))).count join
        + d.inflow takes left (elementsAll branches) join = n * (kept taken branches).length := by
  induction branches generalizing taken with
  | nil => rfl
  | cons b others ih =>
      have first := through 0 b rfl
      have later := ih (fun i => taken (i + 1)) fun i b' hb' => through (i + 1) b' hb'
      rw [List.map_cons, kept, kept, elementsAll, Diagram.inflow_append]
      cases here : taken 0 with
      | false =>
          simp only [here, Bool.false_eq_true, if_false, ite_self] at first ⊢
          omega
      | true =>
          simp only [here, if_true] at first ⊢
          rw [List.length_cons, List.count_cons, Nat.mul_add, Nat.mul_add, ← later]
          by_cases empty : b.entry join = join
          · simp only [empty, beq_self_eq_true, if_true] at first ⊢
            omega
          · simp only [empty, beq_eq_false_iff_ne.mpr empty, if_false] at first ⊢
            simp only [Bool.false_eq_true, if_false]
            omega

section Task

variable {work next : Element} {rest : Blocks} {n : Nat}

theorem inflow_task (onward : d.routes takes work = [rest.entry next]) (x : Element) :
    d.inflow takes left (task work rest).elements x
      = (if rest.entry next = x then left work else 0) + d.inflow takes left rest.elements x := by
  rw [elements, Diagram.inflow_cons, onward, mul_count_singleton]

/-- All tokens reach a task first and, when it is left as often, what comes behind it. -/
theorem Fed.task (nodup : (task work rest).elements.Nodup)
    (outside : next ∉ (task work rest).elements) (linked : rest.Linked d next)
    (onward : d.routes takes work = [rest.entry next])
    (h : Fed d takes left reached (task work rest) next n) :
    reached work = n ∧ (left work = n → Fed d takes left reached rest next n) := by
  rw [elements, List.nodup_cons] at nodup
  rw [elements, List.mem_cons, not_or] at outside
  constructor
  · have own := h work List.mem_cons_self
    rw [inflow_task onward, if_neg (entry_ne nodup.1 outside.1),
      inflow_outside linked nodup.1 outside.1, entry, if_pos rfl] at own
    exact own
  · intro all e he
    have own := h e (List.mem_cons_of_mem _ he)
    have other : work ≠ e := fun same => nodup.1 (same ▸ he)
    rw [inflow_task onward, entry, if_neg other, Nat.zero_add, all] at own
    exact own

end Task

section Split

variable {gateway join next : Element} {branches : List Blocks} {rest : Blocks} {n : Nat}

theorem inflow_split (out : d.targets gateway = branches.map (entry · join))
    (onward : d.routes takes join = [rest.entry next]) (x : Element) :
    d.inflow takes left (split gateway branches join rest).elements x
      = left gateway * (kept (takes gateway) (branches.map (entry · join))).count x
        + (d.inflow takes left (elementsAll branches) x
          + ((if rest.entry next = x then left join else 0)
            + d.inflow takes left rest.elements x)) := by
  rw [elements, Diagram.inflow_cons, Diagram.inflow_append, Diagram.inflow_cons, onward,
    mul_count_singleton, Diagram.routes, out]

/-- A split in front of an element, whose join passes its tokens on. -/
structure Passing (d : Diagram) (takes : Element → Nat → Bool) (gateway : Element)
    (branches : List Blocks) (join : Element) (rest : Blocks) (next : Element) : Prop where
  placed : Placed d (split gateway branches join rest) next
  outside : next ∉ (split gateway branches join rest).elements
  onward : d.routes takes join = [rest.entry next]

namespace Passing

variable (p : Passing d takes gateway branches join rest next)
include p

theorem next_ne_gateway : next ≠ gateway :=
  fun same => p.outside (same ▸ List.mem_cons_self)

theorem next_not_inside : next ∉ elementsAll branches :=
  fun inside => p.outside (mem_split_of_inside inside)

theorem next_ne_join : next ≠ join := by
  intro same
  exact p.outside (same ▸ join_mem_split)

theorem next_not_rest : next ∉ rest.elements := by
  intro inside
  exact p.outside (mem_split_of_rest inside)

theorem inflow (x : Element) :
    d.inflow takes left (split gateway branches join rest).elements x
      = left gateway * (kept (takes gateway) (branches.map (entry · join))).count x
        + (d.inflow takes left (elementsAll branches) x
          + ((if rest.entry next = x then left join else 0)
            + d.inflow takes left rest.elements x)) :=
  inflow_split p.placed.linked.1 p.onward x

/-- What is neither in the rest nor behind it gets nothing from the join and the rest. -/
theorem inflow_before {x : Element} (outside : x ∉ rest.elements) (other : next ≠ x) :
    d.inflow takes left (split gateway branches join rest).elements x
      = left gateway * (kept (takes gateway) (branches.map (entry · join))).count x
        + d.inflow takes left (elementsAll branches) x := by
  rw [p.inflow, if_neg (entry_ne outside other),
    inflow_outside p.placed.rest_of_split.linked outside other, Nat.add_zero]

/-- What is neither in a branch nor the join gets nothing from the gateway and the branches. -/
theorem inflow_behind {x : Element} (outside : x ∉ elementsAll branches) (other : join ≠ x) :
    d.inflow takes left (split gateway branches join rest).elements x
      = (if rest.entry next = x then left join else 0) + d.inflow takes left rest.elements x := by
  rw [p.inflow, count_entries_eq_zero outside other,
    inflow_elementsAll_outside p.placed.linked.2.1 outside other, Nat.mul_zero, Nat.zero_add,
    Nat.zero_add]

theorem gateway_reached
    (h : Fed d takes left reached (split gateway branches join rest) next n) :
    reached gateway = n := by
  have apart := p.placed.apart
  have own := h gateway List.mem_cons_self
  rw [p.inflow_before apart.gateway_rest p.next_ne_gateway,
    count_entries_eq_zero apart.gateway_inside apart.gateway_join.symm,
    inflow_elementsAll_outside p.placed.linked.2.1 apart.gateway_inside apart.gateway_join.symm,
    entry, if_pos rfl] at own
  exact own

theorem branch_fed (h : Fed d takes left reached (split gateway branches join rest) next n)
    (all : left gateway = n) {i : Nat} {b : Blocks} (hb : branches[i]? = some b) :
    Fed d takes left reached b join (if takes gateway i then n else 0) := by
  intro e he
  have apart := p.placed.apart
  have member := List.mem_of_getElem? hb
  have inside : e ∈ elementsAll branches := mem_elementsAll.mpr ⟨b, member, he⟩
  have own := h e (mem_split_of_inside inside)
  have gateway_ne : gateway ≠ e := fun same => apart.gateway_inside (same ▸ inside)
  rw [p.inflow_before (apart.inside_rest e inside) fun same => p.next_not_inside (same ▸ inside),
    count_entries apart.inside_nodup apart.join_inside _ hb he,
    inflow_elementsAll_inside p.placed.linked.2.1 apart.inside_nodup apart.join_inside member he,
    entry, if_neg gateway_ne, all] at own
  rw [own]
  by_cases here : b.entry join = e
  · cases takes gateway i <;> simp [here]
  · simp [here]

theorem join_reached (h : Fed d takes left reached (split gateway branches join rest) next n)
    (all : left gateway = n)
    (through : ∀ (i : Nat) (b : Blocks), branches[i]? = some b →
      (if b.entry join = join then (if takes gateway i then n else 0) else 0)
        + d.inflow takes left b.elements join = if takes gateway i then n else 0) :
    reached join = n * (kept (takes gateway) branches).length := by
  have apart := p.placed.apart
  have own := h join join_mem_split
  rw [p.inflow_before apart.join_rest p.next_ne_join, entry, if_neg apart.gateway_join, all,
    inflow_join _ through, Nat.zero_add] at own
  exact own

theorem rest_fed (h : Fed d takes left reached (split gateway branches join rest) next n)
    (all : left join = n) : Fed d takes left reached rest next n := by
  intro e he
  have apart := p.placed.apart
  have own := h e (mem_split_of_rest he)
  have gateway_ne : gateway ≠ e := fun same => apart.gateway_rest (same ▸ he)
  have join_ne : join ≠ e := fun same => apart.join_rest (same ▸ he)
  rw [p.inflow_behind (fun inside => apart.inside_rest e inside he) join_ne, entry,
    if_neg gateway_ne, Nat.zero_add, all] at own
  exact own

theorem entry_and_inflow (all : left join = n) (m : Nat) :
    (if (split gateway branches join rest).entry next = next then m else 0)
        + d.inflow takes left (split gateway branches join rest).elements next
      = (if rest.entry next = next then n else 0) + d.inflow takes left rest.elements next := by
  rw [entry, if_neg p.next_ne_gateway.symm, p.inflow_behind p.next_not_inside p.next_ne_join.symm,
    all, Nat.zero_add]

end Passing

/-- A row sends one token behind it for each token that reaches it. -/
theorem sends_one (bs : Blocks) : ∀ next, Placed d bs next → next ∉ bs.elements →
    (if bs.entry next = next then 1 else 0)
      + d.inflow (fun _ _ => true) (fun _ => 1) bs.elements next = 1 := by
  have along : ∀ e x, d.targets e = [x] → d.routes (fun _ _ => true) e = [x] := by
    intro e x single
    rw [Diagram.routes, kept_all fun _ => rfl, single]
  induction bs using Blocks.induction with
  | nil =>
      intro next _ _
      rw [entry, if_pos rfl]
      rfl
  | task work rest ih =>
      intro next placed outside
      rw [elements, List.mem_cons, not_or] at outside
      rw [entry, if_neg (Ne.symm outside.1), inflow_task (along work _ placed.linked.1), Nat.zero_add]
      exact ih next placed.rest_of_task outside.2
  | split gateway branches join rest _ ih =>
      intro next placed outside
      have p : Passing d (fun _ _ => true) gateway branches join rest next :=
        ⟨placed, outside, along join _ placed.linked.2.2.1⟩
      rw [p.entry_and_inflow rfl 1]
      exact ih next placed.rest_of_split p.next_not_rest

end Split

end ProcessDiagram.Blocks
