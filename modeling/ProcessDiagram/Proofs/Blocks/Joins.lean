import ProcessDiagram.Proofs.Blocks.Linked
import ProcessDiagram.Proofs.Diagram.Nearest

/-!
Every split of a row closes at its own join: beyond a branch the flows lead through the join, and
no two branches share an element.
-/
namespace ProcessDiagram.Blocks

variable {d : Diagram}

theorem leads_of_mem_targets {e target : Element} (h : target ∈ d.targets e) :
    d.Leads e.id target.id := by
  obtain ⟨f, hf, rfl⟩ := List.mem_map.mp h
  exact Diagram.leads_iff.mpr (.inr ⟨f, hf, .refl _⟩)

theorem leads_iff_of_targets {e : Element} {x : String} :
    d.Leads e.id x ↔ x = e.id ∨ ∃ target ∈ d.targets e, d.Leads target.id x := by
  rw [Diagram.leads_iff]
  simp only [Diagram.targets, List.mem_map, exists_exists_and_eq_and]

/-- From a row the flows lead to its elements and to what its next element leads to. -/
theorem leads_inside (bs : Blocks) : ∀ (next : Element) (x : String), bs.Linked d next →
    d.Leads (bs.entry next).id x → x ∈ bs.elements.map (·.id) ∨ d.Leads next.id x := by
  induction bs using Blocks.induction with
  | nil =>
      intro next x _ leads
      exact .inr leads
  | task work rest ih =>
      intro next x linked leads
      obtain ⟨onward, linked⟩ := linked
      rw [elements, List.map_cons, List.mem_cons, or_assoc]
      cases leads_iff_of_targets.mp leads with
      | inl here => exact .inl here
      | inr later =>
          obtain ⟨target, ht, leads⟩ := later
          rw [entry, onward, List.mem_singleton] at ht
          exact .inr (ih next x linked (ht ▸ leads))
  | split gateway branches join rest ihs ih =>
      intro next x linked leads
      obtain ⟨out, inner, behind, linked⟩ := linked
      rw [allLinked_iff] at inner
      have fromJoin : d.Leads join.id x → x ∈ (join :: rest.elements).map (·.id) ∨
          d.Leads next.id x := by
        intro leads
        rw [List.map_cons, List.mem_cons, or_assoc]
        cases leads_iff_of_targets.mp leads with
        | inl here => exact .inl here
        | inr later =>
            obtain ⟨target, ht, leads⟩ := later
            rw [behind, List.mem_singleton] at ht
            exact .inr (ih next x linked (ht ▸ leads))
      rw [elements, List.map_cons, List.map_append, List.mem_cons, List.mem_append]
      cases leads_iff_of_targets.mp leads with
      | inl here => exact .inl (.inl here)
      | inr later =>
          obtain ⟨target, ht, leads⟩ := later
          rw [entry, out] at ht
          obtain ⟨b, hb, rfl⟩ := List.mem_map.mp ht
          cases ihs b hb join x (inner b hb) leads with
          | inl branch =>
              obtain ⟨e, he, rfl⟩ := List.mem_map.mp branch
              exact .inl (.inr (.inl (List.mem_map_of_mem (mem_elementsAll.mpr ⟨b, hb, he⟩))))
          | inr beyond =>
              cases fromJoin beyond with
              | inl joined => exact .inl (.inr (.inr joined))
              | inr past => exact .inr past

theorem exists_mem_of_two_le {branches : List Blocks} (h : 2 ≤ branches.length) :
    ∃ b, b ∈ branches := by
  apply List.exists_mem_of_length_pos
  omega

theorem leads_next (bs : Blocks) : ∀ next, bs.WellFormed → bs.Linked d next →
    d.Leads (bs.entry next).id next.id := by
  induction bs using Blocks.induction with
  | nil =>
      intro next _ _
      exact .refl _
  | task work rest ih =>
      intro next wellFormed linked
      obtain ⟨onward, linked⟩ := linked
      have first : d.Leads work.id (rest.entry next).id :=
        leads_of_mem_targets (onward ▸ List.mem_singleton_self _)
      exact first.trans (ih next wellFormed.2 linked)
  | split gateway branches join rest ihs ih =>
      intro next wellFormed linked
      obtain ⟨_, _, several, inside, restwise⟩ := wellFormed
      obtain ⟨out, inner, behind, linked⟩ := linked
      obtain ⟨b, hb⟩ := exists_mem_of_two_le several
      have into : d.Leads gateway.id (b.entry join).id :=
        leads_of_mem_targets (out ▸ List.mem_map_of_mem hb)
      have through := ihs b hb join (allWellFormed_iff.mp inside b hb) (allLinked_iff.mp inner b hb)
      have first : d.Leads join.id (rest.entry next).id :=
        leads_of_mem_targets (behind ▸ List.mem_singleton_self _)
      exact ((into.trans through).trans first).trans (ih next restwise linked)

/-- What two branches share lies behind the join. -/
theorem leads_join_of_common (c : d.Consistent) {branches : List Blocks} {join x : Element}
    (several : 2 ≤ branches.length) (nodup : (elementsAll branches).Nodup)
    (inside : ∀ e ∈ elementsAll branches, e ∈ d.nodes) (linked : AllLinked d branches join)
    (hx : x ∈ d.nodes) (common : ∀ b ∈ branches, d.Leads (b.entry join).id x.id) :
    d.Leads join.id x.id := by
  match branches, several with
  | first :: second :: others, _ =>
      have within : ∀ b ∈ first :: second :: others, x ∈ b.elements ∨ d.Leads join.id x.id := by
        intro b hb
        cases leads_inside b join x.id (allLinked_iff.mp linked b hb) (common b hb) with
        | inl branch =>
            obtain ⟨e, he, same⟩ := List.mem_map.mp branch
            have node := inside e (mem_elementsAll.mpr ⟨b, hb, he⟩)
            exact .inl (c.eq_of_id node hx same ▸ he)
        | inr beyond => exact .inr beyond
      cases within first List.mem_cons_self with
      | inr beyond => exact beyond
      | inl here =>
          cases within second (List.mem_cons_of_mem _ List.mem_cons_self) with
          | inr beyond => exact beyond
          | inl there =>
              rw [elementsAll, List.nodup_append] at nodup
              have later : x ∈ elementsAll (second :: others) :=
                mem_elementsAll.mpr ⟨second, List.mem_cons_self, there⟩
              exact absurd rfl (nodup.2.2 x here x later)

/-- A row of blocks that stands in a diagram, in front of an element. -/
structure Placed (d : Diagram) (bs : Blocks) (next : Element) : Prop where
  nodup : bs.elements.Nodup
  inside : ∀ e ∈ bs.elements, e ∈ d.nodes
  wellFormed : bs.WellFormed
  linked : bs.Linked d next

namespace Placed

theorem rest_of_task {work next : Element} {rest : Blocks}
    (h : Placed d (task work rest) next) : Placed d rest next :=
  ⟨(List.nodup_cons.mp h.nodup).2, fun e he => h.inside e (List.mem_cons_of_mem _ he),
    h.wellFormed.2, h.linked.2⟩

variable {gateway join next : Element} {branches : List Blocks} {rest : Blocks}

theorem apart (h : Placed d (split gateway branches join rest) next) :
    Apart gateway branches join rest :=
  apart_of_nodup h.nodup

theorem gateway_mem (h : Placed d (split gateway branches join rest) next) :
    gateway ∈ d.nodes :=
  h.inside gateway List.mem_cons_self

theorem join_mem (h : Placed d (split gateway branches join rest) next) : join ∈ d.nodes :=
  h.inside join join_mem_split

theorem branches_mem (h : Placed d (split gateway branches join rest) next) :
    ∀ e ∈ elementsAll branches, e ∈ d.nodes :=
  fun e he => h.inside e (mem_split_of_inside he)

theorem branch (h : Placed d (split gateway branches join rest) next) {b : Blocks}
    (hb : b ∈ branches) : Placed d b join := by
  obtain ⟨_, _, _, branchwise, _⟩ := h.wellFormed
  obtain ⟨_, inner, _, _⟩ := h.linked
  refine ⟨nodup_of_mem h.apart.inside_nodup hb, ?_, allWellFormed_iff.mp branchwise b hb,
    allLinked_iff.mp inner b hb⟩
  intro e he
  exact h.branches_mem e (mem_elementsAll.mpr ⟨b, hb, he⟩)

theorem rest_of_split (h : Placed d (split gateway branches join rest) next) :
    Placed d rest next := by
  obtain ⟨_, _, _, _, restwise⟩ := h.wellFormed
  obtain ⟨_, _, _, linked⟩ := h.linked
  refine ⟨h.apart.rest_nodup, ?_, restwise, linked⟩
  intro e he
  exact h.inside e (mem_split_of_rest he)

theorem numbered_mem (h : Placed d (split gateway branches join rest) next) :
    ∀ e ∈ gateway :: rest.elements, e ∈ d.nodes := by
  intro e he
  cases List.mem_cons.mp he with
  | inl same => exact same ▸ h.gateway_mem
  | inr later => exact h.rest_of_split.inside e later

end Placed

/-- A split closes at its join. -/
theorem findJoin_split (c : d.Consistent) (acyclic : d.Acyclic) {gateway join : Element}
    {branches : List Blocks} {rest : Blocks} {next : Element}
    (placed : Placed d (split gateway branches join rest) next) :
    d.findJoin gateway = .closesAt join := by
  obtain ⟨_, isJoin, several, _, _⟩ := placed.wellFormed
  obtain ⟨out, inner, _, _⟩ := placed.linked
  have node := placed.join_mem
  have leaves : d.outgoing gateway ≠ [] := by
    intro none
    rw [Diagram.targets, none] at out
    have count := congrArg List.length out
    rw [List.map_nil, List.length_nil, List.length_map] at count
    omega
  have targets : ∀ (P : Element → Prop), (∀ f ∈ d.outgoing gateway, P f.target) ↔
      ∀ b ∈ branches, P (b.entry join) := by
    intro P
    have same : (∀ t ∈ d.targets gateway, P t) ↔ ∀ t ∈ branches.map (entry · join), P t := by
      rw [out]
    simpa only [Diagram.targets, List.forall_mem_map] using same
  have first : ∀ x ∈ d.commonGateways gateway, d.Leads join.id x.id := by
    intro x hx
    obtain ⟨hx, _, common⟩ := Diagram.mem_commonGateways.mp hx
    exact leads_join_of_common c several placed.apart.inside_nodup placed.branches_mem inner hx
      ((targets fun e => d.Leads e.id x.id).mp common)
  apply Diagram.findJoin_of_unique c.nodes_nodup leaves
  · rw [Diagram.mem_commonGateways]
    refine ⟨node, isJoin, (targets fun e => d.Leads e.id join.id).mpr ?_⟩
    intro b hb
    exact leads_next b join (placed.branch hb).wellFormed (placed.branch hb).linked
  · exact first
  · intro x hx back
    exact c.eq_of_id (Diagram.mem_commonGateways.mp hx).1 node (acyclic.antisymm back (first x hx))

end ProcessDiagram.Blocks
