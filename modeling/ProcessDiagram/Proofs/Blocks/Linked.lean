import ProcessDiagram.Proofs.Blocks.Basic
import ProcessDiagram.Proofs.Diagram.Traffic
import Mathlib.Data.List.Perm.Basic

/-!
Blocks linked by the flows of a diagram. The flows of a row determine the row up to the order of
the branches of its splits; arranged, the branches stand in the order of the flows.
-/
namespace ProcessDiagram

/-- The targets of the edges out of an element. -/
def sent (edges : List (Element × Element)) (e : Element) : List Element :=
  (edges.filter (·.1 == e)).map (·.2)

theorem sent_append (edges more : List (Element × Element)) (e : Element) :
    sent (edges ++ more) e = sent edges e ++ sent more e := by
  rw [sent, List.filter_append, List.map_append]
  rfl

theorem sent_cons_self (e target : Element) (edges : List (Element × Element)) :
    sent ((e, target) :: edges) e = target :: sent edges e := by
  simp [sent]

theorem sent_cons_of_ne {source e : Element} (h : source ≠ e) (target : Element)
    (edges : List (Element × Element)) : sent ((source, target) :: edges) e = sent edges e := by
  simp [sent, h]

theorem sent_map_self (e : Element) (targets : List Element) :
    sent (targets.map fun target => (e, target)) e = targets := by
  induction targets with
  | nil => rfl
  | cons target rest ih => rw [List.map_cons, sent_cons_self, ih]

theorem sent_map_of_ne {source e : Element} (h : source ≠ e) (targets : List Element) :
    sent (targets.map fun target => (source, target)) e = [] := by
  induction targets with
  | nil => rfl
  | cons target rest ih => rw [List.map_cons, sent_cons_of_ne h, ih]

theorem Diagram.Consistent.targets_perm {d : Diagram} (c : d.Consistent)
    {edges : List (Element × Element)}
    (h : (d.flows.map fun f => (f.source, f.target)).Perm edges) {e : Element} (he : e ∈ d.nodes) :
    (d.targets e).Perm (sent edges e) := by
  have own : d.flows.filter (·.source.id == e.id) = d.flows.filter (·.source == e) := by
    apply List.filter_congr
    intro f hf
    by_cases same : f.source = e
    · simp [same]
    · have other : f.source.id ≠ e.id := fun id => same (c.eq_of_id (c.source f hf) he id)
      simp [same, other]
  have grouped : (d.targets e).Perm ((d.flows.filter (·.source == e)).map (·.target)) := by
    rw [targets, outgoing, own]
    exact (grouped_perm _ _).map _
  have paired : (d.flows.filter (·.source == e)).map (·.target)
      = sent (d.flows.map fun f => (f.source, f.target)) e := by
    rw [sent, List.filter_map, List.map_map]
    rfl
  rw [paired] at grouped
  exact grouped.trans ((h.filter _).map _)

namespace Blocks

variable {d : Diagram}

mutual

/-- The flows out of a row are its edges, and branches stand in the order of their flows. -/
def Linked (d : Diagram) : Blocks → Element → Prop
  | nil, _ => True
  | task work rest, next => d.targets work = [rest.entry next] ∧ Linked d rest next
  | split gateway branches join rest, next =>
    d.targets gateway = branches.map (entry · join) ∧ AllLinked d branches join ∧
      d.targets join = [rest.entry next] ∧ Linked d rest next

def AllLinked (d : Diagram) : List Blocks → Element → Prop
  | [], _ => True
  | b :: others, next => Linked d b next ∧ AllLinked d others next

end

theorem allLinked_iff {branches : List Blocks} {next : Element} :
    AllLinked d branches next ↔ ∀ b ∈ branches, b.Linked d next := by
  induction branches with
  | nil => simp [AllLinked]
  | cons b others ih => simp [AllLinked, ih]

/-- The branch that begins with an element. -/
def branchAt? (branches : List Blocks) (join e : Element) : Option Blocks :=
  branches.find? (entry · join == e)

/-- One branch for each flow out of the gateway, the one that the flow leads into. -/
def inOrder (d : Diagram) (gateway join : Element) (branches : List Blocks) : List Blocks :=
  (d.targets gateway).filterMap (branchAt? branches join)

mutual

/-- The same blocks, with the branches of every split in the order of its flows. -/
def arranged (d : Diagram) : Blocks → Blocks
  | nil => nil
  | task work rest => task work (arranged d rest)
  | split gateway branches join rest =>
    split gateway (inOrder d gateway join (arrangedAll d branches)) join (arranged d rest)

def arrangedAll (d : Diagram) : List Blocks → List Blocks
  | [] => []
  | b :: others => arranged d b :: arrangedAll d others

end

theorem arrangedAll_eq_map (branches : List Blocks) :
    arrangedAll d branches = branches.map (arranged d) := by
  induction branches with
  | nil => rfl
  | cons b others ih => rw [arrangedAll, ih, List.map_cons]

theorem entry_arranged (bs : Blocks) (next : Element) :
    (bs.arranged d).entry next = bs.entry next := by
  cases bs <;> rw [arranged] <;> rfl

theorem sent_edges_of_not_mem {bs : Blocks} {e : Element} (h : e ∉ bs.elements) (next : Element) :
    sent (bs.edges next) e = [] := by
  rw [sent, List.map_eq_nil_iff, List.filter_eq_nil_iff]
  intro edge out same
  exact h (beq_iff_eq.mp same ▸ source_mem bs next edge out)

theorem sent_edgesAll_of_not_mem {branches : List Blocks} {e : Element}
    (h : e ∉ elementsAll branches) (next : Element) : sent (edgesAll branches next) e = [] := by
  rw [sent, List.map_eq_nil_iff, List.filter_eq_nil_iff]
  intro edge out same
  obtain ⟨b, hb, out⟩ := mem_edgesAll.mp out
  exact h (mem_elementsAll.mpr ⟨b, hb, beq_iff_eq.mp same ▸ source_mem b next edge out⟩)

theorem sent_edgesAll_of_mem {branches : List Blocks} (nodup : (elementsAll branches).Nodup)
    {b : Blocks} (hb : b ∈ branches) {e : Element} (he : e ∈ b.elements) (next : Element) :
    sent (edgesAll branches next) e = sent (b.edges next) e := by
  induction branches with
  | nil => cases hb
  | cons head others ih =>
      rw [elementsAll, List.nodup_append] at nodup
      obtain ⟨_, later, apart⟩ := nodup
      rw [edgesAll, sent_append]
      cases List.mem_cons.mp hb with
      | inl first =>
          subst first
          have absent : e ∉ elementsAll others := fun again => apart e he e again rfl
          rw [sent_edgesAll_of_not_mem absent, List.append_nil]
      | inr second =>
          have absent : e ∉ head.elements := by
            intro again
            exact apart e again e (mem_elementsAll.mpr ⟨b, second, he⟩) rfl
          rw [sent_edges_of_not_mem absent, List.nil_append, ih later second]

theorem eq_of_entry {branches : List Blocks} (nodup : (elementsAll branches).Nodup)
    {join : Element} (absent : join ∉ elementsAll branches) {b b' : Blocks} (hb : b ∈ branches)
    (hb' : b' ∈ branches) (same : b.entry join = b'.entry join) : b = b' := by
  cases entry_eq_or_mem b join with
  | inl empty =>
      cases entry_eq_or_mem b' join with
      | inl empty' => exact empty.1.trans empty'.1.symm
      | inr inside =>
          rw [← same, empty.2] at inside
          exact absurd (mem_elementsAll.mpr ⟨b', hb', inside⟩) absent
  | inr inside =>
      cases entry_eq_or_mem b' join with
      | inl empty' =>
          rw [same, empty'.2] at inside
          exact absurd (mem_elementsAll.mpr ⟨b, hb, inside⟩) absent
      | inr inside' => exact eq_of_shared nodup hb hb' inside (same ▸ inside')

section InOrder

variable {gateway join : Element} {branches : List Blocks}

theorem branchAt?_eq_some {b : Blocks} {e : Element} (h : branchAt? branches join e = some b) :
    b ∈ branches ∧ b.entry join = e := by
  rw [branchAt?] at h
  refine ⟨List.mem_of_find?_eq_some h, ?_⟩
  simpa using List.find?_some h

theorem exists_branchAt? (join : Element) {b : Blocks} (h : b ∈ branches) :
    ∃ b' ∈ branches, branchAt? branches join (b.entry join) = some b' ∧
      b'.entry join = b.entry join := by
  cases found : branchAt? branches join (b.entry join) with
  | none =>
      rw [branchAt?, List.find?_eq_none] at found
      exact absurd (beq_self_eq_true _) (found b h)
  | some b' =>
      obtain ⟨hb, same⟩ := branchAt?_eq_some found
      exact ⟨b', hb, rfl, same⟩

theorem mem_of_mem_inOrder {b : Blocks} (h : b ∈ inOrder d gateway join branches) :
    b ∈ branches := by
  obtain ⟨e, _, found⟩ := List.mem_filterMap.mp h
  exact (branchAt?_eq_some found).1

/-- Where the flows lead into the branches, the branches in order are the targets in order. -/
theorem entries_inOrder (h : ∀ e ∈ d.targets gateway, ∃ b ∈ branches, b.entry join = e) :
    (inOrder d gateway join branches).map (entry · join) = d.targets gateway := by
  rw [inOrder]
  revert h
  generalize d.targets gateway = targets
  intro h
  induction targets with
  | nil => rfl
  | cons e rest ih =>
      obtain ⟨b, hb, leads⟩ := h e List.mem_cons_self
      obtain ⟨b', _, found, same⟩ := exists_branchAt? join hb
      rw [leads] at found same
      rw [List.filterMap_cons_some found, List.map_cons, same,
        ih fun e he => h e (List.mem_cons_of_mem _ he)]

theorem inOrder_perm (nodup : (elementsAll branches).Nodup)
    (absent : join ∉ elementsAll branches)
    (h : (d.targets gateway).Perm (branches.map (entry · join))) :
    (inOrder d gateway join branches).Perm branches := by
  have own : ∀ b ∈ branches, (branchAt? branches join ∘ (entry · join)) b = some b := by
    intro b hb
    obtain ⟨b', hb', found, same⟩ := exists_branchAt? join hb
    exact found.trans (congrArg some (eq_of_entry nodup absent hb' hb same))
  have kept : (branches.map (entry · join)).filterMap (branchAt? branches join) = branches := by
    rw [List.filterMap_map]
    calc branches.filterMap (branchAt? branches join ∘ (entry · join))
        = branches.filterMap some := List.filterMap_congr own
      _ = branches := List.filterMap_some
  exact (h.filterMap _).trans (.of_eq kept)

end InOrder

theorem elementsAll_perm {branches branches' : List Blocks} (h : branches.Perm branches') :
    (elementsAll branches).Perm (elementsAll branches') := by
  induction h with
  | nil => exact .refl _
  | cons b _ ih => exact ih.append_left b.elements
  | swap b b' rest =>
      rw [elementsAll, elementsAll, elementsAll, elementsAll, ← List.append_assoc,
        ← List.append_assoc]
      exact List.perm_append_comm.append_right _
  | trans _ _ ih ih' => exact ih.trans ih'

theorem elementsAll_map_perm {f : Blocks → Blocks} {branches : List Blocks}
    (h : ∀ b ∈ branches, (f b).elements.Perm b.elements) :
    (elementsAll (branches.map f)).Perm (elementsAll branches) := by
  induction branches with
  | nil => exact .refl _
  | cons b others ih =>
      rw [List.map_cons, elementsAll, elementsAll]
      exact (h b List.mem_cons_self).append (ih fun b' hb => h b' (List.mem_cons_of_mem _ hb))

section SplitEdges

variable {gateway join : Element} {branches : List Blocks} {rest : Blocks}

theorem out_edges (gateway join : Element) (branches : List Blocks) :
    branches.map (fun b => (gateway, b.entry join))
      = (branches.map (entry · join)).map fun target => (gateway, target) := by
  rw [List.map_map]
  rfl

theorem sent_split_gateway (apart : Apart gateway branches join rest) (next : Element) :
    sent ((split gateway branches join rest).edges next) gateway
      = branches.map (entry · join) := by
  rw [edges, sent_append, sent_append, sent_cons_of_ne apart.gateway_join.symm, out_edges,
    sent_map_self, sent_edgesAll_of_not_mem apart.gateway_inside,
    sent_edges_of_not_mem apart.gateway_rest, List.append_nil, List.append_nil]

theorem sent_split_of_ne {e : Element} (other : gateway ≠ e) (next : Element) :
    sent ((split gateway branches join rest).edges next) e
      = sent (edgesAll branches join) e ++ sent ((join, rest.entry next) :: rest.edges next) e := by
  rw [edges, sent_append, sent_append, out_edges, sent_map_of_ne other, List.nil_append]

theorem sent_split_join (apart : Apart gateway branches join rest) (next : Element) :
    sent ((split gateway branches join rest).edges next) join = [rest.entry next] := by
  rw [sent_split_of_ne apart.gateway_join, sent_edgesAll_of_not_mem apart.join_inside,
    List.nil_append, sent_cons_self, sent_edges_of_not_mem apart.join_rest]

theorem sent_split_inside (apart : Apart gateway branches join rest) (next : Element)
    {b : Blocks} (hb : b ∈ branches) {e : Element} (he : e ∈ b.elements) :
    sent ((split gateway branches join rest).edges next) e = sent (b.edges join) e := by
  have inside : e ∈ elementsAll branches := mem_elementsAll.mpr ⟨b, hb, he⟩
  have gateway_ne : gateway ≠ e := fun same => apart.gateway_inside (same ▸ inside)
  have join_ne : join ≠ e := fun same => apart.join_inside (same ▸ inside)
  rw [sent_split_of_ne gateway_ne, sent_cons_of_ne join_ne,
    sent_edges_of_not_mem (apart.inside_rest e inside), List.append_nil,
    sent_edgesAll_of_mem apart.inside_nodup hb he]

theorem sent_split_rest (apart : Apart gateway branches join rest) (next : Element)
    {e : Element} (he : e ∈ rest.elements) :
    sent ((split gateway branches join rest).edges next) e = sent (rest.edges next) e := by
  have gateway_ne : gateway ≠ e := fun same => apart.gateway_rest (same ▸ he)
  have join_ne : join ≠ e := fun same => apart.join_rest (same ▸ he)
  have outside : e ∉ elementsAll branches := fun inside => apart.inside_rest e inside he
  rw [sent_split_of_ne gateway_ne, sent_cons_of_ne join_ne, sent_edgesAll_of_not_mem outside,
    List.nil_append]

end SplitEdges

/-- The flows of the diagram are those of the row. -/
def Flowing (d : Diagram) (bs : Blocks) (next : Element) : Prop :=
  ∀ e ∈ bs.elements, (d.targets e).Perm (sent (bs.edges next) e)

/-- The branches of a split, each arranged and all in the order of the flows. -/
theorem inOrder_arranged {gateway join : Element} {branches : List Blocks}
    (nodup : (elementsAll branches).Nodup) (absent : join ∉ elementsAll branches)
    (inside : ∀ b ∈ branches, (b.arranged d).elements.Perm b.elements)
    (out : (d.targets gateway).Perm (branches.map (entry · join))) :
    (inOrder d gateway join (arrangedAll d branches)).Perm (branches.map (arranged d)) ∧
      (elementsAll (inOrder d gateway join (arrangedAll d branches))).Perm (elementsAll branches) ∧
      d.targets gateway
        = (inOrder d gateway join (arrangedAll d branches)).map (entry · join) := by
  rw [arrangedAll_eq_map]
  have kept := elementsAll_map_perm inside
  have into : (branches.map (arranged d)).map (entry · join) = branches.map (entry · join) := by
    rw [List.map_map]
    exact List.map_congr_left fun b _ => entry_arranged b join
  rw [← into] at out
  have ordered := inOrder_perm (kept.nodup_iff.mpr nodup)
    (fun again => absent (kept.mem_iff.mp again)) out
  refine ⟨ordered, (elementsAll_perm ordered).trans kept, (entries_inOrder ?_).symm⟩
  intro e he
  obtain ⟨b, hb, leads⟩ := List.mem_map.mp (out.mem_iff.mp he)
  exact ⟨b, hb, leads⟩

/-- What arranging keeps, and what it is for. -/
theorem arranged_spec (bs : Blocks) : ∀ next, bs.elements.Nodup → Flowing d bs next →
    (bs.arranged d).elements.Perm bs.elements ∧ (bs.arranged d).Linked d next ∧
      (bs.WellFormed → (bs.arranged d).WellFormed) := by
  induction bs using Blocks.induction with
  | nil =>
      intro next _ _
      exact ⟨.refl _, trivial, id⟩
  | task work rest ih =>
      intro next nodup flowing
      rw [elements, List.nodup_cons] at nodup
      have behind : Flowing d rest next := by
        intro e he
        have own := flowing e (List.mem_cons_of_mem _ he)
        have other : work ≠ e := fun same => nodup.1 (same ▸ he)
        rw [edges, sent_cons_of_ne other] at own
        exact own
      obtain ⟨same, linked, wellFormed⟩ := ih next nodup.2 behind
      have own := flowing work List.mem_cons_self
      rw [edges, sent_cons_self, sent_edges_of_not_mem nodup.1] at own
      rw [arranged, elements, elements, Linked, entry_arranged, WellFormed, WellFormed]
      exact ⟨same.cons work, ⟨List.perm_singleton.mp own, linked⟩, And.imp_right wellFormed⟩
  | split gateway branches join rest ihs ih =>
      intro next nodup flowing
      have apart := apart_of_nodup nodup
      have inside : ∀ b ∈ branches, (b.arranged d).elements.Perm b.elements ∧
          (b.arranged d).Linked d join ∧ (b.WellFormed → (b.arranged d).WellFormed) := by
        intro b hb
        apply ihs b hb join (nodup_of_mem apart.inside_nodup hb)
        intro e he
        have own := flowing e (mem_split_of_inside (mem_elementsAll.mpr ⟨b, hb, he⟩))
        rw [sent_split_inside apart next hb he] at own
        exact own
      obtain ⟨same, linked, wellFormed⟩ := ih next apart.rest_nodup (by
        intro e he
        have own := flowing e (mem_split_of_rest he)
        rw [sent_split_rest apart next he] at own
        exact own)
      have out := flowing gateway List.mem_cons_self
      rw [sent_split_gateway apart next] at out
      have behind := flowing join join_mem_split
      rw [sent_split_join apart next] at behind
      obtain ⟨ordered, kept, onward⟩ := inOrder_arranged apart.inside_nodup apart.join_inside
        (fun b hb => (inside b hb).1) out
      have branch : ∀ b ∈ inOrder d gateway join (arrangedAll d branches),
          ∃ b' ∈ branches, b'.arranged d = b := by
        intro b hb
        exact List.mem_map.mp (ordered.mem_iff.mp hb)
      rw [arranged, elements, elements, Linked, entry_arranged, allLinked_iff, WellFormed,
        WellFormed, allWellFormed_iff, allWellFormed_iff]
      refine ⟨?_, ⟨onward, ?_, List.perm_singleton.mp behind, linked⟩, ?_⟩
      · exact (kept.append (same.cons join)).cons gateway
      · intro b hb
        obtain ⟨b', hb', rfl⟩ := branch b hb
        exact (inside b' hb').2.1
      · intro h
        obtain ⟨isSplit, isJoin, several, branchwise, restwise⟩ := h
        refine ⟨isSplit, isJoin, ?_, ?_, wellFormed restwise⟩
        · rw [ordered.length_eq, List.length_map]
          exact several
        · intro b hb
          obtain ⟨b', hb', rfl⟩ := branch b hb
          exact (inside b' hb').2.2 (branchwise b' hb')

end Blocks
end ProcessDiagram
