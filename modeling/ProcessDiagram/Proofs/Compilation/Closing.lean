import ProcessDiagram.Proofs.Compilation.Named

/-!
Where a join closes its split. The search for a join only asks what the branches can reach, so
a branch may still go around the join that is found. None does exactly when nothing between the
two has a flow that leaves for good; and where this holds of the splits in between as well, what
a branch is compiled to stands in front of the join.

Main statement: `Diagram.closing_of_findJoin`.
-/
namespace ProcessDiagram
namespace Diagram

/-- Between the two, every flow leaves the second within reach. -/
def Enclosed (d : Diagram) (split join : Element) : Prop :=
  ∀ e ∈ d.nodes, e ≠ join → d.Leads split.id e.id → d.Leads e.id join.id →
    ∀ f ∈ d.outgoing e, d.Leads f.target.id join.id

/-- The splits between the two are enclosed by the joins that are found for them. -/
def EachEnclosed (d : Diagram) (split join : Element) : Prop :=
  ∀ e ∈ d.nodes, e ≠ join → e.kind.isGateway = true → 1 < (d.outgoing e).length →
    d.Leads split.id e.id → d.Leads e.id join.id →
      ∀ inner, d.findJoin e = .closesAt inner → d.Enclosed e inner

variable {d : Diagram}

theorem Enclosed.step {e join : Element} {f : Flow} (h : d.Enclosed e join)
    (hf : f ∈ d.outgoing e) : d.Enclosed f.target join := by
  intro x hx other reached
  exact h x hx other (leads_iff.mpr (.inr ⟨f, hf, reached⟩))

/-- A path can only miss the join by a flow after which the join is out of reach. -/
theorem Enclosed.passes (c : d.Consistent) {e join : Element} (he : e ∈ d.nodes)
    (hj : join ∈ d.nodes) (leads : d.Leads e.id join.id) (h : d.Enclosed e join) :
    d.Passes e join := by
  intro path maximal
  induction maximal with
  | @last e none =>
      obtain same | ⟨f, hf, _⟩ := leads_iff.mp leads
      · exact List.mem_singleton.mpr (c.eq_of_id hj he same)
      · rw [none] at hf
        cases hf
  | @step e f path hf _ ih =>
      by_cases same : e = join
      · exact same ▸ List.mem_cons_self
      · have onward := h e he same (.refl _) leads f hf
        exact List.mem_cons_of_mem _ (ih (c.target_mem hf) onward (h.step hf))

/-- From a flow that loses the join, a maximal path goes around it. -/
theorem Passes.enclosed (c : d.Consistent) (acyclic : d.Acyclic) {e join : Element}
    (he : e ∈ d.nodes) (hj : join ∈ d.nodes) (h : d.Passes e join) : d.Enclosed e join := by
  intro x hx other reached onward f hf
  have between := h.of_between c acyclic he hx reached onward hj
  exact (between.step other hf).leads c acyclic

theorem passes_iff_enclosed (c : d.Consistent) (acyclic : d.Acyclic) {e join : Element}
    (he : e ∈ d.nodes) (hj : join ∈ d.nodes) (leads : d.Leads e.id join.id) :
    d.Passes e join ↔ d.Enclosed e join :=
  ⟨Passes.enclosed c acyclic he hj, Enclosed.passes c he hj leads⟩

theorem outgoing_ne_nil_of_findJoin {split join : Element}
    (found : d.findJoin split = .closesAt join) : d.outgoing split ≠ [] := by
  intro none
  rw [findJoin, if_pos (by simp [none])] at found
  cases found

theorem leads_of_findJoin {split join : Element} (found : d.findJoin split = .closesAt join) :
    d.Leads split.id join.id := by
  obtain ⟨f, hf⟩ := List.exists_mem_of_ne_nil _ (outgoing_ne_nil_of_findJoin found)
  obtain ⟨_, _, reached, _⟩ := findJoin_spec found
  exact leads_iff.mpr (.inr ⟨f, hf, reached f hf⟩)

end Diagram

namespace Compilation

open Diagram Region

variable {d : Diagram}

/-- What a walk meets on its way to the stop does not come after the stop. -/
theorem not_leads_of_meets (c : d.Consistent) (acyclic : d.Acyclic) {split join : Element}
    (each : d.EachEnclosed split join) {stop : Option String} {current : Option Element}
    {x : Element} (met : Meets d stop current x) :
    (∀ e, current = some e → Underway d split stop e) →
      ∀ id, stop = some id → d.Leads id join.id → ¬ d.Leads id x.id := by
  induction met with
  | @here stop e going _ =>
      intro inside id here _ back
      rw [Ends, not_or] at going
      obtain ⟨j, _, rfl, _, passes⟩ := (inside e rfl).ahead id here
      have same := acyclic.antisymm (passes.leads c acyclic) back
      exact going.1 (same ▸ here.symm)
  | onward going _ _ ih =>
      intro inside id here before
      rw [Ends, not_or] at going
      exact ih ((inside _ rfl).successor c going.1) id here before
  | @inside stop e inner x f going role closes hf _ ih =>
      intro inside id here before back
      rw [Ends, not_or] at going
      have standing := inside e rfl
      obtain ⟨gateway, several⟩ := gateway_of_split role
      obtain ⟨j, _, rfl, _, passes⟩ := standing.ahead id here
      have leads := passes.leads c acyclic
      have other : e ≠ join := by
        intro same
        exact going.1 (acyclic.antisymm leads (same ▸ before) ▸ here.symm)
      obtain ⟨node, gateway', _, _⟩ := findJoin_spec closes
      have enclosed := each e standing.node other gateway several standing.reached
        (leads.trans before) inner closes
      have through := enclosed.passes c standing.node node (leads_of_findJoin closes)
      have sooner := standing.ahead.join_leads c acyclic going.1 closes _ here
      have ahead : StopAhead d (some inner.id) f.target := by
        intro id same
        cases same
        exact ⟨inner, node, rfl, gateway', through.step (ne_join acyclic role closes) hf⟩
      have reached := (standing.step c going.1 hf).reached
      refine ih ?_ inner.id rfl (sooner.trans before) (sooner.trans back)
      intro e' same
      cases same
      exact ⟨c.target_mem hf, reached, ahead⟩
  | @behind stop e inner x going role closes _ ih =>
      intro inside id here before
      rw [Ends, not_or] at going
      have atJoin := (inside e rfl).at_join c acyclic going.1 role closes
      exact ih (atJoin.afterJoin c) id here before

/-- The branches of a split can stand where the split stands, once the join has to be passed. -/
theorem underway_branch (c : d.Consistent) (acyclic : d.Acyclic) {split join : Element}
    (role : roleOf d split = .split) (found : d.findJoin split = .closesAt join)
    (through : d.Passes split join) {f : Flow} (hf : f ∈ d.outgoing split) :
    Underway d split (some join.id) f.target := by
  obtain ⟨node, gateway, _, _⟩ := findJoin_spec found
  refine ⟨c.target_mem hf, leads_iff.mpr (.inr ⟨f, hf, .refl _⟩), ?_⟩
  intro id same
  cases same
  exact ⟨join, node, rfl, gateway, through.step (ne_join acyclic role found) hf⟩

end Compilation

namespace Diagram

open Compilation Region

/-- What a join that is found for a split says about the ways from there. -/
structure Closing (d : Diagram) (split join : Element) : Prop where
  reached : ∀ f ∈ d.outgoing split, d.Leads f.target.id join.id
  passes_iff : d.Passes split join ↔ d.Enclosed split join
  /-- No region of a compiled branch stands for the join or for what comes after it. -/
  kept : d.EachEnclosed split join → ∀ f ∈ d.outgoing split, ∀ opened seen s items t,
    Within d s.numbers →
      outcome (walk d opened seen (some join.id) (some f.target)) s = (.ok items, t) →
        ∀ r ∈ proper (preorderAll items), ∃ e ∈ d.nodes,
          r.id = t.numbering.number e.id ∧ Stands d e r ∧ ¬ d.Leads join.id e.id

/-- A join is passed exactly when nothing in between can leave it, and then the compiled
branches end in front of it. -/
theorem closing_of_findJoin {d : Diagram} (built : d.Built) (acyclic : d.Acyclic)
    {split join : Element} (hs : split ∈ d.nodes) (gateway : split.kind.isGateway = true)
    (several : 1 < (d.outgoing split).length) (found : d.findJoin split = .closesAt join) :
    d.Closing split join := by
  have c := built.consistent
  have role := role_of_gateway gateway several
  have leads := leads_of_findJoin found
  obtain ⟨node, _, reached, _⟩ := findJoin_spec found
  refine ⟨reached, passes_iff_enclosed c acyclic hs node leads, ?_⟩
  intro each f hf opened seen s items t within success
  have enclosed := each split hs (ne_join acyclic role found) gateway several (.refl _) leads
    join found
  have through := enclosed.passes c hs node leads
  have inside : ∀ e, some f.target = some e → Underway d split (some join.id) e := by
    intro e same
    cases same
    exact underway_branch c acyclic role found through hf
  have walked := (walked_of_ok d).1 _ _ _ _ _ _ _ success
  have nodes : ∀ e, some f.target = some e → e ∈ d.nodes := fun e same => (inside e same).node
  obtain ⟨_, row⟩ := (spelled_of_walked c t.numbers).1 _ _ _ _ _ walked nodes within (.refl _)
  intro r hr
  obtain ⟨e, met, number, stands, _⟩ := row.named r hr
  exact ⟨e, met.mem c nodes, number, stands,
    not_leads_of_meets c acyclic each met inside _ rfl (.refl _)⟩

theorem closing_of_findJoin_fork :
    fork.Passes (forkNode "g" .exclusiveGateway) (forkNode "j" .exclusiveGateway) ∧
      fork.Closing (forkNode "g" .exclusiveGateway) (forkNode "j" .exclusiveGateway) := by
  have found : fork.findJoin (forkNode "g" .exclusiveGateway)
      = .closesAt (forkNode "j" .exclusiveGateway) := by
    cbv
  have leads : fork.Leads "s" "g" := by
    rw [← mem_reachable]
    decide +kernel
  have several : 1 < (fork.outgoing (forkNode "g" .exclusiveGateway)).length := by decide
  exact ⟨joinsPassed_fork _ (by decide) rfl several leads _ found,
    closing_of_findJoin built_fork acyclic_fork (by decide) rfl several found⟩

/-- A choice with a second choice in one branch, which may go around the join of the first. -/
def detour : Diagram :=
  let start := forkNode "s" .startEvent
  let split := forkNode "g" .exclusiveGateway
  let task := forkNode "a" .task
  let inner := forkNode "x" .exclusiveGateway
  let join := forkNode "j" .exclusiveGateway
  let last := forkNode "k" .exclusiveGateway
  let after := forkNode "t" .task
  let done := forkNode "e" .endEvent
  ⟨⟨"p", .process, "", none, .zero⟩, [start, split, task, inner, join, last, after, done],
    [⟨"Flow_1", start, split⟩, ⟨"Flow_2", split, task⟩, ⟨"Flow_3", split, inner⟩,
      ⟨"Flow_4", task, join⟩, ⟨"Flow_5", inner, join⟩, ⟨"Flow_6", inner, last⟩,
      ⟨"Flow_7", join, last⟩, ⟨"Flow_8", last, after⟩, ⟨"Flow_9", after, done⟩]⟩

theorem built_detour : detour.Built :=
  built_of_grow rfl (by decide +kernel)

theorem acyclic_detour : detour.Acyclic := by
  apply acyclic_of_rank fun id => ["s", "g", "a", "x", "j", "k", "t", "e"].idxOf id
  decide

/-- A path from the first choice goes around its join, and the branch with the second choice is
compiled past it, with the task that follows the join. -/
theorem detour_goes_around :
    detour.Built ∧ detour.Acyclic ∧
      1 < (detour.outgoing (forkNode "g" .exclusiveGateway)).length ∧
      detour.findJoin (forkNode "g" .exclusiveGateway)
        = .closesAt (forkNode "j" .exclusiveGateway) ∧
      (∃ path, detour.MaximalPath (forkNode "g" .exclusiveGateway) path ∧
        forkNode "j" .exclusiveGateway ∉ path) ∧
      detour.Leads "j" "t" ∧
      ∃ t choice, outcome (walk detour ["g"] [] (some "j")
          (some (forkNode "x" .exclusiveGateway))) (.start detour none)
        = (.ok [choice, .unitTask 2 "t"], t) ∧ t.numbering.number "t" = 2 := by
  have found : detour.findJoin (forkNode "g" .exclusiveGateway)
      = .closesAt (forkNode "j" .exclusiveGateway) := by
    cbv
  have leads : detour.Leads "j" "t" := by
    rw [← mem_reachable]
    decide +kernel
  have around : detour.MaximalPath (forkNode "g" .exclusiveGateway)
      [forkNode "g" .exclusiveGateway, forkNode "x" .exclusiveGateway,
        forkNode "k" .exclusiveGateway, forkNode "t" .task, forkNode "e" .endEvent] := by
    apply MaximalPath.step (f := detour.flows[2]) (by decide)
    apply MaximalPath.step (f := detour.flows[5]) (by decide)
    apply MaximalPath.step (f := detour.flows[7]) (by decide)
    apply MaximalPath.step (f := detour.flows[8]) (by decide)
    exact .last (by decide)
  exact ⟨built_detour, acyclic_detour, by decide, found, ⟨_, around, by decide⟩, leads, _, _,
    by cbv, rfl⟩

end Diagram
end ProcessDiagram
