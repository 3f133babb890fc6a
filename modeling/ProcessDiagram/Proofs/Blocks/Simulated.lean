import ProcessDiagram.Proofs.Blocks.Composed
import ProcessDiagram.Proofs.Blocks.Resolved
import ProcessDiagram.Proofs.Simulation.PlainRun
import Mathlib

/-!
Block-structured processes, simulated. A run with all choices made comes to its end, and it leaves
the tasks that survive in the compiled tree when its choices are resolved.
-/
namespace ProcessDiagram

namespace Blocks

variable {d : Diagram}

theorem targets_ne_nil (bs : Blocks) : ∀ next, Placed d bs next →
    ∀ e ∈ bs.elements, d.targets e ≠ [] := by
  induction bs using Blocks.induction with
  | nil =>
      intro next _ e he
      cases he
  | task work rest ih =>
      intro next placed e he
      cases List.mem_cons.mp he with
      | inl same =>
          rw [same, placed.linked.1]
          exact List.cons_ne_nil _ _
      | inr later => exact ih next placed.rest_of_task e later
  | split gateway branches join rest ihs ih =>
      intro next placed e he
      obtain ⟨_, _, several, _, _⟩ := placed.wellFormed
      obtain rfl | inside | rfl | later := mem_elements_split.mp he
      · rw [placed.linked.1, ne_eq, List.map_eq_nil_iff]
        intro none
        rw [none] at several
        cases several
      · obtain ⟨b, hb, inside⟩ := mem_elementsAll.mp inside
        exact ihs b hb join (placed.branch hb) e inside
      · rw [placed.linked.2.2.1]
        exact List.cons_ne_nil _ _
      · exact ih next placed.rest_of_split e later

end Blocks

namespace Diagram.Composed

open Blocks Simulation

variable {d : Diagram} {start done : Element} {bs : Blocks} {c : ConfigStore}

theorem arranged_perm (c : d.Consistent) (h : d.Composed start bs done) :
    (bs.arranged d).elements.Perm bs.elements :=
  (arranged_spec bs done (h.nodup c) (h.flowing c)).1

theorem start_mem (h : d.Composed start bs done) : start ∈ d.nodes :=
  h.mem_nodes.mpr (.inl rfl)

theorem start_ne_done (c : d.Consistent) (h : d.Composed start bs done) : start ≠ done := by
  intro same
  apply (List.nodup_cons.mp (h.row_nodup c)).1
  exact same ▸ List.mem_append_right _ (List.mem_singleton_self _)

theorem done_not_mem (c : d.Consistent) (h : d.Composed start bs done) : done ∉ bs.elements := by
  intro again
  have apart := (List.nodup_append.mp (List.nodup_cons.mp (h.row_nodup c)).2).2.2
  exact apart done again done (List.mem_singleton_self _) rfl

theorem targets_done (c : d.Consistent) (h : d.Composed start bs done) : d.targets done = [] := by
  have own := c.targets_perm h.flows (h.mem_nodes.mpr (.inr (.inr rfl)))
  rw [sent_cons_of_ne (h.start_ne_done c), sent_edges_of_not_mem (h.done_not_mem c)] at own
  exact List.perm_nil.mp own

theorem plain (consistent : d.Consistent) (h : d.Composed start bs done)
    (waitless : ∀ e ∈ d.nodes, (c.get e).wait = false)
    (chosen : ∀ g ∈ d.nodes, g.kind = .exclusiveGateway → 1 < (d.outgoing g).length →
      ∃ f ∈ d.outgoing g, (c.get g).activeOutgoing = some f) : d.Plain c := by
  refine ⟨?_, waitless, ?_⟩
  · intro e he
    obtain rfl | inside | rfl := h.mem_nodes.mp he
    · exact .inl h.startKind
    · exact .inr (.inr (WellFormed.kind bs h.wellFormed e inside))
    · exact .inr (.inl h.doneKind)
  · intro g hg kind several
    apply chosen g hg kind
    have inside : g ∈ (bs.arranged d).elements := by
      obtain rfl | inside | rfl := h.mem_nodes.mp hg
      · cases kind.symm.trans h.startKind
      · exact (h.arranged_perm consistent).mem_iff.mpr inside
      · cases kind.symm.trans h.doneKind
    have some := targets_ne_nil _ done (h.placed_arranged consistent) g inside
    have positive := List.length_pos_iff.mpr some
    rw [targets, List.length_map] at positive
    omega

/-- Only the start event sends tokens into the row, and the end event sends none. -/
theorem inflow_nodes (consistent : d.Consistent) (h : d.Composed start bs done)
    {takes : Element → Nat → Bool} {left : Element → Nat} (taken : takes start 0 = true)
    (x : Element) :
    d.inflow takes left d.nodes x = (if (bs.arranged d).entry done = x then left start else 0)
      + d.inflow takes left (bs.arranged d).elements x := by
  have row : d.nodes.Perm (start :: ((bs.arranged d).elements ++ [done])) :=
    h.nodes.trans ((((h.arranged_perm consistent).symm).append_right [done]).cons start)
  have first : d.routes takes start = [(bs.arranged d).entry done] := by
    rw [routes, h.targets_start consistent, kept, if_pos taken, entry_arranged]
    rfl
  have last : d.inflow takes left [done] x = 0 := by
    apply inflow_eq_zero
    intro e he
    rw [List.mem_singleton.mp he, h.targets_done consistent]
    exact List.not_mem_nil
  rw [inflow_perm row, inflow_cons, inflow_append, first, mul_count_singleton, last, Nat.add_zero]

theorem takes_start (h : d.Composed start bs done) (i : Nat) : d.takes c start i = true := by
  rw [takes, h.startKind]

/-- At the end of a run every token is used up, and the surviving tasks have been left once. -/
theorem ended (consistent : d.Consistent) (h : d.Composed start bs done) (matched : bs.Matched)
    (plain : d.Plain c) {s : Simulation} (course : Course d c start s) (drained : s.agenda = []) :
    (∀ e ∈ d.nodes, s.scopes.remaining e = 0) ∧ ∀ w ∈ d.nodes, w.kind = .task →
      s.exitCount w.id = if w ∈ (bs.arranged d).survivors (d.takes c) then 1 else 0 := by
  have same := h.arranged_perm consistent
  have placed := h.placed_arranged consistent
  have outside : done ∉ (bs.arranged d).elements :=
    fun inside => h.done_not_mem consistent (same.mem_iff.mp inside)
  have notStart : start ∉ (bs.arranged d).elements :=
    fun inside => h.start_not_mem consistent (same.mem_iff.mp inside)
  have node : ∀ e ∈ (bs.arranged d).elements, e ∈ d.nodes := placed.inside
  have balance := fun e he => course.balance (e := e) consistent plain drained he
  have made : ∀ e ∈ d.nodes, s.scopes.made e = (if start = e then 1 else 0)
      + ((if (bs.arranged d).entry done = e then exits s.exitCounts start else 0)
        + d.inflow (d.takes c) (exits s.exitCounts) (bs.arranged d).elements e) := by
    intro e he
    rw [(balance e he).made, h.inflow_nodes consistent (h.takes_start 0)]
  have atStart : s.scopes.made start = 1 := by
    rw [made start h.start_mem, if_pos rfl,
      if_neg (entry_ne notStart (h.start_ne_done consistent).symm),
      inflow_outside placed.linked notStart (h.start_ne_done consistent).symm]
  have share : ∀ e : Element, e.kind = .startEvent ∨ e.kind = .endEvent → d.share e = 1 := by
    intro e kind
    apply share_of_kind
    cases kind with
    | inl first => rw [first]; decide
    | inr last => rw [last]; decide
  have once : exits s.exitCounts start = 1 := by
    rw [(balance start h.start_mem).exited, atStart, share start (.inl h.startKind)]
  have fed : Fed d (d.takes c) (exits s.exitCounts) s.scopes.made (bs.arranged d) done 1 := by
    intro e he
    have other : start ≠ e := fun same => notStart (same ▸ he)
    rw [made e (node e he), if_neg other, once, Nat.zero_add]
  have degrees : Degrees d (bs.arranged d) done := by
    intro e he
    exact (length_incoming consistent (node e he)).trans (h.inflow_nodes consistent rfl e)
  have carried := carried plain (bs.arranged d) done 1 placed outside
    (matched_arranged bs matched) (fun e he => (balance e (node e he)).exited) degrees fed
  have atDone : s.scopes.made done = 1 := by
    rw [made done (h.mem_nodes.mpr (.inr (.inr rfl))), if_neg (h.start_ne_done consistent), once,
      carried.onward]
  have used : ∀ e ∈ d.nodes, s.scopes.made e = d.share e * exits s.exitCounts e := by
    intro e he
    obtain rfl | inside | rfl := h.mem_nodes.mp he
    · rw [atStart, once, share e (.inl h.startKind)]
    · exact carried.used e (same.mem_iff.mpr inside)
    · rw [(balance e he).exited, atDone, share e (.inr h.doneKind)]
  refine ⟨?_, ?_⟩
  · intro e he
    have parts := (balance e he).remaining
    have whole := used e he
    omega
  · intro w hw task
    obtain rfl | inside | rfl := h.mem_nodes.mp hw
    · cases task.symm.trans h.startKind
    · exact carried.tasks w (same.mem_iff.mpr inside) task
    · cases task.symm.trans h.doneKind

/-- The compiler and the simulation agree on a process made of blocks: with a flow chosen at every
exclusive split and no wait, every run that is allowed enough tasks ends finished, without a live
scope and without a stall, and a task has exited once if it survives in the compiled tree with its
choices resolved, and not at all otherwise. -/
theorem start_agrees (built : d.Built) (h : d.Composed start bs done) (matched : bs.Matched)
    (waitless : ∀ e ∈ d.nodes, (c.get e).wait = false)
    (chosen : ∀ g ∈ d.nodes, g.kind = .exclusiveGateway → 1 < (d.outgoing g).length →
      ∃ f ∈ d.outgoing g, (c.get g).activeOutgoing = some f) (validated : Bool) :
    ∃ compiled, (d.compile none validated).value = .ok compiled ∧
      ∃ least, ∀ bound, least ≤ bound → ∃ s i,
        Simulation.start d c bound .empty none = (s, .ok i) ∧ s.agenda = [] ∧
          s.isFinished = true ∧ s.scopes.live = [] ∧ (∀ ev ∈ s.events, ev.kind ≠ .stall) ∧
          ∀ w ∈ d.nodes, w.kind = .task → s.exitCount w.id
            = if w.id ∈ compiled.region.survivors compiled.numbering.native? (d.chosenAt c)
              then 1 else 0 := by
  have consistent := built.consistent
  have plain := h.plain consistent waitless chosen
  have placed := h.placed_arranged consistent
  refine ⟨_, (h.value_compile_root validated).trans (h.value_compileFrom_start built),
    potential d (launched d start), ?_⟩
  intro bound enough
  obtain ⟨s, run, drained, course⟩ := (course_launched consistent c h.root h.start_mem
    h.startKind).drain consistent (h.acyclic consistent) plain bound enough
  have began := start_empty (c := c) h.root h.startEvents_root (h.parents start h.start_mem) bound
  rw [settle, run] at began
  obtain ⟨none, exited⟩ := h.ended consistent matched plain course drained
  obtain ⟨finished, dead⟩ := course.finished h.root drained none
  refine ⟨s, 1, began, drained, finished, dead, course.unstalled, ?_⟩
  intro w hw task
  have few : (bs.arranged d).elements.length ≤ d.nodes.length := by
    rw [(h.arranged_perm consistent).length_eq, h.nodes.length_eq, List.length_cons,
      List.length_append]
    omega
  have known : ∀ e ∈ (bs.arranged d).survivors (d.takes c), e ∈ d.nodes :=
    fun e he => placed.inside e (survivors_subset _ e he)
  have named : w.id ∈ ((bs.arranged d).survivors (d.takes c)).map (·.id) ↔
      w ∈ (bs.arranged d).survivors (d.takes c) := by
    constructor
    · intro h
      obtain ⟨e, he, same⟩ := List.mem_map.mp h
      exact consistent.eq_of_id (known e he) hw same ▸ he
    · exact List.mem_map_of_mem
  rw [exited w hw task]
  simp only [survivors_compiled consistent plain placed few, named]

/-- The fork, with its lower flow chosen. -/
def forkChoice : ConfigStore :=
  ConfigStore.empty.set (forkNode "g" .exclusiveGateway) ⟨false, false,
    some ⟨"Flow_3", forkNode "g" .exclusiveGateway, forkNode "b" .task⟩⟩

theorem start_agrees_fork : (ConfigStore.empty.chooseFlow (forkNode "g" .exclusiveGateway)
      ⟨"Flow_3", forkNode "g" .exclusiveGateway, forkNode "b" .task⟩).value = .ok forkChoice ∧
    ∃ least, ∀ bound, least ≤ bound → ∃ s i,
      Simulation.start fork forkChoice bound .empty none = (s, .ok i) ∧ s.isFinished = true ∧
        s.exitCount "a" = 0 ∧ s.exitCount "b" = 1 := by
  obtain ⟨compiled, compiles, least, runs⟩ := start_agrees built_fork composed_fork
    (c := forkChoice) (by simp [forkBlocks, Matched, AllMatched, forkNode]) (by decide)
    (by decide +kernel) true
  have tree : compiled = ⟨.choice 3 "choice" [.unitTask 1 "a", .unitTask 2 "b"] (some .zero),
      ⟨["a", "b", "g"]⟩⟩ := by
    have known := (composed_fork.value_compile_root true).trans
      (composed_fork.value_compileFrom_start built_fork)
    exact Except.ok.inj (compiles.symm.trans known)
  have kept : compiled.region.survivors compiled.numbering.native? (fork.chosenAt forkChoice)
      = ["b"] := by
    rw [tree]
    decide +kernel
  refine ⟨by decide, least, ?_⟩
  intro bound enough
  obtain ⟨s, i, run, _, finished, _, _, exited⟩ := runs bound enough
  rw [kept] at exited
  exact ⟨s, i, run, finished, exited (forkNode "a" .task) (by decide) rfl,
    exited (forkNode "b" .task) (by decide) rfl⟩

end Diagram.Composed
end ProcessDiagram
