import ProcessDiagram.Proofs.Blocks.Regions

/-!
Processes made of blocks between a start event and an end event, and what they are compiled to.
-/
namespace ProcessDiagram

open Blocks

/-- A process that consists of a start event, a row of blocks and an end event, linked by flows
in that shape; elements and flows may have been added in any order. -/
structure Diagram.Composed (d : Diagram) (start : Element) (bs : Blocks) (done : Element) :
    Prop where
  root : d.root.kind = .process
  parents : ∀ e ∈ d.nodes, e.parent = some d.root.id
  startKind : start.kind = .startEvent
  doneKind : done.kind = .endEvent
  wellFormed : bs.WellFormed
  nodes : d.nodes.Perm (start :: (bs.elements ++ [done]))
  flows : (d.flows.map fun f => (f.source, f.target)).Perm
    ((start, bs.entry done) :: bs.edges done)

theorem Blocks.WellFormed.kind (bs : Blocks) : bs.WellFormed → ∀ e ∈ bs.elements,
    e.kind = .task ∨ e.kind.isGateway = true := by
  induction bs using Blocks.induction with
  | nil =>
      intro _ e he
      cases he
  | task work rest ih =>
      intro wellFormed e he
      cases List.mem_cons.mp he with
      | inl same => exact .inl (same ▸ wellFormed.1)
      | inr later => exact ih wellFormed.2 e later
  | split gateway branches join rest ihs ih =>
      intro wellFormed e he
      obtain ⟨isSplit, isJoin, _, branchwise, restwise⟩ := wellFormed
      obtain rfl | inside | rfl | later := mem_elements_split.mp he
      · exact .inr isSplit
      · obtain ⟨b, hb, inside⟩ := mem_elementsAll.mp inside
        exact ihs b hb (allWellFormed_iff.mp branchwise b hb) e inside
      · exact .inr isJoin
      · exact ih restwise e later

theorem idxOf_lt_of_sublist {l : List String} (nodup : l.Nodup) {a b : String}
    (h : [a, b].Sublist l) : l.idxOf a < l.idxOf b := by
  induction l with
  | nil => cases h
  | cons x rest ih =>
      rw [List.nodup_cons] at nodup
      cases h with
      | cons _ later =>
          have ha : a ∈ rest := later.subset List.mem_cons_self
          have hb : b ∈ rest := later.subset (List.mem_cons_of_mem _ List.mem_cons_self)
          have first : x ≠ a := fun same => nodup.1 (same ▸ ha)
          have second : x ≠ b := fun same => nodup.1 (same ▸ hb)
          rw [List.idxOf_cons_ne _ first, List.idxOf_cons_ne _ second]
          have := ih nodup.2 later
          omega
      | cons_cons _ later =>
          have hb : b ∈ rest := List.singleton_sublist.mp later
          have second : a ≠ b := fun same => nodup.1 (same ▸ hb)
          rw [List.idxOf_cons_self, List.idxOf_cons_ne _ second]
          omega

namespace Diagram.Composed

variable {d : Diagram} {start done : Element} {bs : Blocks}

theorem mem_nodes (h : d.Composed start bs done) {e : Element} :
    e ∈ d.nodes ↔ e = start ∨ e ∈ bs.elements ∨ e = done := by
  rw [h.nodes.mem_iff, List.mem_cons, List.mem_append, List.mem_singleton]

theorem row_nodup (c : d.Consistent) (h : d.Composed start bs done) :
    (start :: (bs.elements ++ [done])).Nodup :=
  h.nodes.nodup_iff.mp c.nodes_nodup

theorem nodup (c : d.Consistent) (h : d.Composed start bs done) : bs.elements.Nodup :=
  (List.nodup_append.mp (List.nodup_cons.mp (h.row_nodup c)).2).1

theorem start_not_mem (c : d.Consistent) (h : d.Composed start bs done) :
    start ∉ bs.elements :=
  fun again => (List.nodup_cons.mp (h.row_nodup c)).1 (List.mem_append_left _ again)

theorem acyclic (c : d.Consistent) (h : d.Composed start bs done) : d.Acyclic := by
  apply acyclic_of_rank fun id => ((start :: (bs.elements ++ [done])).map (·.id)).idxOf id
  intro f hf
  have ids : ((start :: (bs.elements ++ [done])).map (·.id)).Nodup := by
    apply (h.row_nodup c).map_on
    intro a ha b hb same
    exact c.eq_of_id (h.nodes.mem_iff.mpr ha) (h.nodes.mem_iff.mpr hb) same
  apply idxOf_lt_of_sublist ids
  have edge : (f.source, f.target) ∈ (start, bs.entry done) :: bs.edges done :=
    h.flows.mem_iff.mp (List.mem_map.mpr ⟨f, hf, rfl⟩)
  have forward : [f.source, f.target].Sublist (start :: (bs.elements ++ [done])) := by
    cases List.mem_cons.mp edge with
    | inl first =>
        obtain ⟨source, target⟩ := Prod.mk.inj first
        rw [source, target]
        exact (List.singleton_sublist.mpr (entry_mem bs done)).cons_cons start
    | inr inner => exact (edges_forward bs done _ inner).cons start
  exact forward.map (·.id)

theorem targets_start (c : d.Consistent) (h : d.Composed start bs done) :
    d.targets start = [bs.entry done] := by
  have own := c.targets_perm h.flows (h.mem_nodes.mpr (.inl rfl))
  rw [sent_cons_self, sent_edges_of_not_mem (h.start_not_mem c)] at own
  exact List.perm_singleton.mp own

theorem flowing (c : d.Consistent) (h : d.Composed start bs done) : Flowing d bs done := by
  intro e he
  have own := c.targets_perm h.flows (h.mem_nodes.mpr (.inr (.inl he)))
  have other : start ≠ e := fun same => h.start_not_mem c (same ▸ he)
  rw [sent_cons_of_ne other] at own
  exact own

theorem placed_arranged (c : d.Consistent) (h : d.Composed start bs done) :
    Placed d (bs.arranged d) done := by
  obtain ⟨same, linked, wellFormed⟩ := arranged_spec bs done (h.nodup c) (h.flowing c)
  refine ⟨same.nodup_iff.mpr (h.nodup c), ?_, wellFormed h.wellFormed, linked⟩
  intro e he
  exact h.mem_nodes.mpr (.inr (.inl (same.mem_iff.mp he)))

theorem filter_kind (h : d.Composed start bs done) (kind : ElementKind)
    (other : kind ≠ .task ∧ kind.isGateway = false) :
    (d.nodes.filter (·.kind == kind)).Perm ([start, done].filter (·.kind == kind)) := by
  have none : bs.elements.filter (·.kind == kind) = [] := by
    rw [List.filter_eq_nil_iff]
    intro e he same
    have same := beq_iff_eq.mp same
    cases WellFormed.kind bs h.wellFormed e he with
    | inl task => exact other.1 (same.symm.trans task)
    | inr gateway =>
        rw [same, other.2] at gateway
        cases gateway
  have row : (start :: (bs.elements ++ [done])).filter (·.kind == kind)
      = [start, done].filter (·.kind == kind) := by
    simp only [List.filter_cons, List.filter_append, none, List.nil_append]
  exact (h.nodes.filter _).trans (.of_eq row)

theorem children_root (h : d.Composed start bs done) : d.children d.root = d.nodes := by
  rw [children, List.filter_eq_self]
  intro e he
  rw [h.parents e he]
  exact beq_self_eq_true _

theorem startEvents_root (h : d.Composed start bs done) : d.startEvents d.root = [start] := by
  have own := h.filter_kind .startEvent (by decide)
  rw [List.filter_cons_of_pos (by rw [h.startKind]; rfl),
    List.filter_cons_of_neg (by rw [h.doneKind]; decide), List.filter_nil] at own
  rw [startEvents, h.children_root]
  exact List.perm_singleton.mp own

theorem scopeStart_root (h : d.Composed start bs done) : d.scopeStart d.root = .ok start := by
  rw [scopeStart, h.startEvents_root]

theorem scopeViolations_eq_nil (h : d.Composed start bs done) : d.scopeViolations = [] := by
  have count : ∀ kind, kind ≠ .task ∧ kind.isGateway = false →
      countKind (d.children d.root) kind = countKind [start, done] kind := by
    intro kind other
    rw [countKind, countKind, h.children_root, List.countP_eq_length_filter,
      List.countP_eq_length_filter, (h.filter_kind kind other).length_eq]
  have nested : d.nodes.filter (·.kind == .subProcess) = [] := by
    apply List.perm_nil.mp
    apply (h.filter_kind .subProcess (by decide)).trans
    rw [List.filter_cons_of_neg (by rw [h.startKind]; decide),
      List.filter_cons_of_neg (by rw [h.doneKind]; decide)]
    exact .refl _
  have valid : d.scopeViolation? d.root = none := by
    rw [scopeViolation?]
    simp only [count .startEvent (by decide), count .endEvent (by decide)]
    simp [countKind, h.startKind, h.doneKind]
  rw [scopeViolations, processScopes, topScopes, if_pos h.root, nested, List.append_nil,
    List.filterMap_cons_none valid, List.filterMap_nil]

theorem value_compile_root (h : d.Composed start bs done) (validated : Bool) :
    (d.compile none validated).value = (d.compileFrom d.root start).value := by
  have here : (Option.map Except.ok none).getD d.defaultScope = .ok d.root := by
    rw [Option.map_none, Option.getD_none, defaultScope, if_pos h.root]
  exact value_compile (fun _ => h.scopeViolations_eq_nil) here h.scopeStart_root

theorem value_compileFrom_start (built : d.Built) (h : d.Composed start bs done) :
    (d.compileFrom d.root start).value = .ok ((bs.arranged d).compiled d.nodes.length) := by
  have c := built.consistent
  have walked := Compilation.walked_blocks c (h.acyclic c) (bs.arranged d) done none
    (Compilation.State.start d none).numbers (h.placed_arranged c) (.inr h.doneKind)
    (fun _ _ => nofun) (fun _ _ => List.not_mem_nil)
  have role : Compilation.roleOf d start = .pass := by
    rw [Compilation.roleOf, h.startKind]
    rfl
  have going : ¬ Compilation.Ends none start := by
    rw [Compilation.Ends, not_or, h.startKind]
    exact ⟨nofun, by decide⟩
  have onward : d.successor? start = some ((bs.arranged d).entry done) := by
    rw [Compilation.successor?_eq_head?, h.targets_start c, entry_arranged]
    rfl
  rw [← onward] at walked
  have acyclic := (h.acyclic c).not_cycleFrom start.id
  obtain ⟨t, carriedOut, numbers⟩ := (Compilation.ok_of_walked acyclic).1 _ _ _ _ _
    (.pass going (.inl role) walked) [] [] (Compilation.State.start d none) rfl
    (by intro e same; cases same; exact .start start)
  rw [compileFrom_of_walk carriedOut, numbers, compiled_eq]
  rfl

/-- A process made of blocks compiles to its own tree of blocks. -/
theorem compile_eq_compiled (built : d.Built) (h : d.Composed start bs done) (validated : Bool) :
    (d.compile none validated).value = .ok ((bs.arranged d).compiled d.nodes.length) := by
  rw [h.value_compile_root, h.value_compileFrom_start built]

/-- The blocks of the fork. -/
def forkBlocks : Blocks :=
  .split (forkNode "g" .exclusiveGateway)
    [.task (forkNode "a" .task) .nil, .task (forkNode "b" .task) .nil]
    (forkNode "j" .exclusiveGateway) .nil

theorem composed_fork :
    fork.Composed (forkNode "s" .startEvent) forkBlocks (forkNode "e" .endEvent) := by
  refine ⟨rfl, by decide, rfl, rfl, ?_, by decide, by decide⟩
  simp [forkBlocks, WellFormed, AllWellFormed]
  decide

theorem compile_fork :
    (fork.compile none true).value = .ok ⟨.choice 3 "choice" [.unitTask 1 "a", .unitTask 2 "b"]
      (some .zero), ⟨["a", "b", "g"]⟩⟩ :=
  compile_eq_compiled built_fork composed_fork true

end Diagram.Composed
end ProcessDiagram
