import Mathlib
import ProcessDiagram.Proofs.Compilation.Alike
import ProcessDiagram.Proofs.Compilation.Compiled
import ProcessDiagram.Proofs.Region.Synthetic

/-!
Growing a diagram out of sight of a start event. Elements and flows that the start event does not
lead to take no part in compiling from there: the outcome is the same, except that synthetic ids
begin behind the new elements as well.

Main statement: `Diagram.compile_extended`.
-/
namespace ProcessDiagram

namespace Region

mutual

/-- The tree with every synthetic id raised. -/
def raised (added : Int) : Region → Region
  | task id label duration impacts =>
    if Synthetic (task id label duration impacts) then task (id + added) label duration impacts
    else task id label duration impacts
  | sequential id first second =>
    sequential (id + added) (raised added first) (raised added second)
  | choice id label children maxDelay => choice id label (raisedAll added children) maxDelay
  | parallel id label children => parallel id label (raisedAll added children)

def raisedAll (added : Int) : List Region → List Region
  | [] => []
  | r :: rest => raised added r :: raisedAll added rest

end

end Region

/-- The same numbering, with the tree's synthetic ids raised. -/
def CompiledScope.raised (added : Int) (c : CompiledScope) : CompiledScope :=
  ⟨c.region.raised added, c.numbering⟩

namespace Compilation

open Region

mutual

/-- With the same numbers on both sides only the synthetic ids differ. -/
theorem Alike.eq_raised {n : Numbering} {added : Int} :
    ∀ {r r' : Region}, Alike n n added r r' → r' = r.raised added
  | _, _, .task _ _ => (if_neg (not_synthetic_unitTask _ _)).symm
  | _, _, .noOp drawn => (if_pos (synthetic_noOp drawn)).symm
  | _, _, .sequential _ first second => by
      rw [raised, ← first.eq_raised, ← second.eq_raised]
  | _, _, .choice _ _ children => by rw [raised, ← children.eq_raisedAll]
  | _, _, .parallel _ _ children => by rw [raised, ← children.eq_raisedAll]

theorem AllAlike.eq_raisedAll {n : Numbering} {added : Int} :
    ∀ {rows rows' : List Region}, AllAlike n n added rows rows' → rows' = raisedAll added rows
  | _, _, .nil => rfl
  | _, _, .cons first rest => by rw [raisedAll, ← first.eq_raised, ← rest.eq_raisedAll]

end

end Compilation

namespace Diagram

open Compilation

/-- The second diagram is the first with further elements, anywhere among the old ones, and further
flows, none of which leaves an element that the start leads to. -/
structure Extends (d d' : Diagram) (start : Element) : Prop where
  root : d'.root = d.root
  nodes : d.nodes.Sublist d'.nodes
  flows : d.flows.Sublist d'.flows
  unreached : ∀ f ∈ d'.flows, f ∉ d.flows → ¬ d.Leads start.id f.source.id

/-- A filter that takes nothing new out of a longer list takes the same as before. -/
theorem filter_eq_of_sublist {α : Type} {l l' : List α} {p p' : α → Bool}
    (longer : l.Sublist l') (distinct : l'.Nodup) (old : ∀ a ∈ l, p' a = p a)
    (new : ∀ a ∈ l', a ∉ l → p' a = false) : l'.filter p' = l.filter p := by
  induction longer with
  | slnil => rfl
  | @cons l l' a longer ih =>
      obtain ⟨absent, distinct'⟩ := List.nodup_cons.mp distinct
      have skipped := new a List.mem_cons_self fun h => absent (longer.subset h)
      rw [List.filter_cons_of_neg (by simp [skipped])]
      exact ih distinct' old fun b hb => new b (List.mem_cons_of_mem _ hb)
  | @cons_cons l l' a longer ih =>
      obtain ⟨absent, distinct'⟩ := List.nodup_cons.mp distinct
      have rest := ih distinct' (fun b hb => old b (List.mem_cons_of_mem _ hb)) (by
        intro b hb other
        refine new b (List.mem_cons_of_mem _ hb) fun here => ?_
        obtain rfl | later := List.mem_cons.mp here
        · exact absent hb
        · exact other later)
      rw [List.filter_cons, List.filter_cons, old a List.mem_cons_self, rest]

variable {d d' : Diagram} {start e : Element}

namespace Extends

theorem flow_mem (h : Extends d d' start) {f : Flow} (hf : f ∈ d'.flows)
    (reached : d.Leads start.id f.source.id) : f ∈ d.flows := by
  by_contra new
  exact h.unreached f hf new reached

theorem leads_iff (h : Extends d d' start) {a b : String} (reached : d.Leads start.id a) :
    d'.Leads a b ↔ d.Leads a b := by
  constructor
  · intro way
    induction way with
    | refl => exact .refl a
    | step f _ hf source ih =>
        have old := h.flow_mem hf (source ▸ reached.trans ih)
        exact .step f ih old source
  · intro way
    induction way with
    | refl => exact .refl a
    | step f _ hf source ih => exact .step f ih (h.flows.subset hf) source

theorem outgoing (h : Extends d d' start) (c' : d'.Consistent)
    (reached : d.Leads start.id e.id) : d'.outgoing e = d.outgoing e := by
  refine congrArg (grouped _) (filter_eq_of_sublist h.flows c'.flows_nodup (fun _ _ => rfl) ?_)
  intro f hf new
  refine beq_eq_false_iff_ne.mpr fun source => ?_
  exact h.unreached f hf new (source ▸ reached)

theorem not_leads_new (h : Extends d d' start) (c : d.Consistent) (c' : d'.Consistent)
    (node : start ∈ d.nodes) (new : e ∈ d'.nodes) (absent : e ∉ d.nodes) :
    ¬ d.Leads start.id e.id := by
  intro way
  have known : ∀ {b : String}, d.Leads start.id b → ∃ x ∈ d.nodes, x.id = b := by
    intro b way
    cases way with
    | refl => exact ⟨start, node, rfl⟩
    | step f _ hf _ => exact ⟨f.target, c.target f hf, rfl⟩
  obtain ⟨x, hx, same⟩ := known way
  exact absent (c'.eq_of_id (h.nodes.subset hx) new same ▸ hx)

theorem findJoin (h : Extends d d' start) (c : d.Consistent) (c' : d'.Consistent)
    (node : start ∈ d.nodes) (reached : d.Leads start.id e.id) :
    d'.findJoin e = d.findJoin e := by
  have out := h.outgoing c' reached
  by_cases leaves : d.outgoing e = []
  · simp only [Diagram.findJoin, out, leaves, List.isEmpty_nil, if_true]
  have onward : ∀ f ∈ d.outgoing e, d.Leads start.id f.target.id := by
    intro f hf
    exact reached.trans (Diagram.leads_iff.mpr (.inr ⟨f, hf, .refl _⟩))
  have reaches : ∀ x : Element, (∀ f ∈ d.outgoing e, d'.Leads f.target.id x.id) ↔
      ∀ f ∈ d.outgoing e, d.Leads f.target.id x.id :=
    fun x => forall₂_congr fun f hf => h.leads_iff (onward f hf)
  have common : d'.commonGateways e = d.commonGateways e := by
    refine filter_eq_of_sublist h.nodes c'.nodes_nodup ?_ ?_
    · intro x _
      rw [Bool.eq_iff_iff]
      simp only [Bool.and_eq_true, List.all_map, List.all_eq_true, Function.comp,
        List.contains_iff_mem, mem_reachable, out, reaches]
    · intro x hx new
      obtain ⟨f, hf⟩ := List.exists_mem_of_ne_nil _ leaves
      refine Bool.eq_false_iff.mpr fun here => ?_
      simp only [Bool.and_eq_true, List.all_map, List.all_eq_true, Function.comp,
        List.contains_iff_mem, mem_reachable, out, reaches] at here
      exact h.not_leads_new c c' node hx new ((onward f hf).trans (here.2 f hf))
  have nearest : d'.nearestOf (d.commonGateways e) = d.nearestOf (d.commonGateways e) := by
    refine List.filter_congr fun x hx => ?_
    obtain ⟨f, hf⟩ := List.exists_mem_of_ne_nil _ leaves
    have there := (onward f hf).trans ((mem_commonGateways.mp hx).2.2 f hf)
    rw [Bool.eq_iff_iff]
    simp only [List.all_eq_true, List.contains_iff_mem, mem_reachable, h.leads_iff there]
  simp only [Diagram.findJoin, out, common, nearest]

theorem matching (h : Extends d d' start) (c : d.Consistent) (c' : d'.Consistent)
    (node : start ∈ d.nodes) (reached : d.Leads start.id e.id) : Matches d d' e :=
  ⟨h.outgoing c' reached, h.findJoin c c' node reached⟩

end Extends

/-- Both compilations from the start keep abreast to their end. -/
theorem paired_compiling (h : Extends d d' start) (c : d.Consistent) (c' : d'.Consistent)
    (node : start ∈ d.nodes) {top top' : Element} (sameId : top'.id = top.id) :
    Paired (fun t t' r r' => RowsAlike t t' [r] [r']) (State.start d none) (State.start d' none)
      (d.compiling top start) (d'.compiling top' start) := by
  have closed : ∀ f ∈ d.flows, d.Leads start.id f.source.id → d.Leads start.id f.target.id :=
    fun f hf reached => reached.step f hf rfl
  have walks := (paired_walk closed fun e => h.matching c c' node).1 [] [] none (some start) (by
    intro e here
    cases here
    exact .refl _)
  rw [compiling, compiling]
  refine (walks _ _).bind ?_
  intro items items' t t' walked alike
  refine (Paired.fold alike).bind ?_
  intro r r' u u' folded alikeTree
  have read : Paired (fun _ _ a b => a = u ∧ b = u') u u' (get : Compilation State) get :=
    ⟨.refl u u', .ok ⟨rfl, rfl⟩⟩
  refine read.bind ?_
  rintro got got' v v' reading ⟨same, same'⟩
  subst same
  subst same'
  obtain ⟨ids, numbered, numbered'⟩ := (walked.trans folded).ids
  have numbering : got'.numbering = got.numbering := numbered'.trans numbered.symm
  rw [sameId, numbering]
  refine (Paired.note _ _ _).bind ?_
  intro _ _ w w' noted _
  exact .pure (alikeTree.mono (reading.trans noted))

theorem compile_of_entry {scope : Option Element} (entry : d.entry scope = .ok start) :
    ∃ top, start ∈ d.startEvents top ∧ d.compile scope false = d.compileFrom top start := by
  obtain ⟨top, here, found⟩ := entry_eq_ok entry
  refine ⟨top, mem_of_scopeStart found, ?_⟩
  rw [compile]
  simp only [Bool.false_eq_true, if_false, pure_bind, here, found]

theorem id_of_startEvents {top : Element} (h : start ∈ d.startEvents top) :
    start.parent = some top.id := by
  have child := (List.mem_filter.mp (List.mem_filter.mp h).1).2
  exact beq_iff_eq.mp child

/-- Compilation sees only what the start event leads to. -/
theorem compile_extended (built : d.Built) (built' : d'.Built) {scope : Option Element}
    (entry : d.entry scope = .ok start) (entry' : d'.entry scope = .ok start)
    (h : Extends d d' start) :
    d'.compile scope false
      = Except.map (CompiledScope.raised (d'.nodes.length - d.nodes.length))
          <$> d.compile scope false := by
  have c := built.consistent
  have node := start_mem entry
  obtain ⟨top, inside, compiles⟩ := compile_of_entry entry
  obtain ⟨top', inside', compiles'⟩ := compile_of_entry entry'
  have sameId : top'.id = top.id := by
    have parents := (id_of_startEvents inside').symm.trans (id_of_startEvents inside)
    exact Option.some.inj parents
  obtain ⟨abreast, result⟩ := paired_compiling h c built'.consistent node sameId
  obtain ⟨⟨ids, numbered, numbered'⟩, drawn, records, log, log'⟩ := abreast
  rw [compiles, compiles']
  apply Logged.ext
  · rw [Logged.value_map, value_compileFrom, value_compileFrom]
    cases first : outcome (d.compiling top start) (State.start d none) with
    | mk r t =>
        cases first' : outcome (d'.compiling top' start) (State.start d' none) with
        | mk r' t' =>
            rw [first] at numbered drawn result
            rw [first'] at numbered' drawn result
            have numbering : t'.numbering = t.numbering := numbered'.trans numbered.symm
            have added : t'.nextSynthetic - t.nextSynthetic = d'.nodes.length - d.nodes.length := by
              simp only [State.start] at drawn
              omega
            cases result with
            | error err => rfl
            | ok alike =>
                rw [RowsAlike, added, numbering] at alike
                cases alike with
                | cons tree _ =>
                    rw [tree.eq_raised]
                    change Except.ok (CompiledScope.mk _ t'.numbering) = _
                    rw [numbering]
                    rfl
  · rw [Logged.log_map]
    exact log'.trans log.symm

/-- The lane with a choice that nothing leads to; its branches lead into the lane. -/
def overgrown : Diagram :=
  let start := forkNode "s" .startEvent
  let first := forkNode "a" .task
  let second := forkNode "b" .task
  let done := forkNode "e" .endEvent
  let split := forkNode "g" .exclusiveGateway
  let other := forkNode "x" .task
  ⟨⟨"p", .process, "", none, .zero⟩, [split, start, first, other, second, done],
    [⟨"Flow_1", start, first⟩, ⟨"Flow_2", first, second⟩, ⟨"Flow_3", second, done⟩,
      ⟨"Flow_4", split, other⟩, ⟨"Flow_5", split, second⟩, ⟨"Flow_6", other, second⟩]⟩

theorem built_overgrown : overgrown.Built :=
  built_of_grow rfl (by decide +kernel)

theorem extends_overgrown : lane.Extends overgrown (forkNode "s" .startEvent) := by
  refine ⟨rfl, by decide, by decide, ?_⟩
  have reached : lane.reachable "s" = ["e", "b", "a", "s"] := by cbv
  have sources : ∀ f ∈ overgrown.flows, f ∉ lane.flows → f.source.id ∉ ["e", "b", "a", "s"] := by
    decide
  intro f hf new way
  exact sources f hf new (reached ▸ mem_reachable.mpr way)

theorem compile_overgrown :
    (overgrown.compile none false).value
      = .ok ⟨.sequential 7 (.unitTask 1 "a") (.unitTask 2 "b"), ⟨["a", "b"]⟩⟩ := by
  have small : (lane.compile none false).value
      = .ok ⟨.sequential 5 (.unitTask 1 "a") (.unitTask 2 "b"), ⟨["a", "b"]⟩⟩ := by
    cbv
  rw [compile_extended built_lane built_overgrown (by decide) (by decide) extends_overgrown,
    Logged.value_map, small]
  decide

end Diagram
end ProcessDiagram
