import ProcessDiagram.Proofs.Diagram.Traffic
import ProcessDiagram.Simulation.Config
import Mathlib.Data.Finset.Card
import Mathlib.Data.List.Chain
import Mathlib.Logic.Relation

/-!
Diagrams on which every cycle waits. With the elements left out at which a token waits, nothing
leads back to itself, so that each element can be given an effort above that of everything it
leads to at once.

Main statement: `Diagram.sufficient_effort`.
-/
namespace ProcessDiagram

/-- A token that comes to the element waits there for a signal. -/
def ConfigStore.stops (c : ConfigStore) (e : Element) : Bool :=
  match e.kind with
  | .intermediateCatchEvent => true
  | .startEvent | .endEvent | .process | .participant => false
  | .task | .exclusiveGateway | .parallelGateway | .subProcess | .collaboration | .unknown =>
    (c.get e).wait

namespace Diagram

/-- Where a token gets from an element: along the flows, and to the first start event inside a
subprocess. -/
def onward (d : Diagram) (e : Element) : List Element :=
  d.targets e ++ if e.kind = .subProcess then (d.startEvents e).take 1 else []

/-- On every way that leads back to where it began, a token waits somewhere. -/
def CyclesWait (d : Diagram) (c : ConfigStore) : Prop :=
  ∀ (first : Element) (rest : List Element),
    List.IsChain (fun a b => b ∈ d.onward a) (first :: (rest ++ [first])) →
      ∃ e ∈ first :: rest, c.stops e = true

/-- A token that comes to the first element goes on to the second at once. -/
def Rushes (d : Diagram) (c : ConfigStore) (a b : Element) : Prop :=
  c.stops a = false ∧ b ∈ d.onward a

variable {d : Diagram} {c : ConfigStore}

theorem exists_chain_of_rushes {a b : Element} (h : Relation.TransGen (d.Rushes c) a b) :
    ∃ rest, List.IsChain (fun a b => b ∈ d.onward a) (a :: (rest ++ [b])) ∧
      ∀ e ∈ a :: rest, c.stops e = false := by
  induction h using Relation.TransGen.head_induction_on with
  | single h => exact ⟨[], by simpa using h.2, by simpa using h.1⟩
  | @head a e h _ ih =>
      obtain ⟨rest, chain, going⟩ := ih
      refine ⟨e :: rest, ?_, List.forall_mem_cons.mpr ⟨h.1, going⟩⟩
      exact List.isChain_cons_cons.mpr ⟨h.2, chain⟩

theorem CyclesWait.not_rushes_back (waits : d.CyclesWait c) (e : Element) :
    ¬ Relation.TransGen (d.Rushes c) e e := by
  intro back
  obtain ⟨rest, chain, going⟩ := exists_chain_of_rushes back
  obtain ⟨x, hx, stops⟩ := waits e rest chain
  rw [going x hx] at stops
  cases stops

theorem mem_of_onward {a b : Element} (h : b ∈ d.onward a) :
    b ∈ d.flows.map (·.target) ++ d.nodes := by
  rw [List.mem_append]
  obtain target | inside := List.mem_append.mp h
  · obtain ⟨f, hf, rfl⟩ := List.mem_map.mp target
    exact .inl (List.mem_map_of_mem (mem_outgoing.mp hf).1)
  · split at inside
    · have start := List.mem_of_mem_take inside
      exact .inr (List.mem_filter.mp (List.mem_filter.mp start).1).1
    · cases inside

theorem onward_mem (consistent : d.Consistent) {a b : Element} (h : b ∈ d.onward a) : b ∈ d.nodes := by
  obtain target | inside := List.mem_append.mp (mem_of_onward h)
  · obtain ⟨f, hf, rfl⟩ := List.mem_map.mp target
    exact consistent.target f hf
  · exact inside

theorem mem_of_chain (consistent : d.Consistent) {a e : Element} {rest : List Element}
    (chain : List.IsChain (fun a b => b ∈ d.onward a) (a :: rest)) (he : e ∈ rest) :
    e ∈ d.nodes := by
  induction rest generalizing a with
  | nil => cases he
  | cons x rest ih =>
      obtain ⟨step, later⟩ := List.isChain_cons_cons.mp chain
      cases List.mem_cons.mp he with
      | inl here => exact here ▸ onward_mem consistent step
      | inr he => exact ih later he

theorem CyclesWait.mono (consistent : d.Consistent) {c' : ConfigStore} (waits : d.CyclesWait c)
    (more : ∀ e ∈ d.nodes, c.stops e = true → c'.stops e = true) : d.CyclesWait c' := by
  intro first rest chain
  obtain ⟨e, he, stops⟩ := waits first rest chain
  have node : e ∈ d.nodes := by
    apply mem_of_chain consistent chain
    rw [List.mem_append, List.mem_singleton]
    exact (List.mem_cons.mp he).symm
  exact ⟨e, he, more e node stops⟩

/-- Tokens that only go down in some order until they wait cannot go round without waiting. -/
theorem cyclesWait_of_rank (consistent : d.Consistent) (rank : String → Nat)
    (down : ∀ a ∈ d.nodes, c.stops a = false → ∀ b ∈ d.onward a, rank b.id < rank a.id) :
    d.CyclesWait c := by
  have lower : ∀ (rest : List Element) (a b : Element), a ∈ d.nodes →
      List.IsChain (fun a b => b ∈ d.onward a) (a :: (rest ++ [b])) →
        (∀ e ∈ a :: rest, c.stops e = false) → rank b.id < rank a.id := by
    intro rest
    induction rest with
    | nil =>
        intro a b ha chain going
        exact down a ha (going a List.mem_cons_self) b (List.isChain_cons_cons.mp chain).1
    | cons x rest ih =>
        intro a b ha chain going
        obtain ⟨step, later⟩ := List.isChain_cons_cons.mp chain
        have first := down a ha (going a List.mem_cons_self) x step
        have onward := ih x b (onward_mem consistent step) later
          fun e he => going e (List.mem_cons_of_mem a he)
        omega
  intro first rest chain
  by_contra none
  push Not at none
  refine Nat.lt_irrefl _ (lower rest first first (mem_of_chain consistent chain (by simp)) chain ?_)
  intro e he
  simpa using none e he

open Classical in
/-- Everything that a token gets to without waiting. -/
noncomputable def rushed (d : Diagram) (c : ConfigStore) (e : Element) : Finset Element :=
  (d.flows.map (·.target) ++ d.nodes).toFinset.filter (Relation.TransGen (d.Rushes c) e)

theorem mem_rushed {a b : Element} : b ∈ d.rushed c a ↔ Relation.TransGen (d.Rushes c) a b := by
  classical
  rw [rushed, Finset.mem_filter, List.mem_toFinset]
  refine ⟨And.right, fun h => ⟨?_, h⟩⟩
  obtain ⟨e, _, last⟩ := Relation.TransGen.tail'_iff.mp h
  exact mem_of_onward last.2

/-- Where every cycle waits, a token comes to an end or to a stop. -/
theorem CyclesWait.wellFounded (waits : d.CyclesWait c) :
    WellFounded fun b a => d.Rushes c a b := by
  have fewer : ∀ a b, d.Rushes c a b → d.rushed c b < d.rushed c a := by
    intro a b step
    refine Finset.ssubset_iff_subset_ne.mpr ⟨?_, ?_⟩
    · intro x hx
      exact mem_rushed.mpr (.head step (mem_rushed.mp hx))
    · intro same
      have self : b ∈ d.rushed c b := same ▸ mem_rushed.mpr (.single step)
      exact waits.not_rushes_back b (mem_rushed.mp self)
  exact Subrelation.wf (fun {b a} => fewer a b) (InvImage.wf (d.rushed c) wellFounded_lt)

/-- The effort of leaving an element, when each of those behind it takes some. -/
def span (d : Diagram) (effort : Element → Nat) (e : Element) : Nat :=
  1 + ((d.onward e).map effort).sum

/-- The effort for a token that comes to an element: a stop takes one task, and anything else is
entered and left. -/
def Sufficient (d : Diagram) (c : ConfigStore) (effort : Element → Nat) : Prop :=
  ∀ e, effort e = if c.stops e then 1 else 2 * d.span effort e

noncomputable def effort (waits : d.CyclesWait c) : Element → Nat :=
  waits.wellFounded.fix fun e behind =>
    if stops : c.stops e = true then 1
    else 2 * (1 + ((d.onward e).attach.map fun b =>
      behind b.1 ⟨by simpa using stops, b.2⟩).sum)

theorem sufficient_effort (waits : d.CyclesWait c) : d.Sufficient c (d.effort waits) := by
  intro e
  rw [effort, WellFounded.fix_eq]
  by_cases stops : c.stops e = true
  · rw [dif_pos stops, if_pos stops]
  · rw [dif_neg stops, if_neg stops, span]
    exact congrArg (fun sum => 2 * (1 + List.sum sum)) List.attach_map_val

end Diagram
end ProcessDiagram
