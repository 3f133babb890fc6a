import Mathlib
import ProcessDiagram.Proofs.Compilation.Alike
import ProcessDiagram.Proofs.Compilation.Calls

/-!
A used compiler against a fresh one. Failed walks leave numbers behind, but no open split; and what
a walk comes to does not depend on the numbers. So a call is answered as if it were the first one.

Main statement: `answered_afresh`.
-/
namespace ProcessDiagram
namespace Compilation

variable {d : Diagram}

/-- A walk of any two compilers without open splits: their answers agree but for the ids, and they
report the same. -/
theorem paired_serves {start stop : Option Element} {c₀ c₀' c c' : Compiler} {r₀ r : Answer}
    (closed₀ : c₀.opened = []) (closed : c.opened = [])
    (first : Serves d c₀ (.walk start stop) r₀ c₀') (second : Serves d c (.walk start stop) r c') :
    Abreast c₀.state c.state c₀'.state c'.state ∧
      Agree (RowsAlike c₀'.state c'.state) r₀ r := by
  cases first with
  | walk _ walks₀ =>
      cases second with
      | walk _ walks =>
          have same : ∀ e : Element, True → Matches d d e := fun _ _ => ⟨rfl, rfl⟩
          have runs₀ := walks₀.runs.1.outcome_eq
          have runs := walks.runs.1.outcome_eq
          have everywhere := @paired_walk d d (fun _ => True) (fun _ _ _ => trivial) same
          obtain ⟨abreast, result⟩ := everywhere.1 [] [] (stop.map (·.id)) start
            (fun _ _ => trivial) c₀.state c.state
          rw [closed₀] at runs₀
          rw [closed] at runs
          rw [runs₀, runs] at abreast result
          exact ⟨abreast, result⟩

/-- Whatever a compiler was asked for before, and whatever failed of that, it carries out a walk as
a fresh compiler would. -/
theorem answered_afresh {given : Option Numbering} {record : List (Call × Answer)} {c : Compiler}
    (served : Served d (.start d given) record c) {start stop : Option Element}
    (known : (Call.walk start stop).Known d) :
    c.opened = [] ∧ (∃ r c', Serves d c (.walk start stop) r c') ∧
      ∀ r c', Serves d c (.walk start stop) r c' →
        c'.opened = [] ∧ outcome (walkBetween d start stop) c.state = (r, c'.state) ∧
        (∀ id ∈ c.state.numbering.ids,
          c'.state.numbering.number id = c.state.numbering.number id) ∧
        ∀ given' r₀ fresh, Serves d (.start d given') (.walk start stop) r₀ fresh →
          c'.state.log = c.state.log ++ fresh.state.log ∧
          Agree (AllAlike fresh.state.numbering c'.state.numbering
            (c'.state.nextSynthetic - fresh.state.nextSynthetic)) r₀ r := by
  have closed : c.opened = [] := served.opened_eq
  obtain ⟨r, c', walks⟩ := (exists_walks d).1 c.opened [] (stop.map (·.id)) start c rfl
  refine ⟨closed, ⟨r, c', .walk known walks⟩, ?_⟩
  intro r c' call
  -- Beside itself a call has numbered what it has numbered; so it keeps what was there.
  have grown := (paired_serves closed closed call call).1.grown.1
  refine ⟨call.opened_eq.trans closed, ?_, fun id => Numbering.number_of_grown grown, ?_⟩
  · cases call with
    | walk _ walks =>
        have runs := walks.runs.1.outcome_eq
        rwa [closed] at runs
  · intro given' r₀ fresh first
    obtain ⟨abreast, agree⟩ := paired_serves rfl closed first call
    obtain ⟨records, log₀, log⟩ := abreast.log
    have reported : fresh.state.log = records := log₀
    exact ⟨reported ▸ log, agree⟩

end Compilation

namespace Diagram

open Compilation

/-- A choice with a choice inside that has no join. -/
def unjoinedInside : Diagram :=
  let start := forkNode "s" .startEvent
  let split := forkNode "g" .exclusiveGateway
  let task := forkNode "a" .task
  let inner := forkNode "h" .exclusiveGateway
  let join := forkNode "j" .exclusiveGateway
  let done := forkNode "e" .endEvent
  ⟨⟨"p", .process, "", none, .zero⟩, [start, split, task, inner, join, done],
    [⟨"Flow_1", start, split⟩, ⟨"Flow_2", split, task⟩, ⟨"Flow_3", split, inner⟩,
      ⟨"Flow_4", task, join⟩, ⟨"Flow_5", inner, join⟩, ⟨"Flow_6", inner, done⟩,
      ⟨"Flow_7", join, done⟩]⟩

/-- The first walk fails inside the outer choice, when it has numbered the task already. -/
theorem answered_afresh_unjoinedInside :
    ∃ c r c', Served unjoinedInside (.start unjoinedInside none)
        [(.walk (some (forkNode "s" .startEvent)) none, .error (.joinNotFound "h"))] c ∧
      c.state.numbering.ids = ["a"] ∧ c.opened = [] ∧
      Serves unjoinedInside c (.walk (some (forkNode "a" .task)) none) r c' ∧
      r = .ok [.unitTask 1 "a"] := by
  have known : ∀ e ∈ unjoinedInside.nodes,
      (Call.walk (some e) none).Known unjoinedInside := by
    intro e he
    refine ⟨?_, nofun⟩
    intro e' same
    cases same
    exact List.mem_cons_of_mem _ he
  have begun : Served unjoinedInside (.start unjoinedInside none) [] _ := .nothing
  obtain ⟨_, ⟨r, c, failed⟩, answers⟩ :=
    answered_afresh begun (known (forkNode "s" .startEvent) (by decide))
  obtain ⟨_, comes, _⟩ := answers r c failed
  have computed : Prod.map id State.numbering (outcome
      (walkBetween unjoinedInside (some (forkNode "s" .startEvent)) none)
      (State.start unjoinedInside none)) = (.error (.joinNotFound "h"), ⟨["a"]⟩) := by
    cbv
  have left : (r, c.state.numbering) = (.error (.joinNotFound "h"), ⟨["a"]⟩) :=
    (congrArg (Prod.map id State.numbering) comes).symm.trans computed
  obtain ⟨rfl, numbering⟩ := Prod.mk.inj left
  obtain ⟨closed, ⟨r', c', answered⟩, answers'⟩ := answered_afresh
    (begun.call failed) (known (forkNode "a" .task) (by decide))
  obtain ⟨_, comes', _⟩ := answers' r' c' answered
  refine ⟨c, r', c', begun.call failed, congrArg Numbering.ids numbering, closed, answered,
    (congrArg Prod.fst comes').symm.trans ?_⟩
  generalize c.state = s at numbering
  obtain ⟨_, next, log⟩ := s
  cases numbering
  cbv

end Diagram
end ProcessDiagram
