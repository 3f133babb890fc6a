import ProcessDiagram.Proofs.Compilation.Calls
import ProcessDiagram.Proofs.Numbering

/-!
The ids of sequences and of empty parts against the numbers of elements. A compiler draws the first
from the count of the diagram's elements upwards, each once. The numbers reach up to there only when
the compiler was handed a numbering with ids that the diagram does not have.

Main statement: `apart_iff_few`.
-/
namespace ProcessDiagram
namespace Compilation

open Region

variable {d : Diagram} {c : Compiler}

/-- No region that folding added has the number of an element. -/
def Compiler.Apart (c : Compiler) : Prop :=
  ∀ r ∈ c.joints, c.state.numbering.native? r.id = none

/-- The first id that is drawn is the first to meet a number. -/
theorem Sound.apart_iff (s : Sound d c) :
    c.Apart ↔ c.joints = [] ∨ c.state.numbering.size ≤ d.nodes.length := by
  have above : ∀ r ∈ c.joints, (d.nodes.length : Int) < r.id := by
    intro r hr
    have := (s.supplied.mem_iff r.id).mp (List.mem_map_of_mem hr)
    omega
  constructor
  · intro apart
    refine or_iff_not_imp_left.mpr fun some => ?_
    obtain ⟨r, hr⟩ := List.exists_mem_of_ne_nil _ some
    have drawn := (s.supplied.mem_iff r.id).mp (List.mem_map_of_mem hr)
    have least : (d.nodes.length + 1 : Int) ∈ c.joints.map (·.id) :=
      (s.supplied.mem_iff _).mpr ⟨Int.le_refl _, by omega⟩
    obtain ⟨first, hfirst, here⟩ := List.mem_map.mp least
    have beyond := (Numbering.native?_eq_none_iff (by omega)).mp (apart first hfirst)
    omega
  · intro few r hr
    cases few with
    | inl none =>
        rw [none] at hr
        cases hr
    | inr few =>
        have := above r hr
        exact Numbering.native?_of_size_lt (by omega)

theorem Compiler.Step.within {c c' : Compiler} (h : Compiler.Step d c c')
    (w : Within d c.state.numbers) : Within d c'.state.numbers := by
  cases h with
  | report same => exact same ▸ w
  | hold | release => exact w
  | make node => exact w.intern node
  | fold items => exact w.fold items

theorem Compiler.Steps.within {c c' : Compiler} (h : Compiler.Steps d c c')
    (w : Within d c.state.numbers) : Within d c'.state.numbers := by
  induction h with
  | refl => exact w
  | tail _ step ih => exact step.within ih

theorem Within.start_internAll {held : List String} (known : held ⊆ d.nodes.map (·.id)) :
    Within d (State.start d (some (Numbering.empty.internAll held))).numbers := by
  refine ⟨Numbering.nodup_internAll List.nodup_nil held, ?_, Int.lt_succ _⟩
  intro id hid
  exact (Numbering.mem_or_mem_of_mem_internAll hid).elim nofun fun h => known h

theorem Stands.not_synthetic {e : Element} {r : Region} (h : Stands d e r) : ¬ Synthetic r := by
  cases h with
  | work => exact not_synthetic_unitTask _ _
  | choice | parallel => simp [Synthetic, type, noOp]

theorem apart_iff_few (built : d.Built) {held : List String} {record : List (Call × Answer)}
    (served : Served d (.start d (some (Numbering.empty.internAll held))) record c) :
    (c.joints.map (·.id)).Nodup ∧
      (∀ answered ∈ record, ∀ rows, answered.2 = .ok rows → ∀ r ∈ preorderAll rows, Synthetic r →
        r ∈ c.joints ∨ r ∈ answered.1.brought) ∧
      (c.Apart ↔ c.joints = [] ∨ c.state.numbering.size ≤ d.nodes.length) ∧
      (held ⊆ d.nodes.map (·.id) → c.Apart) := by
  have c₀ := built.consistent
  have sound := served.sound c₀
  refine ⟨sound.supplied.nodup, ?_, sound.apart_iff, ?_⟩
  · intro answered mem rows same r hr drawn
    obtain (joint | ⟨e, stands⟩) | brought := served.accounts c₀ answered mem rows same r hr
    · exact .inl joint
    · exact absurd drawn (sound.numbered _ stands).2.1.not_synthetic
    · exact .inr brought
  · intro known
    exact sound.apart_iff.mpr
      (.inr ((served.steps c₀).within (.start_internAll known)).size_le)

end Compilation

namespace Diagram

open Compilation Region

theorem apart_iff_few_fork :
    ∃ record c, Served fork (.start fork (some (Numbering.empty.internAll ["x"]))) record c ∧
      c.joints = [noOp 7] ∧ c.state.numbering.ids = ["x", "a"] ∧ c.Apart := by
  let task := forkNode "a" .task
  let join := forkNode "j" .exclusiveGateway
  have known : (Call.walk (some task) (some join)).Known fork := by
    constructor <;> intro e same <;> cases same <;> decide
  have walk : Walks fork [] (some "j") (some task) _ _ _ :=
    .work (c := .start fork (some (Numbering.empty.internAll ["x"]))) (by decide) (by decide)
      (by decide) (.ended (.inl (by decide)))
  have served := (Served.call .nothing (.walk known walk)).call (.fold _ [])
  refine ⟨_, _, served, by decide, by decide, ?_⟩
  exact (apart_iff_few built_fork served).2.2.1.mpr (.inr (by decide))

/-- With three ids held before, the sequence gets the number of its second task. -/
theorem not_apart_lane :
    lane.Built ∧ ∃ c, Served lane (.start lane (some (Numbering.empty.internAll ["x", "y", "z"])))
      [(.walk (some (forkNode "s" .startEvent)) none, .ok [.unitTask 4 "a", .unitTask 5 "b"]),
        (.fold [.unitTask 4 "a", .unitTask 5 "b"],
          .ok [.sequential 5 (.unitTask 4 "a") (.unitTask 5 "b")])] c ∧
      c.joints = [.sequential 5 (.unitTask 4 "a") (.unitTask 5 "b")] ∧
      c.state.numbering.native? 5 = some "b" := by
  have known : (Call.walk (some (forkNode "s" .startEvent)) none).Known lane := by
    constructor <;> intro e same <;> cases same
    decide
  have walk : Walks lane [] none (some (forkNode "s" .startEvent))
      (.start lane (some (Numbering.empty.internAll ["x", "y", "z"])))
      (.ok [.unitTask 4 "a", .unitTask 5 "b"]) _ :=
    .pass (by decide) (by decide) (by decide)
      (.work (r := .ok [.unitTask 5 "b"]) (by decide) (by decide) (by decide)
        (.work (r := .ok []) (by decide) (by decide) (by decide) (.ended (.inr rfl))))
  have served := (Served.call .nothing (.walk known walk)).call
    (.fold _ [.unitTask 4 "a", .unitTask 5 "b"])
  exact ⟨built_lane, _, served, by decide, by decide⟩

end Diagram
end ProcessDiagram
