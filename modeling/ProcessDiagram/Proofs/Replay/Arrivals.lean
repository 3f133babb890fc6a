import ProcessDiagram.Proofs.Replay.Stepping
import ProcessDiagram.Proofs.Simulation.Gateways

/-!
Tokens that come to a gateway while the trace holds one there. Where the look-ahead finds the branch
that the trace takes, the token waits for it; where it finds none, the gateway is not set and the token
is stalled. Main statement: `advance_arrivals`.
-/
namespace ProcessDiagram.Replay

open Simulation

variable {p : ReplayPlan} {r : Replay} {g : Element}

/-- The events of a step. -/
def told (p : ReplayPlan) (r : Replay) : List Event :=
  (advance p r).value.1.session.simulation.events.drop r.session.simulation.events.length

/-- The token of a scope waits at an element. -/
def WaitsAt (r : Replay) (i : ScopeId) (e : Element) : Prop :=
  ∃ x, r.session.simulation.scopes[i]? = some x ∧ x.element = e ∧ x.destroyed = false ∧
    x.state = .waiting ∧ x.pending = true

/-- What becomes of the tokens that enter a gateway in a step after which the trace holds one there. If
the look-ahead finds the branch that the trace takes, they are waiting when the step ends and none was
stalled; if it finds none, the gateway is not locked and they are stalled. -/
theorem advance_arrivals (built : p.diagram.Built) (keyed : p.trace.Keyed) (advanced : Advanced p r)
    (finished : (advance p r).value.2.answer ≠ .error .unfinished)
    (node : g ∈ p.diagram.nodes) (kind : g.kind = .exclusiveGateway)
    (several : 2 ≤ (p.diagram.outgoing g).length)
    (marked : p.trace.status (r.index + 1) g.id = .active) :
    (∀ branch, p.trace.branch? p.diagram g r.index = some branch →
      (∀ ev ∈ told p r, ev.kind = .stall → ev.element ≠ g.id) ∧
        ∀ ev ∈ told p r, ev.kind = .enter → ev.element = g.id →
          (advance p r).value.1.WaitsAt ev.scope g) ∧
    (p.trace.branch? p.diagram g r.index = none →
      ((advance p r).value.1.session.config.get g).locked = false ∧
        ∀ ev ∈ told p r, ev.kind = .enter → ev.element = g.id →
          ⟨.stall, g.id, ev.scope⟩ ∈ told p r) := by
  have consistent := built.consistent
  have calm := advanced.calm consistent
  have more : ¬ r.isDone p = true := by
    intro done
    rw [isDone, ReplayPlan.isLast, decide_eq_true_eq] at done
    have beyond : p.trace.snapshots[r.index + 1]? = none := List.getElem?_eq_none done
    rw [Trace.status, beyond] at marked
    cases marked
  have silent : Trigger.action? g.kind (p.trace.status r.index g.id)
      (p.trace.status (r.index + 1) g.id) = none := by
    rw [kind, marked]
    simp [Trigger.action?]
  have ended := ended_advance calm.idle more
  have operated := (ended.driven finished).operated
  have set : (r.configureGateways p r.index).session.config.get g
      = tuned p r.index g (r.session.config.get g) := get_configureGateways p r consistent node kind
  constructor
  · intro branch taken
    have wait := Trace.wait_of_branch? marked taken
    have held : ((r.configureGateways p r.index).session.config.get g).wait = true := by
      rw [set, tuned, taken]
      exact wait
    exact operated.holds consistent calm.resting node kind held
      (Trigger.not_names_of_silent consistent keyed node silent)
  · intro none
    have unset := set.trans (tuned_of_none (calm.unset g node kind) none)
    refine ⟨?_, operated.stalls consistent calm.resting node kind unset several⟩
    rw [ended.config, unset]
    rfl

/-- The trace holds a token at the gateway of the fork, and then takes the left branch. -/
def lingering : ReplayPlan where
  diagram := .fork
  trace := ⟨[⟨"0", 0, []⟩, ⟨"1", 1, [("g", .active)]⟩,
    ⟨"2", 2, [("g", .completed), ("a", .active)]⟩]⟩
  settings := .default
  bound := 100

theorem advance_arrivals_lingering : ⟨.enter, "g", 2⟩ ∈ told lingering lingering.initial ∧
    (advance lingering lingering.initial).value.1.WaitsAt 2
      (Diagram.forkNode "g" .exclusiveGateway) := by
  obtain ⟨r, step, entered⟩ : ∃ r, (advance lingering lingering.initial).value
      = (r, ⟨[lingering.settings.stepDelay], .ok (.stepped true)⟩) ∧
        ⟨.enter, "g", 2⟩ ∈ r.session.simulation.events := by
    refine ⟨_, advance_of_resume rfl (by decide) rfl, ?_⟩
    decide +kernel
  have fresh : ⟨.enter, "g", 2⟩ ∈ told lingering lingering.initial := by
    rw [told, step]
    exact entered
  have finished : (advance lingering lingering.initial).value.2.answer ≠ .error .unfinished := by
    rw [step]
    exact nofun
  have arrivals := advance_arrivals Diagram.built_fork (by decide) .fresh finished
    (by decide : Diagram.forkNode "g" .exclusiveGateway ∈ lingering.diagram.nodes) rfl (by decide)
    (by decide)
  exact ⟨fresh, (arrivals.1 _ rfl).2 _ fresh rfl rfl⟩

/-- The trace ends while it holds a token at the gateway of the fork. -/
def abandoned : ReplayPlan where
  diagram := .fork
  trace := ⟨[⟨"0", 0, []⟩, ⟨"1", 1, [("g", .active)]⟩]⟩
  settings := .default
  bound := 100

/-- The token that enters the gateway is not held, though the next snapshot says so. -/
theorem told_abandoned : abandoned.diagram.Built ∧ abandoned.trace.Keyed ∧
    Advanced abandoned abandoned.initial ∧
    (advance abandoned abandoned.initial).value.2.answer = .ok (.stepped true) ∧
    2 ≤ (abandoned.diagram.outgoing (Diagram.forkNode "g" .exclusiveGateway)).length ∧
    abandoned.trace.status 1 "g" = .active ∧
    ⟨.enter, "g", 2⟩ ∈ told abandoned abandoned.initial ∧
    ¬ (advance abandoned abandoned.initial).value.1.WaitsAt 2
      (Diagram.forkNode "g" .exclusiveGateway) ∧
    ⟨.stall, "g", 2⟩ ∈ told abandoned abandoned.initial := by
  obtain ⟨r, step, entered, stalled, gone⟩ : ∃ r, (advance abandoned abandoned.initial).value
      = (r, ⟨[abandoned.settings.stepDelay], .ok (.stepped true)⟩) ∧
        ⟨.enter, "g", 2⟩ ∈ r.session.simulation.events ∧
        ⟨.stall, "g", 2⟩ ∈ r.session.simulation.events ∧
        (r.session.simulation.scopes[2]?).map (·.destroyed) = some true := by
    refine ⟨_, advance_of_resume rfl (by decide) rfl, ?_⟩
    decide +kernel
  refine ⟨Diagram.built_fork, by decide, .fresh, ?_, by decide, by decide, ?_, ?_, ?_⟩
  · rw [step]
  · rw [told, step]
    exact entered
  · intro ⟨x, hx, _, live, _⟩
    rw [step] at hx
    rw [hx, Option.map_some, live] at gone
    cases gone
  · rw [told, step]
    exact stalled

end ProcessDiagram.Replay
