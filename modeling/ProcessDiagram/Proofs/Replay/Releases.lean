import ProcessDiagram.Proofs.Replay.Arrivals

/-!
Tokens that a gateway holds until the trace leaves it. The look-ahead takes a step as the exit as
soon as the gateway is no longer active, while the token is released only if the gateway is completed
then; if it is absent instead, the token is left behind. Main statement: `releases_iff_completed`.
-/
namespace ProcessDiagram.Replay

open Simulation

variable {p : ReplayPlan} {r : Replay} {g : Element}

/-- A gateway for which the look-ahead holds the token is active before its exit. -/
theorem active_of_exit {k : Nat} {flow : Flow} (exit : p.trace.nextExit? g.id k = some k)
    (taken : p.trace.branch? p.diagram g k = some ⟨flow, true⟩) :
    p.trace.status k g.id = .active ∧ p.trace.status (k + 1) g.id ≠ .active := by
  obtain ⟨j, next, _, wait⟩ := Trace.branch?_eq_some_iff.mp taken
  obtain rfl := Option.some.inj (next.symm.trans exit)
  simpa [Trace.releases] using wait.symm

/-- A gateway that is left is triggered only if it is completed. -/
theorem action?_of_left {status : Status} (left : status ≠ .active) :
    Trigger.action? .exclusiveGateway .active status
      = if status = .completed then some .complete else none := by
  cases status with
  | active => exact absurd rfl left
  | absent | completed => rfl

/-- A trigger that finds the waiting token of a gateway makes it leave. -/
theorem exited_of_carryOut (consistent : p.diagram.Consistent) {s : Session} {i : ScopeId}
    (rest : Resting p.diagram s.simulation) (node : g ∈ p.diagram.nodes)
    (kind : g.kind = .exclusiveGateway) (waiting : s.simulation.waitingScope? g.id = some i)
    (finished : (carryOut p s ⟨g, .complete⟩).value.2 ≠ .error .unfinished) :
    ∃ x, (carryOut p s ⟨g, .complete⟩).value.1.simulation.scopes[i]? = some x ∧ x.element = g ∧
      x.state = .exited := by
  obtain ⟨⟨x, hx, own, state⟩, _⟩ :=
    (rest.waitingScope?_eq_some_iff consistent node kind).mp waiting
  have signals : carryOut p s ⟨g, .complete⟩ = s.signal p.diagram p.bound i := by
    rw [carryOut, waiting]
  rw [signals] at finished ⊢
  refine rest.exited_of_signal consistent kind hx own state ?_
  obtain same | ended := @signalAndRun_cases p.diagram s.config p.bound s.simulation i
  · rw [same]
    exact rest.drained
  · exact ended finished

/-- A step that completes a gateway releases the token that waits there. -/
theorem released_of_completed (consistent : p.diagram.Consistent) (keyed : p.trace.Keyed)
    (calm : Calm p r) (more : ¬ r.isDone p = true)
    (step : (advance p r).value.2.answer = .ok (.stepped true)) (node : g ∈ p.diagram.nodes)
    (kind : g.kind = .exclusiveGateway)
    (trigger : ⟨g, .complete⟩ ∈ Trigger.ofStep p.diagram p.trace r.index) {i : ScopeId}
    (waiting : r.session.simulation.waitingScope? g.id = some i) :
    ∃ x, (advance p r).value.1.session.simulation.scopes[i]? = some x ∧ x.element = g ∧
      x.destroyed = true := by
  obtain ⟨s, s', refused, started, carried, retried⟩ := rounds_of_advance calm.idle more step
  obtain ⟨s₁, others, finished, rest⟩ :=
    turn_of_carryOutAll carried (Trigger.nodup_ofStep keyed r.index) trigger
  -- Until its turn comes, the token waits; then it leaves, and it does not come back.
  have before := (started.mono (fun _ => False.elim)).trans others
  have found := before.operated.waitingScope? consistent calm.resting node kind
    (fun other => other rfl) waiting
  have resting := before.operated.resting consistent calm.resting
  have left := exited_of_carryOut consistent resting node kind found finished
  have turned := (driven_carryOut s₁ _ finished).operated.resting consistent resting
  have after := (rest.mono fun _ _ => trivial).trans (retried.mono fun _ _ => trivial)
  obtain ⟨x, hx, own, exited⟩ := after.operated.keeps consistent (sustains_exited kind)
    turned.sound turned.drained left
  refine ⟨x, hx, own, ?_⟩
  have ended := after.operated.resting consistent turned
  obtain gone | ⟨_, held, _⟩ := ended.gateway hx (own ▸ kind)
  · exact gone
  · cases exited.symm.trans held

/-- What becomes of a token that waits at a gateway when the look-ahead takes the step as the exit of
the gateway. The step completes the gateway if and only if the next snapshot says so; the waiting
token is then released, and otherwise every token stays where it waits. -/
theorem releases_iff_completed (built : p.diagram.Built) (keyed : p.trace.Keyed)
    (node : g ∈ p.diagram.nodes) (kind : g.kind = .exclusiveGateway) {k : Nat} {flow : Flow}
    (exit : p.trace.nextExit? g.id k = some k)
    (taken : p.trace.branch? p.diagram g k = some ⟨flow, true⟩) :
    (⟨g, .complete⟩ ∈ Trigger.ofStep p.diagram p.trace k ↔
      p.trace.status (k + 1) g.id = .completed) ∧
    ∀ r, Advanced p r → r.index = k → (advance p r).value.2.answer = .ok (.stepped true) →
      (p.trace.status (k + 1) g.id = .completed → ∀ i,
        r.session.simulation.waitingScope? g.id = some i →
          ∃ x, (advance p r).value.1.session.simulation.scopes[i]? = some x ∧ x.element = g ∧
            x.destroyed = true) ∧
      (p.trace.status (k + 1) g.id ≠ .completed → ∀ i, r.WaitsAt i g →
        (advance p r).value.1.WaitsAt i g) := by
  have consistent := built.consistent
  obtain ⟨before, after⟩ := active_of_exit exit taken
  have action : Trigger.action? g.kind (p.trace.status k g.id) (p.trace.status (k + 1) g.id)
      = if p.trace.status (k + 1) g.id = .completed then some .complete else none := by
    rw [kind, before, action?_of_left after]
  have completes : ⟨g, .complete⟩ ∈ Trigger.ofStep p.diagram p.trace k ↔
      p.trace.status (k + 1) g.id = .completed := by
    simp only [Trigger.mem_ofStep_iff keyed, consistent.find?_node node, action,
      Option.ite_none_right_eq_some, and_true, true_and]
  refine ⟨completes, ?_⟩
  intro r advanced here step
  subst here
  have calm := advanced.calm consistent
  have more : ¬ r.isDone p = true := by
    have within := (Trace.nextExit?_eq_some_iff.mp exit).2.1.2
    rw [isDone, ReplayPlan.isLast, decide_eq_true_eq]
    omega
  constructor
  · intro completed i waiting
    exact released_of_completed consistent keyed calm more step node kind (completes.mpr completed)
      waiting
  · intro absent i waits
    obtain ⟨x, hx, own, live, waiting, pending⟩ := waits
    rw [if_neg absent] at action
    subst own
    have unnamed := Trigger.not_names_of_silent consistent keyed node action x.element rfl
    have driven := (ended_advance calm.idle more).driven (by simp [step])
    have held : (advance p r).value.1.session.simulation.scopes[i]? = some x :=
      driven.operated.keeps consistent (sustains_waiting kind waiting unnamed) calm.resting.sound
        calm.resting.drained hx
    exact ⟨x, held, rfl, live, waiting, pending⟩

theorem releases_iff_completed_lingering :
    ⟨Diagram.forkNode "g" .exclusiveGateway, .complete⟩
      ∈ Trigger.ofStep lingering.diagram lingering.trace 1 ∧
    ∃ r x, r = (advance lingering (advance lingering lingering.initial).value.1).value.1 ∧
      r.session.simulation.scopes[2]? = some x ∧
        x.element = Diagram.forkNode "g" .exclusiveGateway ∧ x.destroyed = true := by
  have settled := releases_iff_completed Diagram.built_fork (by decide : lingering.trace.Keyed)
    (by decide : Diagram.forkNode "g" .exclusiveGateway ∈ lingering.diagram.nodes) rfl
    (by decide : lingering.trace.nextExit? "g" 1 = some 1) rfl
  refine ⟨settled.1.mpr (by decide), ?_⟩
  obtain ⟨r, step, index, waiting, r', again⟩ : ∃ r,
      (advance lingering lingering.initial).value
        = (r, ⟨[lingering.settings.stepDelay], .ok (.stepped true)⟩) ∧ r.index = 1 ∧
      r.session.simulation.waitingScope? "g" = some 2 ∧ ∃ r',
        (advance lingering r).value
          = (r', ⟨[lingering.settings.stepDelay], .ok (.stepped true)⟩) := by
    refine ⟨_, advance_of_resume rfl (by decide) rfl, by decide +kernel, by decide +kernel, ?_⟩
    exact ⟨_, advance_of_resume rfl (by decide +kernel) rfl⟩
  have advanced : Advanced lingering (advance lingering lingering.initial).value.1 :=
    .advance .fresh (by rw [step]; exact nofun)
  rw [step] at advanced ⊢
  obtain ⟨x, released⟩ :=
    (settled.2 r advanced index (by rw [again])).1 (by decide) 2 waiting
  exact ⟨_, x, rfl, released⟩

/-- The trace drops the gateway of the fork from its snapshots when it takes the left branch. -/
def dropped : ReplayPlan where
  diagram := .fork
  trace := ⟨[⟨"0", 0, []⟩, ⟨"1", 1, [("g", .active)]⟩, ⟨"2", 2, [("a", .active)]⟩]⟩
  settings := .default
  bound := 100

/-- The look-ahead takes the step as the exit of the gateway, and nothing releases the token. -/
theorem ofStep_dropped : dropped.diagram.Built ∧ dropped.trace.Keyed ∧
    dropped.trace.status 1 "g" = .active ∧ dropped.trace.status 2 "g" ≠ .active ∧
    dropped.trace.nextExit? "g" 1 = some 1 ∧
    dropped.trace.branch? dropped.diagram (Diagram.forkNode "g" .exclusiveGateway) 1 = some
      ⟨⟨"Flow_2", Diagram.forkNode "g" .exclusiveGateway, Diagram.forkNode "a" .task⟩, true⟩ ∧
    Trigger.ofStep dropped.diagram dropped.trace 1 = [] := by
  exact ⟨Diagram.built_fork, by decide, by decide, by decide, by decide, by decide, by decide⟩

end ProcessDiagram.Replay
