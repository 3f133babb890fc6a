import ProcessDiagram.Proofs.Replay.Stepping

/-!
Replays that are steered: between the steps, flows are chosen by hand at exclusive gateways. The trace
has the last word at the gateways for which it shows a branch; there choices are refused. Main
statement: `Steered.followsTrace`.
-/
namespace ProcessDiagram

namespace Replay

variable {p : ReplayPlan} {r : Replay} {last : Option Nat}

/-- Sets a gateway by hand; a choice that is refused changes nothing. -/
def choose (r : Replay) (gateway : Element) (flow : Flow) : Replay :=
  match (r.session.config.chooseFlow gateway flow).value with
  | .ok config => { r with session := { r.session with config } }
  | .error _ => r

/-- Advances from a fresh replay, with choices at exclusive gateways between them; and the place of
the last step. -/
inductive Steered (p : ReplayPlan) : Replay → Option Nat → Prop
  | fresh : Steered p p.initial none
  | advance {r : Replay} {last : Option Nat} : Steered p r last →
      Steered p (advance p r).value.1 (if r.isDone p then last else some r.index)
  | choose {r : Replay} {last : Option Nat} {gateway : Element} (flow : Flow) : Steered p r last →
      gateway ∈ p.diagram.nodes → gateway.kind = .exclusiveGateway →
      Steered p (r.choose gateway flow) last

/-- The configuration follows the trace from a place of it on. -/
structure FollowsTrace (p : ReplayPlan) (r : Replay) (i : Nat) : Prop where
  locked : ∀ g ∈ p.diagram.nodes, g.kind = .exclusiveGateway →
    ((r.session.config.get g).locked = true ↔
      ∃ branch, p.trace.branch? p.diagram g i = some branch)
  inferred : ∀ g ∈ p.diagram.nodes, g.kind = .exclusiveGateway →
    ∀ branch, p.trace.branch? p.diagram g i = some branch →
      (r.session.config.get g).activeOutgoing = some branch.flow ∧
        (r.session.config.get g).wait = branch.wait
  refused : ∀ g ∈ p.diagram.nodes, g.kind = .exclusiveGateway → ∀ flow,
    ((r.session.config.chooseFlow g flow).value = .error (.locked g.id) ↔
      (r.session.config.get g).locked = true)
  kept : ∀ g ∈ p.diagram.nodes, g.kind = .exclusiveGateway →
    (r.session.config.get g).locked = true → ∀ gateway flow,
      (r.choose gateway flow).session.config.get g = r.session.config.get g
  steady : ∀ g ∈ p.diagram.nodes, g.kind = .exclusiveGateway → ∀ j, i ≤ j →
    (∀ k, i ≤ k → k < j → p.trace.leaves g.id k = false) →
      p.trace.branch? p.diagram g j = p.trace.branch? p.diagram g i
  others : ∀ e ∈ p.diagram.root :: p.diagram.nodes, e.kind ≠ .exclusiveGateway →
    ((r.session.config.get e).wait = true ↔
      e.kind.isActivity = true ∧ e.id ∈ p.trace.elementIds)

/-! ## Choices -/

theorem get_choose (r : Replay) (gateway : Element) (flow : Flow) (e : Element) :
    (r.choose gateway flow).session.config.get e = r.session.config.get e ∨
      e.id = gateway.id ∧ (r.session.config.get e).locked = false ∧
        (r.choose gateway flow).session.config.get e
          = { r.session.config.get e with activeOutgoing := some flow } := by
  rw [choose, ConfigStore.chooseFlow]
  by_cases locked : (r.session.config.get gateway).locked = true
  · exact .inl (by rw [if_pos locked]; rfl)
  · rw [if_neg locked]
    by_cases foreign : flow.source.id ≠ gateway.id
    · exact .inl (by rw [if_pos foreign]; rfl)
    · rw [if_neg foreign]
      simp only [Logged.value_bind, Logged.value_pure]
      rw [ConfigStore.get_set]
      by_cases here : e.id = gateway.id
      · have same : r.session.config.get e = r.session.config.get gateway := by
          rw [ConfigStore.get, ConfigStore.get, here]
        rw [if_pos here, same]
        exact .inr ⟨here, by simpa using locked, rfl⟩
      · exact .inl (if_neg here)

theorem chooseFlow_locked_iff (c : ConfigStore) (gateway : Element) (flow : Flow) :
    (c.chooseFlow gateway flow).value = .error (.locked gateway.id) ↔
      (c.get gateway).locked = true := by
  rw [ConfigStore.chooseFlow]
  split
  next locked => simp [locked]
  next unlocked =>
      split
      next => simp [unlocked]
      next => simp [unlocked]

/-! ## Runs -/

/-- What a gateway's configuration is when the trace takes a branch there, or none. -/
def Matches (config : ElementConfig) : Option Branch → Prop
  | some branch => config = ⟨branch.wait, true, some branch.flow⟩
  | none => config.locked = false

theorem matches_tuned (p : ReplayPlan) (start : Nat) (g : Element) (old : ElementConfig) :
    Matches (tuned p start g old) (p.trace.branch? p.diagram g start) := by
  rw [tuned]
  cases p.trace.branch? p.diagram g start with
  | some branch => rfl
  | none =>
      change (if old.locked then ElementConfig.default else old).locked = false
      by_cases locked : old.locked = true
      · rw [if_pos locked]
        rfl
      · rw [if_neg locked]
        simpa using locked

/-- What holds between the calls of a steered replay. -/
structure Guided (p : ReplayPlan) (r : Replay) (last : Option Nat) : Prop where
  idle : r.inFlight = false
  gateways : ∀ g ∈ p.diagram.nodes, g.kind = .exclusiveGateway →
    Matches (r.session.config.get g) (last.bind (p.trace.branch? p.diagram g))
  others : ∀ e ∈ p.diagram.root :: p.diagram.nodes, e.kind ≠ .exclusiveGateway →
    r.session.config.get e = p.startConfig.get e

theorem Guided.initial (p : ReplayPlan) : Guided p p.initial none :=
  ⟨rfl, fun g _ _ => p.locked_startConfig g, fun _ _ _ => rfl⟩

theorem Guided.advance (consistent : p.diagram.Consistent) (h : Guided p r last) :
    Guided p (advance p r).value.1 (if r.isDone p then last else some r.index) := by
  by_cases done : r.isDone p = true
  · rw [if_pos done, advance_of_done h.idle done]
    exact h
  · have ended := ended_advance h.idle done
    rw [if_neg done]
    refine ⟨ended.idle, ?_, ?_⟩
    · intro g node kind
      rw [ended.config, get_configureGateways p r consistent node kind]
      exact matches_tuned ..
    · intro e known kind
      rw [ended.config, get_configureGateways_of_known p r consistent known kind]
      exact h.others e known kind

theorem Guided.choose (consistent : p.diagram.Consistent) (h : Guided p r last)
    {gateway : Element} (node : gateway ∈ p.diagram.nodes)
    (gatewayKind : gateway.kind = .exclusiveGateway) (flow : Flow) :
    Guided p (r.choose gateway flow) last := by
  refine ⟨?_, ?_, ?_⟩
  · have kept : (r.choose gateway flow).inFlight = r.inFlight := by
      rw [Replay.choose]
      split <;> rfl
    exact kept.trans h.idle
  · intro g inside kind
    have before := h.gateways g inside kind
    obtain same | ⟨_, unlocked, chosen⟩ := get_choose r gateway flow g
    · rw [same]
      exact before
    · rw [chosen]
      cases branch : last.bind (p.trace.branch? p.diagram g) with
      | none => exact unlocked
      | some branch' =>
          rw [branch, Matches] at before
          rw [before] at unlocked
          cases unlocked
  · intro e known kind
    obtain same | ⟨here, _⟩ := get_choose r gateway flow e
    · exact same.trans (h.others e known kind)
    · rw [consistent.eq_of_id_of_known known (List.mem_cons_of_mem _ node) here] at kind
      exact absurd gatewayKind kind

theorem Steered.guided (consistent : p.diagram.Consistent) (h : Steered p r last) :
    Guided p r last := by
  induction h with
  | fresh => exact .initial p
  | advance _ ih => exact ih.advance consistent
  | choose flow _ node kind ih => exact ih.choose consistent node kind flow

/-- Gateway locks follow the trace, however advances and choices are interleaved: after a step from a
place of the trace each gateway is set as the look-ahead from there says, choices are refused just at
the locked ones, and the other elements wait as the trace says. -/
theorem Steered.followsTrace (built : p.diagram.Built) {i : Nat} (h : Steered p r (some i)) :
    FollowsTrace p r i := by
  have guided := h.guided built.consistent
  have taken : ∀ g ∈ p.diagram.nodes, g.kind = .exclusiveGateway →
      Matches (r.session.config.get g) (p.trace.branch? p.diagram g i) :=
    fun g node kind => guided.gateways g node kind
  constructor
  case locked =>
    intro g node kind
    have here := taken g node kind
    cases branch : p.trace.branch? p.diagram g i with
    | none =>
        rw [branch, Matches] at here
        simp [here]
    | some branch' =>
        rw [branch, Matches] at here
        simp [here]
  case inferred =>
    intro g node kind branch inferred
    have here := taken g node kind
    rw [inferred, Matches] at here
    rw [here]
    exact ⟨rfl, rfl⟩
  case refused => exact fun g _ _ flow => chooseFlow_locked_iff ..
  case kept =>
    intro g _ _ locked gateway flow
    obtain same | ⟨_, unlocked, _⟩ := get_choose r gateway flow g
    · exact same
    · cases locked.symm.trans unlocked
  case steady => exact fun g _ _ j later stays => Trace.branch?_of_stays later stays
  case others =>
    intro e known kind
    rw [guided.others e known kind]
    exact p.wait_startConfig_iff built.consistent known

/-- The right branch is chosen before the step of the fork's trace, and again after it. -/
def contradicted : Replay :=
  let gateway := Diagram.forkNode "g" .exclusiveGateway
  let right : Flow := ⟨"Flow_3", gateway, Diagram.forkNode "b" .task⟩
  (advance forked (forked.initial.choose gateway right)).value.1.choose gateway right

theorem followsTrace_forked : FollowsTrace forked contradicted 0 ∧
    (contradicted.session.config.get (Diagram.forkNode "g" .exclusiveGateway)).activeOutgoing
      = some ⟨"Flow_2", Diagram.forkNode "g" .exclusiveGateway, Diagram.forkNode "a" .task⟩ := by
  have node : Diagram.forkNode "g" .exclusiveGateway ∈ forked.diagram.nodes := by decide
  have steered : Steered forked contradicted (some 0) :=
    .choose _ (.advance (.choose _ .fresh node rfl)) node rfl
  have follows := steered.followsTrace Diagram.built_fork
  exact ⟨follows, (follows.inferred _ node rfl _ rfl).1⟩

end Replay
end ProcessDiagram
