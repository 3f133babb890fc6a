import ProcessDiagram.Proofs.Replay.Stepping
import Mathlib.Logic.Relation

/-!
Steps by their rounds. What is refused in a round is tried again in the next one, as often as the
settings allow, and is given up after the last. However long a call sleeps in between, it ends as its
steps leave it. Main statements: `ending_beginStep`, `ending_play`.
-/
namespace ProcessDiagram
namespace Replay

open Simulation

variable {p : ReplayPlan} {r r' : Replay}

/-! ## Endings -/

/-- What a call leaves behind and answers, however long it sleeps. -/
def ending (p : ReplayPlan) (stage : Replay × Progress) : Replay × Except SimulationError Answer :=
  ((complete p stage.1 stage.2).value.1, (complete p stage.1 stage.2).value.2.answer)

@[simp] theorem ending_finished (r : Replay) (answer : Except SimulationError Answer) :
    ending p (r, .finished answer) = (r, answer) := by
  simp only [ending, complete_finished]

theorem ending_asleep (r : Replay) (delay : Binary64) (sleeper : Sleeper) :
    ending p (r, .asleep delay sleeper) = ending p (resume p r sleeper).value := by
  simp only [ending, complete_asleep, Report.slept]

/-! ## Rounds -/

/-- From attempt `n` at the triggers on, every round tries what the one before it refused, until
nothing is refused or all attempts are made. -/
inductive Rounds (p : ReplayPlan) : Session → Nat → List Trigger → Session →
    List (Trigger × TriggerFailure) → Prop
  | last {s s' : Session} {n : Nat} {triggers : List Trigger}
      {refused : List (Trigger × TriggerFailure)} :
      (carryOutAll p s triggers).value = (s', .ok refused) → refused = [] ∨ p.attempts ≤ n →
      Rounds p s n triggers s' refused
  | again {s s' s'' : Session} {n : Nat} {triggers : List Trigger}
      {refused left : List (Trigger × TriggerFailure)} :
      (carryOutAll p s triggers).value = (s', .ok refused) → refused ≠ [] → n < p.attempts →
      Rounds p s' (n + 1) (refused.map (·.1)) s'' left → Rounds p s n triggers s'' left

theorem Rounds.driven {s s' : Session} {n : Nat} {triggers : List Trigger}
    {refused : List (Trigger × TriggerFailure)} (h : Rounds p s n triggers s' refused) :
    s.Driven p (Trigger.Names triggers) s' := by
  induction h with
  | @last s s' n triggers refused carried _ =>
      have driven := driven_carryOutAll (p := p) s triggers (by rw [carried]; nofun)
      rw [carried] at driven
      exact driven
  | @again s s' s'' n triggers refused left carried _ _ _ ih =>
      have driven := driven_carryOutAll (p := p) s triggers (by rw [carried]; nofun)
      rw [carried] at driven
      exact driven.trans (ih.mono fun e named => named.mono (refused_subset carried))

section Attempt

variable {request : Request} {step n : Nat} {triggers : List Trigger} {s : Session}
  {refused : List (Trigger × TriggerFailure)}

theorem attempt_of_error {error : SimulationError}
    (carried : (carryOutAll p r.session triggers).value = (s, .error error)) :
    (attempt p r request step n triggers).value
      = Replay.finish { r with session := s } (.error error) := by
  simp only [attempt, Logged.value_bind, carried]
  rfl

theorem attempt_of_again (carried : (carryOutAll p r.session triggers).value = (s, .ok refused))
    (some : refused ≠ []) (more : n < p.attempts) :
    (attempt p r request step n triggers).value = ({ r with session := s },
      .asleep p.settings.triggerDelay ⟨request, .retrying step (n + 1) (refused.map (·.1))⟩) := by
  have again : !refused.isEmpty ∧ n < p.attempts := ⟨by simpa using some, more⟩
  simp only [attempt, Logged.value_bind, carried]
  rw [if_pos again]
  rfl

theorem attempt_of_last (carried : (carryOutAll p r.session triggers).value = (s, .ok refused))
    (last : refused = [] ∨ p.attempts ≤ n) :
    (attempt p r request step n triggers).value = (endStep p
      { r with session := s, failures := r.failures ++ (settled refused).map (·.2) } step
        request).value := by
  have enough : ¬ (!refused.isEmpty ∧ n < p.attempts) := by
    rintro ⟨some, more⟩
    obtain none | last := last
    · simp [none] at some
    · omega
  simp only [attempt, Logged.value_bind, carried]
  rw [if_neg enough]
  rfl

theorem again_or_last (p : ReplayPlan) (refused : List (Trigger × TriggerFailure)) (n : Nat) :
    refused ≠ [] ∧ n < p.attempts ∨ refused = [] ∨ p.attempts ≤ n := by
  by_cases some : refused = []
  · exact .inr (.inl some)
  · exact (Nat.lt_or_ge n p.attempts).imp (fun more => ⟨some, more⟩) .inr

/-- A call goes through its rounds and ends the step. -/
theorem ending_attempt (consistent : p.diagram.Consistent)
    (resting : Resting p.diagram r.session.simulation) (request : Request) (step n : Nat)
    (triggers : List Trigger) :
    (ending p (attempt p r request step n triggers).value).2 = .error .unfinished ∨
      ∃ s refused, Rounds p r.session n triggers s refused ∧
        ending p (attempt p r request step n triggers).value = ending p (endStep p
          { r with session := s, failures := r.failures ++ (settled refused).map (·.2) } step
            request).value := by
  induction left : p.attempts - n using Nat.strongRecOn generalizing r n triggers with
  | _ left ih =>
      have failed := fun error => @carryOutAll_error p r.session triggers error consistent resting
      have driven := driven_carryOutAll (p := p) r.session triggers
      cases carried : (carryOutAll p r.session triggers).value with
      | mk s result =>
          rw [carried] at failed driven
          cases result with
          | error error =>
              rw [attempt_of_error carried, finish, ending_finished, failed error rfl]
              exact .inl rfl
          | ok refused =>
              obtain ⟨some, more⟩ | last := again_or_last p refused n
              · rw [attempt_of_again carried some more, ending_asleep]
                have later := ih _ (by omega) (r := { r with session := s })
                  ((driven (by simp)).operated.resting consistent resting) (n + 1)
                  (refused.map (·.1)) rfl
                obtain late | ⟨s', given, rounds, same⟩ := later
                · exact .inl late
                · exact .inr ⟨s', given, .again carried some more rounds, same⟩
              · exact .inr ⟨s, refused, .last carried last, by rw [attempt_of_last carried last]⟩

end Attempt

/-! ## Steps -/

/-- What holds of a replay wherever a call sleeps. -/
structure Sane (p : ReplayPlan) (r : Replay) : Prop where
  resting : Resting p.diagram r.session.simulation
  begun : r.started = true → ∃ e, rootStart p.diagram = .ok e
  kept : ∀ e ∈ p.diagram.nodes, e.kind ≠ .exclusiveGateway →
    r.session.config.get e = p.startConfig.get e

namespace Sane

theorem initial (p : ReplayPlan) : Sane p p.initial :=
  ⟨.empty _, nofun, fun _ _ _ => rfl⟩

theorem reset (p : ReplayPlan) (r : Replay) : Sane p (r.reset p) :=
  ⟨.empty _, nofun, fun _ _ _ => rfl⟩

theorem alike (h : Sane p r) (session : r'.session = r.session) (started : r'.started = r.started) :
    Sane p r' :=
  ⟨session ▸ h.resting, fun begun => h.begun (started ▸ begun), session ▸ h.kept⟩

theorem configureGateways (consistent : p.diagram.Consistent) (h : Sane p r) (start : Nat) :
    Sane p (r.configureGateways p start) := by
  refine ⟨h.resting, h.begun, ?_⟩
  intro e node kind
  rw [get_configureGateways_of_kind p r consistent node kind]
  exact h.kept e node kind

theorem driven {allowed : Element → Prop} {s : Session} (consistent : p.diagram.Consistent)
    (h : Sane p r) (driven : r.session.Driven p allowed s) : Sane p { r with session := s } := by
  refine ⟨driven.operated.resting consistent h.resting, h.begun, ?_⟩
  intro e node kind
  rw [driven.config]
  exact h.kept e node kind

theorem ensureStarted_of_error (h : Sane p r) {error : SimulationError}
    (root : rootStart p.diagram = .error error) :
    (r.ensureStarted p).value = (r, .error error) := by
  have unstarted : ¬ r.started = true := by
    intro started
    obtain ⟨first, found⟩ := h.begun started
    cases found.symm.trans root
  have still : (r.session.start p.diagram p.bound none).value = (r.session, .error error) := by
    simp only [Session.start, Session.act, start_of_rootStart_error root]
  rw [Replay.ensureStarted, if_neg unstarted, Logged.value_bind, still]
  rfl

theorem ensureStarted_of_ok (consistent : p.diagram.Consistent) (h : Sane p r) {first : Element}
    (root : rootStart p.diagram = .ok first) :
    (∃ r', (r.ensureStarted p).value = (r', .error .unfinished)) ∨
      ∃ s, (r.ensureStarted p).value = ({ r with session := s, started := true }, .ok ()) ∧
        Sane p { r with session := s, started := true } := by
  by_cases started : r.started = true
  · have same : r = { r with session := r.session, started := true } := by rw [← started]
    rw [Replay.ensureStarted, if_pos started]
    exact .inr ⟨r.session, by rw [← same]; rfl, by rw [← same]; exact h⟩
  · have driven := @Session.Driven.start p (fun _ => False) r.session
    have failed : ∀ error, (r.session.start p.diagram p.bound none).value.2 = .error error →
        error = .unfinished :=
      fun error => start_error consistent h.resting.sound root
    rw [Replay.ensureStarted, if_neg started, Logged.value_bind]
    generalize (r.session.start p.diagram p.bound none).value = begun at driven failed ⊢
    obtain ⟨s, result⟩ := begun
    cases result with
    | error error => exact .inl ⟨{ r with session := s }, by rw [failed error rfl]; rfl⟩
    | ok _ =>
        have later := h.driven consistent (driven (by simp))
        exact .inr ⟨s, rfl, later.resting, fun _ => ⟨first, root⟩, later.kept⟩

theorem ensureStarted (consistent : p.diagram.Consistent) (h : Sane p r)
    (finished : (r.ensureStarted p).value.2 ≠ .error .unfinished) :
    Sane p (r.ensureStarted p).value.1 := by
  cases root : rootStart p.diagram with
  | error error =>
      rw [h.ensureStarted_of_error root]
      exact h
  | ok first =>
      obtain ⟨_, late⟩ | ⟨s, started, sane⟩ := h.ensureStarted_of_ok consistent root
      · exact absurd (by rw [late]) finished
      · rw [started]
        exact sane

end Sane

/-- One step of the trace: the gateways are set, the process is started if need be, and the triggers
go through their rounds; what the last of these refuses is recorded, each trigger with the failure
that its element is left with. -/
inductive Stepped (p : ReplayPlan) (r : Replay) : Replay → Prop
  | intro {r₁ : Replay} {s : Session} {refused : List (Trigger × TriggerFailure)} :
      ((r.configureGateways p r.index).ensureStarted p).value = (r₁, .ok ()) →
      Rounds p r₁.session 1 (Trigger.ofStep p.diagram p.trace r.index) s refused →
      Stepped p r { r₁ with
        session := s
        index := r.index + 1
        failures := r.failures ++ (settled refused).map (·.2) }

theorem Stepped.sane (consistent : p.diagram.Consistent) (h : Sane p r) (stepped : Stepped p r r') :
    Sane p r' := by
  cases stepped with
  | @intro r₁ s refused begun rounds =>
      have started := (h.configureGateways consistent r.index).ensureStarted consistent
        (by rw [begun]; nofun)
      rw [begun] at started
      exact (started.driven consistent rounds.driven).alike rfl rfl

theorem Stepped.kept (stepped : Stepped p r r') : r'.index = r.index + 1 ∧ r'.started = true ∧
    r'.inFlight = r.inFlight := by
  cases stepped with
  | intro begun _ =>
      have busy := ensureStarted_inFlight (p := p) (r.configureGateways p r.index)
      rw [begun] at busy
      exact ⟨rfl, (started_ensureStarted begun).1, busy⟩

theorem ending_beginStep_of_error (consistent : p.diagram.Consistent) (h : Sane p r)
    {error : SimulationError} (root : rootStart p.diagram = .error error)
    (more : ¬ r.isDone p = true) (request : Request) :
    ending p (beginStep p r request).value
      = ({ r.configureGateways p r.index with inFlight := false }, .error error) := by
  have refused := (h.configureGateways consistent r.index).ensureStarted_of_error root
  rw [value_beginStep more, ending_asleep, resume, Logged.value_bind, refused]
  exact ending_finished ..

theorem ending_beginStep (consistent : p.diagram.Consistent) (h : Sane p r) {first : Element}
    (root : rootStart p.diagram = .ok first) (more : ¬ r.isDone p = true) (request : Request) :
    (ending p (beginStep p r request).value).2 = .error .unfinished ∨
      ∃ r', Stepped p r r' ∧ ending p (beginStep p r request).value
        = ending p (endStep p r' r.index request).value := by
  have set := h.configureGateways consistent r.index
  rw [value_beginStep more, ending_asleep, resume, Logged.value_bind]
  obtain ⟨_, late⟩ | ⟨s, started, sane⟩ := set.ensureStarted_of_ok consistent root
  · rw [late]
    exact .inl (congrArg Prod.snd (ending_finished ..))
  · rw [started]
    obtain late | ⟨s', refused, rounds, same⟩ := ending_attempt consistent sane.resting request
      r.index 1 (Trigger.ofStep p.diagram p.trace r.index)
    · exact .inl late
    · exact .inr ⟨_, .intro started rounds, same⟩

/-- A play of a process that has been started comes to the end of the trace. -/
theorem ending_play (consistent : p.diagram.Consistent) (h : Sane p r) (started : r.started = true)
    (inside : r.index + 1 ≤ p.trace.size) :
    (ending p (beginStep p r .play).value).2 = .error .unfinished ∨
      ∃ r', Relation.ReflTransGen (Stepped p) r r' ∧ r'.index + 1 = p.trace.size ∧
        ending p (beginStep p r .play).value
          = ({ r' with inFlight := false }, .ok (.reached r'.index)) := by
  induction left : p.trace.size - (r.index + 1) generalizing r with
  | zero =>
      have done : r.isDone p = true := by
        rw [isDone, ReplayPlan.isLast, decide_eq_true_eq]
        omega
      refine .inr ⟨r, .refl, by omega, ?_⟩
      rw [beginStep, if_pos done]
      exact ending_finished ..
  | succ left ih =>
      have more : ¬ r.isDone p = true := by
        rw [isDone, ReplayPlan.isLast, decide_eq_true_eq]
        omega
      obtain ⟨first, root⟩ := h.begun started
      obtain late | ⟨r', stepped, same⟩ := ending_beginStep consistent h root more .play
      · exact .inl late
      · obtain ⟨index, started', _⟩ := stepped.kept
        have again : endStep p r' r.index .play = beginStep p r' .play := by
          rw [endStep, ← index]
        rw [same, again]
        obtain late | ⟨r'', steps, last, same⟩ :=
          ih (stepped.sane consistent h) started' (by omega) (by omega)
        · exact .inl late
        · exact .inr ⟨r'', .head stepped steps, last, same⟩

end Replay
end ProcessDiagram
