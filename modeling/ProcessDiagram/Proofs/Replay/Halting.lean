import ProcessDiagram.Proofs.Replay.Overlapping
import ProcessDiagram.Proofs.Replay.Rounds
import ProcessDiagram.Proofs.Simulation.Halting

/-!
Calls on a replay come to their ends where every cycle waits. With a bound that is large enough each
operation of a call ends in one way, and a call is made of finitely many operations.

Main statement: `Replay.Sane.settles`.
-/
namespace ProcessDiagram

section Settles

variable {α β : Type} {P : α → Prop} {Q : β → Prop} {f : Nat → α}

/-- From some bound on, what is computed is always the same, and as it should be. -/
def Settles (P : α → Prop) (f : Nat → α) : Prop :=
  ∃ a, P a ∧ ∃ limit, ∀ bound ≥ limit, f bound = a

namespace Settles

theorem pure {a : α} (h : P a) : Settles P fun _ => a :=
  ⟨a, h, 0, fun _ _ => rfl⟩

/-- What is computed from something that settles settles, if it does from there on. -/
theorem bind {g : Nat → β} (h : Settles P f) (next : ∀ a, P a →
    ∃ onward, Settles Q onward ∧ ∀ bound, f bound = a → g bound = onward bound) : Settles Q g := by
  obtain ⟨a, ha, first, same⟩ := h
  obtain ⟨onward, ⟨b, hb, second, same'⟩, goes⟩ := next a ha
  refine ⟨b, hb, max first second, ?_⟩
  intro bound enough
  rw [goes bound (same bound (by omega)), same' bound (by omega)]

theorem map (h : Settles P f) (g : α → β) (next : ∀ a, P a → Q (g a)) :
    Settles Q fun bound => g (f bound) :=
  h.bind fun a ha => ⟨_, .pure (next a ha), fun _ here => congrArg g here⟩

theorem mono {Q : α → Prop} (h : Settles P f) (each : ∀ bound, P (f bound) → Q (f bound)) :
    Settles Q f := by
  obtain ⟨a, ha, limit, same⟩ := h
  have here := same limit (Nat.le_refl limit)
  exact ⟨a, here ▸ each limit (here.symm ▸ ha), limit, same⟩

end Settles

end Settles

namespace Simulation

variable {d : Diagram} {s : Simulation}

theorem Resting.grounded (h : Resting d s) : s.Grounded := by
  refine ⟨by rw [h.drained]; nofun, ?_⟩
  intro i hi
  obtain ⟨x, hx, parent⟩ := List.mem_map.mp hi
  obtain ⟨j, there⟩ := List.mem_iff_getElem?.mp hx
  obtain ⟨_, y, hy, _⟩ := h.sound.formed.inside j x i there parent
  exact (List.getElem?_eq_some_iff.mp hy).1

end Simulation

open Simulation

/-- A session in which no operation can go on for ever. -/
structure Session.Waits (d : Diagram) (s : Session) : Prop where
  resting : Resting d s.simulation
  waits : d.CyclesWait s.config

namespace Session

variable {d : Diagram} {s : Session}

theorem Waits.settles {α : Type} (h : s.Waits d)
    {call : Nat → Simulation × Except SimulationError α}
    (launched : Launched d s.config s.simulation call) :
    Settles (fun x => x.2 ≠ .error .unfinished) call := by
  obtain ⟨limit, t, result, _, finished, same⟩ := launched.ends h.waits h.resting.drained
  exact ⟨(t, result), finished, limit, same⟩

theorem Waits.driven {p : ReplayPlan} {allowed : Element → Prop} {s' : Session}
    (consistent : p.diagram.Consistent) (h : s.Waits p.diagram) (driven : s.Driven p allowed s') :
    s'.Waits p.diagram :=
  ⟨driven.operated.resting consistent h.resting, driven.config ▸ h.waits⟩

end Session

namespace Replay

variable {p : ReplayPlan} {r : Replay}

/-- A session was only operated, and that came to an end. -/
def Settled {α : Type} (p : ReplayPlan) (s : Session) (x : Session × Except SimulationError α) :
    Prop :=
  x.2 ≠ .error .unfinished ∧ s.Driven p (fun _ => True) x.1

theorem settles_carryOut {s : Session} (h : s.Waits p.diagram) (t : Trigger) :
    Settles (Settled p s) fun bound => (carryOut (p.within bound) s t).value := by
  have settles : Settles (fun x => x.2 ≠ .error .unfinished)
      fun bound => (carryOut (p.within bound) s t).value := by
    obtain ⟨i, _, same⟩ | ⟨result, refused, same⟩ := carryOut_cases p s t
    · simp only [same]
      refine (h.settles (launched_signal h.resting.grounded i)).map
        (fun x => (({ s with simulation := x.1 } : Session), x.2)) ?_
      exact fun _ finished => finished
    · simp only [same]
      refine .pure ?_
      intro unfinished
      obtain ⟨failure, other⟩ := refused _ unfinished
      cases other
  refine settles.mono fun bound finished => ⟨finished, ?_⟩
  have driven := driven_carryOut (p := p.within bound) s t finished
  exact ⟨driven.config, driven.operated.mono fun _ _ => trivial⟩

theorem settles_carryOutAll {s : Session} (consistent : p.diagram.Consistent)
    (h : s.Waits p.diagram) (triggers : List Trigger) :
    Settles (Settled p s) fun bound => (carryOutAll (p.within bound) s triggers).value := by
  induction triggers generalizing s with
  | nil => exact .pure ⟨by simp, .refl s⟩
  | cons t rest ih =>
      simp only [carryOutAll, Logged.value_bind]
      refine (settles_carryOut h t).bind ?_
      rintro ⟨s₁, result⟩ ⟨finished, driven⟩
      have later := ih (h.driven consistent driven)
      cases result with
      | ok _ =>
          refine ⟨_, later.map id ?_, fun bound here => by rw [here]; rfl⟩
          exact fun x settled => ⟨settled.1, driven.trans settled.2⟩
      | error error =>
          cases error with
          | refused failure =>
              refine ⟨_, later.map (fun x => (x.1, x.2.map ((t, failure) :: ·))) ?_,
                fun bound here => by rw [here]; rfl⟩
              rintro ⟨s₂, result⟩ ⟨finished, driven'⟩
              refine ⟨?_, driven.trans driven'⟩
              cases result with
              | ok _ => simp [Except.map]
              | error error => exact finished
          | unfinished => exact absurd rfl finished
          | unknown | noContainer | orphanJoin =>
              refine ⟨fun _ => (s₁, .error _), .pure ⟨?_, driven⟩,
                fun bound here => by rw [here]; rfl⟩
              simp

theorem Sane.within (h : Sane p r) (bound : Nat) : Sane (p.within bound) r :=
  ⟨h.resting, h.begun, h.kept⟩

/-- Whatever the look-ahead does to gateways, the activities of the trace go on stopping cycles. -/
theorem Sane.waits (consistent : p.diagram.Consistent) (h : Sane p r)
    (cycles : p.diagram.CyclesWait p.startConfig) : r.session.Waits p.diagram := by
  refine ⟨h.resting, cycles.mono consistent ?_⟩
  intro e node stops
  by_cases gateway : e.kind = .exclusiveGateway
  · simp only [ConfigStore.stops, gateway, p.startConfig_gateway consistent node gateway] at stops
    cases stops
  · simp only [ConfigStore.stops, h.kept e node gateway]
    exact stops

/-- Where a call has come that need not go on for ever. -/
def Fits (p : ReplayPlan) (stage : Replay × Progress) : Prop :=
  stage.2 ≠ .finished (.error .unfinished) ∧ Sane p stage.1

theorem fits_finish {a : Except SimulationError Answer} (h : Sane p r)
    (finished : a ≠ .error .unfinished) : Fits p (r.finish a) := by
  refine ⟨?_, h.alike rfl rfl⟩
  intro unfinished
  exact finished (Progress.finished.inj unfinished)

theorem fits_beginStep (consistent : p.diagram.Consistent) (h : Sane p r) (request : Request) :
    Fits p (beginStep p r request).value := by
  by_cases done : r.isDone p = true
  · simp only [beginStep, if_pos done]
    cases request with
    | advance => exact fits_finish h (by simp)
    | play => exact fits_finish h (by simp)
  · rw [value_beginStep done]
    exact ⟨by simp, h.configureGateways consistent r.index⟩

theorem fits_endStep (consistent : p.diagram.Consistent) (h : Sane p r) (step : Nat)
    (request : Request) : Fits p (endStep p r step request).value := by
  have onward : Sane p { r with index := step + 1 } := h.alike rfl rfl
  cases request with
  | advance => exact fits_finish onward nofun
  | play => exact fits_beginStep consistent onward .play

section Settles

variable (consistent : p.diagram.Consistent) (cycles : p.diagram.CyclesWait p.startConfig)
include consistent cycles

theorem settles_ensureStarted (h : Sane p r) :
    Settles (fun x => x.2 ≠ .error .unfinished ∧ Sane p x.1)
      fun bound => (r.ensureStarted (p.within bound)).value := by
  have settles : Settles (fun x => x.2 ≠ .error .unfinished)
      fun bound => (r.ensureStarted (p.within bound)).value := by
    by_cases started : r.started = true
    · simp only [ensureStarted, if_pos started]
      exact .pure (by simp)
    · simp only [ensureStarted, if_neg started, Logged.value_bind]
      refine ((h.waits consistent cycles).settles
        (launched_start h.resting.grounded none)).bind ?_
      rintro ⟨simulation, result⟩ finished
      cases result with
      | ok _ =>
          refine ⟨fun _ => ({ r with session.simulation := simulation, started := true }, .ok ()),
            .pure (by simp), fun bound here => ?_⟩
          simp only [Session.start, Session.act, ReplayPlan.within_diagram,
            ReplayPlan.within_bound, here]
          rfl
      | error error =>
          refine ⟨fun _ => ({ r with session.simulation := simulation }, .error error),
            .pure ?_, fun bound here => ?_⟩
          · exact fun same => finished (congrArg _ (Except.error.inj same))
          · simp only [Session.start, Session.act, ReplayPlan.within_diagram,
              ReplayPlan.within_bound, here]
            rfl
  refine settles.mono fun bound finished => ⟨finished, ?_⟩
  have sane := Sane.ensureStarted (p := p.within bound) consistent (h.within bound) finished
  exact ⟨sane.resting, sane.begun, sane.kept⟩

theorem settles_attempt (h : Sane p r) (request : Request) (step n : Nat)
    (triggers : List Trigger) :
    Settles (Fits p) fun bound => (attempt (p.within bound) r request step n triggers).value := by
  refine (settles_carryOutAll consistent (h.waits consistent cycles) triggers).bind ?_
  rintro ⟨s, result⟩ ⟨finished, driven⟩
  have sane := h.driven consistent driven
  cases result with
  | error error =>
      refine ⟨_, .pure (fits_finish (a := .error error) sane ?_),
        fun bound here => attempt_of_error here⟩
      exact fun same => finished (congrArg _ (Except.error.inj same))
  | ok refused =>
      obtain ⟨some, more⟩ | last := again_or_last p refused n
      · refine ⟨fun _ => ({ r with session := s }, .asleep p.settings.triggerDelay
            ⟨request, .retrying step (n + 1) (refused.map (·.1))⟩), .pure ⟨?_, sane⟩,
          fun bound here => attempt_of_again here some more⟩
        nofun
      · have recorded : Sane p
            { r with session := s, failures := r.failures ++ (settled refused).map (·.2) } :=
          sane.alike rfl rfl
        exact ⟨_, .pure (fits_endStep consistent recorded step request),
          fun bound here => attempt_of_last here last⟩

theorem settles_resume (h : Sane p r) (sleeper : Sleeper) :
    Settles (Fits p) fun bound => (resume (p.within bound) r sleeper).value := by
  obtain ⟨request, pause⟩ := sleeper
  cases pause with
  | retrying index n pending => exact settles_attempt consistent cycles h request index n pending
  | pacing index =>
      simp only [resume, Logged.value_bind]
      refine (settles_ensureStarted consistent cycles h).bind ?_
      rintro ⟨r₁, result⟩ ⟨finished, sane⟩
      cases result with
      | error error =>
          refine ⟨_, .pure (fits_finish (a := .error error) sane ?_),
            fun bound here => by rw [here]; rfl⟩
          exact fun same => finished (congrArg _ (Except.error.inj same))
      | ok _ =>
          exact ⟨_, settles_attempt consistent cycles sane request index 1
            (Trigger.ofStep p.diagram p.trace index), fun bound here => by rw [here]; rfl⟩

theorem settles_ending {stage : Replay × Progress} (h : Fits p stage) :
    Settles (fun x => x.2 ≠ .error .unfinished) fun bound => ending (p.within bound) stage := by
  induction rank : stage.2.rank p using Nat.strongRecOn generalizing stage with
  | _ n ih =>
      obtain ⟨r, progress⟩ := stage
      obtain ⟨finished, sane⟩ := h
      cases progress with
      | finished answer =>
          simp only [ending_finished]
          exact .pure fun unfinished => finished (congrArg _ unfinished)
      | asleep delay sleeper =>
          simp only [ending_asleep]
          have resumed := (settles_resume consistent cycles sane sleeper).mono
            (Q := fun next => Fits p next ∧ next.2.rank p ≤ sleeper.pause.rank p)
            fun bound fits => ⟨fits, rank_resume (p.within bound) r sleeper⟩
          refine resumed.bind ?_
          rintro next ⟨fits, less⟩
          have shorter : next.2.rank p < n := rank ▸ Nat.lt_succ_of_le less
          exact ⟨_, ih _ shorter fits rfl, fun bound here => by rw [here]⟩

theorem settles_begin (h : Sane p r) (request : Request) :
    Settles (Fits p) fun bound => (begin (p.within bound) r request).value := by
  cases busy : r.inFlight with
  | true =>
      simp only [begin_of_inFlight busy]
      refine .pure ⟨?_, h⟩
      simp
  | false =>
      have guarded : Sane p { r with inFlight := true } := h.alike rfl rfl
      have rewound : Sane p { r.reset p with inFlight := true } := (Sane.reset p r).alike rfl rfl
      cases request with
      | advance =>
          simp only [begin, busy]
          exact .pure (fits_beginStep consistent guarded .advance)
      | play =>
          by_cases none : p.trace.size = 0
          · have empty : ∀ bound, (p.within bound).trace.size = 0 := fun _ => none
            simp only [begin, busy, empty, if_true]
            exact .pure (fits_finish (a := .ok (.reached 0)) rewound (by simp))
          · refine (settles_ensureStarted consistent cycles rewound).bind ?_
            rintro ⟨r₁, result⟩ ⟨finished, sane⟩
            cases result with
            | error error =>
                refine ⟨_, .pure (fits_finish (a := .error error) sane ?_),
                  fun bound here => begin_play_of_error (p := p.within bound) busy none here⟩
                exact fun same => finished (congrArg _ (Except.error.inj same))
            | ok _ =>
                exact ⟨_, .pure (fits_beginStep consistent sane .play),
                  fun bound here => begin_play_of_ok (p := p.within bound) busy none here⟩

/-- Where every cycle waits, a call comes to its end, and always to the same. -/
theorem Sane.settles (h : Sane p r) (request : Request) :
    Settles (fun x => x.2 ≠ .error .unfinished)
      fun bound => ending (p.within bound) (begin (p.within bound) r request).value :=
  (settles_begin consistent cycles h request).bind fun _ fits =>
    ⟨_, settles_ending consistent cycles fits, fun bound here => by rw [here]⟩

end Settles

end Replay
end ProcessDiagram
