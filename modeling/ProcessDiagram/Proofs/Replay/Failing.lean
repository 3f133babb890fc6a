import ProcessDiagram.Proofs.Replay.Halting

/-!
How calls on a replay fail. Triggers that are refused are tried again, recorded and skipped, so that
a call only fails where the process cannot be started.

Main statement: `Called.dependable`.
-/
namespace ProcessDiagram
namespace Replay

open Simulation

variable {p : ReplayPlan} {r r' : Replay}

/-- Calls on a fresh replay, one after another, each of which comes to its end. -/
inductive Called (p : ReplayPlan) : Replay → Prop
  | fresh {r : Replay} : p.replay? = .ok r → Called p r
  | call {r : Replay} (bound : Nat) (request : Request) : Called p r →
      (call (p.within bound) r request).value.2.answer ≠ .error .unfinished →
      Called p (call (p.within bound) r request).value.1

/-- What can be relied on when a replay is called. -/
structure Dependable (p : ReplayPlan) (r : Replay) : Prop where
  /-- The guard is free after every call. -/
  freed : ∀ request, (call p r request).value.1.inFlight = false
  /-- At the end of the trace an advance does nothing. -/
  exhausted : r.isDone p = true → (advance p r).value = (r, ⟨[], .ok (.stepped false)⟩)
  /-- Where the process can be started, an advance takes a step, whatever is refused in it. -/
  advanced : ∀ e, rootStart p.diagram = .ok e → ¬ r.isDone p = true →
    (advance p r).value.2.answer ≠ .error .unfinished →
      (advance p r).value.2.answer = .ok (.stepped true) ∧
        (advance p r).value.1.index = r.index + 1 ∧ Stepped p r (advance p r).value.1
  empty : p.trace.size = 0 → (play p r).value = (r.reset p, ⟨[], .ok (.reached 0)⟩)
  /-- And a play takes every step. -/
  played : ∀ e, rootStart p.diagram = .ok e → ¬ p.trace.size = 0 →
    (play p r).value.2.answer ≠ .error .unfinished →
      (play p r).value.2.answer = .ok (.reached (p.trace.size - 1)) ∧
        (play p r).value.1.index = p.trace.size - 1 ∧
          ∃ started, ((r.reset p).ensureStarted p).value = (started, .ok ()) ∧
            Relation.ReflTransGen (Stepped p) started (play p r).value.1
  /-- Where it cannot, that is what a call fails with that has something to do. -/
  unstarted : ∀ error, rootStart p.diagram = .error error →
    error = .refused ⟨p.diagram.root.id, .noStartEvent⟩ ∧
      (¬ r.isDone p = true → (advance p r).value.2.answer = .error error ∧
        (advance p r).value.1.index = r.index) ∧
      (¬ p.trace.size = 0 → (play p r).value.2.answer = .error error ∧
        (play p r).value.1.index = 0)
  /-- Where every cycle waits, calls come to their ends. -/
  halts : p.diagram.CyclesWait p.startConfig → ∀ request, ∃ r' answer limit,
    answer ≠ .error .unfinished ∧ ∀ bound ≥ limit,
      (call (p.within bound) r request).value.1 = r' ∧
        (call (p.within bound) r request).value.2.answer = answer

/-! ## Calls -/

theorem call_of_begin {request : Request} {stage : Replay × Progress}
    (begun : (begin p r request).value = stage) :
    ((call p r request).value.1, (call p r request).value.2.answer) = ending p stage := by
  rw [← begun]
  rfl

theorem inFlight_ending {stage : Replay × Progress} (guards : Guards stage) :
    (ending p stage).1.inFlight = false := by
  induction rank : stage.2.rank p using Nat.strongRecOn generalizing stage with
  | _ n ih =>
      cases guards with
      | @asleep r delay sleeper busy =>
          have less := Nat.lt_succ_of_le (rank_resume p r sleeper)
          rw [ending_asleep]
          exact ih _ (rank ▸ less) (guards_resume busy sleeper) rfl
      | ended idle =>
          rw [ending_finished]
          exact idle

/-- The mark of a call in flight plays no part in the start. -/
theorem value_ensureStarted_mark (r : Replay) (mark : Bool) :
    ({ r with inFlight := mark }.ensureStarted p).value
      = ({ (r.ensureStarted p).value.1 with inFlight := mark }, (r.ensureStarted p).value.2) := by
  by_cases started : r.started = true
  · simp only [ensureStarted, if_pos started]
    rfl
  · simp only [ensureStarted, if_neg started, Logged.value_bind]
    split <;> rfl

theorem Stepped.mark (h : Stepped p r r') (mark : Bool) :
    Stepped p { r with inFlight := mark } { r' with inFlight := mark } := by
  cases h with
  | @intro r₁ s refused begun rounds =>
      have started := value_ensureStarted_mark (p := p) (r.configureGateways p r.index) mark
      rw [begun] at started
      exact .intro (r := { r with inFlight := mark }) started rounds

section Call

variable (idle : r.inFlight = false)
include idle

/-- An advance begins its step as if it were in flight already. -/
theorem advance_eq_ending :
    ((advance p r).value.1, (advance p r).value.2.answer)
      = ending p (beginStep p { r with inFlight := true } .advance).value := by
  rw [value_advance r idle]
  rfl

theorem advance_of_error (consistent : p.diagram.Consistent) (h : Sane p r)
    {error : SimulationError} (root : rootStart p.diagram = .error error)
    (more : ¬ r.isDone p = true) : (advance p r).value.1 = r.configureGateways p r.index ∧
      (advance p r).value.2.answer = .error error := by
  have guarded : Sane p { r with inFlight := true } := h.alike rfl rfl
  have refused := (advance_eq_ending idle).trans
    (ending_beginStep_of_error consistent guarded root more .advance)
  obtain ⟨left, answer⟩ := Prod.mk.inj refused
  refine ⟨left.trans ?_, answer⟩
  simp only [configureGateways, ← idle]

theorem advance_of_ok (consistent : p.diagram.Consistent) (h : Sane p r) {first : Element}
    (root : rootStart p.diagram = .ok first) (more : ¬ r.isDone p = true) :
    (advance p r).value.2.answer = .error .unfinished ∨
      Stepped p r (advance p r).value.1 ∧ (advance p r).value.2.answer = .ok (.stepped true) := by
  have guarded : Sane p { r with inFlight := true } := h.alike rfl rfl
  have whole := advance_eq_ending (p := p) idle
  obtain late | ⟨r', stepped, same⟩ := ending_beginStep consistent guarded root more .advance
  · rw [← whole] at late
    exact .inl late
  · have onward : ending p (endStep p r' r.index .advance).value
        = ({ r' with index := r.index + 1, inFlight := false }, .ok (.stepped true)) :=
      ending_finished ..
    have unmarked : Stepped p { r with inFlight := false } { r' with inFlight := false } :=
      stepped.mark false
    have index : r.index + 1 = r'.index := stepped.kept.1.symm
    rw [same, onward, Prod.mk.injEq, index] at whole
    rw [← idle] at unmarked
    exact .inr ⟨by rw [whole.1]; exact idle ▸ unmarked, whole.2⟩

theorem play_of_error {error : SimulationError} (root : rootStart p.diagram = .error error)
    (nonempty : ¬ p.trace.size = 0) : (play p r).value.1 = r.reset p ∧
      (play p r).value.2.answer = .error error := by
  have same : ({ r.reset p with inFlight := false } : Replay) = r.reset p := by
    have rewound : (r.reset p).inFlight = false := idle
    rw [← rewound]
  have refused := (Sane.reset p r).ensureStarted_of_error root
  have marked := value_ensureStarted_mark (p := p) (r.reset p) true
  have begun := call_of_begin (begin_play_of_error idle nonempty (marked.trans (by rw [refused])))
  simp only [finish, ending_finished, Prod.mk.injEq] at begun
  exact ⟨begun.1.trans same, begun.2⟩

theorem play_of_ok (consistent : p.diagram.Consistent) {first : Element}
    (root : rootStart p.diagram = .ok first) (nonempty : ¬ p.trace.size = 0) :
    (play p r).value.2.answer = .error .unfinished ∨
      ∃ started, ((r.reset p).ensureStarted p).value = (started, .ok ()) ∧
        Relation.ReflTransGen (Stepped p) started (play p r).value.1 ∧
          (play p r).value.1.index + 1 = p.trace.size ∧
            (play p r).value.2.answer = .ok (.reached (play p r).value.1.index) := by
  have rewound : (r.reset p).inFlight = false := idle
  have marked := value_ensureStarted_mark (p := p) (r.reset p) true
  obtain ⟨_, late⟩ | ⟨s, started, sane⟩ := (Sane.reset p r).ensureStarted_of_ok consistent root
  · have begun := call_of_begin (begin_play_of_error idle nonempty (marked.trans (by rw [late])))
    simp only [finish, ending_finished, Prod.mk.injEq] at begun
    exact .inl begun.2
  · have begun := call_of_begin (begin_play_of_ok idle nonempty (marked.trans (by rw [started])))
    have guarded : Sane p { r.reset p with session := s, started := true, inFlight := true } :=
      sane.alike rfl rfl
    have inside : 0 + 1 ≤ p.trace.size := Nat.pos_of_ne_zero nonempty
    obtain late | ⟨r', steps, last, ended⟩ := ending_play consistent guarded rfl inside
    · exact .inl ((congrArg Prod.snd begun).trans late)
    · have unmarked : Relation.ReflTransGen (Stepped p)
          { r.reset p with session := s, started := true, inFlight := false }
          { r' with inFlight := false } :=
        steps.lift (fun r => { r with inFlight := false }) fun _ _ stepped => stepped.mark false
      obtain ⟨left, answer⟩ := Prod.mk.inj (begun.trans ended)
      have left : (play p r).value.1 = { r' with inFlight := false } := left
      rw [rewound] at started
      rw [left]
      exact .inr ⟨_, started, unmarked, last, answer⟩

end Call

theorem Sane.steps (consistent : p.diagram.Consistent) (h : Sane p r)
    (steps : Relation.ReflTransGen (Stepped p) r r') : Sane p r' := by
  induction steps with
  | refl => exact h
  | tail _ stepped ih => exact stepped.sane consistent ih

theorem play_of_empty (idle : r.inFlight = false) (none : p.trace.size = 0) :
    (play p r).value = (r.reset p, ⟨[], .ok (.reached 0)⟩) := by
  have same : (r.reset p).finish (.ok (.reached 0)) = (r.reset p, .finished (.ok (.reached 0))) := by
    have rewound : (r.reset p).inFlight = false := idle
    rw [finish, ← rewound]
  have begun : (begin p r .play).value = (r.reset p, .finished (.ok (.reached 0))) := by
    rw [← same]
    simp only [begin, idle, none, if_true]
    rfl
  simp only [play, call, Logged.value_bind, begun]
  exact complete_finished ..

/-- A call that comes to its end leaves a replay behind that can be called again. -/
theorem Sane.call (consistent : p.diagram.Consistent) (h : Sane p r) (idle : r.inFlight = false)
    (request : Request) (finished : (Replay.call p r request).value.2.answer ≠ .error .unfinished) :
    Sane p (Replay.call p r request).value.1 := by
  have rewound := Sane.reset p r
  cases request with
  | advance =>
      change Sane p (advance p r).value.1
      by_cases done : r.isDone p = true
      · rw [advance_of_done idle done]
        exact h
      · cases root : rootStart p.diagram with
        | error error =>
            rw [(advance_of_error idle consistent h root done).1]
            exact h.configureGateways consistent r.index
        | ok first =>
            obtain late | ⟨stepped, _⟩ := advance_of_ok idle consistent h root done
            · exact absurd late finished
            · exact stepped.sane consistent h
  | play =>
      change Sane p (play p r).value.1
      by_cases none : p.trace.size = 0
      · rw [play_of_empty idle none]
        exact rewound
      · cases root : rootStart p.diagram with
        | error error =>
            rw [(play_of_error idle root none).1]
            exact rewound
        | ok first =>
            obtain late | ⟨r₀, started, steps, _⟩ := play_of_ok idle consistent root none
            · exact absurd late finished
            · have sane := rewound.ensureStarted consistent (by rw [started]; nofun)
              rw [started] at sane
              exact sane.steps consistent steps

theorem replay?_eq_ok (fresh : p.replay? = .ok r) : r = p.initial := by
  rw [ReplayPlan.replay?] at fresh
  split at fresh
  · exact (Except.ok.inj fresh).symm
  · cases fresh

theorem Called.sane (consistent : p.diagram.Consistent) (h : Called p r) :
    Sane p r ∧ r.inFlight = false := by
  induction h with
  | fresh fresh =>
      rw [replay?_eq_ok fresh]
      exact ⟨.initial p, rfl⟩
  | @call r bound request _ finished ih =>
      obtain ⟨sane, idle⟩ := ih
      have guards := guards_begin (p := p.within bound) idle request
      have later := Sane.call (p := p.within bound) consistent (sane.within bound) idle request
        finished
      exact ⟨⟨later.resting, later.begun, later.kept⟩, inFlight_ending guards⟩

/-- Whatever calls came before, no call fails, unless the process cannot be started. -/
theorem Called.dependable (built : p.diagram.Built) (h : Called p r) : Dependable p r := by
  have consistent := built.consistent
  obtain ⟨sane, idle⟩ := h.sane consistent
  refine ⟨?_, advance_of_done idle, ?_, play_of_empty idle, ?_, ?_, ?_⟩
  · intro request
    exact inFlight_ending (guards_begin idle request)
  · intro first root more finished
    obtain late | ⟨stepped, answer⟩ := advance_of_ok idle consistent sane root more
    · exact absurd late finished
    · exact ⟨answer, stepped.kept.1, stepped⟩
  · intro first root nonempty finished
    obtain late | ⟨r₀, started, steps, last, answer⟩ := play_of_ok idle consistent root nonempty
    · exact absurd late finished
    · have index : (play p r).value.1.index = p.trace.size - 1 := by omega
      rw [index] at answer
      exact ⟨answer, index, r₀, started, steps⟩
  · intro error root
    refine ⟨rootStart_error root, ?_, ?_⟩
    · intro more
      obtain ⟨left, answer⟩ := advance_of_error idle consistent sane root more
      exact ⟨answer, by rw [left]; rfl⟩
    · intro nonempty
      obtain ⟨left, answer⟩ := play_of_error idle root nonempty
      exact ⟨answer, by rw [left]; rfl⟩
  · intro cycles request
    obtain ⟨⟨r', answer⟩, finished, limit, same⟩ := sane.settles consistent cycles request
    refine ⟨r', answer, limit, finished, ?_⟩
    intro bound enough
    exact Prod.mk.inj (same bound enough)

/-- A trace in which a task is done that no token has come to. -/
def hasty : ReplayPlan where
  diagram := .review
  trace := ⟨[⟨"0", 0, []⟩, ⟨"1", 1, [("t", .active), ("a", .active)]⟩,
    ⟨"2", 2, [("t", .active), ("a", .completed)]⟩]⟩
  settings := .default
  bound := 100

/-- Its process has been started, and the step with the task is next. -/
def hurried : Replay :=
  (advance hasty hasty.initial).value.1

theorem called_hurried : Called hasty hurried :=
  .call hasty.bound .advance (.fresh rfl) (by decide +kernel)

theorem cyclesWait_hasty : hasty.diagram.CyclesWait hasty.startConfig := by
  apply Diagram.cyclesWait_of_rank Diagram.built_review.consistent fun id =>
    ["e", "a", "b", "g", "t", "s"].idxOf id
  decide +kernel

theorem dependable_hurried :
    (∃ e, rootStart hasty.diagram = .ok e) ∧ hasty.diagram.CyclesWait hasty.startConfig ∧
      ¬ hurried.isDone hasty = true ∧ Dependable hasty hurried :=
  ⟨⟨_, rfl⟩, cyclesWait_hasty, by decide +kernel, called_hurried.dependable Diagram.built_review⟩

/-- The step is taken, and the refusal recorded. -/
example : (advance hasty hurried).value.1.index = 2 ∧
    (advance hasty hurried).value.1.failures = [⟨"a", .noToken⟩] := by
  decide +kernel

/-- A process in which nothing starts. -/
def startless : ReplayPlan where
  diagram := ⟨⟨"p", .process, "", none, .zero⟩, [Diagram.forkNode "a" .task], []⟩
  trace := ⟨[⟨"0", 0, []⟩, ⟨"1", 1, []⟩]⟩
  settings := .default
  bound := 100

/-- An advance and a play of it both fail, and the step is not taken. -/
theorem calls_fail_startless : startless.replay? = .ok startless.initial ∧
    (advance startless startless.initial).value.2.answer = .error (.refused ⟨"p", .noStartEvent⟩) ∧
      (advance startless startless.initial).value.1.index = 0 ∧
        (play startless startless.initial).value.2.answer
          = .error (.refused ⟨"p", .noStartEvent⟩) := by
  refine ⟨rfl, ?_⟩
  decide +kernel

end Replay
end ProcessDiagram
