import ProcessDiagram.Replay.Run
import ProcessDiagram.Proofs.Replay.Lookahead
import ProcessDiagram.Proofs.Simulation.Consulted

/-!
Playing a trace and stepping through it. Both take the same steps, but playing starts the process
before the first look-ahead and stepping after it. Main statement: `play_ends_iff`, by which they end
alike unless the start meets a gateway that the look-ahead sets.
-/
namespace ProcessDiagram
namespace Replay

variable (p : ReplayPlan)

/-- Advances that each take a step, and then one that finds the trace at its end. -/
inductive Exhausts : Replay → Replay → Prop
  | last {r : Replay} :
      (advance p r).value.2.answer = .ok (.stepped false) → Exhausts r (advance p r).value.1
  | more {r r' : Replay} : (advance p r).value.2.answer = .ok (.stepped true) →
      Exhausts (advance p r).value.1 r' → Exhausts r r'

/-- A play comes to its end and leaves a replay behind. -/
def PlayEnds (r r' : Replay) : Prop :=
  (play p r).value.1 = r' ∧ ∃ index, (play p r).value.2.answer = .ok (.reached index)

/-- The step that a pause belongs to. -/
def Pause.step : Pause → Nat
  | pacing index => index
  | retrying index _ _ => index

variable {p}

theorem complete_finished (r : Replay) (answer : Except SimulationError Answer) :
    (complete p r (.finished answer)).value = (r, ⟨[], answer⟩) := by
  rw [complete]
  rfl

theorem complete_asleep (r : Replay) (delay : Binary64) (sleeper : Sleeper) :
    (complete p r (.asleep delay sleeper)).value
      = ((complete p (resume p r sleeper).value.1 (resume p r sleeper).value.2).value.1,
        (complete p (resume p r sleeper).value.1 (resume p r sleeper).value.2).value.2.slept
          delay) := by
  rw [complete]

theorem ensureStarted_inFlight (r : Replay) :
    (r.ensureStarted p).value.1.inFlight = r.inFlight := by
  rw [ensureStarted]
  split
  · rfl
  · simp only [Logged.value_bind]
    split <;> rfl

/-- How an advance and a play go on from the same pause: they fail alike, fall asleep alike, or the
advance is over where the play begins its next step. -/
inductive Paired (p : ReplayPlan) (step : Nat) (inFlight : Bool) :
    Replay × Progress → Replay × Progress → Prop
  | failed {r : Replay} (e : SimulationError) :
      Paired p step inFlight (r.finish (.error e)) (r.finish (.error e))
  | asleep {r : Replay} (delay : Binary64) (pause : Pause) :
      pause.step = step → r.inFlight = inFlight → Paired p step inFlight
        (r, .asleep delay ⟨.advance, pause⟩) (r, .asleep delay ⟨.play, pause⟩)
  | ended {r : Replay} : r.index = step + 1 → r.inFlight = inFlight → Paired p step inFlight
      (r.finish (.ok (.stepped true))) (beginStep p r .play).value

theorem paired_attempt (r : Replay) (step n : Nat) (triggers : List Trigger) :
    Paired p step r.inFlight (attempt p r .advance step n triggers).value
      (attempt p r .play step n triggers).value := by
  simp only [attempt, Logged.value_bind]
  split
  next e _ => exact .failed e
  next refused _ =>
      split
      · exact .asleep _ _ rfl rfl
      · exact .ended rfl rfl

theorem paired_resume (r : Replay) (pause : Pause) : Paired p pause.step r.inFlight
    (resume p r ⟨.advance, pause⟩).value (resume p r ⟨.play, pause⟩).value := by
  cases pause with
  | pacing index =>
      rw [← r.ensureStarted_inFlight]
      simp only [resume, Logged.value_bind]
      split
      next e _ => exact .failed e
      next => exact paired_attempt ..
  | retrying index n pending => exact paired_attempt r index n pending

/-- What a call still does when it comes to its next step. -/
def goOn (p : ReplayPlan) (r : Replay) (request : Request) : Replay × Report :=
  (complete p (beginStep p r request).value.1 (beginStep p r request).value.2).value

/-- Completed from the same pause, an advance and a play both fail, or the play goes on from where
the advance ends. -/
theorem complete_paired (r : Replay) (pause : Pause) (delay : Binary64) :
    (∃ e e', (complete p r (.asleep delay ⟨.advance, pause⟩)).value.2.answer = .error e ∧
      (complete p r (.asleep delay ⟨.play, pause⟩)).value.2.answer = .error e') ∨
    ∃ r' : Replay, r'.index = pause.step + 1 ∧ r'.inFlight = r.inFlight ∧
      (complete p r (.asleep delay ⟨.advance, pause⟩)).value.1 = { r' with inFlight := false } ∧
      (complete p r (.asleep delay ⟨.advance, pause⟩)).value.2.answer = .ok (.stepped true) ∧
      (complete p r (.asleep delay ⟨.play, pause⟩)).value.1 = (goOn p r' .play).1 ∧
      (complete p r (.asleep delay ⟨.play, pause⟩)).value.2.answer = (goOn p r' .play).2.answer := by
  induction rank : pause.rank p using Nat.strongRecOn generalizing r pause delay with
  | _ n ih =>
      have less := rank_resume p r ⟨.advance, pause⟩
      have paired := paired_resume (p := p) r pause
      simp only [complete_asleep]
      generalize (resume p r ⟨.advance, pause⟩).value = stepped at less paired ⊢
      generalize (resume p r ⟨.play, pause⟩).value = played at paired ⊢
      cases paired with
      | failed e =>
          left
          refine ⟨e, e, ?_⟩
          simp only [finish, complete_finished, Report.slept, and_self]
      | @asleep r' delay' pause' own busy =>
          have shorter : pause'.rank p < n := rank ▸ less
          have later := ih _ shorter r' pause' delay' rfl
          rw [own, busy] at later
          exact later
      | @ended r' own busy =>
          right
          refine ⟨r', own, busy, ?_⟩
          simp only [finish, complete_finished, Report.slept, goOn, and_self]

theorem exhausts_iff {r r' : Replay} : Exhausts p r r' ↔
    (advance p r).value.2.answer = .ok (.stepped false) ∧ r' = (advance p r).value.1 ∨
      (advance p r).value.2.answer = .ok (.stepped true) ∧ Exhausts p (advance p r).value.1 r' := by
  constructor
  · intro h
    cases h with
    | last answer => exact .inl ⟨answer, rfl⟩
    | more answer later => exact .inr ⟨answer, later⟩
  · intro h
    obtain ⟨answer, rfl⟩ | ⟨answer, later⟩ := h
    · exact .last answer
    · exact .more answer later

theorem value_advance (r : Replay) (idle : r.inFlight = false) :
    (advance p r).value = goOn p { r with inFlight := true } .advance := by
  obtain ⟨session, index, started, inFlight, failures⟩ := r
  subst idle
  rfl

theorem value_beginStep {r : Replay} (more : ¬ r.isDone p = true) (request : Request) :
    (beginStep p r request).value = (r.configureGateways p r.index,
      .asleep p.settings.stepDelay ⟨request, .pacing r.index⟩) := by
  simp only [beginStep, if_neg more]
  rfl

theorem goOn_of_done {r : Replay} (done : r.isDone p = true) :
    goOn p r .advance = ({ r with inFlight := false }, ⟨[], .ok (.stepped false)⟩) ∧
      goOn p r .play = ({ r with inFlight := false }, ⟨[], .ok (.reached r.index)⟩) := by
  simp only [goOn, beginStep, if_pos done]
  exact ⟨complete_finished .., complete_finished ..⟩

/-- From the beginning of a step on, playing is stepping. -/
theorem goOn_ends_iff (r r' : Replay) (busy : r.inFlight = true) :
    ((goOn p r .play).1 = r' ∧ ∃ index, (goOn p r .play).2.answer = .ok (.reached index)) ↔
      Exhausts p { r with inFlight := false } r' := by
  induction left : p.trace.size - r.index using Nat.strongRecOn generalizing r with
  | _ n ih =>
      have same : ({ r with inFlight := true } : Replay) = r := by rw [← busy]
      rw [exhausts_iff, value_advance _ rfl]
      simp only [same]
      by_cases done : r.isDone p = true
      · obtain ⟨stepped, played⟩ := goOn_of_done done
        rw [stepped, played]
        simp [eq_comm]
      · have more : r.index < p.trace.size := by
          simp only [isDone, ReplayPlan.isLast, decide_eq_true_eq] at done
          omega
        rw [goOn, goOn, value_beginStep done, value_beginStep done]
        obtain ⟨e, e', stepped, played⟩ | ⟨next, index, kept, state, answer, onward, reached⟩ :=
          complete_paired (p := p) (r.configureGateways p r.index) (.pacing r.index)
            p.settings.stepDelay
        · rw [stepped, played]
          simp
        · have later := ih (p.trace.size - next.index) (by rw [index]; simp only [Pause.step]; omega)
            next (kept.trans busy) rfl
          rw [state, answer, onward, reached, later]
          simp

/-- Nothing that a start enters is a gateway that the look-ahead sets. -/
def Unmet (p : ReplayPlan) (r : Replay) : Prop :=
  ∀ x ∈ (r.session.simulation.start p.diagram r.session.config p.bound none).1.scopes,
    (r.session.config.get x.element).locked = false ∧
      ∀ g ∈ p.diagram.nodes, g.kind = .exclusiveGateway → g.id = x.element.id →
        p.trace.branch? p.diagram g r.index = none

/-- Then the start and the look-ahead may come in either order. -/
theorem ensureStarted_configureGateways {r : Replay} (unmet : Unmet p r) :
    ((r.configureGateways p r.index).ensureStarted p).value
      = ((r.ensureStarted p).value.1.configureGateways p r.index, (r.ensureStarted p).value.2) := by
  have same : r.session.simulation.start p.diagram r.session.config p.bound none
      = r.session.simulation.start p.diagram (r.configureGateways p r.index).session.config
          p.bound none := by
    apply Simulation.start_congr
    intro x hx
    obtain ⟨unlocked, none⟩ := unmet x hx
    refine (get_foldl_configureGateway_of_unmet _ unlocked ?_).symm
    intro g hg same
    obtain ⟨node, kind⟩ := List.mem_filter.mp hg
    exact none g node (by simpa using kind) same
  have mark : (r.configureGateways p r.index).started = r.started := rfl
  rw [ensureStarted, ensureStarted, mark]
  by_cases started : r.started = true
  · rw [if_pos started, if_pos started]
    rfl
  · rw [if_neg started, if_neg started]
    simp only [Logged.value_bind, Session.start, Session.act]
    have simulation : (r.configureGateways p r.index).session.simulation
        = r.session.simulation := rfl
    rw [simulation, ← same]
    generalize r.session.simulation.start p.diagram r.session.config p.bound none = begun
    obtain ⟨simulation, e | i⟩ := begun
    · rfl
    · rfl

theorem started_ensureStarted {r r' : Replay} (begun : (r.ensureStarted p).value = (r', .ok ())) :
    r'.started = true ∧ r'.index = r.index := by
  rw [ensureStarted] at begun
  split at begun
  next started =>
      cases begun
      exact ⟨started, rfl⟩
  next =>
      simp only [Logged.value_bind] at begun
      split at begun
      · cases begun
        exact ⟨rfl, rfl⟩
      · cases begun

/-- A step that starts the process goes on as if the process had been started before. -/
theorem goOn_ensureStarted {r r' : Replay} {result : Except SimulationError Unit}
    (more : ¬ r.isDone p = true) (unmet : Unmet p r)
    (begun : (r.ensureStarted p).value = (r', result)) :
    match result with
    | .error e => (goOn p r .advance).2.answer = .error e
    | .ok _ => goOn p r .advance = goOn p r' .advance := by
  have either := ensureStarted_configureGateways unmet
  rw [begun] at either
  rw [goOn, value_beginStep more, complete_asleep]
  simp only [resume, Logged.value_bind, either]
  cases result with
  | error e =>
      simp only [Logged.value_pure, finish, complete_finished]
      rfl
  | ok _ =>
      obtain ⟨started, index⟩ := started_ensureStarted begun
      have more' : ¬ r'.isDone p = true := by
        rw [isDone, index]
        exact more
      have again : ((r'.configureGateways p r'.index).ensureStarted p).value
          = (r'.configureGateways p r'.index, .ok ()) := by
        have mark : (r'.configureGateways p r'.index).started = true := started
        rw [ensureStarted, if_pos mark]
        rfl
      simp only
      rw [goOn, value_beginStep more', complete_asleep]
      rw [index] at again
      simp only [resume, Logged.value_bind, index, again]

section Begin

variable {r r' : Replay} (idle : r.inFlight = false) (nonempty : ¬ p.trace.size = 0)
include idle nonempty

theorem begin_play_of_error {e : SimulationError}
    (refused : ({ r.reset p with inFlight := true }.ensureStarted p).value = (r', .error e)) :
    (begin p r .play).value = r'.finish (.error e) := by
  simp only [begin, idle, Logged.value_bind, if_neg nonempty, refused]
  rfl

theorem begin_play_of_ok
    (begun : ({ r.reset p with inFlight := true }.ensureStarted p).value = (r', .ok ())) :
    (begin p r .play).value = (beginStep p r' .play).value := by
  simp only [begin, idle, Logged.value_bind, if_neg nonempty, begun]

theorem value_play {result : Except SimulationError Unit}
    (begun : ({ r.reset p with inFlight := true }.ensureStarted p).value = (r', result)) :
    (play p r).value = match result with
      | .error e => ({ r' with inFlight := false }, ⟨[], .error e⟩)
      | .ok _ => goOn p r' .play := by
  simp only [play, call, Logged.value_bind]
  cases result with
  | error e =>
      rw [begin_play_of_error idle nonempty begun]
      exact complete_finished ..
  | ok _ =>
      rw [begin_play_of_ok idle nonempty begun]
      rfl

end Begin

/-- Playing a trace is stepping through it from a reset, unless the start meets a gateway for which
the trace has a branch: playing starts the process before the first look-ahead. -/
theorem play_ends_iff (p : ReplayPlan) (r : Replay) (idle : r.inFlight = false)
    (several : 2 ≤ p.trace.size)
    (unmet : ∀ x ∈ (Simulation.start p.diagram p.startConfig p.bound .empty none).1.scopes,
      ∀ g ∈ p.diagram.nodes, g.kind = .exclusiveGateway → g.id = x.element.id →
        p.trace.branch? p.diagram g 0 = none) (r' : Replay) :
    PlayEnds p r r' ↔ Exhausts p (r.reset p) r' := by
  have clear : Unmet p { r.reset p with inFlight := true } :=
    fun x hx => ⟨p.locked_startConfig x.element, unmet x hx⟩
  have more : ¬ Replay.isDone p { r.reset p with inFlight := true } = true := by
    have first : Replay.isDone p { r.reset p with inFlight := true } = p.isLast 0 := rfl
    rw [first, ReplayPlan.isLast, decide_eq_true_eq]
    omega
  obtain ⟨begun, result, started⟩ : ∃ begun result,
      (ensureStarted p { r.reset p with inFlight := true }).value = (begun, result) := ⟨_, _, rfl⟩
  have busy : begun.inFlight = true := by
    have kept := ensureStarted_inFlight (p := p) { r.reset p with inFlight := true }
    rw [started] at kept
    exact kept
  have stepped := goOn_ensureStarted more clear started
  have played := value_play idle (by omega) started
  rw [exhausts_iff, value_advance (r.reset p) idle, PlayEnds, played]
  cases result with
  | error e =>
      simp only at stepped
      rw [stepped]
      simp
  | ok _ =>
      have same : ({ begun with inFlight := true } : Replay) = begun := by rw [← busy]
      simp only at stepped ⊢
      rw [stepped, goOn_ends_iff begun r' busy, exhausts_iff, value_advance _ rfl]
      simp only [same]

/-! ## Runs in which nothing is refused -/

theorem goOn_of_resume {r r' : Replay} {request : Request} {answer : Except SimulationError Answer}
    (more : ¬ r.isDone p = true) (resumed : (resume p (r.configureGateways p r.index)
      ⟨request, .pacing r.index⟩).value = (r', .finished answer)) :
    goOn p r request = (r', ⟨[p.settings.stepDelay], answer⟩) := by
  rw [goOn, value_beginStep more, complete_asleep, resumed, complete_finished]
  rfl

theorem advance_of_resume {r r' : Replay} {answer : Except SimulationError Answer}
    (idle : r.inFlight = false) (more : ¬ r.isDone p = true)
    (resumed : (resume p (configureGateways p { r with inFlight := true } r.index)
      ⟨.advance, .pacing r.index⟩).value = (r', .finished answer)) :
    (advance p r).value = (r', ⟨[p.settings.stepDelay], answer⟩) := by
  rw [value_advance r idle]
  exact goOn_of_resume more resumed

theorem exhausts_of_resume {r r' r'' : Replay} (idle : r.inFlight = false)
    (more : ¬ r.isDone p = true)
    (resumed : (resume p (configureGateways p { r with inFlight := true } r.index)
      ⟨.advance, .pacing r.index⟩).value = (r', .finished (.ok (.stepped true))))
    (later : Exhausts p r' r'') : Exhausts p r r'' := by
  have step := advance_of_resume idle more resumed
  apply Exhausts.more
  · rw [step]
  · rw [step]
    exact later

theorem advance_of_done {r : Replay} (idle : r.inFlight = false) (done : r.isDone p = true) :
    (advance p r).value = (r, ⟨[], .ok (.stepped false)⟩) := by
  have still := (goOn_of_done (p := p) (r := { r with inFlight := true }) done).1
  rw [value_advance r idle, still, ← idle]

theorem exhausts_of_done {r : Replay} (idle : r.inFlight = false) (done : r.isDone p = true) :
    Exhausts p r r := by
  have step := advance_of_done idle done
  have last := Exhausts.last (p := p) (r := r) (by rw [step])
  rw [step] at last
  exact last

/-- A trace in which the first task is done before the choice is met. -/
def reviewed : ReplayPlan where
  diagram := .review
  trace := ⟨[⟨"0", 0, []⟩, ⟨"1", 1, [("t", .active)]⟩,
    ⟨"2", 2, [("t", .completed), ("g", .completed), ("a", .active)]⟩]⟩
  settings := .default
  bound := 100

theorem play_ends_iff_reviewed : ∃ r', Exhausts reviewed (reviewed.initial.reset reviewed) r' ∧
    PlayEnds reviewed reviewed.initial r' ∧ r'.failures = [] ∧
      r'.session.simulation.waitingScope? "a" = some 4 := by
  obtain ⟨r', stepped, clean, waiting⟩ : ∃ r',
      Exhausts reviewed (reviewed.initial.reset reviewed) r' ∧ r'.failures = [] ∧
        r'.session.simulation.waitingScope? "a" = some 4 := by
    refine ⟨_, exhausts_of_resume rfl (by decide) rfl (exhausts_of_resume rfl (by decide) rfl
      (exhausts_of_done rfl (by decide))), ?_, ?_⟩
    · decide +kernel
    · decide +kernel
  have unmet : ∀ x ∈ (Simulation.start reviewed.diagram reviewed.startConfig reviewed.bound .empty
      none).1.scopes, ∀ g ∈ reviewed.diagram.nodes, g.kind = .exclusiveGateway →
        g.id = x.element.id → reviewed.trace.branch? reviewed.diagram g 0 = none := by
    decide +kernel
  exact ⟨r', stepped, (play_ends_iff reviewed reviewed.initial rfl (by decide) unmet r').mpr stepped,
    clean, waiting⟩

/-- A trace in which the choice is met at once. -/
def forked : ReplayPlan where
  diagram := .fork
  trace := ⟨[⟨"0", 0, []⟩, ⟨"1", 1, [("g", .completed), ("a", .active)]⟩]⟩
  settings := .default
  bound := 100

/-- Stepping takes the branch of the trace; playing finds the gateway not yet set and stalls. -/
theorem play_stalls_forked : ∃ played stepped,
    PlayEnds forked forked.initial played ∧ Exhausts forked (forked.initial.reset forked) stepped ∧
      played.session.simulation.waitingScope? "a" = none ∧
        stepped.session.simulation.waitingScope? "a" = some 3 := by
  obtain ⟨played, ends, none⟩ : ∃ played,
      (play forked forked.initial).value
          = (played, ⟨[forked.settings.stepDelay], .ok (.reached 1)⟩) ∧
        played.session.simulation.waitingScope? "a" = none := by
    refine ⟨_, (value_play rfl (by decide) rfl).trans (goOn_of_resume (by decide) rfl), ?_⟩
    decide +kernel
  obtain ⟨stepped, exhausts, some⟩ : ∃ stepped,
      Exhausts forked (forked.initial.reset forked) stepped ∧
        stepped.session.simulation.waitingScope? "a" = some 3 := by
    refine ⟨_, exhausts_of_resume rfl (by decide) rfl (exhausts_of_done rfl (by decide)), ?_⟩
    decide +kernel
  exact ⟨played, stepped, ⟨by rw [ends], 1, by rw [ends]⟩, exhausts, none, some⟩

end Replay
end ProcessDiagram
