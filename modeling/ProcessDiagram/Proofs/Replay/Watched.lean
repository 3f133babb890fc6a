import ProcessDiagram.Proofs.Replay.Failing

/-!
What the index of a replay tells of its session. Calls on a replay overlap, and it may be reset at any
time. If no call was in flight when that was last done, then between calls the session is what the
steps before the index, each gone through once and in their order, have made of a new one.

Main statement: `Watched.tells`.
-/
namespace ProcessDiagram
namespace Replay

open Simulation

/-! ## Steps that are gone through -/

/-- How a session came about since it was reset, whether it was started, the steps that it has gone
through, and what these have left in the failures. To go through a step is to go through the rounds
at its triggers: in each all that is left of them is tried, until all are carried out or the attempts
are used up. -/
inductive Trodden (p : ReplayPlan) : Bool → List Nat → Session → List TriggerFailure → Prop
  | reset : Trodden p false [] p.initial.session []
  | gateways {r : Replay} {started : Bool} {steps : List Nat} {failures : List TriggerFailure}
      (i : Nat) : Trodden p started steps r.session failures →
      Trodden p started steps (r.configureGateways p i).session failures
  | start {s s' : Session} {root : ScopeId} : Trodden p false [] s [] →
      (s.start p.diagram p.bound none).value = (s', .ok root) → Trodden p true [] s' []
  | step {i : Nat} {steps : List Nat} {s s' : Session} {failures : List TriggerFailure}
      {refused : List (Trigger × TriggerFailure)} : Trodden p true steps s failures →
      Rounds p s 1 (Trigger.ofStep p.diagram p.trace i) s' refused →
      Trodden p true (steps ++ [i]) s' (failures ++ (settled refused).map (·.2))

/-- The session has gone through the steps before the index, and nothing else is recorded. -/
def Gone (p : ReplayPlan) (r : Replay) : Prop :=
  Trodden p r.started (List.range r.index) r.session r.failures

variable {p : ReplayPlan} {r r' : Replay} {index n : Nat} {clean : Bool}

theorem Trodden.unstarted {steps : List Nat} {s : Session} {failures : List TriggerFailure}
    (h : Trodden p false steps s failures) : steps = [] ∧ failures = [] := by
  generalize begun : false = started at h
  induction h with
  | reset => exact ⟨rfl, rfl⟩
  | gateways _ _ ih => exact ih begun
  | start => cases begun
  | step => cases begun

theorem gone_reset (p : ReplayPlan) (r : Replay) : Gone p (r.reset p) :=
  .reset

theorem Gone.ensureStarted (h : Gone p r) (begun : (r.ensureStarted p).value = (r', .ok ())) :
    Gone p r' := by
  rw [Replay.ensureStarted] at begun
  split at begun
  next =>
      cases begun
      exact h
  next unstarted =>
      have fresh : r.started = false := by simpa using unstarted
      rw [Gone, fresh] at h
      obtain ⟨zero, clear⟩ := h.unstarted
      rw [zero, clear] at h
      cases first : (r.session.start p.diagram p.bound none).value with
      | mk s result =>
          rw [Logged.value_bind, first] at begun
          cases result with
          | error error => cases begun
          | ok root =>
              cases begun
              change Trodden p true (List.range r.index) s r.failures
              rw [zero, clear]
              exact .start h first

/-! ## Calls that are watched -/

/-- Where a sleeping call stands: the steps before its own are gone through, and the rounds that it
has still to make are the last ones of its own. -/
inductive Suspended (p : ReplayPlan) (r : Replay) : Pause → Prop
  | pacing : Gone p r → Suspended p r (.pacing r.index)
  | retrying {s : Session} {n : Nat} {pending : List Trigger} : r.started = true →
      Trodden p true (List.range r.index) s r.failures →
      (∀ s' refused, Rounds p r.session n pending s' refused →
        Rounds p s 1 (Trigger.ofStep p.diagram p.trace r.index) s' refused) →
      Suspended p r (.retrying r.index n pending)

/-- Where a call has come to; what has become of the session is known if the last reset was clean. -/
inductive Stands (p : ReplayPlan) (clean : Bool) : Replay × Progress → Prop
  | asleep {r : Replay} {delay : Binary64} {sleeper : Sleeper} : Sane p r →
      (clean = true → Suspended p r sleeper.pause) → Stands p clean (r, .asleep delay sleeper)
  | ended {r : Replay} {answer : Except SimulationError Answer} : Sane p r →
      (clean = true → Gone p r) → Stands p clean (r, .finished answer)
  | late {r : Replay} : Stands p clean (r, .finished (.error .unfinished))

theorem stands_finish {answer : Except SimulationError Answer} (h : Sane p r)
    (gone : clean = true → Gone p r) : Stands p clean (r.finish answer) :=
  .ended (h.alike rfl rfl) gone

section Stands

variable (consistent : p.diagram.Consistent)
include consistent

theorem stands_beginStep (h : Sane p r) (gone : clean = true → Gone p r) (request : Request) :
    Stands p clean (beginStep p r request).value := by
  by_cases done : r.isDone p = true
  · simp only [beginStep, if_pos done]
    cases request with
    | advance => exact stands_finish h gone
    | play => exact stands_finish h gone
  · rw [value_beginStep done]
    have set : clean = true → Gone p (r.configureGateways p r.index) :=
      fun known => (gone known).gateways r.index
    exact .asleep (h.configureGateways consistent r.index) fun known => .pacing (set known)

theorem stands_endStep (h : Sane p r)
    (gone : clean = true → Gone p { r with index := index + 1 }) (request : Request) :
    Stands p clean (endStep p r index request).value := by
  have onward : Sane p { r with index := index + 1 } := h.alike rfl rfl
  cases request with
  | advance => exact stands_finish onward gone
  | play => exact stands_beginStep consistent onward gone .play

/-- A round takes its call on to the next one, or through the step. -/
theorem stands_attempt {pending : List Trigger} (h : Sane p r)
    (suspended : clean = true → Suspended p r (.retrying index n pending)) (request : Request) :
    Stands p clean (attempt p r request index n pending).value := by
  have failed := fun error => @carryOutAll_error p r.session pending error consistent h.resting
  have driven := driven_carryOutAll (p := p) r.session pending
  cases carried : (carryOutAll p r.session pending).value with
  | mk s result =>
      rw [carried] at failed driven
      cases result with
      | error error =>
          rw [attempt_of_error carried, failed error rfl]
          exact .late
      | ok refused =>
          have sane := h.driven consistent (driven nofun)
          obtain ⟨some, more⟩ | last := again_or_last p refused n
          · rw [attempt_of_again carried some more]
            refine .asleep sane fun known => ?_
            cases suspended known with
            | retrying started trodden rounds =>
                exact .retrying (r := { r with session := s }) started trodden
                  fun s' given later => rounds s' given (.again carried some more later)
          · have recorded : Sane p { r with
                session := s, failures := r.failures ++ (settled refused).map (·.2) } :=
              sane.alike rfl rfl
            rw [attempt_of_last carried last]
            refine stands_endStep consistent recorded (fun known => ?_) request
            cases suspended known with
            | retrying started trodden rounds =>
                have gone := trodden.step (rounds s refused (.last carried last))
                rw [← List.range_succ, ← started] at gone
                exact gone

/-- A call that goes on comes to its next pause or to its end. -/
theorem stands_resume (h : Sane p r) {sleeper : Sleeper}
    (suspended : clean = true → Suspended p r sleeper.pause) :
    Stands p clean (resume p r sleeper).value := by
  obtain ⟨request, pause⟩ := sleeper
  cases pause with
  | retrying index n pending => exact stands_attempt consistent h suspended request
  | pacing index =>
      simp only [resume, Logged.value_bind]
      cases root : rootStart p.diagram with
      | error error =>
          rw [h.ensureStarted_of_error root]
          refine stands_finish h fun known => ?_
          cases suspended known with
          | pacing gone => exact gone
      | ok first =>
          obtain ⟨_, late⟩ | ⟨s, started, sane⟩ := h.ensureStarted_of_ok consistent root
          · rw [late]
            exact .late
          · rw [started]
            refine stands_attempt consistent sane (fun known => ?_) request
            cases suspended known with
            | pacing gone =>
                exact .retrying (r := { r with session := s, started := true }) rfl
                  (gone.ensureStarted started) fun _ _ rounds => rounds

/-- A call that begins goes on from where the replay is, a play from the start. -/
theorem stands_begin (h : Sane p r) (idle : r.inFlight = false) (gone : clean = true → Gone p r)
    (request : Request) :
    Stands p (clean || request == .play) (begin p r request).value := by
  have guarded : Sane p { r with inFlight := true } := h.alike rfl rfl
  have rewound : Sane p { r.reset p with inFlight := true } := (Sane.reset p r).alike rfl rfl
  have anew : Gone p { r.reset p with inFlight := true } := gone_reset p r
  cases request with
  | advance =>
      have same : (clean || Request.advance == .play) = clean := Bool.or_false clean
      simp only [begin, idle, same]
      exact stands_beginStep consistent guarded gone .advance
  | play =>
      by_cases none : p.trace.size = 0
      · simp only [begin, idle, none, if_true]
        exact stands_finish rewound fun _ => anew
      · cases root : rootStart p.diagram with
        | error error =>
            rw [begin_play_of_error idle none (rewound.ensureStarted_of_error root)]
            exact stands_finish rewound fun _ => anew
        | ok first =>
            obtain ⟨_, late⟩ | ⟨s, started, sane⟩ := rewound.ensureStarted_of_ok consistent root
            · rw [begin_play_of_error idle none late]
              exact .late
            · rw [begin_play_of_ok idle none started]
              exact stands_beginStep consistent sane (fun _ => anew.ensureStarted started) .play

end Stands

/-! ## Runs -/

/-- Calls on one replay. The last reset was clean if no call was in flight then, other than the play
that made it. -/
structure Watch where
  pool : Pool
  clean : Bool

namespace Watch

variable (p : ReplayPlan)

def start (requests : List Request) : Watch :=
  ⟨.start p.initial requests, true⟩

/-- One of the calls goes on. A play that is let in begins with a reset. -/
def turn (w : Watch) (i : Nat) : Watch where
  pool := w.pool.turn p i
  clean :=
    match w.pool.calls[i]? with
    | some (.issued request) => w.clean || !w.pool.replay.inFlight && request == .play
    | _ => w.clean

/-- The replay is reset from outside. -/
def reset (w : Watch) : Watch :=
  ⟨{ w.pool with replay := w.pool.replay.reset p }, !w.pool.replay.inFlight⟩

end Watch

/-- Whoever goes on next, and whenever the replay is reset. -/
inductive Watched (p : ReplayPlan) : Watch → Prop
  | start (requests : List Request) : Watched p (.start p requests)
  | turn {w : Watch} (i : Nat) : Watched p w → Watched p (w.turn p i)
  | reset {w : Watch} : Watched p w → Watched p (w.reset p)

theorem Pool.ended_turn {pool : Pool} {k : Nat} {answer : Except SimulationError Answer}
    (ended : pool.calls[k]? = some (.ended answer)) (i : Nat) :
    (pool.turn p i).calls[k]? = some (.ended answer) := by
  by_cases same : i = k
  · subst same
    rw [Pool.turn_ended ended]
    exact ended
  · have kept := fun stage => (List.getElem?_set_ne (a := stage) same).trans ended
    rw [Pool.turn]
    split
    · exact kept _
    · exact kept _
    · exact ended

/-- What holds all along, unless a call went on for ever. -/
inductive Holds (p : ReplayPlan) (w : Watch) : Prop
  | idle : w.pool.replay.inFlight = false → (∀ i sleeper, ¬ w.pool.Asleep i sleeper) →
      Sane p w.pool.replay → (w.clean = true → Gone p w.pool.replay) → Holds p w
  | busy {i : Nat} {sleeper : Sleeper} : w.pool.replay.inFlight = true → w.pool.Asleep i sleeper →
      (∀ j other, w.pool.Asleep j other → j = i) → Sane p w.pool.replay →
      (w.clean = true → Suspended p w.pool.replay sleeper.pause) → Holds p w
  | late {i : Nat} : w.pool.calls[i]? = some (.ended (.error .unfinished)) → Holds p w

namespace Holds

variable {w : Watch} {i : Nat}

theorem start (p : ReplayPlan) (requests : List Request) : Holds p (.start p requests) := by
  refine .idle rfl ?_ (.initial p) fun _ => .reset
  intro i sleeper asleep
  simp [Pool.Asleep, Watch.start, Pool.start] at asleep

/-- After a reset in the middle of a call nothing is known until the next one. -/
theorem reset (h : Holds p w) : Holds p (w.reset p) := by
  have rewound := Sane.reset p w.pool.replay
  cases h with
  | idle idle awake _ _ => exact .idle idle awake rewound fun _ => gone_reset p _
  | busy busy asleep only _ _ =>
      refine .busy busy asleep only rewound fun known => ?_
      rw [Watch.reset, busy] at known
      cases known
  | late there => exact .late there

/-- The watch after a call has gone on, while no other one is asleep. -/
theorem of_stands {next : Replay × Progress} {stage : Stage} {accepted : List Request}
    (guards : Guards next) (stands : Stands p clean next) (there : w.pool.calls[i]? = some stage)
    (others : ∀ j other, i ≠ j → ¬ w.pool.Asleep j other) :
    Holds p ⟨⟨next.1, w.pool.calls.set i next.2.stage, accepted⟩, clean⟩ := by
  have inside := (List.getElem?_eq_some_iff.mp there).1
  cases stands with
  | late => exact .late (List.getElem?_set_self inside)
  | asleep sane suspended =>
      cases guards with
      | asleep busy =>
          refine .busy busy (List.getElem?_set_self inside) ?_ sane suspended
          intro j other asleep
          obtain ⟨rfl, _⟩ | ⟨apart, asleep⟩ := Pool.asleep_set asleep
          · rfl
          · exact absurd asleep (others j other apart)
  | ended sane gone =>
      cases guards with
      | ended idle =>
          refine .idle idle ?_ sane gone
          intro j other asleep
          obtain ⟨_, awake⟩ | ⟨apart, asleep⟩ := Pool.asleep_set asleep
          · cases awake
          · exact others j other apart asleep

theorem begins (consistent : p.diagram.Consistent) (h : Holds p w) {request : Request}
    (there : w.pool.calls[i]? = some (.issued request)) : Holds p (w.turn p i) := by
  cases h with
  | late ended => exact .late (Pool.ended_turn ended i)
  | idle idle awake sane gone =>
      have stands := stands_begin consistent sane idle gone request
      rw [Watch.turn, there, Pool.turn_issued there]
      simp only [idle, Bool.not_false, Bool.true_and]
      exact of_stands (guards_begin idle request) stands there fun j other _ => awake j other
  | @busy k sleeper busy asleep only sane suspended =>
      have other : i ≠ k := by
        intro here
        rw [Pool.Asleep, ← here, there] at asleep
        cases asleep
      rw [Watch.turn, there, Pool.turn_rejected busy there]
      simp only [busy, Bool.not_true, Bool.false_and, Bool.or_false]
      refine .busy busy ((List.getElem?_set_ne other).trans asleep) ?_ sane suspended
      intro j sleeper' asleep'
      obtain ⟨_, awake⟩ | ⟨_, asleep'⟩ := Pool.asleep_set asleep'
      · cases awake
      · exact only j sleeper' asleep'

theorem resumes (consistent : p.diagram.Consistent) (h : Holds p w) {sleeper : Sleeper}
    (there : w.pool.Asleep i sleeper) : Holds p (w.turn p i) := by
  cases h with
  | late ended => exact .late (Pool.ended_turn ended i)
  | idle _ awake _ _ => exact absurd there (awake i sleeper)
  | @busy k sleeper' busy asleep only sane suspended =>
      obtain rfl := only i sleeper there
      cases Option.some.inj (there.symm.trans asleep)
      rw [Watch.turn, there, Pool.turn_asleep there]
      exact of_stands (guards_resume busy sleeper) (stands_resume consistent sane suspended)
        there fun j other apart asleep' => apart (only j other asleep').symm

/-- Whoever goes on, that stays so. -/
theorem turn (consistent : p.diagram.Consistent) (h : Holds p w) (i : Nat) :
    Holds p (w.turn p i) := by
  match there : w.pool.calls[i]? with
  | none =>
      have same : w.turn p i = w := by rw [Watch.turn, there, Pool.turn_none there]
      exact same.symm ▸ h
  | some (.ended answer) =>
      have same : w.turn p i = w := by rw [Watch.turn, there, Pool.turn_ended there]
      exact same.symm ▸ h
  | some (.issued request) => exact h.begins consistent there
  | some (.asleep sleeper) => exact h.resumes consistent there

end Holds

theorem Watched.holds (consistent : p.diagram.Consistent) {w : Watch} (h : Watched p w) :
    Holds p w := by
  induction h with
  | start requests => exact .start p requests
  | turn i _ ih => exact ih.turn consistent i
  | reset _ ih => exact ih.reset

theorem Watched.turns {w : Watch} (h : Watched p w) (schedule : List Nat) :
    Watched p (schedule.foldl (Watch.turn p) w) := by
  induction schedule generalizing w with
  | nil => exact h
  | cons i rest ih => exact ih (h.turn i)

/-- Between calls the index tells what has been done to the session since it was reset, unless that
was in the middle of a call: it has gone through the steps before the index, in their order, and
what these gave up is what is recorded. -/
theorem Watched.tells (built : p.diagram.Built) {w : Watch} (h : Watched p w)
    (idle : w.pool.replay.inFlight = false) (clean : w.clean = true)
    (finished : ∀ i : Nat, w.pool.calls[i]? ≠ some (Stage.ended (.error .unfinished))) :
    Trodden p w.pool.replay.started (List.range w.pool.replay.index) w.pool.replay.session
      w.pool.replay.failures := by
  cases h.holds built.consistent with
  | idle _ _ _ gone => exact gone clean
  | busy busy => cases idle.symm.trans busy
  | late there => exact absurd there (finished _)

/-- An advance, with a reset while it is asleep; then a play, during which another advance comes. -/
def overtaken : Watch :=
  [0, 1, 2, 1, 1, 1, 1].foldl (Watch.turn hasty)
    (([0].foldl (Watch.turn hasty) (.start hasty [.advance, .play, .advance])).reset hasty)

theorem tells_overtaken : overtaken.pool.replay.inFlight = false ∧ overtaken.clean = true ∧
    overtaken.pool.replay.index = 2 ∧
      Trodden hasty overtaken.pool.replay.started (List.range overtaken.pool.replay.index)
        overtaken.pool.replay.session overtaken.pool.replay.failures := by
  have idle : overtaken.pool.replay.inFlight = false := by decide +kernel
  have clean : overtaken.clean = true := by decide +kernel
  have calls : overtaken.pool.calls = [.ended (.ok (.stepped true)), .ended (.ok (.reached 2)),
      .ended (.ok (.stepped false))] := by rfl
  have watched : Watched hasty overtaken := .turns (.reset (.turns (.start _) _)) _
  refine ⟨idle, clean, by decide +kernel, watched.tells Diagram.built_review idle clean ?_⟩
  intro i hung
  have among := List.mem_of_getElem? hung
  simp [calls] at among

/-- Two advances, one after the other. -/
def skipped : Watch :=
  [0, 0, 1, 1, 1, 1].foldl (Watch.turn hasty) (.start hasty [.advance, .advance])

/-- Two advances, with a reset while the second is asleep. -/
def rewound : Watch :=
  (([0, 0, 1].foldl (Watch.turn reviewed) (.start reviewed [.advance, .advance])).reset
    reviewed).turn reviewed 1

/-- A step counts whose only trigger was not carried out; and after a reset in the middle of a step
that step counts for two, though nothing but its triggers was done to the new session. -/
theorem index_ahead :
    (skipped.pool.replay.inFlight = false ∧ skipped.clean = true ∧ skipped.pool.replay.index = 2 ∧
      (Trigger.ofStep hasty.diagram hasty.trace 1).map (fun t => (t.element.id, t.action))
        = [("a", .complete)] ∧
      skipped.pool.replay.failures = [⟨"a", .noToken⟩] ∧
      skipped.pool.replay.session.simulation.hasExited "a" = false) ∧
    rewound.pool.replay.inFlight = false ∧ rewound.pool.replay.index = 2 ∧
      rewound.pool.replay.session = (carryOutAll reviewed
        (reviewed.initial.session.start reviewed.diagram reviewed.bound none).value.1
          (Trigger.ofStep reviewed.diagram reviewed.trace 1)).value.1 := by
  decide +kernel

end Replay
end ProcessDiagram
