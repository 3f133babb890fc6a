import ProcessDiagram.Proofs.Replay.Playing

/-!
Calls that overlap. Any number of calls is made on one replay, and a schedule says which of them
goes on next, to its end or to where it sleeps. The one in flight keeps the others out, so a
schedule leaves behind what the calls that were let in leave behind one after another.
-/
namespace ProcessDiagram
namespace Replay

/-- How far a call has come. -/
inductive Stage
  | issued (request : Request)
  | asleep (sleeper : Sleeper)
  | ended (answer : Except SimulationError Answer)

def Progress.stage : Progress → Stage
  | asleep _ sleeper => .asleep sleeper
  | finished answer => .ended answer

/-- Calls on one replay, and the requests that were let in so far, in that order. -/
structure Pool where
  replay : Replay
  calls : List Stage
  accepted : List Request

namespace Pool

def start (r : Replay) (requests : List Request) : Pool :=
  ⟨r, requests.map .issued, []⟩

/-- One of the calls goes on until it sleeps or is over. -/
def turn (p : ReplayPlan) (pool : Pool) (i : Nat) : Pool :=
  match pool.calls[i]? with
  | some (.issued request) =>
    let next := (begin p pool.replay request).value
    { replay := next.1
      calls := pool.calls.set i next.2.stage
      accepted := if pool.replay.inFlight then pool.accepted else pool.accepted ++ [request] }
  | some (.asleep sleeper) =>
    let next := (resume p pool.replay sleeper).value
    { pool with replay := next.1, calls := pool.calls.set i next.2.stage }
  | _ => pool

def run (p : ReplayPlan) (pool : Pool) (schedule : List Nat) : Pool :=
  schedule.foldl (turn p) pool

end Pool

/-- Calls run to their ends, one after the other. -/
def serial (p : ReplayPlan) (r : Replay) (requests : List Request) : Replay :=
  requests.foldl (fun r request => (call p r request).value.1) r

/-- What a call answers that is turned away. -/
def rejection (r : Replay) : Request → Answer
  | .advance => .stepped false
  | .play => .reached r.index

variable {p : ReplayPlan}

theorem begin_of_inFlight {r : Replay} (busy : r.inFlight = true) (request : Request) :
    (begin p r request).value = (r, .finished (.ok (r.rejection request))) := by
  cases request <;> simp [begin, busy, rejection]

/-! ## The guard -/

/-- A call that sleeps keeps others out, and one that is over lets them in. -/
inductive Guards : Replay × Progress → Prop
  | asleep {r : Replay} {delay : Binary64} {sleeper : Sleeper} :
      r.inFlight = true → Guards (r, .asleep delay sleeper)
  | ended {r : Replay} {answer : Except SimulationError Answer} :
      r.inFlight = false → Guards (r, .finished answer)

theorem guards_finish (r : Replay) (answer : Except SimulationError Answer) :
    Guards (r.finish answer) :=
  .ended rfl

theorem guards_beginStep {r : Replay} (busy : r.inFlight = true) (request : Request) :
    Guards (beginStep p r request).value := by
  unfold beginStep
  split
  · cases request <;> exact guards_finish r _
  · exact .asleep busy

theorem guards_endStep {r : Replay} (busy : r.inFlight = true) (index : Nat)
    (request : Request) : Guards (endStep p r index request).value := by
  cases request with
  | advance => exact guards_finish _ _
  | play => exact guards_beginStep (r := { r with index := index + 1 }) busy .play

theorem guards_attempt {r : Replay} (busy : r.inFlight = true) (request : Request)
    (index n : Nat) (triggers : List Trigger) :
    Guards (attempt p r request index n triggers).value := by
  simp only [attempt, Logged.value_bind]
  split
  · exact guards_finish _ _
  · split
    · exact .asleep busy
    · rw [Logged.value_bind]
      exact guards_endStep (by exact busy) index request

theorem guards_resume {r : Replay} (busy : r.inFlight = true) (sleeper : Sleeper) :
    Guards (resume p r sleeper).value := by
  obtain ⟨request, pause⟩ := sleeper
  cases pause with
  | pacing index =>
      have still := (r.ensureStarted_inFlight (p := p)).trans busy
      simp only [resume, Logged.value_bind]
      split
      · exact guards_finish _ _
      · exact guards_attempt still ..
  | retrying index n pending => exact guards_attempt busy ..

theorem guards_begin {r : Replay} (idle : r.inFlight = false) (request : Request) :
    Guards (begin p r request).value := by
  cases request with
  | advance =>
      simp only [begin, idle]
      exact guards_beginStep rfl .advance
  | play =>
      simp only [begin, idle]
      split
      · exact guards_finish _ _
      · have busy := ensureStarted_inFlight (p := p) { r.reset p with inFlight := true }
        simp only [Logged.value_bind]
        split
        · exact guards_finish _ _
        · exact guards_beginStep busy .play

/-! ## One after another -/

namespace Pool

variable {r₀ : Replay} {pool : Pool} {i : Nat}

def Asleep (pool : Pool) (i : Nat) (sleeper : Sleeper) : Prop :=
  pool.calls[i]? = some (.asleep sleeper)

/-- The replay, once the call in flight is completed, is what the calls that were let in leave
behind one after another. -/
inductive Serial (p : ReplayPlan) (r₀ : Replay) (pool : Pool) : Prop
  | idle : pool.replay.inFlight = false → (∀ i sleeper, ¬ pool.Asleep i sleeper) →
      pool.replay = serial p r₀ pool.accepted → Serial p r₀ pool
  | busy {i : Nat} {sleeper : Sleeper} : pool.replay.inFlight = true → pool.Asleep i sleeper →
      (∀ j other, pool.Asleep j other → j = i) →
        (∀ delay, (complete p pool.replay (.asleep delay sleeper)).value.1
          = serial p r₀ pool.accepted) → Serial p r₀ pool

theorem serial_start (idle : r₀.inFlight = false) (requests : List Request) :
    Serial p r₀ (start r₀ requests) := by
  refine .idle idle ?_ rfl
  intro i sleeper asleep
  simp [Asleep, start] at asleep

theorem asleep_set {calls : List Stage} {stage : Stage} {j : Nat} {sleeper : Sleeper}
    (h : (calls.set i stage)[j]? = some (.asleep sleeper)) :
    (i = j ∧ stage = .asleep sleeper) ∨ i ≠ j ∧ calls[j]? = some (.asleep sleeper) := by
  by_cases same : i = j
  · subst same
    by_cases inside : i < calls.length
    · rw [List.getElem?_set_self inside] at h
      exact .inl ⟨rfl, Option.some.inj h⟩
    · rw [List.getElem?_eq_none (by simpa using inside)] at h
      cases h
  · rw [List.getElem?_set_ne same] at h
    exact .inr ⟨same, h⟩

/-- The pool after a call has gone on, while no other one is asleep. -/
theorem serial_of_guards {next : Replay × Progress} {accepted : List Request} {stage : Stage}
    (guards : Guards next) (there : pool.calls[i]? = some stage)
    (others : ∀ j other, i ≠ j → ¬ pool.Asleep j other)
    (same : (complete p next.1 next.2).value.1 = serial p r₀ accepted) :
    Serial p r₀ ⟨next.1, pool.calls.set i next.2.stage, accepted⟩ := by
  have inside := (List.getElem?_eq_some_iff.mp there).1
  cases guards with
  | @asleep r delay sleeper busy =>
      have here : (pool.calls.set i (.asleep sleeper))[i]? = some (.asleep sleeper) :=
        List.getElem?_set_self inside
      refine .busy busy here ?_ ?_
      · intro j other asleep
        obtain ⟨rfl, _⟩ | ⟨apart, asleep⟩ := asleep_set asleep
        · rfl
        · exact absurd asleep (others j other apart)
      · intro delay'
        rw [complete_asleep] at same ⊢
        exact same
  | @ended r answer idle =>
      refine .idle idle ?_ ?_
      · intro j other asleep
        obtain ⟨_, awake⟩ | ⟨apart, asleep⟩ := asleep_set asleep
        · cases awake
        · exact others j other apart asleep
      · rw [complete_finished] at same
        exact same

theorem serial_append (requests : List Request) (request : Request) (r : Replay) :
    serial p r (requests ++ [request]) = (call p (serial p r requests) request).value.1 :=
  List.foldl_concat ..

theorem turn_issued {request : Request} (there : pool.calls[i]? = some (.issued request)) :
    pool.turn p i = ⟨(begin p pool.replay request).value.1,
      pool.calls.set i (begin p pool.replay request).value.2.stage,
      if pool.replay.inFlight then pool.accepted else pool.accepted ++ [request]⟩ := by
  rw [turn, there]

theorem turn_asleep {sleeper : Sleeper} (there : pool.Asleep i sleeper) :
    pool.turn p i = { pool with
      replay := (resume p pool.replay sleeper).value.1
      calls := pool.calls.set i (resume p pool.replay sleeper).value.2.stage } := by
  rw [Asleep] at there
  rw [turn, there]

theorem turn_ended {answer : Except SimulationError Answer}
    (there : pool.calls[i]? = some (.ended answer)) : pool.turn p i = pool := by
  rw [turn, there]

theorem turn_none (there : pool.calls[i]? = none) : pool.turn p i = pool := by
  rw [turn, there]

theorem turn_rejected {request : Request} (busy : pool.replay.inFlight = true)
    (there : pool.calls[i]? = some (.issued request)) :
    pool.turn p i = { pool with
      calls := pool.calls.set i (.ended (.ok (pool.replay.rejection request))) } := by
  rw [turn_issued there, begin_of_inFlight busy, if_pos busy]
  rfl

/-- Whoever goes on, the pool stays serial. -/
theorem Serial.turn (h : Serial p r₀ pool) (i : Nat) : Serial p r₀ (pool.turn p i) := by
  match there : pool.calls[i]? with
  | none => exact (turn_none there).symm ▸ h
  | some (.ended answer) => exact (turn_ended there).symm ▸ h
  | some (.issued request) =>
      cases h with
      | idle idle awake same =>
          rw [turn_issued there, idle, if_neg Bool.false_ne_true]
          refine serial_of_guards (guards_begin idle request) there ?_ ?_
          · intro j other _
            exact awake j other
          · rw [serial_append, ← same]
            rfl
      | @busy k sleeper busy asleep only same =>
          rw [turn_rejected busy there]
          have other : i ≠ k := by
            intro here
            rw [Asleep, ← here, there] at asleep
            cases asleep
          refine .busy busy ((List.getElem?_set_ne other).trans asleep) ?_ same
          intro j sleeper' asleep'
          obtain ⟨_, awake⟩ | ⟨_, asleep'⟩ := asleep_set asleep'
          · cases awake
          · exact only j sleeper' asleep'
  | some (.asleep sleeper) =>
      cases h with
      | idle _ awake _ => exact absurd there (awake i sleeper)
      | @busy k sleeper' busy asleep only same =>
          obtain rfl := only i sleeper there
          cases Option.some.inj (there.symm.trans asleep)
          rw [turn_asleep there]
          refine serial_of_guards (guards_resume busy sleeper) there ?_ ?_
          · intro j other apart asleep'
            exact apart (only j other asleep').symm
          · have completed := same .zero
            rw [complete_asleep] at completed
            exact completed

theorem Serial.run (h : Serial p r₀ pool) (schedule : List Nat) :
    Serial p r₀ (pool.run p schedule) := by
  induction schedule generalizing pool with
  | nil => exact h
  | cons i rest ih => exact ih (h.turn i)

/-! ## Ends -/

theorem run_cons (pool : Pool) (i : Nat) (rest : List Nat) :
    pool.run p (i :: rest) = (pool.turn p i).run p rest := rfl

theorem run_append (pool : Pool) (first rest : List Nat) :
    pool.run p (first ++ rest) = (pool.run p first).run p rest :=
  List.foldl_append ..

/-- A call that gets every turn is completed. -/
theorem exists_run_complete (progress : Progress) (pool : Pool)
    (there : pool.calls[i]? = some progress.stage) :
    ∃ schedule, pool.run p schedule = { pool with
      replay := (complete p pool.replay progress).value.1
      calls := pool.calls.set i (.ended (complete p pool.replay progress).value.2.answer) } := by
  induction rank : progress.rank p using Nat.strongRecOn generalizing progress pool with
  | _ n ih =>
      cases progress with
      | finished answer =>
          have same : pool.calls.set i (.ended answer) = pool.calls := by
            obtain ⟨inside, here⟩ := List.getElem?_eq_some_iff.mp there
            change pool.calls[i] = .ended answer at here
            rw [← here, List.set_getElem_self]
          refine ⟨[], ?_⟩
          rw [complete_finished, same]
          rfl
      | asleep delay sleeper =>
          have less := rank_resume p pool.replay sleeper
          have inside := (List.getElem?_eq_some_iff.mp there).1
          obtain ⟨rest, runs⟩ := ih _ (rank ▸ Nat.lt_succ_of_le less)
            (resume p pool.replay sleeper).value.2 (pool.turn p i) (by
              rw [turn_asleep there]
              exact List.getElem?_set_self inside) rfl
          refine ⟨i :: rest, ?_⟩
          rw [run_cons, runs, turn_asleep there, complete_asleep, List.set_set]
          rfl

theorem exists_run_ended {stage : Stage} (pool : Pool) (there : pool.calls[i]? = some stage) :
    ∃ schedule answer, (pool.run p schedule).calls = pool.calls.set i (.ended answer) := by
  have inside := (List.getElem?_eq_some_iff.mp there).1
  cases stage with
  | ended answer =>
      obtain ⟨schedule, runs⟩ := exists_run_complete (.finished answer) pool there
      exact ⟨schedule, _, congrArg calls runs⟩
  | asleep sleeper =>
      obtain ⟨schedule, runs⟩ := exists_run_complete (.asleep .zero sleeper) pool there
      exact ⟨schedule, _, congrArg calls runs⟩
  | issued request =>
      obtain ⟨schedule, runs⟩ := exists_run_complete (p := p) (begin p pool.replay request).value.2
        (pool.turn p i) (by
          rw [turn_issued there]
          exact List.getElem?_set_self inside)
      have calls : (pool.turn p i).calls
          = pool.calls.set i (begin p pool.replay request).value.2.stage := by rw [turn_issued there]
      refine ⟨i :: schedule, (complete p (pool.turn p i).replay
        (begin p pool.replay request).value.2).value.2.answer, ?_⟩
      rw [run_cons, runs]
      change (pool.turn p i).calls.set i _ = _
      rw [calls, List.set_set]

theorem exists_run_ended_from (rest : List Stage) (pool : Pool) (done : List Stage)
    (here : pool.calls = done ++ rest) :
    ∃ schedule, ∃ answers : List (Except SimulationError Answer),
      (pool.run p schedule).calls = done ++ answers.map .ended := by
  induction rest generalizing pool done with
  | nil => exact ⟨[], [], here⟩
  | cons stage rest ih =>
      have there : pool.calls[done.length]? = some stage := by simp [here]
      obtain ⟨first, answer, runs⟩ := exists_run_ended (p := p) pool there
      obtain ⟨later, answers, ended⟩ := ih (pool.run p first) (done ++ [.ended answer])
        (by rw [runs, here]; simp)
      refine ⟨first ++ later, answer :: answers, ?_⟩
      rw [run_append, ended, List.append_assoc]
      rfl

theorem exists_run_all_ended (p : ReplayPlan) (pool : Pool) :
    ∃ schedule, ∃ answers : List (Except SimulationError Answer),
      (pool.run p schedule).calls = answers.map .ended :=
  exists_run_ended_from pool.calls pool [] rfl

/-! ## Calls made at once -/

theorem exists_run_beginAll (requests : List Request) (pool : Pool) (done : List Stage)
    (here : pool.calls = done ++ requests.map .issued) :
    ∃ schedule, (pool.run p schedule).replay = (beginAll p pool.replay requests).value.1 ∧
      (pool.run p schedule).calls
        = done ++ (beginAll p pool.replay requests).value.2.map Progress.stage := by
  induction requests generalizing pool done with
  | nil => exact ⟨[], rfl, here⟩
  | cons request rest ih =>
      have there : pool.calls[done.length]? = some (.issued request) := by simp [here]
      have turned := turn_issued (p := p) there
      obtain ⟨schedule, replay, calls⟩ := ih (pool.turn p done.length)
        (done ++ [(begin p pool.replay request).value.2.stage]) (by rw [turned, here]; simp)
      rw [turned] at replay calls
      refine ⟨done.length :: schedule, ?_, ?_⟩
      · rw [run_cons, turned, replay]
        rfl
      · rw [run_cons, turned, calls, List.append_assoc]
        rfl

theorem exists_run_completeAll (calls : List Progress) (pool : Pool) (done : List Stage)
    (here : pool.calls = done ++ calls.map Progress.stage) :
    ∃ schedule, (pool.run p schedule).replay = (completeAll p pool.replay calls).value.1 ∧
      (pool.run p schedule).calls
        = done ++ (completeAll p pool.replay calls).value.2.map fun report =>
          .ended report.answer := by
  induction calls generalizing pool done with
  | nil => exact ⟨[], rfl, here⟩
  | cons progress rest ih =>
      have there : pool.calls[done.length]? = some progress.stage := by simp [here]
      obtain ⟨first, runs⟩ := exists_run_complete (p := p) progress pool there
      obtain ⟨later, replay, calls⟩ := ih (pool.run p first)
        (done ++ [.ended (complete p pool.replay progress).value.2.answer])
        (by rw [runs, here]; simp)
      rw [runs] at replay calls
      refine ⟨first ++ later, ?_, ?_⟩
      · rw [run_append, runs, replay]
        rfl
      · rw [run_append, runs, calls, List.append_assoc]
        rfl

/-- Calls that are made at once follow a schedule of their own. -/
theorem exists_run_callAll (p : ReplayPlan) (r : Replay) (requests : List Request) :
    ∃ schedule, ((start r requests).run p schedule).replay = (callAll p r requests).value.1 ∧
      ((start r requests).run p schedule).calls
        = (callAll p r requests).value.2.map fun report => .ended report.answer := by
  obtain ⟨first, begun, calls⟩ :=
    exists_run_beginAll (p := p) requests (start r requests) [] rfl
  obtain ⟨later, replay, ended⟩ := exists_run_completeAll (p := p)
    (beginAll p r requests).value.2 ((start r requests).run p first) [] calls
  rw [begun] at replay ended
  refine ⟨first ++ later, ?_, ?_⟩
  · rw [run_append, replay]
    rfl
  · rw [run_append, ended]
    rfl

/-! ## Every schedule -/

/-- A call has been let in, or is let in when it gets its turn. -/
def Admitted (pool : Pool) (i : Nat) : Prop :=
  (∃ sleeper, pool.Asleep i sleeper) ∨
    pool.replay.inFlight = false ∧ ∃ request, pool.calls[i]? = some (.issued request)

/-- What holds of calls on one replay, which was at `r₀` before them. -/
structure Serialised (p : ReplayPlan) (r₀ : Replay) (pool : Pool) : Prop where
  /-- At most one call is past the guard, and the guard shows it. -/
  alone : ∀ i j sleeper other, pool.Asleep i sleeper → pool.Asleep j other → i = j
  guard : pool.replay.inFlight = true ↔ ∃ i sleeper, pool.Asleep i sleeper
  /-- A call that is turned away is answered, and nothing else changes. -/
  rejected : pool.replay.inFlight = true → ∀ i request,
    pool.calls[i]? = some (.issued request) → pool.turn p i = { pool with
      calls := pool.calls.set i (.ended (.ok (pool.replay.rejection request))) }
  /-- A call that was let in leaves the guard free, whatever it ends with. -/
  freed : ∀ i answer, pool.Admitted i → (pool.turn p i).calls[i]? = some (.ended answer) →
    (pool.turn p i).replay.inFlight = false
  serial : (∀ i sleeper, ¬ pool.Asleep i sleeper) → pool.replay = serial p r₀ pool.accepted
  ends : ∃ more, ∃ answers : List (Except SimulationError Answer),
    (pool.run p more).calls = answers.map .ended

theorem idle_of_guards {next : Replay × Progress} (guards : Guards next)
    {answer : Except SimulationError Answer} (ended : next.2.stage = .ended answer) :
    next.1.inFlight = false := by
  cases guards with
  | asleep => cases ended
  | ended idle => exact idle

theorem Serial.freed (h : Serial p r₀ pool) {answer : Except SimulationError Answer}
    (admitted : pool.Admitted i) (ended : (pool.turn p i).calls[i]? = some (.ended answer)) :
    (pool.turn p i).replay.inFlight = false := by
  obtain ⟨sleeper, there⟩ | ⟨idle, request, there⟩ := admitted
  · have inside := (List.getElem?_eq_some_iff.mp there).1
    rw [turn_asleep there] at ended ⊢
    rw [List.getElem?_set_self inside] at ended
    cases h with
    | idle _ awake _ => exact absurd there (awake i sleeper)
    | busy busy => exact idle_of_guards (guards_resume busy sleeper) (Option.some.inj ended)
  · have inside := (List.getElem?_eq_some_iff.mp there).1
    rw [turn_issued there] at ended ⊢
    rw [List.getElem?_set_self inside] at ended
    exact idle_of_guards (guards_begin idle request) (Option.some.inj ended)

theorem Serial.serialised (h : Serial p r₀ pool) : Serialised p r₀ pool := by
  have freed : ∀ i answer, pool.Admitted i →
      (pool.turn p i).calls[i]? = some (.ended answer) →
        (pool.turn p i).replay.inFlight = false :=
    fun i answer admitted ended => h.freed admitted ended
  have rejected : pool.replay.inFlight = true → ∀ i request,
      pool.calls[i]? = some (.issued request) → pool.turn p i = { pool with
        calls := pool.calls.set i (.ended (.ok (pool.replay.rejection request))) } :=
    fun busy i request there => turn_rejected busy there
  cases h with
  | idle idle awake same =>
      refine ⟨?_, ?_, rejected, freed, fun _ => same, exists_run_all_ended p pool⟩
      · intro i j sleeper other asleep
        exact absurd asleep (awake i sleeper)
      · rw [idle]
        constructor
        · intro busy
          cases busy
        · intro ⟨i, sleeper, asleep⟩
          exact absurd asleep (awake i sleeper)
  | @busy k sleeper busy asleep only same =>
      refine ⟨?_, ?_, rejected, freed, ?_, exists_run_all_ended p pool⟩
      · intro i j one other hi hj
        exact (only i one hi).trans (only j other hj).symm
      · exact ⟨fun _ => ⟨k, sleeper, asleep⟩, fun _ => busy⟩
      · intro awake
        exact absurd asleep (awake k sleeper)

end Pool

/-- Calls that overlap are serialised, whatever the schedule. -/
theorem serialised_run {r₀ : Replay} (idle : r₀.inFlight = false) (requests : List Request)
    (schedule : List Nat) : ((Pool.start r₀ requests).run p schedule).Serialised p r₀ :=
  ((Pool.serial_start idle requests).run schedule).serialised

/-- An advance, and a play that comes while it is asleep. -/
def overlapped : Pool :=
  (Pool.start forked.initial [.advance, .play]).run forked [0, 1, 0]

theorem serialised_run_forked :
    overlapped.accepted = [.advance] ∧ overlapped.calls[1]? = some (.ended (.ok (.reached 0))) ∧
      overlapped.replay = serial forked forked.initial [.advance] := by
  have accepted : overlapped.accepted = [.advance] := by decide +kernel
  have free : overlapped.replay.inFlight = false := by decide +kernel
  have serialised : overlapped.Serialised forked forked.initial :=
    serialised_run rfl [.advance, .play] [0, 1, 0]
  refine ⟨accepted, by rfl, accepted ▸ serialised.serial ?_⟩
  intro i sleeper asleep
  have busy := serialised.guard.mpr ⟨i, sleeper, asleep⟩
  cases free.symm.trans busy

end Replay
end ProcessDiagram
