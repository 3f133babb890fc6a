import ProcessDiagram.Replay.Basic

/-!
Calls on a replay. A call may fall asleep and is then resumed from where it paused, so other
calls can come in between; while one is in flight these are turned away. Main statement:
`rank_resume`, by which a call falls asleep only finitely often.
-/
namespace ProcessDiagram
namespace Replay

inductive Request
  | advance
  | play
  deriving DecidableEq

inductive Answer
  | stepped (taken : Bool)
  | reached (index : Nat)
  deriving DecidableEq

/-- Where a call sleeps: at the beginning of a step, or before it tries again what was
refused. -/
inductive Pause
  | pacing (index : Nat)
  | retrying (index attempt : Nat) (pending : List Trigger)
  deriving DecidableEq

structure Sleeper where
  request : Request
  pause : Pause
  deriving DecidableEq

inductive Progress
  | asleep (delay : Binary64) (sleeper : Sleeper)
  | finished (answer : Except SimulationError Answer)

variable (p : ReplayPlan) (r : Replay)

/-- The end of a call, which lets the next one in. -/
def finish (answer : Except SimulationError Answer) : Replay × Progress :=
  ({ r with inFlight := false }, .finished answer)

def ids (triggers : List Trigger) : String :=
  Text.quotedList (triggers.map (·.element.id))

/-- Begins the next step if there is one. -/
def beginStep (request : Request) : Logged (Replay × Progress) :=
  if r.isDone p then
    match request with
    | .advance => pure (r.finish (.ok (.stepped false)))
    | .play => do
      note .info ("Finished at state " ++ toString r.index ++ " ("
        ++ toString r.failures.length ++ " failed triggers)")
      return r.finish (.ok (.reached r.index))
  else
    pure (r.configureGateways p r.index,
      .asleep p.settings.stepDelay ⟨request, .pacing r.index⟩)

/-- After a step an advance is over, and a play goes on. -/
def endStep (index : Nat) (request : Request) : Logged (Replay × Progress) :=
  let r := { r with index := index + 1 }
  match request with
  | .advance => pure (r.finish (.ok (.stepped true)))
  | .play => beginStep p r .play

/-- The failure that an element is left with: of all its triggers in a round, the last one's. -/
def lastFailure? (refused : List (Trigger × TriggerFailure)) (id : String) :
    Option TriggerFailure :=
  (refused.reverse.find? (·.1.element.id == id)).map (·.2)

/-- Failures are kept by element, so each refused trigger gets the one that its element is left
with. -/
def settled (refused : List (Trigger × TriggerFailure)) : List (Trigger × TriggerFailure) :=
  refused.map fun (t, failure) => (t, (lastFailure? refused t.element.id).getD failure)

def giveUp (p : ReplayPlan) : List (Trigger × TriggerFailure) → Logged Unit
  | [] => pure ()
  | (t, failure) :: rest => do
    note .warning ("Giving up on " ++ t.element.id ++ " after " ++ toString p.attempts
      ++ " attempts: " ++ failure.message)
    giveUp p rest

/-- Tries the triggers of a step; what is refused is tried again later, and recorded as failed
after the last attempt. -/
def attempt (request : Request) (index n : Nat) (triggers : List Trigger) :
    Logged (Replay × Progress) := do
  let (session, refused) ← carryOutAll p r.session triggers
  let r := { r with session }
  match refused with
  | .error e => return r.finish (.error e)
  | .ok refused =>
    if !refused.isEmpty ∧ n < p.attempts then
      let pending := refused.map (·.1)
      note .debug ("Retrying " ++ ids pending ++ " (attempt " ++ toString (n + 1) ++ "/"
        ++ toString p.attempts ++ ")")
      return (r, .asleep p.settings.triggerDelay ⟨request, .retrying index (n + 1) pending⟩)
    else
      giveUp p (settled refused)
      endStep p { r with failures := r.failures ++ (settled refused).map (·.2) } index request

/-- Begins a call; one that comes while another is in flight changes nothing. -/
def begin (request : Request) : Logged (Replay × Progress) :=
  match request, r.inFlight with
  | .advance, true => do
    note .warning "Step already in flight; ignoring advance request"
    return (r, .finished (.ok (.stepped false)))
  | .play, true => do
    note .warning "Playback already in flight; ignoring play request"
    return (r, .finished (.ok (.reached r.index)))
  | .advance, false => beginStep p { r with inFlight := true } .advance
  | .play, false =>
    let r := { r.reset p with inFlight := true }
    if p.trace.size = 0 then do
      note .warning "No state snapshots to play"
      return r.finish (.ok (.reached 0))
    else do
      let (r, started) ← r.ensureStarted p
      match started with
      | .error e => return r.finish (.error e)
      | .ok _ => beginStep p r .play

/-- Goes on with a call that was asleep. -/
def resume (sleeper : Sleeper) : Logged (Replay × Progress) :=
  match sleeper.pause with
  | .pacing index => do
    let (r, started) ← r.ensureStarted p
    match started with
    | .error e => return r.finish (.error e)
    | .ok _ =>
      let triggers := Trigger.ofStep p.diagram p.trace index
      note .info ("Step " ++ toString index ++ " -> " ++ toString (index + 1) ++ ": "
        ++ ids triggers)
      attempt p r sleeper.request index 1 triggers
  | .retrying index n pending => attempt p r sleeper.request index n pending

/-! ## Calls end -/

/-- More than the number of times that a call can still fall asleep. -/
def Pause.rank : Pause → Nat
  | pacing index => (p.trace.size - index) * (p.attempts + 1) + p.attempts
  | retrying index attempt _ =>
    (p.trace.size - index) * (p.attempts + 1) + (p.attempts - attempt)

def Progress.rank : Progress → Nat
  | asleep _ sleeper => sleeper.pause.rank p + 1
  | finished _ => 0

theorem rank_beginStep (request : Request) :
    (beginStep p r request).value.2.rank p
      ≤ (p.trace.size - r.index) * (p.attempts + 1) + p.attempts + 1 := by
  unfold beginStep
  split
  · cases request <;> simp [finish, Progress.rank]
  · simp [Progress.rank, Pause.rank]

theorem rank_endStep (index : Nat) (request : Request) :
    (endStep p r index request).value.2.rank p ≤ (p.trace.size - index) * (p.attempts + 1) := by
  unfold endStep
  cases request with
  | advance => simp [finish, Progress.rank]
  | play =>
    cases hleft : p.trace.size - index with
    | zero =>
      have last : p.trace.size ≤ index + 1 + 1 := by omega
      simp [beginStep, isDone, ReplayPlan.isLast, last, finish, Progress.rank]
    | succ left =>
      have step := rank_beginStep p { r with index := index + 1 } .play
      have next : p.trace.size - (index + 1) = left := by omega
      simp only [next] at step
      rw [Nat.succ_mul]
      omega

theorem rank_attempt (request : Request) (index n : Nat) (triggers : List Trigger) :
    (attempt p r request index n triggers).value.2.rank p
      ≤ (p.trace.size - index) * (p.attempts + 1) + (p.attempts - n) := by
  simp only [attempt, Logged.value_bind]
  split
  · simp [finish, Progress.rank]
  · split
    · simp only [Logged.value_bind, Logged.value_pure, Progress.rank, Pause.rank]
      omega
    · exact Nat.le_trans (rank_endStep p _ index request) (Nat.le_add_right ..)

/-- Each time that a call is resumed it can fall asleep less often than before. -/
theorem rank_resume (sleeper : Sleeper) :
    (resume p r sleeper).value.2.rank p ≤ sleeper.pause.rank p := by
  obtain ⟨request, pause⟩ := sleeper
  cases pause with
  | pacing index =>
    simp only [resume, Logged.value_bind]
    split
    · simp [finish, Progress.rank]
    · refine Nat.le_trans (rank_attempt ..) ?_
      simp only [Pause.rank]
      omega
  | retrying index n pending => exact rank_attempt ..

end Replay
end ProcessDiagram
