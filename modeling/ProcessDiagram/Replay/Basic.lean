import ProcessDiagram.Replay.Branch
import ProcessDiagram.Replay.Trigger
import ProcessDiagram.Session
import ProcessDiagram.Settings

/-!
Replays: a session that is driven through a trace. A replay knows the place it has reached
and what could not be triggered on the way; its plan, which never changes, holds the rest.
-/
namespace ProcessDiagram

/-- The bound is the number of tasks that a single operation on the simulation may take. -/
structure ReplayPlan where
  diagram : Diagram
  trace : Trace
  settings : Settings
  bound : Nat

/-- A call that is in flight keeps every other call out. -/
structure Replay where
  session : Session
  index : Nat
  started : Bool
  inFlight : Bool
  failures : List TriggerFailure
  deriving DecidableEq

namespace ReplayPlan

/-- The trace has no place behind this one. -/
def isLast (p : ReplayPlan) (index : Nat) : Bool :=
  decide (p.trace.size ≤ index + 1)

def attempts (p : ReplayPlan) : Nat :=
  max 1 p.settings.triggerAttempts.toNat

/-- Every activity that the trace names holds its token until it is triggered. -/
def startConfig (p : ReplayPlan) : ConfigStore :=
  let activities := (p.trace.elementIds.filterMap p.diagram.find?).filter (·.kind.isActivity)
  activities.foldl ConfigStore.setWait .empty

/-- A replay of which nothing has happened yet. -/
def initial (p : ReplayPlan) : Replay :=
  ⟨{ Session.empty with config := p.startConfig }, 0, false, false, []⟩

/-- A trace can be replayed when all its elements are in the diagram. -/
def replay? (p : ReplayPlan) : Except UnknownElements Replay :=
  match p.trace.elementIds.filter fun id => !p.diagram.contains id with
  | [] => .ok p.initial
  | unknown => .error (.ofList unknown)

theorem one_le_attempts (p : ReplayPlan) : 1 ≤ p.attempts :=
  Nat.le_max_left ..

end ReplayPlan

namespace Replay

variable (p : ReplayPlan) (r : Replay)

def note (level : Level) (message : String) : Logged Unit :=
  Logged.note level .replay ("[replay] " ++ message)

/-- Back to the start; only a call that is in flight stays so. -/
def reset : Replay :=
  { p.initial with inFlight := r.inFlight }

def isDone : Bool :=
  p.isLast r.index

/-! ## Gateways -/

/-- Locks a gateway onto its branch, or unlocks it when the trace does not leave it any more. -/
def configureGateway (start : Nat) (c : ConfigStore) (gateway : Element) : ConfigStore :=
  match p.trace.branch? p.diagram gateway start with
  | some branch => c.set gateway ⟨branch.wait, true, some branch.flow⟩
  | none => if (c.get gateway).locked then c.unlock gateway else c

/-- Sets every exclusive gateway for the trace from `start` on. -/
def configureGateways (start : Nat) : Replay :=
  let gateways := p.diagram.nodes.filter (·.kind == .exclusiveGateway)
  let config := gateways.foldl (configureGateway p start) r.session.config
  { r with session.config := config }

/-! ## Triggers -/

/-- The first step puts a token on the root's start event. -/
def ensureStarted : Logged (Replay × Except SimulationError Unit) :=
  if r.started then pure (r, .ok ())
  else do
    let (session, result) ← r.session.start p.diagram p.bound none
    match result with
    | .ok _ => return ({ r with session, started := true }, .ok ())
    | .error e => return ({ r with session }, .error e)

/-- Carries out a trigger. A token that has already gone on is as good as a completed one, and
a catch event is active as soon as a token waits there. -/
def carryOut (s : Session) (t : Trigger) : Logged (Session × Except SimulationError Unit) :=
  let id := t.element.id
  let refuse (reason : TriggerReason) := pure (s, .error (.refused ⟨id, reason⟩))
  match t.action, s.simulation.waitingScope? id with
  | .complete, some i => s.signal p.diagram p.bound i
  | .complete, none =>
    if s.simulation.hasExited id then do
      note .debug (id ++ " already passed")
      return (s, .ok ())
    else refuse .noToken
  | .activate, some i =>
    if t.element.kind = .subProcess then s.signal p.diagram p.bound i else pure (s, .ok ())
  | .activate, none =>
    if t.element.kind ≠ .subProcess then refuse .catchEventNotReached
    else if (s.simulation.scopes.ofElementIn id .entered).isEmpty then refuse .subprocessNotReached
    else pure (s, .ok ())

/-- Tries triggers in turn and gives those that were refused. Any other error ends the round. -/
def carryOutAll (s : Session) :
    List Trigger → Logged (Session × Except SimulationError (List (Trigger × TriggerFailure)))
  | [] => pure (s, .ok [])
  | t :: rest => do
    let (s, result) ← carryOut p s t
    match result with
    | .ok _ => carryOutAll s rest
    | .error (.refused failure) => do
      let (s, refused) ← carryOutAll s rest
      return (s, refused.map ((t, failure) :: ·))
    | .error e => return (s, .error e)

end Replay
end ProcessDiagram
