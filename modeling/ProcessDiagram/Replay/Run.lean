import ProcessDiagram.Replay.Call

/-!
Running calls to their end, alone or several at once. Of calls made at once, each runs until
it first sleeps before any is resumed; as one in flight keeps the others out, at most one of
them is asleep then.
-/
namespace ProcessDiagram
namespace Replay

/-- What a call that is over has slept and answered. -/
structure Report where
  sleeps : List Binary64
  answer : Except SimulationError Answer

def Report.slept (report : Report) (delay : Binary64) : Report :=
  { report with sleeps := delay :: report.sleeps }

variable (p : ReplayPlan)

/-- Resumes a call until it is over. -/
def complete (r : Replay) (progress : Progress) : Logged (Replay × Report) :=
  match progress with
  | .finished answer => pure (r, ⟨[], answer⟩)
  | .asleep delay sleeper =>
    let next := resume p r sleeper
    let rest := complete next.value.1 next.value.2
    ⟨(rest.value.1, rest.value.2.slept delay), next.log ++ rest.log⟩
termination_by progress.rank p
decreasing_by exact Nat.lt_succ_of_le (rank_resume p r sleeper)

def call (r : Replay) (request : Request) : Logged (Replay × Report) := do
  let (r, progress) ← begin p r request
  complete p r progress

/-- Takes one step of the trace. -/
def advance (r : Replay) : Logged (Replay × Report) :=
  call p r .advance

/-- Replays the whole trace from its beginning. -/
def play (r : Replay) : Logged (Replay × Report) :=
  call p r .play

def beginAll (r : Replay) : List Request → Logged (Replay × List Progress)
  | [] => pure (r, [])
  | request :: rest => do
    let (r, progress) ← begin p r request
    let (r, others) ← beginAll r rest
    return (r, progress :: others)

def completeAll (r : Replay) : List Progress → Logged (Replay × List Report)
  | [] => pure (r, [])
  | progress :: rest => do
    let (r, report) ← complete p r progress
    let (r, others) ← completeAll r rest
    return (r, report :: others)

/-- Makes calls at once. -/
def callAll (r : Replay) (requests : List Request) : Logged (Replay × List Report) := do
  let (r, calls) ← beginAll p r requests
  completeAll p r calls

end Replay
end ProcessDiagram
