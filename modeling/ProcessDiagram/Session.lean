import ProcessDiagram.Simulation.Run

/-!
Sessions: a simulation and the configuration that steers it. Only the session's holder writes
the configuration; the simulation reads it.
-/
namespace ProcessDiagram

structure Session where
  config : ConfigStore
  simulation : Simulation
  deriving DecidableEq

namespace Session

def empty : Session := ⟨.empty, .empty⟩

variable {α : Type}

/-- Applies an operation to the simulation; what it adds to the chronicle is journalled. -/
def act (s : Session) (f : ConfigStore → Simulation → Simulation × α) : Logged (Session × α) :=
  let (simulation, a) := f s.config s.simulation
  ⟨({ s with simulation }, a),
    (simulation.chronicle.drop s.simulation.chronicle.length).map (·.record)⟩

def start (d : Diagram) (bound : Nat) (s : Session) (e : Option Element) :
    Logged (Session × Except SimulationError ScopeId) :=
  s.act fun c simulation => simulation.start d c bound e

def trigger (d : Diagram) (bound : Nat) (s : Session) (id : String) :
    Logged (Session × Except SimulationError ScopeId) :=
  s.act fun c simulation => simulation.trigger d c bound id

def signal (d : Diagram) (bound : Nat) (s : Session) (i : ScopeId) :
    Logged (Session × Except SimulationError Unit) :=
  s.act fun c simulation => simulation.signalAndRun d c bound i

theorem config_act (s : Session) (f : ConfigStore → Simulation → Simulation × α) :
    (s.act f).value.1.config = s.config := rfl

end Session
end ProcessDiagram
