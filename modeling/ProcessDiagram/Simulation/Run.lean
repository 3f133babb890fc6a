import ProcessDiagram.Simulation.Behavior

/-!
Running the agenda, first in, first out, until it is empty. An error throws the rest of the
agenda away and leaves the simulation usable. A diagram can keep its tokens moving for ever,
so a run is bounded by a number of tasks and says so when the bound is reached.
-/
namespace ProcessDiagram.Simulation

/-- More tasks than any run takes that comes to an end in reasonable time. -/
def taskLimit : Nat := 1000000000

def drain (d : Diagram) (c : ConfigStore) : Nat → Simulation → Simulation × Option SimulationError
  | 0, s => if s.agenda.isEmpty then (s, none) else (s, some .unfinished)
  | bound + 1, s =>
    match s.agenda with
    | [] => (s, none)
    | t :: rest =>
      match runTask d c { s with agenda := rest } t with
      | .ok s => drain d c bound s
      | .error e => ({ s with agenda := [] }, some e)

variable {α : Type}

/-- Runs the agenda and gives the value, unless the run fails. -/
def settle (d : Diagram) (c : ConfigStore) (bound : Nat) (s : Simulation) (value : α) :
    Simulation × Except SimulationError α :=
  match drain d c bound s with
  | (s, none) => (s, .ok value)
  | (s, some e) => (s, .error e)

/-! ## Operations that run the agenda -/

/-- Puts a token on an element; gives its scope. -/
def enterAndRun (d : Diagram) (c : ConfigStore) (bound : Nat) (s : Simulation) (e : Element)
    (parent : Option ScopeId) : Simulation × Except SimulationError ScopeId :=
  settle d c bound (s.enter e parent) s.scopes.length

def exitAndRun (d : Diagram) (c : ConfigStore) (bound : Nat) (s : Simulation) (i : ScopeId) :
    Simulation × Except SimulationError Unit :=
  settle d c bound (s.exit i) ()

def tryExitAndRun (d : Diagram) (c : ConfigStore) (bound : Nat) (s : Simulation) (i : ScopeId) :
    Simulation × Except SimulationError Unit :=
  settle d c bound (s.tryExit i) ()

def signalAndRun (d : Diagram) (c : ConfigStore) (bound : Nat) (s : Simulation) (i : ScopeId) :
    Simulation × Except SimulationError Unit :=
  match s.signal i with
  | .error f => (s, .error (.refused f))
  | .ok s => settle d c bound s ()

/-- The first start event of the first top scope that has one. -/
def rootStart (d : Diagram) : Except SimulationError Element :=
  match d.topScopes.findSome? fun scope => (d.startEvents scope).head? with
  | some start => .ok start
  | none => .error (.refused ⟨d.root.id, .noStartEvent⟩)

/-- The scope in which a token is put on an element: the running subprocess around it, or a
new scope of its container. -/
def openContainer (s : Simulation) (container e : Element) :
    Except SimulationError (Simulation × ScopeId) :=
  if container.kind = .subProcess then
    match s.scopes.ofElementIn container.id .entered with
    | parent :: _ => .ok (s, parent)
    | [] => .error (.refused ⟨e.id, .subprocessNotRunning container.id⟩)
  else .ok (s.create container none, s.scopes.length)

/-- Starts at an element, by default at the root's start event; gives the scope of its token. -/
def start (d : Diagram) (c : ConfigStore) (bound : Nat) (s : Simulation) (e : Option Element) :
    Simulation × Except SimulationError ScopeId :=
  match (e.map Except.ok).getD (rootStart d) with
  | .error err => (s, .error err)
  | .ok e =>
    match e.parent.bind d.find? with
    | none => (s, .error (.noContainer e.id))
    | some container =>
      match s.openContainer container e with
      | .error err => (s, .error err)
      | .ok (s, parent) =>
        enterAndRun d c bound (s.note (.started e.id container.id)) e (some parent)

/-- Signals the waiting token of an element, or starts at a start event. -/
def trigger (d : Diagram) (c : ConfigStore) (bound : Nat) (s : Simulation) (id : String) :
    Simulation × Except SimulationError ScopeId :=
  match d.find? id with
  | none => (s, .error (.unknown (.ofList [id])))
  | some e =>
    match s.waitingScope? id with
    | some i =>
      match signalAndRun d c bound s i with
      | (s, .ok _) => (s, .ok i)
      | (s, .error err) => (s, .error err)
    | none =>
      if e.kind = .startEvent then start d c bound s (some e)
      else (s, .error (.refused ⟨id, .noToken⟩))

end ProcessDiagram.Simulation
