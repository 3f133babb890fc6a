import ProcessDiagram.Diagram.Basic
import ProcessDiagram.Journal
import ProcessDiagram.Simulation.Config
import ProcessDiagram.Simulation.Failure
import ProcessDiagram.Simulation.Scope

/-!
Simulations: the scopes, a chronicle of what happened, and an agenda of what is still to be
done. The operations here change a scope and put what follows from it at the end of the
agenda; they never run the agenda. A scope is known by its place in the simulation that has
it: a reset leaves no scope, and what was held on to from before it is left out of account. At
a place where there is no scope nothing is done.
-/
namespace ProcessDiagram

inductive EventKind
  | enter
  | wait
  | signal
  | exit
  | merge
  | stall
  deriving DecidableEq

def EventKind.name : EventKind → String
  | enter => "enter"
  | wait => "wait"
  | signal => "signal"
  | exit => "exit"
  | merge => "merge"
  | stall => "stall"

structure Event where
  kind : EventKind
  element : String
  scope : ScopeId
  deriving DecidableEq

inductive Notice
  | event (e : Event)
  | started (element container : String)
  | joinWaiting (element : String) (arrived required : Nat)
  | consumed (element : String)
  | finished (element : String)
  | stalled (element : String)
  | noInnerStart (element : String)
  deriving DecidableEq

namespace Notice

def text : Notice → String
  | event e => "[sim] " ++ e.kind.name ++ " " ++ e.element ++ "#" ++ toString e.scope
  | started element container => "[sim] start " ++ element ++ " in " ++ container
  | joinWaiting element arrived required =>
    "[sim] join " ++ element ++ " waiting (" ++ toString arrived ++ "/" ++ toString required ++ ")"
  | consumed element => "[sim] token consumed at " ++ element
  | finished element => "[sim] " ++ element ++ " finished"
  | stalled element =>
    "[sim] No active outgoing flow configured for " ++ element ++ "; token stalled"
  | noInnerStart element => "[sim] Subprocess " ++ element ++ " has no start event"

def event? : Notice → Option Event
  | event e => some e
  | _ => none

/-- The console shows what happens; warnings go to the journal only. -/
def consoleLine? : Notice → Option String
  | stalled _ | noInnerStart _ => none
  | n => some n.text

def record (n : Notice) : Record :=
  match n with
  | stalled _ => ⟨.warning, .engine, n.text⟩
  | noInnerStart _ => ⟨.warning, .behaviors, n.text⟩
  | _ => ⟨.debug, .engine, n.text⟩

end Notice

/-- Work that follows from an operation on a scope. -/
inductive Task
  | enter (scope : ScopeId)
  | signal (scope : ScopeId)
  | finishExit (scope : ScopeId)
  deriving DecidableEq

structure Simulation where
  scopes : Scopes
  chronicle : List Notice
  exitCounts : List (String × Nat)
  agenda : List Task
  deriving DecidableEq

namespace Simulation

def empty : Simulation := ⟨[], [], [], []⟩

def events (s : Simulation) : List Event :=
  s.chronicle.filterMap (·.event?)

def console (s : Simulation) : List String :=
  s.chronicle.filterMap (·.consoleLine?)

def exitCount (s : Simulation) (id : String) : Nat :=
  (s.exitCounts.lookup id).getD 0

/-- An element was left and no scope of it is live. -/
def hasExited (s : Simulation) (id : String) : Bool :=
  decide (0 < s.exitCount id) && (s.scopes.ofElement id).isEmpty

/-- Some root scope was made and all of them are destroyed. -/
def isFinished (s : Simulation) : Bool :=
  let roots := s.scopes.filter (·.parent.isNone)
  !roots.isEmpty && roots.all (·.destroyed)

/-- The first scope of an element that waits for a signal. -/
def waitingScope? (s : Simulation) (id : String) : Option ScopeId :=
  (s.scopes.idsWhere fun x =>
    !x.destroyed && x.element.id == id && x.state == .waiting && x.pending).head?

/-! ## Single operations -/

def note (s : Simulation) (n : Notice) : Simulation :=
  { s with chronicle := s.chronicle ++ [n] }

def record (s : Simulation) (kind : EventKind) (element : String) (i : ScopeId) : Simulation :=
  s.note (.event ⟨kind, element, i⟩)

def schedule (s : Simulation) (t : Task) : Simulation :=
  { s with agenda := s.agenda ++ [t] }

def modifyScope (s : Simulation) (i : ScopeId) (f : Scope → Scope) : Simulation :=
  { s with scopes := s.scopes.modify i f }

/-- A new scope that has been entered; its id is the number of scopes before it. -/
def create (s : Simulation) (e : Element) (parent : Option ScopeId) : Simulation :=
  { s with scopes := s.scopes ++ [Scope.enter e parent] }.record .enter e.id s.scopes.length

def enter (s : Simulation) (e : Element) (parent : Option ScopeId) : Simulation :=
  (s.create e parent).schedule (.enter s.scopes.length)

def suspend (s : Simulation) (i : ScopeId) : Simulation :=
  match s.scopes[i]? with
  | none => s
  | some x =>
    (s.modifyScope i fun x => { x with state := .waiting, pending := true }).record .wait
      x.element.id i

/-- The token goes on: what the scope waited for is used up before anything follows. Only a scope
of the simulation can be signalled; at any other place nothing is asked for. -/
def signal (s : Simulation) (i : ScopeId) : Except TriggerFailure Simulation :=
  match s.scopes[i]? with
  | none => .ok s
  | some x =>
    if x.destroyed ∨ !x.pending then .error ⟨x.element.id, .scopeNotWaiting⟩
    else
      .ok (((s.modifyScope i fun x => { x with state := .entered, pending := false }).record
        .signal x.element.id i).schedule (.signal i))

def countUp (id : String) : List (String × Nat) → List (String × Nat)
  | [] => [(id, 1)]
  | (i, n) :: rest => if i = id then (i, n + 1) :: rest else (i, n) :: countUp id rest

/-- A scope exits once. -/
def exit (s : Simulation) (i : ScopeId) : Simulation :=
  match s.scopes[i]? with
  | none => s
  | some x =>
    if x.destroyed ∨ x.state = .exited then s
    else
      let s := s.modifyScope i fun x => { x with state := .exited, pending := false }
      let s := { s with exitCounts := countUp x.element.id s.exitCounts }
      (s.record .exit x.element.id i).schedule (.finishExit i)

/-- The token is lost: nothing is entered behind the scope. -/
def stall (s : Simulation) (i : ScopeId) : Simulation :=
  match s.scopes[i]? with
  | none => s
  | some x => (s.record .stall x.element.id i).note (.stalled x.element.id)

def destroy (s : Simulation) (i : ScopeId) : Simulation :=
  s.modifyScope i Scope.destroy

def merge (s : Simulation) (i : ScopeId) : Simulation :=
  match s.scopes[i]? with
  | none => s
  | some x => (s.record .merge x.element.id i).destroy i

/-- An entered scope exits when no child of it is live. -/
def tryExit (s : Simulation) (i : ScopeId) : Simulation :=
  match s.scopes[i]? with
  | none => s
  | some x =>
    if x.destroyed ∨ x.state ≠ .entered ∨ !(s.scopes.liveChildren i).isEmpty then s
    else s.exit i

def enterAll (s : Simulation) (flows : List Flow) (parent : Option ScopeId) : Simulation :=
  flows.foldl (fun s f => s.enter f.target parent) s

end Simulation
end ProcessDiagram
