import ProcessDiagram.Diagram.Basic
import ProcessDiagram.Trace.Basic

/-!
Look-ahead: which branch a trace takes at a gateway. The trace shows when the gateway is left
next, and the branch is the first one whose target changes after that.
-/
namespace ProcessDiagram

namespace Trace

/-- The status at a place in the trace; behind its end everything is absent. -/
def status (t : Trace) (i : Nat) (id : String) : Status :=
  ((t.snapshots[i]?).map (·.status id)).getD .absent

/-- The token was held by the element and no longer is in the next snapshot. -/
def releases (t : Trace) (id : String) (i : Nat) : Bool :=
  t.status i id == .active && t.status (i + 1) id != .active

/-- The token went through the element between two snapshots. -/
def passes (t : Trace) (id : String) (i : Nat) : Bool :=
  t.status i id == .absent && t.status (i + 1) id == .completed

/-- The first place from `start` on after which the element is left. -/
def nextExit? (t : Trace) (id : String) (start : Nat) : Option Nat :=
  (List.range' start (t.size - 1 - start)).find? fun i => t.releases id i || t.passes id i

/-- An element shows up at a place with another status than it has at the place `since`. -/
def appears (t : Trace) (since : Nat) (id : String) (i : Nat) : Bool :=
  t.status i id != .absent && t.status i id != t.status since id

/-- The first flow, at the first place behind `i` that has one, whose target appears. -/
def firstTaken? (t : Trace) (i : Nat) (flows : List Flow) : Option Flow :=
  (List.range' (i + 1) (t.size - (i + 1))).findSome? fun j =>
    flows.find? fun f => t.appears i f.target.id j

end Trace

/-- A branch waits where the trace holds the token at the gateway. -/
structure Branch where
  flow : Flow
  wait : Bool
  deriving DecidableEq

/-- The branch that the trace takes at the next exit of a gateway from `start` on. -/
def Trace.branch? (t : Trace) (d : Diagram) (gateway : Element) (start : Nat) : Option Branch := do
  let i ← t.nextExit? gateway.id start
  let flow ← t.firstTaken? i (d.outgoing gateway)
  return ⟨flow, t.releases gateway.id i⟩

end ProcessDiagram
