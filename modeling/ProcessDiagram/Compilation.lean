import ProcessDiagram.Diagram.Structure
import ProcessDiagram.Numbering
import ProcessDiagram.Region.Fold

/-!
Compiling a process scope into a region tree. A walk follows the flows from an element up to
a stop: tasks and subprocesses become tasks, a split becomes a choice or a parallel whose
branches are walks up to its join, and the walk goes on behind the join. Elements are
numbered as they are met, a split after its branches; sequences and empty branches get
numbers above all elements of the diagram.

A walk visits an element once, and no split is entered inside its own branches, so walks end
on every diagram.
-/
namespace ProcessDiagram

namespace Diagram

/-- The end of the first outgoing flow. -/
def successor? (d : Diagram) (e : Element) : Option Element :=
  (d.outgoing e).head?.map (·.target)

theorem length_unfollowed_le (d : Diagram) (id : String) (seen : List String) :
    (d.unfollowed (id :: seen)).length ≤ (d.unfollowed seen).length := by
  by_cases h : seen.contains id
  · have : d.unfollowed (id :: seen) = d.unfollowed seen := by
      refine List.filter_congr fun f _ => ?_
      by_cases hf : f.source.id = id <;> simp_all
    exact Nat.le_of_eq (congrArg List.length this)
  · have := d.length_unfollowed_cons (eq_false_of_ne_true h)
    omega

theorem length_unfollowed_le_length_flows (d : Diagram) (seen : List String) :
    (d.unfollowed seen).length ≤ d.flows.length :=
  List.length_filter_le ..

/-- Seeing an element with outgoing flows leaves fewer flows unfollowed. -/
theorem length_unfollowed_lt {d : Diagram} {e : Element} {seen : List String}
    (unseen : seen.contains e.id = false) (leaves : d.outgoing e ≠ []) :
    (d.unfollowed (e.id :: seen)).length < (d.unfollowed seen).length := by
  have := d.length_unfollowed_cons unseen
  obtain ⟨f, hf⟩ := List.exists_mem_of_ne_nil _ leaves
  have hf := mem_outgoing.1 hf
  have : f.target.id ∈ d.targetIds e.id := by
    simpa [targetIds] using ⟨f, hf, rfl⟩
  have := List.length_pos_of_mem this
  omega

end Diagram

namespace Compilation

/-- What a series of walks leaves behind: the numbered elements, the next number above
them, and the reports made. -/
structure State where
  numbering : Numbering
  nextSynthetic : Int
  log : List Record
  deriving DecidableEq

/-- A used numbering is taken over, an empty one is left to its owner. -/
def State.start (d : Diagram) (given : Option Numbering) : State :=
  ⟨given.getD .empty, d.nodes.length + 1, []⟩

/-- The given numbering as its owner sees it afterwards. -/
def State.handBack (s : State) (given : Numbering) : Numbering :=
  if given.size = 0 then given else s.numbering

end Compilation

abbrev Compilation (α : Type) := ExceptT StructuralError (StateM Compilation.State) α

namespace Compilation

def note (level : Level) (channel : Channel) (message : String) : Compilation Unit :=
  modify fun s => { s with log := s.log ++ [⟨level, channel, message⟩] }

def report (records : List Record) : Compilation Unit :=
  modify fun s => { s with log := s.log ++ records }

def intern (id : String) : Compilation Int := do
  let s ← get
  let (n, numbering) := s.numbering.intern id
  set { s with numbering := numbering }
  return n

def fold (items : List Region) : Compilation Region := do
  let s ← get
  let (region, next) := Region.fold items s.nextSynthetic
  set { s with nextSynthetic := next }
  return region

/-- Only the first of several outgoing flows is followed, which is reported. -/
def noteFirstOnly (d : Diagram) (e : Element) : Compilation Unit :=
  let count := (d.outgoing e).length
  if 1 < count then
    note .warning .compiler ("[compile] " ++ e.id ++ " has " ++ toString count
      ++ " outgoing flows; following the first")
  else return

def noteBranch (split : Element) (index : Nat) (target : Element) : Compilation Unit :=
  note .debug .compiler ("[compile] Gateway " ++ split.id ++ " branch " ++ toString index
    ++ " -> " ++ target.id ++ " (" ++ target.label ++ ")")

def noteUnsupported (e : Element) : Compilation Unit :=
  note .warning .compiler ("[compile] Skipping unsupported element " ++ e.id ++ " ("
    ++ e.kind.name ++ ")")

/-- The join that closes a split; the walk cannot go on without one. -/
def joinOf (d : Diagram) (split : Element) : Compilation Element := do
  let found := d.findJoin split
  report (found.records split)
  match found with
  | .closesAt join => return join
  | .noBranch | .noGateway => throw (.joinNotFound split.id)
  | .ambiguous candidates => throw (.ambiguousJoin split.id (candidates.map (·.id)))

def splitRegion (split : Element) (id : Int) (children : List Region) : Region :=
  if split.kind = .exclusiveGateway then
    .choice id (if split.label.isEmpty then "choice" else split.label) children (some .zero)
  else .parallel id (if split.label.isEmpty then "parallel" else split.label) children

/-- What the walk does at an element. -/
inductive Role
  | work
  | split
  | pass
  | unsupported
  deriving DecidableEq

def roleOf (d : Diagram) (e : Element) : Role :=
  if e.kind.isActivity then .work
  else if e.kind = .startEvent then .pass
  else if e.kind.isGateway then if 1 < (d.outgoing e).length then .split else .pass
  else .unsupported

theorem outgoing_ne_nil_of_split {d : Diagram} {e : Element} (h : roleOf d e = .split) :
    d.outgoing e ≠ [] := by
  intro hnil
  simp only [roleOf, hnil] at h
  repeat' split at h
  all_goals simp_all

/-- Behind a join the walk goes on with the next element, unless the join itself is the stop
or splits again. -/
def afterJoin? (d : Diagram) (join : Element) (stop : Option String) : Option Element :=
  if some join.id = stop ∨ 1 < (d.outgoing join).length then some join else d.successor? join

def noteAfterJoin (d : Diagram) (join : Element) (stop : Option String) : Compilation Unit :=
  if some join.id = stop ∨ 1 < (d.outgoing join).length then return else noteFirstOnly d join

/-- How much a walk has left: the unfollowed flows, and the element it stands at. -/
def remaining (d : Diagram) (seen : List String) (current : Option Element) : Nat :=
  2 * (d.unfollowed seen).length + current.toList.length

theorem remaining_successor_lt {d : Diagram} {e : Element} {seen : List String}
    (fresh : ¬seen.contains e.id) :
    remaining d (e.id :: seen) (d.successor? e) < remaining d seen (some e) := by
  cases h : d.outgoing e with
  | nil =>
    have := d.length_unfollowed_le e.id seen
    simp only [remaining, Diagram.successor?, h, List.head?_nil, Option.map_none,
      Option.toList_none, Option.toList_some, List.length_nil, List.length_singleton]
    omega
  | cons f rest =>
    have := Diagram.length_unfollowed_lt (eq_false_of_ne_true fresh) (d := d) (by simp [h])
    simp only [remaining, Diagram.successor?, h, List.head?_cons, Option.map_some,
      Option.toList_some, List.length_singleton]
    omega

theorem remaining_lt_of_split {d : Diagram} {e : Element} {seen : List String}
    (fresh : ¬seen.contains e.id) (role : roleOf d e = .split) (next : Option Element) :
    remaining d (e.id :: seen) next < remaining d seen (some e) := by
  have := Diagram.length_unfollowed_lt (eq_false_of_ne_true fresh) (outgoing_ne_nil_of_split role)
  have : next.toList.length ≤ 1 := by cases next <;> simp
  simp only [remaining, Option.toList_some, List.length_singleton]
  omega

theorem remaining_start_lt (d : Diagram) (start : Option Element) :
    remaining d [] start < 2 * d.flows.length + 2 := by
  have := d.length_unfollowed_le_length_flows []
  have : start.toList.length ≤ 1 := by cases start <;> simp
  simp only [remaining]
  omega

/-- The measure of nested walks: what can still be opened counts above all that one walk and
its branches have left. -/
def depth (d : Diagram) (opened : List String) (left : Nat) : Nat :=
  (d.unfollowed opened).length * (3 * d.flows.length + 3) + left

theorem depth_lt_of_split {d : Diagram} {e : Element} {opened : List String}
    (closed : ¬opened.contains e.id) (role : roleOf d e = .split) (left : Nat) :
    depth d (e.id :: opened) (2 * d.flows.length + 2 + (d.outgoing e).length)
      < depth d opened left := by
  have fewer := Diagram.length_unfollowed_lt (eq_false_of_ne_true closed)
    (outgoing_ne_nil_of_split role)
  have := d.length_outgoing_le e
  have := Nat.mul_le_mul_right (3 * d.flows.length + 3) fewer
  simp only [depth, Nat.succ_mul] at this ⊢
  omega

mutual

/-- The regions from an element up to the stop. -/
def walk (d : Diagram) (opened seen : List String) (stop : Option String)
    (current : Option Element) : Compilation (List Region) :=
  match current with
  | none => return []
  | some e =>
    if some e.id = stop ∨ e.kind = .endEvent then return []
    else if _ : seen.contains e.id then throw (.revisited e.id)
    else
      match _ : roleOf d e with
      | .work => do
        let id ← intern e.id
        noteFirstOnly d e
        let rest ← walk d opened (e.id :: seen) stop (d.successor? e)
        return .unitTask id e.name :: rest
      | .pass => do
        noteFirstOnly d e
        walk d opened (e.id :: seen) stop (d.successor? e)
      | .unsupported => do
        noteUnsupported e
        noteFirstOnly d e
        walk d opened (e.id :: seen) stop (d.successor? e)
      | .split =>
        if _ : opened.contains e.id then throw (.reopened e.id)
        else do
          let join ← joinOf d e
          let children ← branches d (e.id :: opened) e join 0 (d.outgoing e)
          let id ← intern e.id
          noteAfterJoin d join stop
          let rest ← walk d opened (e.id :: seen) stop (afterJoin? d join stop)
          return splitRegion e id children :: rest
termination_by depth d opened (remaining d seen current)
decreasing_by
  · exact Nat.add_lt_add_left (remaining_successor_lt ‹_›) _
  · exact Nat.add_lt_add_left (remaining_successor_lt ‹_›) _
  · exact Nat.add_lt_add_left (remaining_successor_lt ‹_›) _
  · exact depth_lt_of_split ‹_› ‹_› _
  · exact Nat.add_lt_add_left (remaining_lt_of_split ‹_› ‹_› _) _

/-- One folded region for each flow out of a split. -/
def branches (d : Diagram) (opened : List String) (split join : Element) (index : Nat)
    (flows : List Flow) : Compilation (List Region) :=
  match flows with
  | [] => return []
  | f :: rest => do
    noteBranch split index f.target
    let items ← walk d opened [] (some join.id) (some f.target)
    let child ← fold items
    let others ← branches d opened split join (index + 1) rest
    return child :: others
termination_by depth d opened (2 * d.flows.length + 2 + flows.length)
decreasing_by
  · have := remaining_start_lt d (some f.target)
    exact Nat.add_lt_add_left (by omega) _
  · exact Nat.add_lt_add_left (by simp) _

end

/-- A walk between two elements of the diagram, with no split open. -/
def walkBetween (d : Diagram) (start stop : Option Element) : Compilation (List Region) :=
  walk d [] [] (stop.map (·.id)) start

end Compilation

/-- The region tree of a scope with the elements that its native ids stand for. -/
structure CompiledScope where
  region : Region
  numbering : Numbering
  deriving DecidableEq

namespace Diagram

/-- The root process, or the first participant of a collaboration. -/
def defaultScope (d : Diagram) : Except StructuralError Element :=
  if d.root.kind = .process then .ok d.root
  else match d.participants with
    | [] => .error (.noParticipant d.root.name)
    | pool :: _ => .ok pool

/-- The one start event of a scope. -/
def scopeStart (d : Diagram) (scope : Element) : Except StructuralError Element :=
  match d.startEvents scope with
  | [start] => .ok start
  | starts => .error (.startCount scope.name starts.length)

/-- Compiles from the start event of a scope to the end of the flows. -/
def compileFrom (d : Diagram) (scope start : Element) :
    Logged (Except StructuralError CompiledScope) :=
  let work : Compilation Region := do
    let region ← Compilation.fold (← Compilation.walkBetween d (some start) none)
    let s ← get
    Compilation.note .info .compiler
      ("[compile] " ++ scope.id ++ ": " ++ toString s.numbering.size ++ " mapped elements")
    return region
  let (outcome, s) := work.run.run (Compilation.State.start d none)
  ⟨outcome.map fun region => ⟨region, s.numbering⟩, s.log⟩

/-- Compiles a scope, by default the diagram's own; `validated` asks for the check that every
process scope has one start and one end event. -/
def compile (d : Diagram) (scope : Option Element) (validated : Bool) :
    Logged (Except StructuralError CompiledScope) := do
  match ← (if validated then d.ensureValid else return .ok ()) with
  | .error e => return .error e
  | .ok _ =>
    match (scope.map Except.ok).getD d.defaultScope with
    | .error e => return .error e
    | .ok scope =>
      match d.scopeStart scope with
      | .error e => return .error e
      | .ok start => d.compileFrom scope start

end Diagram
end ProcessDiagram
