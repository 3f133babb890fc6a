import ProcessDiagram.Diagram.Reachability
import ProcessDiagram.Journal

/-!
The gateway at which the branches of a split come together. Gateways that every branch leads
to are candidates; constructs further on are candidates too, so the join is the one candidate
that leads to all of them.
-/
namespace ProcessDiagram

inductive JoinSearch
  | noBranch
  | noGateway
  | closesAt (join : Element)
  | ambiguous (candidates : List Element)
  deriving DecidableEq

namespace Diagram

/-- In diagram order. -/
def commonGateways (d : Diagram) (split : Element) : List Element :=
  let branches := (d.outgoing split).map fun f => d.reachable f.target.id
  d.nodes.filter fun e => e.kind.isGateway && branches.all (·.contains e.id)

/-- The candidates that lead to every candidate. -/
def nearestOf (d : Diagram) (candidates : List Element) : List Element :=
  candidates.filter fun c =>
    let onward := d.reachable c.id
    candidates.all fun other => onward.contains other.id

def findJoin (d : Diagram) (split : Element) : JoinSearch :=
  if (d.outgoing split).isEmpty then .noBranch
  else
    let candidates := d.commonGateways split
    if candidates.isEmpty then .noGateway
    else match d.nearestOf candidates with
      | [join] => .closesAt join
      | [] => .ambiguous candidates
      | nearest => .ambiguous nearest

end Diagram

/-- What the search reports about a split. -/
def JoinSearch.records (split : Element) : JoinSearch → List Record
  | noGateway => [⟨.debug, .joins, "[join] No convergence gateway for " ++ split.id⟩]
  | closesAt join => [⟨.debug, .joins, "[join] " ++ split.id ++ " closes at " ++ join.id⟩]
  | noBranch | ambiguous _ => []

end ProcessDiagram
