import ProcessDiagram.Binary64.Basic
import ProcessDiagram.Binary64.Shortest
import ProcessDiagram.Compilation
import ProcessDiagram.Diagram.Basic
import ProcessDiagram.Diagram.Join
import ProcessDiagram.Diagram.Reachability
import ProcessDiagram.Diagram.Registry
import ProcessDiagram.Diagram.Structure
import ProcessDiagram.Element
import ProcessDiagram.Journal
import ProcessDiagram.Json.Basic
import ProcessDiagram.Json.Check
import ProcessDiagram.Json.Parser
import ProcessDiagram.Json.Printer
import ProcessDiagram.Numbering
import ProcessDiagram.Proofs.Blocks.Basic
import ProcessDiagram.Proofs.Blocks.Carried
import ProcessDiagram.Proofs.Blocks.Composed
import ProcessDiagram.Proofs.Blocks.Fed
import ProcessDiagram.Proofs.Blocks.Joins
import ProcessDiagram.Proofs.Blocks.Linked
import ProcessDiagram.Proofs.Blocks.Regions
import ProcessDiagram.Proofs.Blocks.Resolved
import ProcessDiagram.Proofs.Blocks.Simulated
import ProcessDiagram.Proofs.Compilation.Afresh
import ProcessDiagram.Proofs.Compilation.Alike
import ProcessDiagram.Proofs.Compilation.Apart
import ProcessDiagram.Proofs.Compilation.Calls
import ProcessDiagram.Proofs.Compilation.Closing
import ProcessDiagram.Proofs.Compilation.Compiled
import ProcessDiagram.Proofs.Compilation.Compiler
import ProcessDiagram.Proofs.Compilation.Extended
import ProcessDiagram.Proofs.Compilation.Growth
import ProcessDiagram.Proofs.Compilation.Guarded
import ProcessDiagram.Proofs.Compilation.Met
import ProcessDiagram.Proofs.Compilation.Named
import ProcessDiagram.Proofs.Compilation.Outcome
import ProcessDiagram.Proofs.Compilation.Runs
import ProcessDiagram.Proofs.Compilation.Sequences
import ProcessDiagram.Proofs.Compilation.Shared
import ProcessDiagram.Proofs.Compilation.Walked
import ProcessDiagram.Proofs.Diagram.Built
import ProcessDiagram.Proofs.Diagram.Converging
import ProcessDiagram.Proofs.Diagram.Leads
import ProcessDiagram.Proofs.Diagram.Nearest
import ProcessDiagram.Proofs.Diagram.Paths
import ProcessDiagram.Proofs.Diagram.Traffic
import ProcessDiagram.Proofs.Numbering
import ProcessDiagram.Proofs.Region.Documented
import ProcessDiagram.Proofs.Region.RoundTrip
import ProcessDiagram.Proofs.Region.Sequences
import ProcessDiagram.Proofs.Region.Spine
import ProcessDiagram.Proofs.Region.Survivors
import ProcessDiagram.Proofs.Region.Synthetic
import ProcessDiagram.Proofs.Registry.Fresh
import ProcessDiagram.Proofs.Registry.Grown
import ProcessDiagram.Proofs.Registry.Mirrored
import ProcessDiagram.Proofs.Registry.Ordered
import ProcessDiagram.Proofs.Replay.Arrivals
import ProcessDiagram.Proofs.Replay.Attempted
import ProcessDiagram.Proofs.Replay.Failing
import ProcessDiagram.Proofs.Replay.Followed
import ProcessDiagram.Proofs.Replay.Halting
import ProcessDiagram.Proofs.Replay.Lookahead
import ProcessDiagram.Proofs.Replay.Overlapping
import ProcessDiagram.Proofs.Replay.Playing
import ProcessDiagram.Proofs.Replay.Rearranged
import ProcessDiagram.Proofs.Replay.Recorded
import ProcessDiagram.Proofs.Replay.Releases
import ProcessDiagram.Proofs.Replay.Rounds
import ProcessDiagram.Proofs.Replay.Saturated
import ProcessDiagram.Proofs.Replay.Snapshots
import ProcessDiagram.Proofs.Replay.Steered
import ProcessDiagram.Proofs.Replay.Stepping
import ProcessDiagram.Proofs.Replay.Watched
import ProcessDiagram.Proofs.Simulation.Answered
import ProcessDiagram.Proofs.Simulation.Commuting
import ProcessDiagram.Proofs.Simulation.Confined
import ProcessDiagram.Proofs.Simulation.Conserved
import ProcessDiagram.Proofs.Simulation.Consulted
import ProcessDiagram.Proofs.Simulation.Course
import ProcessDiagram.Proofs.Simulation.Drained
import ProcessDiagram.Proofs.Simulation.Effect
import ProcessDiagram.Proofs.Simulation.Effort
import ProcessDiagram.Proofs.Simulation.Formed
import ProcessDiagram.Proofs.Simulation.Gateways
import ProcessDiagram.Proofs.Simulation.Halting
import ProcessDiagram.Proofs.Simulation.Inputs
import ProcessDiagram.Proofs.Simulation.Joined
import ProcessDiagram.Proofs.Simulation.Lasting
import ProcessDiagram.Proofs.Simulation.Ledger
import ProcessDiagram.Proofs.Simulation.Lineage
import ProcessDiagram.Proofs.Simulation.Lone
import ProcessDiagram.Proofs.Simulation.Moves
import ProcessDiagram.Proofs.Simulation.Naming
import ProcessDiagram.Proofs.Simulation.Operated
import ProcessDiagram.Proofs.Simulation.Operations
import ProcessDiagram.Proofs.Simulation.Owed
import ProcessDiagram.Proofs.Simulation.PlainRun
import ProcessDiagram.Proofs.Simulation.Protocol
import ProcessDiagram.Proofs.Simulation.Reading
import ProcessDiagram.Proofs.Simulation.Refused
import ProcessDiagram.Proofs.Simulation.Sound
import ProcessDiagram.Proofs.Simulation.TokenGame
import ProcessDiagram.Proofs.Simulation.Turns
import ProcessDiagram.Proofs.Simulation.Weight
import ProcessDiagram.Proofs.Trace.Loading
import ProcessDiagram.Proofs.Trace.StepIndex
import ProcessDiagram.Region.Basic
import ProcessDiagram.Region.Codec
import ProcessDiagram.Region.Fold
import ProcessDiagram.Region.Library
import ProcessDiagram.Replay.Basic
import ProcessDiagram.Replay.Branch
import ProcessDiagram.Replay.Call
import ProcessDiagram.Replay.Run
import ProcessDiagram.Replay.Trigger
import ProcessDiagram.Session
import ProcessDiagram.Settings
import ProcessDiagram.Simulation.Basic
import ProcessDiagram.Simulation.Behavior
import ProcessDiagram.Simulation.Config
import ProcessDiagram.Simulation.Failure
import ProcessDiagram.Simulation.Run
import ProcessDiagram.Simulation.Scope
import ProcessDiagram.Sorting
import ProcessDiagram.StepRequest
import ProcessDiagram.SteppingService
import ProcessDiagram.Text.Blank
import ProcessDiagram.Text.Digit
import ProcessDiagram.Text.Numeral
import ProcessDiagram.Text.Quoted
import ProcessDiagram.Text.UpperCase
import ProcessDiagram.Trace.Basic
import ProcessDiagram.Trace.Folder
import ProcessDiagram.Trace.StepIndex
