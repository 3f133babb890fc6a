import ProcessDiagram.Region.Basic
import ProcessDiagram.StepRequest

/-!
Region trees as documents. The fields of each variant are declared here; that documents are written
and checked by these declarations is left to a library of data models. It carries a limited number of
regions nested in each other, and a limited depth of the values in a request.
-/
namespace ProcessDiagram

namespace Region

/-- A declared field with its value: its type, the fewest and the most items of a list, and the value
that a document may leave out. -/
inductive Attribute
  | integer (n : Int)
  | literal (s : String)
  | text (s : String)
  | number (usual : Int) (x : Option Binary64)
  | numbers (least : Nat) (usual xs : List Binary64)
  | regions (least : Nat) (most : Option Nat) (children : List Region)

/-- The fields in the order in which they are declared. -/
def attributes : Region → List (String × Attribute)
  | task id label duration impacts =>
    [("id", .integer id), ("type", .literal "task"), ("label", .text label),
      ("duration", .number usualDuration duration), ("impacts", .numbers 1 [.one] impacts)]
  | sequential id first second =>
    [("id", .integer id), ("type", .literal "sequential"),
      ("children", .regions 2 (some 2) [first, second])]
  | choice id label children maxDelay =>
    [("id", .integer id), ("type", .literal "choice"), ("label", .text label),
      ("children", .regions 1 none children), ("max_delay", .number usualMaxDelay maxDelay)]
  | parallel id label children =>
    [("id", .integer id), ("type", .literal "parallel"), ("label", .text label),
      ("children", .regions 1 none children)]

end Region

/-- What is left to the library. Writing and checking a region, it counts the regions around it. -/
structure Library where
  nesting : Nat
  depth : Nat
  write : Nat → Region → Option Json
  read : Nat → Json → Checked Region
  writeRequest : StepRequest → Option Json
  toInt : Json → Checked Int
  toFloat : Json → Checked Binary64
  toText : Json → Checked String

namespace Library

variable (lib : Library)

/-- A tree as a document. -/
def toDict (r : Region) : Option Json :=
  lib.write 0 r

/-- The request for a tree after the previous answer, as a document. -/
def payload (r : Region) (prior : Option Json.Fields) : Option Json :=
  match lib.toDict r with
  | some (.obj graph) => lib.writeRequest (.build graph prior)
  | _ => none

end Library
end ProcessDiagram
