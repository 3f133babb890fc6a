import ProcessDiagram.Region.Basic

/-!
Folding a list of regions into one. The ids of the sequences come from a supply, outermost
first; an empty list becomes a task that costs nothing, with an id from the supply.
-/
namespace ProcessDiagram.Region

variable {σ : Type}

/-- Takes an id out of the supply, by `draw`, for every sequence. -/
def foldFrom (draw : σ → Int × σ) : List Region → σ → Region × σ
  | [], supply =>
    let (id, supply) := draw supply
    (noOp id, supply)
  | [item], supply => (item, supply)
  | item :: next :: rest, supply =>
    let (id, supply) := draw supply
    let (tail, supply) := foldFrom draw (next :: rest) supply
    (sequential id item tail, supply)

/-- The supply that counts up; it is the next id itself. -/
def counter (next : Int) : Int × Int :=
  (next, next + 1)

/-- The folded region and the next id that is free. -/
def fold (items : List Region) (next : Int) : Region × Int :=
  foldFrom counter items next

end ProcessDiagram.Region
