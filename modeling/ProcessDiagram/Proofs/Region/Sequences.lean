import ProcessDiagram.Region.Fold

/-!
The sequences of work that can be read off a region tree. Folding a list of regions keeps the
sequences, as long as the numbers it draws stand for no work.
-/
namespace ProcessDiagram.Region

variable (native? : Int → Option String)

/-- Every word of the one language followed by every word of the other. -/
def joined (first second : List (List String)) : List (List String) :=
  first.flatMap fun s => second.map (s ++ ·)

mutual

/-- The sequences of native ids that a tree stands for: one part after the other in a
sequential, any one child in a choice and in a parallel. -/
def sequences : Region → List (List String)
  | task id _ _ _ => [(native? id).toList]
  | sequential _ first second => joined (sequences first) (sequences second)
  | choice _ _ children _ | parallel _ _ children => anySequence children

def anySequence : List Region → List (List String)
  | [] => []
  | r :: rest => sequences r ++ anySequence rest

end

/-- The sequences of regions one after the other. -/
def rowSequences : List Region → List (List String)
  | [] => [[]]
  | r :: rest => joined (sequences native? r) (rowSequences rest)

variable {native?}

theorem mem_joined {first second : List (List String)} {seq : List String} :
    seq ∈ joined first second ↔ ∃ s ∈ first, ∃ t ∈ second, s ++ t = seq := by
  simp only [joined, List.mem_flatMap, List.mem_map]

theorem joined_nil (first : List (List String)) : joined first [[]] = first := by
  induction first with
  | nil => rfl
  | cons s rest ih =>
      have tail : (rest.flatMap fun s => [[]].map (s ++ ·)) = rest := ih
      rw [joined, List.flatMap_cons, tail]
      simp

theorem sequences_noOp {id : Int} (h : native? id = none) :
    sequences native? (noOp id) = [[]] := by
  rw [noOp, sequences, h]
  rfl

theorem sequences_fold (items : List Region) (next : Int)
    (synthetic : ∀ id, next ≤ id → native? id = none) :
    sequences native? (fold items next).1 = rowSequences native? items := by
  induction items generalizing next with
  | nil => exact sequences_noOp (synthetic next (Int.le_refl next))
  | cons item rest ih =>
      cases rest with
      | nil =>
          rw [rowSequences, rowSequences, joined_nil]
          rfl
      | cons item' rest =>
          have tail := ih (next + 1) (by
            intro id above
            exact synthetic id (by omega))
          rw [rowSequences, ← tail]
          rfl

theorem le_fold (items : List Region) (next : Int) : next ≤ (fold items next).2 := by
  induction items generalizing next with
  | nil =>
      change next ≤ next + 1
      omega
  | cons item rest ih =>
      cases rest with
      | nil => exact Int.le_refl next
      | cons item' rest =>
          have tail := ih (next + 1)
          change next ≤ (fold (item' :: rest) (next + 1)).2
          omega

end ProcessDiagram.Region
