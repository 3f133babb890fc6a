import ProcessDiagram.Proofs.Region.Sequences

/-!
The work that is left of a region tree when every choice is resolved to one of its children.
-/
namespace ProcessDiagram.Region

variable (native? : Int → Option String) (index : String → Nat)

mutual

/-- The native ids of the tasks that are kept: both parts of a sequential, all children of a
parallel, and of a choice the child at the index that is given for its native id. -/
def survivors : Region → List String
  | task id _ _ _ => (native? id).toList
  | sequential _ first second => survivors first ++ survivors second
  | choice id _ children _ => (survivorsEach children)[((native? id).map index).getD 0]?.getD []
  | parallel _ _ children => (survivorsEach children).flatten

def survivorsEach : List Region → List (List String)
  | [] => []
  | r :: rest => survivors r :: survivorsEach rest

end

/-- What survives of regions one after the other. -/
def rowSurvivors : List Region → List String
  | [] => []
  | r :: rest => survivors native? index r ++ rowSurvivors rest

variable {native? index}

theorem survivors_fold (items : List Region) (next : Int)
    (synthetic : ∀ id, next ≤ id → native? id = none) :
    survivors native? index (fold items next).1 = rowSurvivors native? index items := by
  induction items generalizing next with
  | nil =>
      change (native? next).toList = []
      rw [synthetic next (Int.le_refl next)]
      rfl
  | cons item rest ih =>
      cases rest with
      | nil =>
          rw [rowSurvivors, rowSurvivors, List.append_nil]
          rfl
      | cons item' rest =>
          have tail := ih (next + 1) (by
            intro id above
            exact synthetic id (by omega))
          rw [rowSurvivors, ← tail]
          rfl

end ProcessDiagram.Region
