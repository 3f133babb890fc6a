import ProcessDiagram.Binary64.Basic

/-!
Region trees: what a process does, as nested sequences, choices and parallels over tasks. A
sequence has two parts, so longer ones lean to the right. A duration or a delay that is not
stated is the usual one, a whole number.
-/
namespace ProcessDiagram

inductive Region
  | task (id : Int) (label : String) (duration : Option Binary64)
      (impacts : List Binary64)
  | sequential (id : Int) (first second : Region)
  | choice (id : Int) (label : String) (children : List Region) (maxDelay : Option Binary64)
  | parallel (id : Int) (label : String) (children : List Region)

namespace Region

def id : Region → Int
  | task id _ _ _ | sequential id _ _ | choice id _ _ _ | parallel id _ _ => id

def children : Region → List Region
  | task .. => []
  | sequential _ first second => [first, second]
  | choice _ _ children _ | parallel _ _ children => children

/-- The name of the variant. -/
def type : Region → String
  | task .. => "task"
  | sequential .. => "sequential"
  | choice .. => "choice"
  | parallel .. => "parallel"

def usualDuration : Int := 1

def usualMaxDelay : Int := 0

/-- A task of duration one with the single impact one. -/
def unitTask (id : Int) (label : String) : Region :=
  task id label (some .one) [.one]

/-- A task that costs nothing, in the place of an empty sequence. -/
def noOp (id : Int) : Region :=
  task id "NoOp" (some .zero) [.zero]

mutual

/-- The tree and all its subtrees, each before its own parts. -/
def preorder : Region → List Region
  | task id label duration impacts => [task id label duration impacts]
  | sequential id first second => sequential id first second :: preorder first ++ preorder second
  | choice id label children maxDelay =>
    choice id label children maxDelay :: preorderAll children
  | parallel id label children => parallel id label children :: preorderAll children

def preorderAll : List Region → List Region
  | [] => []
  | r :: rest => preorder r ++ preorderAll rest

end

mutual

/-- Choices and parallels have a child and tasks an impact, at every depth. -/
def WellFormed : Region → Prop
  | task _ _ _ impacts => impacts ≠ []
  | sequential _ first second => WellFormed first ∧ WellFormed second
  | choice _ _ children _ | parallel _ _ children => children ≠ [] ∧ AllWellFormed children

def AllWellFormed : List Region → Prop
  | [] => True
  | r :: rest => WellFormed r ∧ AllWellFormed rest

end

mutual

def beq : Region → Region → Bool
  | task i l d m, task i' l' d' m' => i == i' && l == l' && d == d' && m == m'
  | sequential i a b, sequential i' a' b' => i == i' && beq a a' && beq b b'
  | choice i l c d, choice i' l' c' d' => i == i' && l == l' && beqAll c c' && d == d'
  | parallel i l c, parallel i' l' c' => i == i' && l == l' && beqAll c c'
  | _, _ => false

def beqAll : List Region → List Region → Bool
  | [], [] => true
  | a :: s, b :: t => beq a b && beqAll s t
  | _, _ => false

end

mutual

theorem beq_iff : ∀ a b : Region, beq a b = true ↔ a = b
  | task .., b => by cases b <;> simp [beq, and_assoc]
  | sequential _ a b, r => by
    cases r <;> simp [beq, beq_iff a, beq_iff b, and_assoc]
  | choice _ _ c _, r => by
    cases r <;> simp [beq, beqAll_iff c, and_assoc]
  | parallel _ _ c, r => by
    cases r <;> simp [beq, beqAll_iff c, and_assoc]

theorem beqAll_iff : ∀ s t : List Region, beqAll s t = true ↔ s = t
  | [], t => by cases t <;> simp [beqAll]
  | a :: s, t => by cases t <;> simp [beqAll, beq_iff a, beqAll_iff s]

end

instance : DecidableEq Region := fun a b =>
  decidable_of_iff (beq a b = true) (beq_iff a b)

end Region
end ProcessDiagram
