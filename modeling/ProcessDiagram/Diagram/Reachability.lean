import ProcessDiagram.Diagram.Basic

/-!
Which elements the flows lead to. `Leads` is the relation, `reachable` the search; the search
ends because every flow is followed from its source only once.
-/
namespace ProcessDiagram.Diagram

/-- Zero or more flows lead from one id to the other. -/
inductive Leads (d : Diagram) : String → String → Prop
  | refl (a : String) : Leads d a a
  | step {a b : String} (f : Flow) :
      Leads d a b → f ∈ d.flows → f.source.id = b → Leads d a f.target.id

def targetIds (d : Diagram) (id : String) : List String :=
  (d.flows.filter (·.source.id == id)).map (·.target.id)

/-- Flows whose source has not been seen. -/
def unfollowed (d : Diagram) (seen : List String) : List Flow :=
  d.flows.filter fun f => !seen.contains f.source.id

theorem length_unfollowed_cons (d : Diagram) {id : String} {seen : List String}
    (h : seen.contains id = false) :
    (d.unfollowed (id :: seen)).length + (d.targetIds id).length
      = (d.unfollowed seen).length := by
  simp only [unfollowed, targetIds, List.length_map]
  induction d.flows with
  | nil => rfl
  | cons f rest ih =>
    by_cases hf : f.source.id = id
    · have : seen.contains f.source.id = false := by rw [hf]; exact h
      have : (id :: seen).contains f.source.id = true := by simp [hf]
      simp_all
      omega
    · have : (id :: seen).contains f.source.id = seen.contains f.source.id := by
        simp [hf]
      simp only [List.filter_cons, this, beq_eq_false_iff_ne.2 hf] at ih ⊢
      split
      · simp_all
        omega
      · simp_all

/-- The seen ids and all that the waiting ids lead to. -/
def search (d : Diagram) (waiting seen : List String) : List String :=
  match waiting with
  | [] => seen
  | id :: rest =>
    if h : seen.contains id then d.search rest seen
    else
      have := d.length_unfollowed_cons (eq_false_of_ne_true h)
      d.search (d.targetIds id ++ rest) (id :: seen)
termination_by waiting.length + (d.unfollowed seen).length
decreasing_by all_goals simp_all <;> omega

/-- The descendants of a node in a directed graph, which are all nodes that a path leads to, and the
node itself. -/
def reachable (d : Diagram) (id : String) : List String :=
  d.search [id] []

/-- Reachability is asked of flow nodes only. -/
def reachableFrom? (d : Diagram) (e : Element) : Option (List String) :=
  if d.isFlowNode e.id then some (d.reachable e.id) else none

end ProcessDiagram.Diagram
