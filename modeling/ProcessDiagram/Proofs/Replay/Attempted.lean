import ProcessDiagram.Proofs.Simulation.Formed
import ProcessDiagram.Proofs.Simulation.Refused
import ProcessDiagram.Replay.Basic

/-!
One round of triggers. Each is carried out or refused, and what is refused changes nothing. Main
statement: `attempted_of_carryOutAll`, by which a round that goes through is one trigger after the
other.
-/
namespace ProcessDiagram

namespace Simulation

variable {s : Simulation} {id : String} {i : ScopeId}

theorem mem_of_waitingScope? (waiting : s.waitingScope? id = some i) {x : Scope}
    (hx : s.scopes[i]? = some x) : x.element.id = id := by
  obtain ⟨y, hy, chosen⟩ := Scopes.mem_idsWhere.mp (List.mem_of_head? waiting)
  simp only [Bool.and_eq_true, beq_iff_eq] at chosen
  rw [Option.some.inj (hx.symm.trans hy)]
  exact chosen.1.1.2

theorem isRefusal_signalAndRun {d : Diagram} {c : ConfigStore} {bound : Nat}
    {error : SimulationError} (waiting : s.waitingScope? id = some i)
    (failed : (signalAndRun d c bound s i).2 = .error error) : error.isRefusal = false := by
  obtain ⟨x, hx, chosen⟩ := Scopes.mem_idsWhere.mp (List.mem_of_head? waiting)
  simp only [Bool.and_eq_true, Bool.not_eq_true'] at chosen
  obtain ⟨⟨⟨live, _⟩, _⟩, pending⟩ := chosen
  have goes : ¬ (x.destroyed ∨ !x.pending) := by simp [live, pending]
  rw [signalAndRun, signal, hx] at failed
  simp only [if_neg goes] at failed
  exact isRefusal_settle failed

end Simulation

/-- The plan with another bound on the tasks of an operation. -/
def ReplayPlan.within (p : ReplayPlan) (bound : Nat) : ReplayPlan :=
  { p with bound }

@[simp] theorem ReplayPlan.within_diagram (p : ReplayPlan) (bound : Nat) :
    (p.within bound).diagram = p.diagram := rfl

@[simp] theorem ReplayPlan.within_bound (p : ReplayPlan) (bound : Nat) :
    (p.within bound).bound = bound := rfl

namespace Replay

open Simulation

variable {p : ReplayPlan} {s s' s₁ : Session} {t : Trigger} {triggers rest done : List Trigger}
  {refused : List (Trigger × TriggerFailure)}

theorem carryOut_cases (p : ReplayPlan) (s : Session) (t : Trigger) :
    (∃ i, s.simulation.waitingScope? t.element.id = some i ∧
      ∀ bound, carryOut (p.within bound) s t = s.signal p.diagram bound i) ∨
    ∃ result : Except SimulationError Unit,
      (∀ error, result = .error error → ∃ reason, error = .refused ⟨t.element.id, reason⟩) ∧
        ∀ bound, (carryOut (p.within bound) s t).value = (s, result) := by
  have done : ∀ error, (.ok () : Except SimulationError Unit) = .error error →
      ∃ reason, error = .refused ⟨t.element.id, reason⟩ :=
    fun _ failed => by cases failed
  have refused : ∀ reason : TriggerReason, ∀ error,
      (.error (.refused ⟨t.element.id, reason⟩) : Except SimulationError Unit) = .error error →
        ∃ reason, error = .refused ⟨t.element.id, reason⟩ :=
    fun reason _ same => ⟨reason, (Except.error.inj same).symm⟩
  simp only [carryOut]
  cases s.simulation.waitingScope? t.element.id with
  | none =>
      right
      cases t.action with
      | complete =>
          simp only
          split
          · exact ⟨_, done, fun _ => rfl⟩
          · exact ⟨_, refused _, fun _ => rfl⟩
      | activate =>
          simp only
          split
          · exact ⟨_, refused _, fun _ => rfl⟩
          · split
            · exact ⟨_, refused _, fun _ => rfl⟩
            · exact ⟨_, done, fun _ => rfl⟩
  | some i =>
      cases t.action with
      | complete => exact .inl ⟨i, rfl, fun _ => rfl⟩
      | activate =>
          simp only
          split
          · exact .inl ⟨i, rfl, fun _ => rfl⟩
          · exact .inr ⟨_, done, fun _ => rfl⟩

/-- A trigger that is refused changes nothing, and the refusal names its element. -/
theorem carryOut_of_refused {failure : TriggerFailure}
    (failed : (carryOut p s t).value.2 = .error (.refused failure)) :
    (carryOut p s t).value = (s, .error (.refused failure)) ∧ failure.element = t.element.id := by
  obtain ⟨i, waiting, same⟩ | ⟨result, named, same⟩ := carryOut_cases p s t
  · have signalled : carryOut p s t = s.signal p.diagram p.bound i := same p.bound
    rw [signalled] at failed
    cases isRefusal_signalAndRun waiting failed
  · have still : (carryOut p s t).value = (s, result) := same p.bound
    rw [still] at failed ⊢
    obtain rfl : result = .error (.refused failure) := failed
    obtain ⟨reason, named⟩ := named _ rfl
    cases named
    exact ⟨rfl, rfl⟩

/-! ## One round -/

/-- The triggers of a round that succeed, in turn. -/
def succeeded (p : ReplayPlan) (s : Session) : List Trigger → List Trigger
  | [] => []
  | t :: rest =>
    match (carryOut p s t).value with
    | (s', .ok _) => t :: succeeded p s' rest
    | (s', .error _) => succeeded p s' rest

/-- A round that goes through, trigger by trigger. -/
inductive Attempted (p : ReplayPlan) : Session → List Trigger → Session → List Trigger →
    List (Trigger × TriggerFailure) → Prop
  | nil {s : Session} : Attempted p s [] s [] []
  | succeeds {s s₁ s' : Session} {t : Trigger} {rest done : List Trigger}
      {refused : List (Trigger × TriggerFailure)} : (carryOut p s t).value = (s₁, .ok ()) →
      Attempted p s₁ rest s' done refused → Attempted p s (t :: rest) s' (t :: done) refused
  | refuses {s s' : Session} {t : Trigger} {rest done : List Trigger} {failure : TriggerFailure}
      {refused : List (Trigger × TriggerFailure)} :
      (carryOut p s t).value = (s, .error (.refused failure)) →
      failure.element = t.element.id → Attempted p s rest s' done refused →
      Attempted p s (t :: rest) s' done ((t, failure) :: refused)

theorem attempted_of_carryOutAll (carried : (carryOutAll p s triggers).value = (s', .ok refused)) :
    Attempted p s triggers s' (succeeded p s triggers) refused := by
  induction triggers generalizing s refused with
  | nil =>
      cases carried
      exact .nil
  | cons t rest ih =>
      have kept := fun failure => @carryOut_of_refused p s t failure
      simp only [carryOutAll, Logged.value_bind] at carried
      rw [succeeded]
      cases first : (carryOut p s t).value with
      | mk s₁ result =>
          rw [first] at carried kept
          cases result with
          | ok _ => exact .succeeds first (ih carried)
          | error e =>
              cases e with
              | refused failure =>
                  obtain ⟨same, named⟩ := kept failure rfl
                  cases same
                  simp only [Logged.value_bind, Logged.value_pure] at carried ⊢
                  cases later : (carryOutAll p s rest).value with
                  | mk s₂ result =>
                      rw [later] at carried
                      cases result with
                      | error e => cases carried
                      | ok others =>
                          cases carried
                          exact .refuses first named (ih later)
              | unfinished | unknown | noContainer | orphanJoin => cases carried

theorem carryOutAll_of_ok (carried : (carryOut p s t).value = (s₁, .ok ())) :
    (carryOutAll p s (t :: rest)).value = (carryOutAll p s₁ rest).value := by
  simp only [carryOutAll, Logged.value_bind, carried]

theorem carryOutAll_of_refused {failure : TriggerFailure}
    (first : (carryOut p s t).value = (s, .error (.refused failure)))
    (later : (carryOutAll p s rest).value = (s', .ok refused)) :
    (carryOutAll p s (t :: rest)).value = (s', .ok ((t, failure) :: refused)) := by
  simp only [carryOutAll, Logged.value_bind, first, later]
  rfl

namespace Attempted

theorem carried (round : Attempted p s triggers s' done refused) :
    (carryOutAll p s triggers).value = (s', .ok refused) := by
  induction round with
  | nil => rfl
  | succeeds first _ ih => rw [carryOutAll_of_ok first, ih]
  | refuses first _ _ ih => exact carryOutAll_of_refused first ih

theorem head (round : Attempted p s (t :: rest) s' done refused) :
    (carryOut p s t).value.2 ≠ .error .unfinished ∧
      ∃ others, (carryOutAll p (carryOut p s t).value.1 rest).value = (s', .ok others) := by
  cases round with
  | succeeds first later =>
      rw [first]
      exact ⟨by simp, _, later.carried⟩
  | refuses first _ later =>
      rw [first]
      exact ⟨by simp, _, later.carried⟩

/-- Alone, the triggers that succeed do the same and all succeed. -/
theorem alone (round : Attempted p s triggers s' done refused) :
    (carryOutAll p s done).value = (s', .ok []) := by
  induction round with
  | nil => rfl
  | succeeds first _ ih => rw [carryOutAll_of_ok first, ih]
  | refuses _ _ _ ih => exact ih

theorem perm (round : Attempted p s triggers s' done refused) :
    (done ++ refused.map (·.1)).Perm triggers := by
  induction round with
  | nil => exact .refl _
  | succeeds _ _ ih => exact ih.cons _
  | refuses _ _ _ ih => exact List.perm_middle.trans (ih.cons _)

theorem sublist (round : Attempted p s triggers s' done refused) :
    (refused.map (·.1)).Sublist triggers := by
  induction round with
  | nil => exact .refl _
  | succeeds _ _ ih => exact ih.cons _
  | refuses _ _ _ ih => exact ih.cons_cons _

theorem named (round : Attempted p s triggers s' done refused) :
    ∀ entry ∈ refused, entry.2.element = entry.1.element.id := by
  induction round with
  | nil => exact List.forall_mem_nil _
  | succeeds _ _ ih => exact ih
  | refuses _ own _ ih => exact List.forall_mem_cons.mpr ⟨own, ih⟩

/-- Where none succeeds, everything is as it was. -/
theorem stuck (round : Attempted p s triggers s' [] refused) :
    s' = s ∧ refused.map (·.1) = triggers := by
  generalize none : ([] : List Trigger) = done at round
  induction round with
  | nil => exact ⟨rfl, rfl⟩
  | succeeds => cases none
  | refuses _ _ _ ih =>
      obtain ⟨same, all⟩ := ih none
      exact ⟨same, congrArg _ all⟩

end Attempted

end Replay
end ProcessDiagram
