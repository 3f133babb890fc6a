import ProcessDiagram.Proofs.Replay.Rounds

/-!
Triggers that are tried again. What is refused changes nothing, so only the triggers that succeed
make a difference, and a round in which none of them does is the same however often it is repeated.
Main statement: `attempt_saturates`.
-/
namespace ProcessDiagram

namespace Replay

open Simulation

variable {p : ReplayPlan} {r : Replay} {s s' s₁ : Session} {t : Trigger}
  {triggers rest done : List Trigger} {refused left : List (Trigger × TriggerFailure)}

/-! ## All rounds -/

/-- The triggers that succeed in a round and in so many more of those it refuses, in turn. -/
def successes (p : ReplayPlan) : Nat → Session → List Trigger → List Trigger
  | 0, s, triggers => succeeded p s triggers
  | more + 1, s, triggers =>
    match (carryOutAll p s triggers).value with
    | (s', .ok refused) => succeeded p s triggers ++ successes p more s' (refused.map (·.1))
    | (_, .error _) => succeeded p s triggers

theorem successes_nil (more : Nat) (s : Session) : successes p more s [] = [] := by
  induction more with
  | zero => rfl
  | succ more ih => simpa [successes, carryOutAll, succeeded] using ih

theorem carryOutAll_append {first : List Trigger}
    (carried : (carryOutAll p s first).value = (s₁, .ok []))
    (later : (carryOutAll p s₁ rest).value = (s', .ok [])) :
    (carryOutAll p s (first ++ rest)).value = (s', .ok []) := by
  induction first generalizing s with
  | nil =>
      cases carried
      exact later
  | cons t first ih =>
      have round := attempted_of_carryOutAll carried
      generalize succeeded p s (t :: first) = done at round
      cases round with
      | succeeds head _ =>
          rw [carryOutAll_of_ok head] at carried
          rw [List.cons_append, carryOutAll_of_ok head]
          exact ih carried

/-- What came of triggers that were tried again: those that succeeded do the same alone, and the
others are left. -/
structure Sorted (p : ReplayPlan) (s : Session) (triggers : List Trigger) (s' : Session)
    (done : List Trigger) (left : List (Trigger × TriggerFailure)) : Prop where
  alone : (carryOutAll p s done).value = (s', .ok [])
  perm : (done ++ left.map (·.1)).Perm triggers
  sublist : (left.map (·.1)).Sublist triggers
  named : ∀ entry ∈ left, entry.2.element = entry.1.element.id

theorem Attempted.sorted (round : Attempted p s triggers s' done refused) :
    Sorted p s triggers s' done refused :=
  ⟨round.alone, round.perm, round.sublist, round.named⟩

theorem Sorted.append {later : List Trigger} {s₁ : Session}
    (round : Sorted p s triggers s₁ done refused)
    (rest : Sorted p s₁ (refused.map (·.1)) s' later left) :
    Sorted p s triggers s' (done ++ later) left := by
  refine ⟨carryOutAll_append round.alone rest.alone, ?_, rest.sublist.trans round.sublist,
    rest.named⟩
  rw [List.append_assoc]
  exact (rest.perm.append_left done).trans round.perm

theorem Rounds.sorted {n : Nat} (rounds : Rounds p s n triggers s' left) :
    Sorted p s triggers s' (successes p (p.attempts - n) s triggers) left := by
  induction rounds with
  | @last s s' n triggers refused carried last =>
      have round := (attempted_of_carryOutAll carried).sorted
      cases more : p.attempts - n with
      | zero => exact round
      | succ more =>
          have none : refused = [] := last.resolve_right (by omega)
          subst none
          simpa [successes, carried, successes_nil] using round
  | @again s s₁ s' n triggers refused left carried _ more _ ih =>
      have round := (attempted_of_carryOutAll carried).sorted
      have one : p.attempts - n = p.attempts - (n + 1) + 1 := by omega
      rw [one]
      simpa only [successes, carried] using round.append ih

/-- The triggers that are left are those that never succeeded, in their order. -/
theorem Sorted.left_eq (sorted : Sorted p s triggers s' done left) (distinct : triggers.Nodup) :
    left.map (·.1) = triggers.filter (· ∉ done) := by
  have apart := List.nodup_append.mp (sorted.perm.nodup_iff.mpr distinct)
  have unmet : (left.map (·.1)).filter (· ∉ done) = left.map (·.1) := by
    rw [List.filter_eq_self]
    intro t given
    exact decide_eq_true fun met => apart.2.2 t met t given rfl
  have within := sorted.sublist.filter (· ∉ done)
  have counted := (sorted.perm.filter (· ∉ done)).length_eq
  have none : done.filter (· ∉ done) = [] := by simp
  rw [List.filter_append, none, List.nil_append] at counted
  rw [← unmet]
  exact within.eq_of_length counted

/-! ## What is recorded -/

/-- An element is left with a failure of its own. -/
theorem lastFailure?_eq_some {id : String} {failure : TriggerFailure}
    (last : lastFailure? refused id = some failure) :
    ∃ t : Trigger, (t, failure) ∈ refused ∧ t.element.id = id := by
  rw [lastFailure?, Option.map_eq_some_iff] at last
  obtain ⟨⟨t, _⟩, found, rfl⟩ := last
  exact ⟨t, List.mem_reverse.mp (List.mem_of_find?_eq_some found), by simpa using List.find?_some found⟩

theorem map_element_settled (named : ∀ entry ∈ refused, entry.2.element = entry.1.element.id) :
    ((settled refused).map (·.2)).map (·.element) = refused.map (·.1.element.id) := by
  rw [settled, List.map_map, List.map_map]
  apply List.map_congr_left
  intro entry there
  simp only [Function.comp_apply]
  cases last : lastFailure? refused entry.1.element.id with
  | none => exact named entry there
  | some failure =>
      obtain ⟨t, recorded, own⟩ := lastFailure?_eq_some last
      exact (named _ recorded).trans own

/-! ## Attempts -/

variable {q : ReplayPlan} {step n : Nat}

/-- The step is over, and what is left is recorded as failed. -/
def concluded (r : Replay) (step : Nat) (s : Session) (failures : List TriggerFailure) :
    Replay × Except SimulationError Answer :=
  ({ r with
      session := s
      index := step + 1
      inFlight := false
      failures := r.failures ++ failures },
    .ok (.stepped true))

theorem ending_attempt_of_last (carried : (carryOutAll p r.session triggers).value = (s, .ok left))
    (last : left = [] ∨ p.attempts ≤ n) :
    ending p (attempt p r .advance step n triggers).value
      = r.concluded step s ((settled left).map (·.2)) := by
  rw [attempt_of_last carried last]
  exact ending_finished _ _

theorem ending_attempt_of_again (carried : (carryOutAll p r.session triggers).value = (s, .ok left))
    (some : left ≠ []) (more : n < p.attempts) :
    ending p (attempt p r .advance step n triggers).value = ending p
      (attempt p { r with session := s } .advance step (n + 1) (left.map (·.1))).value := by
  rw [attempt_of_again carried some more, ending_asleep, resume]

/-- Once nothing succeeds, all that is left fails, however often it is tried. -/
theorem ending_attempt_of_stuck
    (carried : (carryOutAll p r.session triggers).value = (r.session, .ok left))
    (all : left.map (·.1) = triggers) :
    ending p (attempt p r .advance step n triggers).value
      = r.concluded step r.session ((settled left).map (·.2)) := by
  induction more : p.attempts - n generalizing n with
  | zero => exact ending_attempt_of_last carried (.inr (by omega))
  | succ more ih =>
      obtain ⟨some, again⟩ | last := again_or_last p left n
      · rw [ending_attempt_of_again carried some again, all]
        exact ih (by omega)
      · exact ending_attempt_of_last carried last

/-- With attempts enough for every trigger, their number makes no difference. -/
theorem ending_attempt_congr
    (alike : ∀ s triggers, (carryOutAll p s triggers).value = (carryOutAll q s triggers).value)
    (enough : n + triggers.length ≤ p.attempts + 1)
    (enough' : n + triggers.length ≤ q.attempts + 1) :
    ending p (attempt p r .advance step n triggers).value
      = ending q (attempt q r .advance step n triggers).value := by
  -- A round with a success leaves fewer triggers than attempts; one without is like all after it.
  induction size : triggers.length using Nat.strongRecOn generalizing r n triggers with
  | _ size ih =>
      cases carried : (carryOutAll p r.session triggers).value with
      | mk s result =>
          have carried' := (alike r.session triggers).symm.trans carried
          cases result with
          | error error =>
              rw [attempt_of_error carried, attempt_of_error carried', finish, ending_finished,
                ending_finished]
          | ok left =>
              have round := attempted_of_carryOutAll carried
              cases done : succeeded p r.session triggers with
              | nil =>
                  rw [done] at round
                  obtain ⟨rfl, all⟩ := round.stuck
                  rw [ending_attempt_of_stuck carried all, ending_attempt_of_stuck carried' all]
              | cons first others =>
                  have fewer := round.perm.length_eq
                  rw [done, List.length_append, List.length_cons, List.length_map] at fewer
                  by_cases none : left = []
                  · rw [ending_attempt_of_last carried (.inl none),
                      ending_attempt_of_last carried' (.inl none)]
                  · have some := List.length_pos_iff.mpr none
                    rw [ending_attempt_of_again carried none (by omega),
                      ending_attempt_of_again carried' none (by omega)]
                    apply ih (left.map (·.1)).length
                    all_goals simp only [List.length_map]
                    all_goals omega

end Replay

/-- The plan with another cap on the attempts at a trigger. -/
def ReplayPlan.trying (p : ReplayPlan) (cap : Int) : ReplayPlan :=
  { p with settings := { p.settings with triggerAttempts := cap } }

namespace Replay

open Simulation

variable {p : ReplayPlan} {r : Replay}

theorem carryOutAll_trying (cap : Int) (s : Session) (triggers : List Trigger) :
    carryOutAll (p.trying cap) s triggers = carryOutAll p s triggers := by
  induction triggers generalizing s with
  | nil => rfl
  | cons t rest ih =>
      have first : carryOut (p.trying cap) s t = carryOut p s t := rfl
      simp only [carryOutAll, first, ih]

/-- What comes of the triggers of a step: the session is as if only those had been carried out that
succeed, in the order in which they do, and each of the others is recorded as failed, in their own
order. What is recorded of it is the last failure of its element in the last round. -/
structure Retried (p : ReplayPlan) (r : Replay) (step : Nat) (triggers done : List Trigger) : Prop
    where
  once : done.Nodup
  among : done ⊆ triggers
  ended : ∃ s refused, Rounds p r.session 1 triggers s refused ∧
    (carryOutAll p r.session done).value = (s, .ok []) ∧
    refused.map (·.1) = triggers.filter (· ∉ done) ∧
    ((settled refused).map (·.2)).map (·.element)
      = (triggers.filter (· ∉ done)).map (·.element.id) ∧
    ending p (attempt p r .advance step 1 triggers).value
      = r.concluded step s ((settled refused).map (·.2))

/-- Triggers that fail leave no trace in the session, and trying them again more often than there
are triggers is in vain. -/
theorem attempt_saturates (built : p.diagram.Built) (contained : p.diagram.StartsContained)
    (reached : Reached p.diagram r.session.config r.session.simulation) (step : Nat)
    {triggers : List Trigger} (distinct : triggers.Nodup) :
    ((ending p (attempt p r .advance step 1 triggers).value).2 ≠ .error .unfinished →
      Retried p r step triggers (successes p (p.attempts - 1) r.session triggers)) ∧
    ∀ cap cap' : Int, triggers.length ≤ cap → triggers.length ≤ cap' →
      ending (p.trying cap) (attempt (p.trying cap) r .advance step 1 triggers).value
        = ending (p.trying cap') (attempt (p.trying cap') r .advance step 1 triggers).value := by
  constructor
  · intro finished
    have consistent := built.consistent
    have resting := Resting.of_reached built contained reached
    obtain late | ⟨s, left, rounds, same⟩ :=
      ending_attempt consistent resting .advance step 1 triggers
    · exact absurd late finished
    · have sorted := rounds.sorted
      have once := sorted.perm.nodup_iff.mpr distinct
      have others := sorted.left_eq distinct
      refine ⟨(List.nodup_append.mp once).1, ?_, s, left, rounds, sorted.alone, others, ?_, ?_⟩
      · exact fun t member => sorted.perm.subset (List.mem_append_left _ member)
      · rw [← others, map_element_settled sorted.named, List.map_map]
        rfl
      · rw [same]
        exact ending_finished _ _
  · intro cap cap' enough enough'
    apply ending_attempt_congr
    · intro s triggers
      rw [carryOutAll_trying, carryOutAll_trying]
    · simp only [ReplayPlan.attempts, ReplayPlan.trying]
      omega
    · simp only [ReplayPlan.attempts, ReplayPlan.trying]
      omega

/-- A token waits at the first task; the gateway behind it is set for the task on the left. -/
def reviewing : Replay :=
  let config : ConfigStore := ⟨[("t", ⟨true, false, none⟩), ("a", ⟨true, false, none⟩),
    ("g", ⟨false, true, Diagram.review.flows[2]?⟩)]⟩
  { reviewed.initial with
    session := ⟨config, (Simulation.empty.start .review config 100 none).1⟩, started := true }

/-- The tasks of the branch in the wrong order, and between them two triggers of the task on the other
branch. -/
def backwards : List Trigger :=
  [⟨Diagram.forkNode "a" .task, .complete⟩, ⟨Diagram.forkNode "b" .task, .complete⟩,
    ⟨Diagram.forkNode "t" .task, .complete⟩, ⟨Diagram.forkNode "b" .task, .activate⟩]

/-- The first trigger succeeds when it is tried again. Those of the other branch never do, and the
failure of the second is recorded for both. -/
theorem attempt_saturates_backwards :
    (∃ s, ending reviewed (attempt reviewed reviewing .advance 0 1 backwards).value
        = reviewing.concluded 0 s [⟨"b", .catchEventNotReached⟩, ⟨"b", .catchEventNotReached⟩]) ∧
      Retried reviewed reviewing 0 backwards
        [⟨Diagram.forkNode "t" .task, .complete⟩, ⟨Diagram.forkNode "a" .task, .complete⟩] ∧
      ending (reviewed.trying 4)
          (attempt (reviewed.trying 4) reviewing .advance 0 1 backwards).value
        = ending (reviewed.trying 1000)
          (attempt (reviewed.trying 1000) reviewing .advance 0 1 backwards).value := by
  have ended : ending reviewed (attempt reviewed reviewing .advance 0 1 backwards).value
      = reviewing.concluded 0
        (ending reviewed (attempt reviewed reviewing .advance 0 1 backwards).value).1.session
        [⟨"b", .catchEventNotReached⟩, ⟨"b", .catchEventNotReached⟩] := by decide +kernel
  have distinct : backwards.Nodup := by decide
  have saturates := attempt_saturates (p := reviewed) (r := reviewing) Diagram.built_review
    (by unfold Diagram.StartsContained; decide)
    (.start (.empty _) (by simp) (by decide +kernel)) 0 distinct
  exact ⟨⟨_, ended⟩, saturates.1 (by rw [ended]; nofun), saturates.2 4 1000 (by decide) (by decide)⟩

end Replay
end ProcessDiagram
