import ProcessDiagram.Proofs.Simulation.Owed
import ProcessDiagram.Proofs.Simulation.Refused

/-!
Every call comes to an end where every cycle waits: the tasks of a run are paid out of what is owed
when it begins, whatever branches are taken, forked and joined.

Main statement: `Simulation.Reached.halts`.
-/
namespace ProcessDiagram
namespace Simulation

variable {d : Diagram} {c : ConfigStore} {w : Element → Nat} {s s' : Simulation} {α : Type}

theorem Grounded.take {t : Task} {rest : List Task} (h : s.Grounded)
    (agenda : s.agenda = t :: rest) : Grounded { s with agenda := rest } := by
  refine ⟨fun t' ht => h.tasks t' ?_, h.parents⟩
  rw [agenda]
  exact List.mem_cons_of_mem t ht

theorem owed_of_cons {t : Task} {rest : List Task} (agenda : s.agenda = t :: rest) :
    owed d w s
      = t.price d w s.scopes.elements + owed d w { s with agenda := rest } := by
  rw [owed, owed, agenda, List.map_cons, List.sum_cons, Nat.add_assoc]

theorem grounded_drain (bound : Nat) (h : s.Grounded) : (drain d c bound s).1.Grounded := by
  induction bound generalizing s with
  | zero =>
      rw [drain]
      split <;> exact h
  | succ bound ih =>
      rw [drain]
      split
      next => exact h
      next t rest agenda =>
          split
          next s' run =>
              obtain ⟨_, spends, _⟩ := spends_runTask (w := fun _ => 0) (h.take agenda) run
              exact ih spends.grounded
          next => exact ⟨List.forall_mem_nil _, h.parents⟩

/-- A run comes to its end with no more tasks than are owed. -/
theorem drain_ends (sufficient : d.Sufficient c w) (h : s.Grounded) :
    ∃ t error, t.agenda = [] ∧ error ≠ some .unfinished ∧
      ∀ bound ≥ owed d w s, drain d c bound s = (t, error) := by
  induction size : owed d w s using Nat.strongRecOn generalizing s with
  | _ n ih =>
      cases agenda : s.agenda with
      | nil => exact ⟨s, none, agenda, nofun, fun bound _ => drain_of_empty agenda bound⟩
      | cons t rest =>
          have whole := owed_of_cons (d := d) (w := w) agenda
          have positive := sufficient.price_pos s.scopes.elements t
          cases run : runTask d c { s with agenda := rest } t with
          | error error =>
              refine ⟨{ s with agenda := [] }, some error, rfl, ?_, ?_⟩
              · obtain ⟨_, rfl⟩ := runTask_error run
                nofun
              · intro bound enough
                obtain ⟨more, rfl⟩ := Nat.exists_eq_add_one_of_ne_zero (n := bound) (by omega)
                simp only [drain, agenda, run]
          | ok s' =>
              obtain ⟨paid, spends, less⟩ := spends_runTask (w := w) (h.take agenda) run
              have fewer := spends.owed_le
              have cheap : paid < t.price d w s.scopes.elements := less sufficient
              obtain ⟨final, error, drained, ended, same⟩ :=
                ih (owed d w s') (by omega) spends.grounded rfl
              refine ⟨final, error, drained, ended, ?_⟩
              intro bound enough
              obtain ⟨more, rfl⟩ := Nat.exists_eq_add_one_of_ne_zero (n := bound) (by omega)
              rw [drain_of_cons agenda run]
              exact same more (by omega)

/-- With tasks enough, a call comes to an end and leaves nothing on the agenda; that is always the
same end. -/
def Ends (call : Nat → Simulation × Except SimulationError α) : Prop :=
  ∃ limit t result, t.agenda = [] ∧ result ≠ .error .unfinished ∧
    ∀ bound ≥ limit, call bound = (t, result)

/-- A call is refused at once, or puts a task on the agenda and runs it. -/
inductive Launched (d : Diagram) (c : ConfigStore) (s : Simulation)
    (call : Nat → Simulation × Except SimulationError α) : Prop
  | refused (error : SimulationError) : error ≠ .unfinished →
      (∀ bound, call bound = (s, .error error)) → Launched d c s call
  | running (t : Simulation) (value : α) : t.Grounded →
      (∀ bound, call bound = settle d c bound t value) → Launched d c s call

namespace Launched

variable {call : Nat → Simulation × Except SimulationError α}

theorem grounded (launched : Launched d c s call) (h : s.Grounded) (bound : Nat) :
    (call bound).1.Grounded := by
  cases launched with
  | refused _ _ same => exact same bound ▸ h
  | running _ _ ready same =>
      rw [same bound, fst_settle]
      exact grounded_drain bound ready

theorem ends (launched : Launched d c s call) (waits : d.CyclesWait c) (drained : s.agenda = []) :
    Ends call := by
  cases launched with
  | refused error other same =>
      exact ⟨0, s, .error error, drained, fun h => other (Except.error.inj h),
        fun bound _ => same bound⟩
  | running t value ready same =>
      obtain ⟨final, error, emptied, ended, run⟩ :=
        drain_ends (Diagram.sufficient_effort waits) ready
      cases error with
      | none =>
          refine ⟨owed d (Diagram.effort waits) t, final, .ok value, emptied, nofun, ?_⟩
          intro bound enough
          simp only [same bound, settle, run bound enough]
      | some error =>
          refine ⟨owed d (Diagram.effort waits) t, final, .error error, emptied, ?_, ?_⟩
          · intro unfinished
            exact ended (congrArg some (Except.error.inj unfinished))
          · intro bound enough
            simp only [same bound, settle, run bound enough]

end Launched

theorem Grounded.create (h : s.Grounded) (e : Element) : (s.create e none).Grounded :=
  h.grow rfl (List.append_nil _).symm nofun nofun

theorem Grounded.openContainer {container e : Element} {p : ScopeId} (h : s.Grounded)
    (opened : s.openContainer container e = .ok (s', p)) :
    s'.Grounded ∧ ∃ x, s'.scopes[p]? = some x := by
  rw [Simulation.openContainer] at opened
  split at opened
  · split at opened
    next first others found =>
        cases opened
        have inside : p ∈ s.scopes.ofElementIn container.id .entered :=
          found ▸ List.mem_cons_self
        obtain ⟨x, hx, _⟩ := Scopes.mem_idsWhere.mp inside
        exact ⟨h, x, hx⟩
    next => cases opened
  · cases opened
    exact ⟨h.create container, _, Scopes.getElem?_append_new _ _⟩

theorem Grounded.signal {i : ScopeId} (h : s.Grounded) (resumed : s.signal i = .ok s') :
    s'.Grounded := by
  cases hx : s.scopes[i]? with
  | none =>
      rw [Simulation.signal, hx] at resumed
      cases resumed
      exact h
  | some x =>
      by_cases refused : x.destroyed ∨ !x.pending
      · rw [Simulation.signal, hx] at resumed
        simp only [if_pos refused] at resumed
        cases resumed
      · rw [not_or] at refused
        obtain ⟨t, same, effect⟩ :=
          Effect.signal hx (by simpa using refused.1) (by simpa using refused.2)
        cases same.symm.trans resumed
        apply h.modify effect fun _ => rfl
        intro t ht
        rw [List.mem_singleton.mp ht]
        exact (List.getElem?_eq_some_iff.mp hx).1

theorem launched_signal (h : s.Grounded) (i : ScopeId) :
    Launched d c s fun bound => signalAndRun d c bound s i := by
  cases resumed : s.signal i with
  | error failure =>
      apply Launched.refused (.refused failure) nofun
      intro bound
      simp only [signalAndRun, resumed]
  | ok s' =>
      apply Launched.running s' () (h.signal resumed)
      intro bound
      simp only [signalAndRun, resumed]

theorem openContainer_error {container e : Element} {error : SimulationError}
    (failed : s.openContainer container e = .error error) : error ≠ .unfinished := by
  rw [openContainer] at failed
  repeat' split at failed
  all_goals cases failed
  simp

theorem launched_start (h : s.Grounded) (e : Option Element) :
    Launched d c s fun bound => start d c bound s e := by
  cases chosen : (e.map Except.ok).getD (rootStart d) with
  | error error =>
      refine .refused error ?_ fun bound => by simp only [start, chosen]
      cases e with
      | some e => cases chosen
      | none =>
          rw [rootStart_error chosen]
          simp
  | ok first =>
      cases around : first.parent.bind d.find? with
      | none =>
          exact .refused (.noContainer first.id) (by simp) fun bound => by
            simp only [start, chosen, around]
      | some container =>
          cases opened : s.openContainer container first with
          | error error =>
              exact .refused error (openContainer_error opened) fun bound => by
                simp only [start, chosen, around, opened]
          | ok inside =>
              obtain ⟨s', p⟩ := inside
              obtain ⟨ready, x, hx⟩ := h.openContainer opened
              have noted : (s'.note (.started first.id container.id)).Grounded :=
                ⟨ready.tasks, ready.parents⟩
              have entered := (Spends.enterInside (d := d) (w := fun _ => 0) (e := first)
                noted hx).grounded
              exact .running _ s'.scopes.length entered fun bound => by
                simp only [start, chosen, around, opened]
                rfl

theorem settle_signal (bound : Nat) (t : Simulation) (i : ScopeId) :
    (match settle d c bound t () with
      | (t, .ok _) => (t, .ok i)
      | (t, .error error) => (t, .error error)) = settle d c bound t i := by
  rw [settle, settle]
  cases drain d c bound t with
  | mk final error => cases error <;> rfl

theorem launched_trigger (h : s.Grounded) (id : String) :
    Launched d c s fun bound => trigger d c bound s id := by
  cases found : d.find? id with
  | none =>
      exact .refused (.unknown (.ofList [id])) (by simp) fun bound => by simp only [trigger, found]
  | some e =>
      cases waiting : s.waitingScope? id with
      | some i =>
          cases resumed : s.signal i with
          | error failure =>
              exact .refused (.refused failure) (by simp) fun bound => by
                simp only [trigger, found, waiting, signalAndRun, resumed]
          | ok s' =>
              exact .running s' i (h.signal resumed) fun bound => by
                simp only [trigger, found, waiting, signalAndRun, resumed]
                exact settle_signal bound s' i
      | none =>
          by_cases kind : e.kind = .startEvent
          · have same : (fun bound => trigger d c bound s id)
                = fun bound => start d c bound s (some e) := by
              funext bound
              simp only [trigger, found, waiting, if_pos kind]
            exact same ▸ launched_start h (some e)
          · exact .refused (.refused ⟨id, .noToken⟩) (by simp) fun bound => by
              simp only [trigger, found, waiting, if_neg kind]

theorem Reached.grounded (h : Reached d c s) : s.Grounded ∧ s.agenda = [] := by
  induction h with
  | empty c => exact ⟨⟨nofun, nofun⟩, rfl⟩
  | configure _ _ ih => exact ih
  | start _ _ drained ih => exact ⟨(launched_start ih.1 _).grounded ih.1 _, drained⟩
  | trigger _ drained ih => exact ⟨(launched_trigger ih.1 _).grounded ih.1 _, drained⟩
  | signal _ _ drained ih => exact ⟨(launched_signal ih.1 _).grounded ih.1 _, drained⟩
  | reset _ _ => exact ⟨⟨nofun, nofun⟩, rfl⟩

/-- Where every cycle waits, every call on a drained simulation runs only finitely many tasks. -/
theorem Reached.halts (waits : d.CyclesWait c) (h : Reached d c s) :
    (∀ e : Option Element, Ends fun bound => s.start d c bound e) ∧
      (∀ id : String, Ends fun bound => s.trigger d c bound id) ∧
      ∀ i : ScopeId, Ends fun bound => s.signalAndRun d c bound i := by
  obtain ⟨grounded, drained⟩ := h.grounded
  exact ⟨fun e => (launched_start grounded e).ends waits drained,
    fun id => (launched_trigger grounded id).ends waits drained,
    fun i => (launched_signal grounded i).ends waits drained⟩

end Simulation

namespace Diagram

/-- A task that can be sent back to be done once more. -/
def rework : Diagram :=
  let start := forkNode "s" .startEvent
  let join := forkNode "j" .exclusiveGateway
  let task := forkNode "a" .task
  let split := forkNode "g" .exclusiveGateway
  let done := forkNode "e" .endEvent
  ⟨⟨"p", .process, "", none, .zero⟩, [start, join, task, split, done],
    [⟨"Flow_1", start, join⟩, ⟨"Flow_2", join, task⟩, ⟨"Flow_3", task, split⟩,
      ⟨"Flow_4", split, join⟩, ⟨"Flow_5", split, done⟩]⟩

theorem built_rework : rework.Built :=
  built_of_grow rfl (by decide +kernel)

/-- The task waits each time, and the token is sent back. -/
def rework.config : ConfigStore :=
  ⟨[("a", ⟨true, false, none⟩),
    ("g", ⟨false, false, some ⟨"Flow_4", forkNode "g" .exclusiveGateway,
      forkNode "j" .exclusiveGateway⟩⟩)]⟩

theorem cyclesWait_rework : rework.CyclesWait rework.config := by
  apply cyclesWait_of_rank built_rework.consistent fun id => ["e", "a", "j", "g", "s"].idxOf id
  decide +kernel

end Diagram

namespace Simulation

open Diagram

/-- The token has come to the task. -/
def reworking : Simulation :=
  (empty.start rework rework.config 20 none).1

theorem reached_reworking : Reached rework rework.config reworking :=
  .start (.empty _) nofun (by decide +kernel)

theorem halts_rework :
    (∀ e : Option Element, Ends fun bound => reworking.start rework rework.config bound e) ∧
      (∀ id : String, Ends fun bound => reworking.trigger rework rework.config bound id) ∧
      ∀ i : ScopeId, Ends fun bound => reworking.signalAndRun rework rework.config bound i :=
  reached_reworking.halts cyclesWait_rework

/-- Signalled, it goes round and waits at the task once more. -/
example : (reworking.trigger rework rework.config 20 "a").1.waitingScope? "a" = some 6 := by
  decide +kernel

end Simulation
end ProcessDiagram
