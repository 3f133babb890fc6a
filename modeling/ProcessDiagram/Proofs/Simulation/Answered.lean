import ProcessDiagram.Proofs.Simulation.Halting
import ProcessDiagram.Proofs.Simulation.Lineage

/-!
How operations are answered. One is turned away, or everything that comes onto the agenda is carried
out; only a token that comes without a parent to a gateway that would hold it ends the run, and what
is left on the agenda is dropped. Main statement: `Simulation.operations_answered`.
-/
namespace ProcessDiagram

/-- The errors that calls are meant to answer with. -/
def SimulationError.Declared (error : SimulationError) : Prop :=
  (∃ failure, error = .refused failure) ∨ ∃ elements, error = .unknown elements

namespace Simulation

variable {d : Diagram} {c : ConfigStore} {s s' : Simulation}

/-! ## Runs -/

/-- Tasks that are carried out one after the other, each as the first on the agenda, while all
tasks and parents are there. -/
inductive Steps (d : Diagram) (c : ConfigStore) : Simulation → Simulation → Prop
  | done {s : Simulation} : s.Grounded → Steps d c s s
  | task {s s' s'' : Simulation} {t : Task} {rest : List Task} : s.Grounded →
      s.agenda = t :: rest → runTask d c { s with agenda := rest } t = .ok s' → Steps d c s' s'' →
      Steps d c s s''

/-- The next task is that of a token that has come to a gateway that holds tokens, and has no
parent. -/
def Orphaned (d : Diagram) (s : Simulation) (gateway : String) : Prop :=
  ∃ i rest x, s.agenda = .enter i :: rest ∧ s.scopes[i]? = some x ∧ x.destroyed = false ∧
    x.parent = none ∧ d.HoldsAt x.element ∧ x.element.id = gateway

/-- A task fails when it is that of an orphaned token, and never otherwise. -/
theorem runTask_error_iff {t : Task} {rest : List Task} (agenda : s.agenda = t :: rest)
    {error : SimulationError} :
    runTask d c { s with agenda := rest } t = .error error ↔
      ∃ gateway, error = .orphanJoin gateway ∧ Orphaned d s gateway := by
  cases t with
  | enter i =>
      rw [runTask]
      simp only [Orphaned, agenda, List.cons.injEq, Task.enter.injEq]
      cases hx : s.scopes[i]? with
      | none => simp +contextual [hx]
      | some x =>
          simp only [onEnter_error_iff]
          constructor
          · rintro ⟨live, parent, holds, rfl⟩
            exact ⟨x.element.id, rfl, i, rest, x, ⟨rfl, rfl⟩, hx, live, parent, holds, rfl⟩
          · rintro ⟨gateway, rfl, j, others, y, ⟨rfl, rfl⟩, hy, live, parent, holds, rfl⟩
            cases hx.symm.trans hy
            exact ⟨live, parent, holds, rfl⟩
  | signal i | finishExit i =>
      rw [runTask]
      simp only [Orphaned, agenda, List.cons.injEq, reduceCtorEq, false_and, exists_false, and_false,
        iff_false]
      split <;> simp

theorem Steps.grounded {t : Simulation} (h : Steps d c s t) : t.Grounded := by
  induction h with
  | done grounded => exact grounded
  | task _ _ _ _ ih => exact ih

/-- How a run ends, if it does. -/
theorem drain_cases (bound : Nat) (h : s.Grounded) :
    (drain d c bound s).2 = some .unfinished ∨
      (∃ t, Steps d c s t ∧ t.agenda = [] ∧ drain d c bound s = (t, none)) ∨
      ∃ t gateway, Steps d c s t ∧ Orphaned d t gateway ∧
        drain d c bound s = ({ t with agenda := [] }, some (.orphanJoin gateway)) := by
  induction bound generalizing s with
  | zero =>
      cases agenda : s.agenda with
      | nil => exact .inr (.inl ⟨s, .done h, agenda, drain_of_empty agenda 0⟩)
      | cons t rest => exact .inl (by simp [drain, agenda])
  | succ bound ih =>
      cases agenda : s.agenda with
      | nil => exact .inr (.inl ⟨s, .done h, agenda, drain_of_empty agenda _⟩)
      | cons t rest =>
          cases run : runTask d c { s with agenda := rest } t with
          | error error =>
              obtain ⟨gateway, rfl, orphaned⟩ := (runTask_error_iff agenda).mp run
              exact .inr (.inr ⟨s, gateway, .done h, orphaned, by simp only [drain, agenda, run]⟩)
          | ok s' =>
              obtain ⟨_, spends, _⟩ := spends_runTask (w := fun _ => 0) (h.take agenda) run
              rw [drain_of_cons agenda run]
              obtain unfinished | ⟨t, steps, rest⟩ | ⟨t, gateway, steps, rest⟩ := ih spends.grounded
              · exact .inl unfinished
              · exact .inr (.inl ⟨t, .task h agenda run steps, rest⟩)
              · exact .inr (.inr ⟨t, gateway, .task h agenda run steps, rest⟩)

/-! ## Parentless scopes -/

theorem Rooted.steps (consistent : d.Consistent) {t : Simulation} (h : Rooted d s)
    (steps : Steps d c s t) : Rooted d t := by
  induction steps with
  | done _ => exact h
  | @task s _ _ _ rest _ _ run _ ih =>
      have taken : Rooted d { s with agenda := rest } := h
      exact ih (taken.runTask consistent run)

theorem Rooted.not_orphaned {gateway : String} (h : Rooted d s) : ¬ Orphaned d s gateway := by
  rintro ⟨i, rest, x, -, hx, -, root, holds, -⟩
  exact (h.get hx root).not_holdsAt holds

/-! ## Calls -/

/-- What can be asked of a simulation from outside. -/
inductive Operation
  | start (e : Option Element)
  | trigger (id : String)
  | signal (i : ScopeId)
  | enter (e : Element) (parent : Option ScopeId)

def forget {α : Type} (outcome : Simulation × Except SimulationError α) :
    Simulation × Except SimulationError Unit :=
  (outcome.1, outcome.2.map fun _ => ())

theorem forget_settle {α : Type} (bound : Nat) (t : Simulation) (value : α) :
    forget (settle d c bound t value) = settle d c bound t () := by
  rw [settle, settle]
  cases drain d c bound t with
  | mk t ended => cases ended <;> rfl

/-- A start up to the point where the token is on the agenda. -/
def placed (d : Diagram) (s : Simulation) (e : Option Element) : Except SimulationError Simulation :=
  match (e.map Except.ok).getD (rootStart d) with
  | .error error => .error error
  | .ok e =>
    match e.parent.bind d.find? with
    | none => .error (.noContainer e.id)
    | some container =>
      match s.openContainer container e with
      | .error error => .error error
      | .ok (s, parent) => .ok ((s.note (.started e.id container.id)).enter e (some parent))

theorem forget_start (bound : Nat) (e : Option Element) :
    forget (s.start d c bound e) = match placed d s e with
      | .error error => (s, .error error)
      | .ok t => settle d c bound t () := by
  rw [start, placed]
  cases (e.map Except.ok).getD (rootStart d) with
  | error error => rfl
  | ok e =>
      dsimp only
      cases e.parent.bind d.find? with
      | none => rfl
      | some container =>
          dsimp only
          cases s.openContainer container e with
          | error error => rfl
          | ok opened => exact forget_settle bound _ _

namespace Operation

/-- Carries an operation out; what it gives is of no account. -/
def run (d : Diagram) (c : ConfigStore) (bound : Nat) (s : Simulation) :
    Operation → Simulation × Except SimulationError Unit
  | start e => forget (s.start d c bound e)
  | trigger id => forget (s.trigger d c bound id)
  | signal i => s.signalAndRun d c bound i
  | enter e parent => forget (s.enterAndRun d c bound e parent)

/-- Starts are at start events, and tokens are put on flow nodes, with a running scope for their
parent or with none. -/
def Allowed (d : Diagram) (s : Simulation) : Operation → Prop
  | start e => ∀ x, e = some x → x ∈ d.nodes ∧ x.kind = .startEvent
  | trigger _ => True
  | signal i => i < s.scopes.length
  | enter e parent => e ∈ d.nodes ∧ e.kind ≠ .participant ∧ ∀ p, parent = some p →
      ∃ x, s.scopes[p]? = some x ∧ x.destroyed = false ∧ x.state = .entered

/-- The simulation with the first task of the operation on its agenda. -/
def launch (d : Diagram) (s : Simulation) : Operation → Except SimulationError Simulation
  | start e => placed d s e
  | trigger id =>
    match d.find? id with
    | none => .error (.unknown (.ofList [id]))
    | some e =>
      match s.waitingScope? id with
      | some i => (s.signal i).mapError .refused
      | none =>
        if e.kind = .startEvent then placed d s (some e) else .error (.refused ⟨id, .noToken⟩)
  | signal i => (s.signal i).mapError .refused
  | enter e parent => .ok (s.enter e parent)

theorem signalAndRun_eq (bound : Nat) (i : ScopeId) :
    s.signalAndRun d c bound i = match (s.signal i).mapError SimulationError.refused with
      | .error error => (s, .error error)
      | .ok t => settle d c bound t () := by
  rw [signalAndRun]
  cases s.signal i <;> rfl

theorem run_eq (op : Operation) (bound : Nat) :
    op.run d c bound s = match op.launch d s with
      | .error error => (s, .error error)
      | .ok t => settle d c bound t () := by
  cases op with
  | start e => exact forget_start bound e
  | signal i => exact signalAndRun_eq bound i
  | enter e parent => exact forget_settle bound _ _
  | trigger id =>
      rw [run, Simulation.trigger, launch]
      cases d.find? id with
      | none => rfl
      | some e =>
          dsimp only
          cases s.waitingScope? id with
          | some i =>
              dsimp only
              rw [signalAndRun_eq]
              cases s.signal i with
              | error failure => rfl
              | ok t =>
                  dsimp only [Except.mapError]
                  cases settle d c bound t () with
                  | mk t result => cases result <;> rfl
          | none =>
              dsimp only
              split
              · exact forget_start bound _
              · rfl

theorem declared_signal {i : ScopeId} {error : SimulationError}
    (failed : (s.signal i).mapError SimulationError.refused = .error error) : error.Declared := by
  cases resumed : s.signal i with
  | error failure =>
      rw [resumed] at failed
      cases failed
      exact .inl ⟨failure, rfl⟩
  | ok t =>
      rw [resumed] at failed
      cases failed

theorem declared_openContainer {container e : Element} {error : SimulationError}
    (failed : s.openContainer container e = .error error) : error.Declared := by
  rw [openContainer] at failed
  split at failed
  · split at failed
    · cases failed
    · cases failed
      exact .inl ⟨_, rfl⟩
  · cases failed

theorem declared_placed (built : d.Built) {e : Option Element} {error : SimulationError}
    (named : ∀ x, e = some x → x ∈ d.nodes ∧ x.kind = .startEvent)
    (failed : placed d s e = .error error) : error.Declared := by
  rw [placed] at failed
  split at failed
  next wrong =>
      cases failed
      cases e with
      | none => exact .inl ⟨_, rootStart_error wrong⟩
      | some e => cases wrong
  next first chosen =>
      obtain ⟨container, around⟩ :=
        built.exists_container first (startEvent_of_start named chosen).1
      simp only [around] at failed
      split at failed
      next refused =>
          cases failed
          exact declared_openContainer refused
      next => cases failed

theorem named_of_find? (consistent : d.Consistent) {id : String} {e : Element}
    (found : d.find? id = some e) (kind : e.kind = .startEvent) :
    ∀ x, some e = some x → x ∈ d.nodes ∧ x.kind = .startEvent := by
  rintro x ⟨⟩
  exact ⟨consistent.mem_of_find? found (by simp [kind]), kind⟩

/-- An operation that is turned away is turned away with an error that is meant for it. -/
theorem declared_launch (built : d.Built) {op : Operation} (allowed : op.Allowed d s)
    {error : SimulationError} (failed : op.launch d s = .error error) : error.Declared := by
  cases op with
  | start e => exact declared_placed built allowed failed
  | signal i => exact declared_signal failed
  | enter e parent => cases failed
  | trigger id =>
      rw [launch] at failed
      split at failed
      next =>
          cases failed
          exact .inr ⟨_, rfl⟩
      next e found =>
          split at failed
          next => exact declared_signal failed
          next =>
              split at failed
              next kind =>
                  exact declared_placed built (named_of_find? built.consistent found kind) failed
              next =>
                  cases failed
                  exact .inl ⟨_, rfl⟩

/-- What an operation does before its first task: a token is signalled, or put inside a scope that is
there, with a new root for it if need be; or it is put where it was asked for. -/
inductive Begun (d : Diagram) (s : Simulation) (op : Operation) : Simulation → Prop
  | signalled {i : ScopeId} {t : Simulation} : s.signal i = .ok t → Begun d s op t
  | started {first container : Element} {s' : Simulation} {p : ScopeId} :
      first ∈ d.nodes → first.kind = .startEvent → first.parent.bind d.find? = some container →
      s.openContainer container first = .ok (s', p) →
      Begun d s op ((s'.note (.started first.id container.id)).enter first (some p))
  | entered {e : Element} {parent : Option ScopeId} : op = .enter e parent →
      Begun d s op (s.enter e parent)

theorem signal_eq_ok {i : ScopeId} {t : Simulation} :
    (s.signal i).mapError SimulationError.refused = .ok t ↔ s.signal i = .ok t := by
  cases s.signal i <;> simp [Except.mapError]

theorem begun_placed {op : Operation} {e : Option Element} {t : Simulation}
    (named : ∀ x, e = some x → x ∈ d.nodes ∧ x.kind = .startEvent)
    (launched : placed d s e = .ok t) : Begun d s op t := by
  rw [placed] at launched
  split at launched
  next => cases launched
  next first chosen =>
      obtain ⟨node, kind⟩ := startEvent_of_start named chosen
      split at launched
      next => cases launched
      next container around =>
          split at launched
          next => cases launched
          next opened =>
              cases launched
              exact .started node kind around opened

theorem begun_launch (consistent : d.Consistent) {op : Operation} {t : Simulation}
    (allowed : op.Allowed d s) (launched : op.launch d s = .ok t) : Begun d s op t := by
  cases op with
  | start e => exact begun_placed allowed launched
  | signal i => exact .signalled (signal_eq_ok.mp launched)
  | enter e parent =>
      cases launched
      exact .entered rfl
  | trigger id =>
      rw [launch] at launched
      split at launched
      next => cases launched
      next e found =>
          split at launched
          next => exact .signalled (signal_eq_ok.mp launched)
          next =>
              split at launched
              next kind => exact begun_placed (named_of_find? consistent found kind) launched
              next => cases launched

theorem Begun.grounded {op : Operation} {t : Simulation} (begun : Begun d s op t)
    (allowed : op.Allowed d s) (h : s.Grounded) : t.Grounded := by
  cases begun with
  | signalled resumed => exact h.signal resumed
  | @started first container s' _ _ _ _ opened =>
      obtain ⟨ready, x, hx⟩ := h.openContainer opened
      have noted : (s'.note (.started first.id container.id)).Grounded :=
        ⟨ready.tasks, ready.parents⟩
      apply noted.enter
      rintro p ⟨⟩
      exact (List.getElem?_eq_some_iff.mp hx).1
  | entered same =>
      subst same
      apply h.enter
      intro p here
      obtain ⟨x, hx, _⟩ := allowed.2.2 p here
      exact (List.getElem?_eq_some_iff.mp hx).1

/-- A token that is put somewhere without a parent comes to no gateway that holds it. -/
def Sheltered (d : Diagram) (s : Simulation) (op : Operation) : Prop :=
  op.Allowed d s ∧ ∀ e, op = .enter e none → d.Harmless e

theorem Begun.rooted {op : Operation} {t : Simulation} (begun : Begun d s op t)
    (contained : d.StartsContained) (sheltered : op.Sheltered d s) (h : Rooted d s) :
    Rooted d t := by
  cases begun with
  | signalled resumed =>
      rw [Rooted, lineage_signal resumed]
      exact h
  | @started first container s' p node kind around opened =>
      have ready : Rooted d s' := by
        rw [openContainer] at opened
        split at opened
        next =>
            split at opened
            · cases opened
              exact h
            · cases opened
        next other =>
            cases opened
            apply h.append (lineage_create container none)
            obtain process | participant | subProcess := contained first node kind container around
            · simp [Diagram.Harmless, process]
            · simp [Diagram.Harmless, participant]
            · exact absurd subProcess other
      exact Rooted.append (s := s'.note _) ready (lineage_enter first (some p)) (by simp)
  | @entered e parent same =>
      apply h.append (lineage_enter e parent)
      rw [List.forall_mem_singleton]
      rintro rfl
      exact sheltered.2 e same

end Operation

/-- What can come of operations one after the other, each with its own configuration and run to its
end, whether they fail or not. -/
inductive Served (d : Diagram) (allowed : Simulation → Operation → Prop) : Simulation → Prop
  | empty : Served d allowed .empty
  | call {s : Simulation} {op : Operation} {c : ConfigStore} {bound : Nat} : Served d allowed s →
      allowed s op → (op.run d c bound s).2 ≠ .error .unfinished →
      Served d allowed (op.run d c bound s).1

/-- How an operation ends. It is turned away with everything left as it was; or everything that comes
onto the agenda is carried out; or a token without a parent comes to a gateway that would hold it, and
the rest of the agenda is dropped. -/
inductive Answered (d : Diagram) (c : ConfigStore) (s : Simulation) (op : Operation) :
    Simulation × Except SimulationError Unit → Prop
  | refused {error : SimulationError} : op.launch d s = .error error → error.Declared →
      Answered d c s op (s, .error error)
  | done {t u : Simulation} : op.launch d s = .ok t → Steps d c t u → u.agenda = [] →
      Answered d c s op (u, .ok ())
  | orphaned {t u : Simulation} {gateway : String} : op.launch d s = .ok t → Steps d c t u →
      Orphaned d u gateway →
      Answered d c s op ({ u with agenda := [] }, .error (.orphanJoin gateway))

theorem answered_run (built : d.Built) {op : Operation} (allowed : op.Allowed d s) (h : s.Grounded)
    {bound : Nat} (ended : (op.run d c bound s).2 ≠ .error .unfinished) :
    Answered d c s op (op.run d c bound s) := by
  rw [op.run_eq] at ended ⊢
  cases launched : op.launch d s with
  | error error => exact .refused launched (Operation.declared_launch built allowed launched)
  | ok t =>
      have ready := (Operation.begun_launch built.consistent allowed launched).grounded allowed h
      simp only [launched, settle] at ended ⊢
      obtain unfinished | ⟨u, steps, empty, run⟩ | ⟨u, gateway, steps, orphan, run⟩ :=
        drain_cases (d := d) (c := c) bound ready
      · cases run : drain d c bound t with
        | mk u error =>
            rw [run] at unfinished ended
            cases unfinished
            exact absurd rfl ended
      · rw [run]
        exact .done launched steps empty
      · rw [run]
        exact .orphaned launched steps orphan

theorem Answered.grounded {op : Operation} {outcome : Simulation × Except SimulationError Unit}
    (answered : Answered d c s op outcome) (h : s.Grounded) : outcome.1.Grounded := by
  cases answered with
  | refused _ _ => exact h
  | done _ steps _ => exact steps.grounded
  | orphaned _ steps _ => exact ⟨List.forall_mem_nil _, steps.grounded.parents⟩

theorem Answered.rooted (consistent : d.Consistent) (contained : d.StartsContained)
    {op : Operation} {outcome : Simulation × Except SimulationError Unit}
    (answered : Answered d c s op outcome) (sheltered : op.Sheltered d s) (h : Rooted d s) :
    Rooted d outcome.1 ∧
      (outcome.2 = .ok () ∨ ∃ error, error.Declared ∧ outcome = (s, .error error)) := by
  have ready {t : Simulation} (launched : op.launch d s = .ok t) : Rooted d t :=
    (Operation.begun_launch consistent sheltered.1 launched).rooted contained sheltered h
  cases answered with
  | refused _ declared => exact ⟨h, .inr ⟨_, declared, rfl⟩⟩
  | done launched steps _ => exact ⟨(ready launched).steps consistent steps, .inl rfl⟩
  | orphaned launched steps orphan =>
      exact absurd orphan ((ready launched).steps consistent steps).not_orphaned

theorem Served.grounded (built : d.Built) (served : Served d (Operation.Allowed d) s) :
    s.Grounded := by
  induction served with
  | empty => exact ⟨nofun, nofun⟩
  | call _ allowed ended ih => exact (answered_run built allowed ih ended).grounded ih

theorem Served.rooted (built : d.Built) (contained : d.StartsContained)
    (served : Served d (Operation.Sheltered d) s) : s.Grounded ∧ Rooted d s := by
  induction served with
  | empty => exact ⟨⟨nofun, nofun⟩, List.forall_mem_nil _⟩
  | call _ sheltered ended ih =>
      have answered := answered_run built sheltered.1 ih.1 ended
      exact ⟨answered.grounded ih.1,
        (answered.rooted built.consistent contained sheltered ih.2).1⟩

/-- Every operation that comes to an end is answered; none fails in any other way than at a gateway
that would hold a token without a parent. Where start events are contained and no token that could
come to such a gateway has been put somewhere without a parent, each operation goes through or is
turned away with an error that is meant for it. -/
theorem operations_answered (built : d.Built) :
    (∀ (s : Simulation) (op : Operation) (c : ConfigStore) (bound : Nat),
      Served d (Operation.Allowed d) s → op.Allowed d s →
        (op.run d c bound s).2 ≠ .error .unfinished → Answered d c s op (op.run d c bound s)) ∧
    (d.StartsContained → ∀ (s : Simulation) (op : Operation) (c : ConfigStore) (bound : Nat),
      Served d (Operation.Sheltered d) s → op.Sheltered d s →
        (op.run d c bound s).2 ≠ .error .unfinished → (op.run d c bound s).2 = .ok () ∨
          ∃ error, error.Declared ∧ op.run d c bound s = (s, .error error)) := by
  constructor
  · intro s op c bound served allowed ended
    exact answered_run built allowed (served.grounded built) ended
  · intro contained s op c bound served sheltered ended
    obtain ⟨grounded, rooted⟩ := served.rooted built contained
    have answered := answered_run built sheltered.1 grounded ended
    exact (answered.rooted built.consistent contained sheltered rooted).2

end Simulation

namespace Diagram

/-- Two ways from a task to a gateway that holds tokens, one of them by another task. -/
def forked : Diagram :=
  let first := forkNode "a" .task
  let second := forkNode "b" .task
  let join := forkNode "j" .parallelGateway
  ⟨⟨"p", .process, "", none, .zero⟩, [first, second, join],
    [⟨"Flow_1", first, join⟩, ⟨"Flow_2", first, second⟩, ⟨"Flow_3", second, join⟩]⟩

theorem built_forked : forked.Built :=
  built_of_grow rfl (by decide +kernel)

end Diagram

namespace Simulation

open Diagram

/-- A token is put on the first task without a parent. -/
def stray : Operation :=
  .enter (forkNode "a" .task) none

theorem allowed_stray : stray.Allowed forked .empty :=
  ⟨by decide, by decide, nofun⟩

theorem operations_answered_forked :
    Answered forked .empty .empty stray (stray.run forked .empty 20 .empty) ∧
      (((Operation.start none).run twin .empty 20 .empty).2 = .ok () ∨ ∃ error, error.Declared ∧
        (Operation.start none).run twin .empty 20 .empty = (.empty, .error error)) :=
  ⟨(operations_answered built_forked).1 .empty stray .empty 20 .empty allowed_stray
      (by decide +kernel),
    (operations_answered built_twin).2 (by unfold StartsContained; decide) .empty (.start none)
      .empty 20 .empty ⟨nofun, nofun⟩ (by decide +kernel)⟩

/-- The stray token fails at the gateway, with an error that is meant for no one, and the other
token, whose task is next on the agenda, goes no further. -/
theorem not_declared_forked :
    forked.Built ∧ Served forked (Operation.Allowed forked) .empty ∧
      stray.Allowed forked .empty ∧
      (stray.run forked .empty 2 .empty).1.agenda = [.enter 1, .enter 2] ∧
      stray.run forked .empty 20 .empty =
        ({ (stray.run forked .empty 2 .empty).1 with agenda := [] }, .error (.orphanJoin "j")) ∧
      ¬ (SimulationError.orphanJoin "j").Declared := by
  refine ⟨built_forked, .empty, allowed_stray, by decide +kernel, by decide +kernel, ?_⟩
  rintro (⟨_, other⟩ | ⟨_, other⟩)
  · cases other
  · cases other

end Simulation
end ProcessDiagram
