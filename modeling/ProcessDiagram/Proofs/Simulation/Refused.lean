import ProcessDiagram.Proofs.Simulation.Sound
import ProcessDiagram.Session

/-!
Refusals. What is asked of a session is refused before anything is done for it, or never: once a run
has begun, only a join without siblings can fail, and the run can come to its bound. Main statement:
`Demand.atomic`.
-/
namespace ProcessDiagram

/-- Errors with which a call is turned away. -/
def SimulationError.isRefusal : SimulationError → Bool
  | .refused _ | .unknown _ | .noContainer _ => true
  | .orphanJoin _ | .unfinished => false

namespace Simulation

variable {d : Diagram} {c : ConfigStore} {s s' : Simulation} {α : Type}

/-! ## Runs -/

theorem enterParallel_error_iff {i : Nat} {x : Scope} {error : SimulationError}
    (kind : x.element.kind = .parallelGateway) :
    enterParallel d c s i x = .error error ↔ x.destroyed = false ∧ x.parent = none ∧
      d.HoldsAt x.element ∧ error = .orphanJoin x.element.id := by
  rw [enterParallel, Diagram.HoldsAt]
  cases x.destroyed with
  | true => simp
  | false =>
      by_cases few : (d.incoming x.element).length ≤ 1
      · simp [few, Nat.not_lt.mpr few]
      · cases x.parent with
        | none => simp [few, kind, Nat.lt_of_not_ge few, eq_comm]
        | some p =>
            simp only [Bool.false_eq_true, if_false, few]
            split <;> simp

theorem onEnter_error_iff {i : Nat} {x : Scope} {error : SimulationError} :
    onEnter d c s i x = .error error ↔ x.destroyed = false ∧ x.parent = none ∧
      d.HoldsAt x.element ∧ error = .orphanJoin x.element.id := by
  cases kind : x.element.kind with
  | parallelGateway =>
      rw [onEnter, kind]
      exact enterParallel_error_iff kind
  | _ =>
      rw [onEnter, kind]
      simp [Diagram.HoldsAt, kind]

theorem runTask_error {t : Task} {error : SimulationError}
    (failed : runTask d c s t = .error error) : ∃ gateway, error = .orphanJoin gateway := by
  cases t with
  | enter i =>
      rw [runTask] at failed
      split at failed
      next x _ => exact ⟨x.element.id, (onEnter_error_iff.mp failed).2.2.2⟩
      next => cases failed
  | signal i | finishExit i =>
      rw [runTask] at failed
      split at failed <;> cases failed

theorem isRefusal_drain {bound : Nat} {error : SimulationError}
    (failed : (drain d c bound s).2 = some error) : error.isRefusal = false := by
  induction bound generalizing s with
  | zero =>
      rw [drain] at failed
      split at failed <;> cases failed
      rfl
  | succ bound ih =>
      rw [drain] at failed
      split at failed
      next => cases failed
      next =>
          split at failed
          next => exact ih failed
          next result =>
              cases failed
              obtain ⟨_, rfl⟩ := runTask_error result
              rfl

theorem isRefusal_settle {bound : Nat} {value : α} {error : SimulationError}
    (failed : (settle d c bound s value).2 = .error error) : error.isRefusal = false := by
  rw [settle] at failed
  split at failed
  next => cases failed
  next run =>
      cases failed
      exact isRefusal_drain (congrArg Prod.snd run)

/-! ## Calls -/

/-- A refusal leaves everything as it was. -/
def Atomic (s : Simulation) (outcome : Simulation × Except SimulationError α) : Prop :=
  ∀ error, outcome.2 = .error error → error.isRefusal = true → outcome.1 = s

theorem atomic_error (s : Simulation) (error : SimulationError) :
    Atomic s ((s, .error error) : Simulation × Except SimulationError α) :=
  fun _ _ _ => rfl

/-- A run is never refused, wherever it began. -/
theorem atomic_settle (s : Simulation) (bound : Nat) (value : α) :
    Atomic s' (settle d c bound s value) := by
  intro error failed refusal
  rw [isRefusal_settle failed] at refusal
  cases refusal

theorem atomic_signalAndRun (bound : Nat) (i : ScopeId) :
    Atomic s (signalAndRun d c bound s i) := by
  rw [signalAndRun]
  split
  next => exact atomic_error s _
  next => exact atomic_settle _ bound ()

theorem atomic_start (bound : Nat) (e : Option Element) : Atomic s (s.start d c bound e) := by
  rw [start]
  split
  next => exact atomic_error s _
  next =>
      split
      next => exact atomic_error s _
      next =>
          split
          next => exact atomic_error s _
          next => exact atomic_settle _ bound _

theorem atomic_trigger (bound : Nat) (id : String) : Atomic s (s.trigger d c bound id) := by
  rw [trigger]
  split
  next => exact atomic_error s _
  next =>
      split
      next i _ =>
          have signalled := atomic_signalAndRun (d := d) (c := c) (s := s) bound i
          split
          next =>
              intro error failed
              cases failed
          next run =>
              rw [run] at signalled
              intro error failed refusal
              cases failed
              exact signalled _ rfl refusal
      next =>
          split
          next => exact atomic_start bound _
          next => exact atomic_error s _

end Simulation

/-! ## Sessions -/

/-- What can be asked of a session from outside. A signal is for a scope of its simulation; the number
of no scope there, such as one from before a reset, asks for nothing. -/
inductive Demand
  | start (e : Option Element)
  | trigger (id : String)
  | signal (i : ScopeId)
  | choose (gateway : Element) (flow : Flow)
  deriving DecidableEq

/-- Why a demand was not met. -/
inductive Complaint
  | simulation (error : SimulationError)
  | config (error : ConfigError)
  deriving DecidableEq

/-- The gateway is locked, the flow is foreign, or a call was turned away. -/
def Complaint.isRefusal : Complaint → Bool
  | .simulation error => error.isRefusal
  | .config _ => true

namespace Demand

variable {α : Type}

def report (outcome : Session × Except SimulationError α) : Session × Except Complaint Unit :=
  (outcome.1, (outcome.2.map fun _ => ()).mapError .simulation)

/-- Does what is asked; gives what came of it. -/
def perform (d : Diagram) (bound : Nat) (s : Session) :
    Demand → Logged (Session × Except Complaint Unit)
  | start e => report <$> s.start d bound e
  | trigger id => report <$> s.trigger d bound id
  | signal i => report <$> s.signal d bound i
  | choose gateway flow => do
    match ← s.config.chooseFlow gateway flow with
    | .ok config => return ({ s with config }, .ok ())
    | .error e => return (s, .error (.config e))

theorem refused_act {s : Session}
    {f : ConfigStore → Simulation → Simulation × Except SimulationError α}
    (atomic : s.simulation.Atomic (f s.config s.simulation)) {complaint : Complaint}
    (failed : (report <$> s.act f).value.2 = .error complaint)
    (refusal : complaint.isRefusal = true) :
    report <$> s.act f = ⟨(s, .error complaint), []⟩ := by
  simp only [Session.act, Logged.value_map] at failed
  cases outcome : f s.config s.simulation with
  | mk simulation result =>
      rw [outcome] at failed atomic
      cases result with
      | ok a => cases failed
      | error error =>
          cases failed
          have same : simulation = s.simulation := atomic error rfl refusal
          apply Logged.ext
          · simp only [Session.act, Logged.value_map, outcome, same]
            rfl
          · simp only [Session.act, Logged.log_map, outcome, same, List.drop_length, List.map_nil]

theorem refused_choose (d : Diagram) (bound : Nat) (s : Session) (gateway : Element) (flow : Flow)
    {complaint : Complaint}
    (failed : (perform d bound s (.choose gateway flow)).value.2 = .error complaint) :
    perform d bound s (.choose gateway flow) = ⟨(s, .error complaint), []⟩ := by
  rw [perform, ConfigStore.chooseFlow] at failed ⊢
  split
  next locked =>
      rw [if_pos locked] at failed
      cases failed
      rfl
  next free =>
      rw [if_neg free] at failed
      split
      next foreign =>
          rw [if_pos foreign] at failed
          cases failed
          rfl
      next own =>
          rw [if_neg own] at failed
          cases failed

/-- What is refused has changed nothing, neither the simulation nor the configuration, and is not
journalled; and no run ends in a refusal, whatever has been done of its agenda. -/
theorem atomic (d : Diagram) (bound : Nat) (s : Session) (demand : Demand) :
    (∀ complaint, (demand.perform d bound s).value.2 = .error complaint →
      complaint.isRefusal = true → demand.perform d bound s = ⟨(s, .error complaint), []⟩) ∧
    ∀ (c : ConfigStore) (t : Simulation) (bound : Nat) (error : SimulationError),
      (t.drain d c bound).2 = some error → error.isRefusal = false := by
  refine ⟨?_, fun c t bound error => Simulation.isRefusal_drain⟩
  intro complaint failed refusal
  cases demand with
  | start e => exact refused_act (Simulation.atomic_start bound e) failed refusal
  | trigger id => exact refused_act (Simulation.atomic_trigger bound id) failed refusal
  | signal i => exact refused_act (Simulation.atomic_signalAndRun bound i) failed refusal
  | choose gateway flow => exact refused_choose d bound s gateway flow failed

/-- A choice between two tasks; the gateway is locked onto the first, and the token waits there. -/
def decided : Session :=
  let config : ConfigStore :=
    ⟨[("g", ⟨false, true, Diagram.fork.flows[1]?⟩), ("a", ⟨true, false, none⟩)]⟩
  (Session.start .fork 20 ⟨config, .empty⟩ none).value.1

/-- The other branch is triggered and chosen in vain. -/
theorem atomic_decided :
    perform .fork 20 decided (.trigger "b")
        = ⟨(decided, .error (.simulation (.refused ⟨"b", .noToken⟩))), []⟩ ∧
      perform .fork 20 decided (.choose (Diagram.forkNode "g" .exclusiveGateway)
          ⟨"Flow_3", Diagram.forkNode "g" .exclusiveGateway, Diagram.forkNode "b" .task⟩)
        = ⟨(decided, .error (.config (.locked "g"))), []⟩ :=
  ⟨(atomic .fork 20 decided (.trigger "b")).1 _ (by rfl) rfl,
    (atomic .fork 20 decided (.choose _ _)).1 _ (by rfl) rfl⟩

end Demand
end ProcessDiagram
