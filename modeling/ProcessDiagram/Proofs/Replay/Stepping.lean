import ProcessDiagram.Proofs.Replay.Attempted
import ProcessDiagram.Proofs.Replay.Playing
import ProcessDiagram.Proofs.Simulation.Operated

/-!
What a step of a replay does to its session. The gateways are set first; then, under the configuration
that they have, the simulation is started if need be and the elements of the triggers are signalled.
Main statements: `ended_advance`, `rounds_of_advance`.
-/
namespace ProcessDiagram

namespace Simulation

variable {d : Diagram} {c : ConfigStore} {bound : Nat} {s : Simulation}

theorem agenda_of_drain (finished : (drain d c bound s).2 ≠ some .unfinished) :
    (drain d c bound s).1.agenda = [] := by
  induction bound generalizing s with
  | zero =>
      rw [drain] at finished ⊢
      by_cases idle : s.agenda.isEmpty
      · rw [if_pos idle]
        exact List.isEmpty_iff.mp idle
      · rw [if_neg idle] at finished
        exact absurd rfl finished
  | succ bound ih =>
      cases agenda : s.agenda with
      | nil => rw [drain_of_empty agenda, agenda]
      | cons t rest =>
          cases run : runTask d c { s with agenda := rest } t with
          | ok s' =>
              rw [drain_of_cons agenda run] at finished ⊢
              exact ih finished
          | error e =>
              rw [drain]
              simp only [agenda, run]

theorem agenda_of_settle {α : Type} {value : α}
    (finished : (settle d c bound s value).2 ≠ .error .unfinished) :
    (settle d c bound s value).1.agenda = [] := by
  rw [fst_settle]
  apply agenda_of_drain
  intro unfinished
  apply finished
  rw [settle]
  cases result : drain d c bound s with
  | mk s' error =>
      rw [result] at unfinished
      cases unfinished
      rfl

theorem start_cases (e : Option Element) : (start d c bound s e).1 = s ∨
    ((start d c bound s e).2 ≠ .error .unfinished → (start d c bound s e).1.agenda = []) := by
  rw [start]
  split
  next => exact .inl rfl
  next =>
      split
      next => exact .inl rfl
      next =>
          split
          next => exact .inl rfl
          next => exact .inr agenda_of_settle

theorem signalAndRun_cases (i : ScopeId) : (signalAndRun d c bound s i).1 = s ∨
    ((signalAndRun d c bound s i).2 ≠ .error .unfinished →
      (signalAndRun d c bound s i).1.agenda = []) := by
  rw [signalAndRun]
  split
  next => exact .inl rfl
  next => exact .inr agenda_of_settle

end Simulation

open Simulation

/-- Some trigger is of the element. -/
def Trigger.Names (triggers : List Trigger) (e : Element) : Prop :=
  ∃ t ∈ triggers, t.element.id = e.id

theorem Trigger.Names.mono {triggers all : List Trigger} {e : Element} (h : Names triggers e)
    (within : triggers ⊆ all) : Names all e := by
  obtain ⟨t, inside, own⟩ := h
  exact ⟨t, within inside, own⟩

/-- An element whose statuses ask for nothing is not triggered. -/
theorem Trigger.not_names_of_silent {d : Diagram} {t : Trace} (consistent : d.Consistent)
    (keyed : t.Keyed) {i : Nat} {e : Element} (node : e ∈ d.nodes)
    (silent : action? e.kind (t.status i e.id) (t.status (i + 1) e.id) = none) (other : Element)
    (own : other.id = e.id) : ¬ Names (ofStep d t i) other := by
  intro ⟨trigger, inside, same⟩
  obtain ⟨found, action⟩ := (mem_ofStep_iff keyed).mp inside
  rw [same, own, consistent.find?_node node, Option.some.injEq] at found
  rw [← found, silent] at action
  cases action

/-- The session was operated under its configuration. -/
structure Session.Driven (p : ReplayPlan) (allowed : Element → Prop) (s s' : Session) : Prop where
  config : s'.config = s.config
  operated : Operated p.diagram s.config allowed s.simulation s'.simulation

namespace Session.Driven

variable {p : ReplayPlan} {allowed more : Element → Prop} {s s' s'' : Session}

theorem refl (s : Session) : Driven p allowed s s :=
  ⟨rfl, .refl⟩

theorem trans (first : Driven p allowed s s') (second : Driven p allowed s' s'') :
    Driven p allowed s s'' :=
  ⟨second.config.trans first.config, first.operated.trans (first.config ▸ second.operated)⟩

theorem mono (h : Driven p allowed s s') (wider : ∀ e, allowed e → more e) : Driven p more s s' :=
  ⟨h.config, h.operated.mono wider⟩

theorem start (finished : (s.start p.diagram p.bound none).value.2 ≠ .error .unfinished) :
    Driven p allowed s (s.start p.diagram p.bound none).value.1 := by
  refine ⟨rfl, ?_⟩
  have started := @start_cases p.diagram s.config p.bound s.simulation none
  change Operated _ _ _ _ (s.simulation.start p.diagram s.config p.bound none).1
  obtain same | ended := started
  · rw [same]
    exact .refl
  · exact .start p.bound .refl (ended finished)

theorem signal {i : ScopeId} (named : ∀ x, s.simulation.scopes[i]? = some x → allowed x.element)
    (finished : (s.signal p.diagram p.bound i).value.2 ≠ .error .unfinished) :
    Driven p allowed s (s.signal p.diagram p.bound i).value.1 := by
  refine ⟨rfl, ?_⟩
  have signalled := @signalAndRun_cases p.diagram s.config p.bound s.simulation i
  change Operated _ _ _ _ (s.simulation.signalAndRun p.diagram s.config p.bound i).1
  obtain same | ended := signalled
  · rw [same]
    exact .refl
  · exact .signal p.bound .refl named (ended finished)

end Session.Driven

namespace Replay

variable {p : ReplayPlan}

/-! ## Triggers -/

theorem config_carryOut (s : Session) (t : Trigger) :
    (carryOut p s t).value.1.config = s.config := by
  obtain ⟨i, _, same⟩ | ⟨_, _, same⟩ := carryOut_cases p s t
  · exact congrArg (·.value.1.config) (same p.bound)
  · exact congrArg (·.1.config) (same p.bound)

theorem config_carryOutAll (s : Session) (triggers : List Trigger) :
    (carryOutAll p s triggers).value.1.config = s.config := by
  induction triggers generalizing s with
  | nil => rfl
  | cons t rest ih =>
      have head := config_carryOut (p := p) s t
      simp only [carryOutAll, Logged.value_bind]
      split
      next => exact (ih _).trans head
      next => exact (ih _).trans head
      next => exact head

theorem driven_carryOut (s : Session) (t : Trigger)
    (finished : (carryOut p s t).value.2 ≠ .error .unfinished) :
    s.Driven p (fun e => t.element.id = e.id) (carryOut p s t).value.1 := by
  obtain ⟨i, waiting, same⟩ | ⟨_, _, same⟩ := carryOut_cases p s t
  · have signalled : carryOut p s t = s.signal p.diagram p.bound i := same p.bound
    rw [signalled] at finished ⊢
    exact .signal (fun x hx => (mem_of_waitingScope? waiting hx).symm) finished
  · have still : (carryOut p s t).value.1 = s := congrArg Prod.fst (same p.bound)
    rw [still]
    exact .refl s

theorem carryOut_error {s : Session} {t : Trigger} {error : SimulationError}
    (consistent : p.diagram.Consistent) (resting : Resting p.diagram s.simulation)
    (failed : (carryOut p s t).value.2 = .error error) :
    (∃ failure, error = .refused failure) ∨ error = .unfinished := by
  obtain ⟨i, _, same⟩ | ⟨result, refused, same⟩ := carryOut_cases p s t
  · have signalled : carryOut p s t = s.signal p.diagram p.bound i := same p.bound
    rw [signalled] at failed
    exact signalAndRun_error consistent resting.sound resting.drained failed
  · have still : (carryOut p s t).value = (s, result) := same p.bound
    rw [still] at failed
    obtain ⟨reason, same⟩ := refused error failed
    exact .inl ⟨_, same⟩

/-- A round of triggers signals no other elements than theirs. -/
theorem driven_carryOutAll (s : Session) (triggers : List Trigger)
    (finished : (carryOutAll p s triggers).value.2 ≠ .error .unfinished) :
    s.Driven p (Trigger.Names triggers) (carryOutAll p s triggers).value.1 := by
  induction triggers generalizing s with
  | nil => exact .refl s
  | cons t rest ih =>
      have first := driven_carryOut (p := p) s t
      have head : ∀ e, t.element.id = e.id → Trigger.Names (t :: rest) e :=
        fun e own => ⟨t, List.mem_cons_self, own⟩
      have tail : ∀ e, Trigger.Names rest e → Trigger.Names (t :: rest) e :=
        fun e named => named.mono (List.subset_cons_self ..)
      simp only [carryOutAll, Logged.value_bind] at finished ⊢
      generalize (carryOut p s t).value = carried at first finished ⊢
      obtain ⟨s₁, result⟩ := carried
      cases result with
      | ok _ => exact ((first (by simp)).mono head).trans ((ih s₁ finished).mono tail)
      | error e =>
          cases e with
          | refused failure =>
              refine ((first (by simp)).mono head).trans ((ih s₁ ?_).mono tail)
              intro unfinished
              apply finished
              simp only [Logged.value_bind, Logged.value_pure, unfinished]
              rfl
          | unfinished => exact absurd rfl finished
          | unknown | noContainer | orphanJoin => exact (first (by simp)).mono head

theorem carryOutAll_error {s : Session} {triggers : List Trigger} {error : SimulationError}
    (consistent : p.diagram.Consistent) (resting : Resting p.diagram s.simulation)
    (failed : (carryOutAll p s triggers).value.2 = .error error) : error = .unfinished := by
  induction triggers generalizing s with
  | nil => cases failed
  | cons t rest ih =>
      have kinds := fun error => @carryOut_error p s t error consistent resting
      have driven := driven_carryOut (p := p) s t
      simp only [carryOutAll, Logged.value_bind] at failed
      generalize (carryOut p s t).value = carried at kinds driven failed
      obtain ⟨s₁, result⟩ := carried
      cases result with
      | ok _ => exact ih ((driven (by simp)).operated.resting consistent resting) failed
      | error other =>
          obtain ⟨failure, rfl⟩ | rfl := kinds other rfl
          · simp only [Logged.value_bind, Logged.value_pure] at failed
            cases later : (carryOutAll p s₁ rest).value.2 with
            | ok refused =>
                rw [later] at failed
                cases failed
            | error last =>
                rw [later] at failed
                cases failed
                exact ih ((driven (by simp)).operated.resting consistent resting) later
          · cases failed
            rfl

theorem refused_subset {s s' : Session} {triggers : List Trigger}
    {refused : List (Trigger × TriggerFailure)}
    (carried : (carryOutAll p s triggers).value = (s', .ok refused)) :
    refused.map (·.1) ⊆ triggers :=
  (attempted_of_carryOutAll carried).sublist.subset

/-- In a round that goes through, every trigger has its turn. -/
theorem turn_of_carryOutAll {s s' : Session} {triggers : List Trigger}
    {refused : List (Trigger × TriggerFailure)}
    (carried : (carryOutAll p s triggers).value = (s', .ok refused))
    (distinct : (triggers.map (·.element.id)).Nodup) {t : Trigger} (inside : t ∈ triggers) :
    ∃ s₁, s.Driven p (fun e => t.element.id ≠ e.id) s₁ ∧
      (carryOut p s₁ t).value.2 ≠ .error .unfinished ∧
        (carryOut p s₁ t).value.1.Driven p (Trigger.Names triggers) s' := by
  induction triggers generalizing s refused with
  | nil => cases inside
  | cons first rest ih =>
      obtain ⟨finished, others, later⟩ := (attempted_of_carryOutAll carried).head
      have tail : ∀ e, Trigger.Names rest e → Trigger.Names (first :: rest) e :=
        fun e named => named.mono (List.subset_cons_self ..)
      rw [List.map_cons, List.nodup_cons] at distinct
      cases List.mem_cons.mp inside with
      | inl here =>
          subst here
          have driven := driven_carryOutAll (p := p) (carryOut p s t).value.1 rest
            (by rw [later]; exact nofun)
          rw [later] at driven
          exact ⟨s, .refl s, finished, driven.mono tail⟩
      | inr inside =>
          obtain ⟨s₁, before, ended, after⟩ := ih later distinct.2 inside
          refine ⟨s₁, ((driven_carryOut s first finished).mono ?_).trans before, ended,
            after.mono tail⟩
          intro e own same
          exact distinct.1 (own.trans same.symm ▸ List.mem_map.mpr ⟨t, inside, rfl⟩)

/-! ## Steps -/

def Pause.triggers (p : ReplayPlan) : Pause → List Trigger
  | pacing index => Trigger.ofStep p.diagram p.trace index
  | retrying _ _ pending => pending

/-- How an advance goes on from a pause: it fails, it falls asleep before another attempt, or it is
over. -/
inductive Tried (p : ReplayPlan) (triggers : List Trigger) (step : Nat) (r : Replay) :
    Replay × Progress → Prop
  | failed {r' : Replay} (e : SimulationError) : r'.session.config = r.session.config →
      r'.index = r.index →
      (e ≠ .unfinished → r.session.Driven p (Trigger.Names triggers) r'.session) →
      Tried p triggers step r (r'.finish (.error e))
  | asleep {r' : Replay} (delay : Binary64) {n : Nat} {pending : List Trigger} :
      r'.index = r.index → pending ⊆ triggers →
      r.session.Driven p (Trigger.Names triggers) r'.session →
      Tried p triggers step r (r', .asleep delay ⟨.advance, .retrying step n pending⟩)
  | ended {r' : Replay} : r'.index = step + 1 →
      r.session.Driven p (Trigger.Names triggers) r'.session →
      Tried p triggers step r (r'.finish (.ok (.stepped true)))

theorem Tried.after {triggers : List Trigger} {step : Nat} {r r₁ : Replay}
    {next : Replay × Progress} (h : Tried p triggers step r₁ next) (index : r₁.index = r.index)
    (driven : r.session.Driven p (Trigger.Names triggers) r₁.session) :
    Tried p triggers step r next := by
  cases h with
  | failed e config same operated =>
      exact .failed e (config.trans driven.config) (same.trans index)
        fun finished => driven.trans (operated finished)
  | asleep delay same fewer operated =>
      exact .asleep delay (same.trans index) fewer (driven.trans operated)
  | ended same operated => exact .ended same (driven.trans operated)

theorem tried_attempt (r : Replay) (step n : Nat) {triggers all : List Trigger}
    (within : triggers ⊆ all) :
    Tried p all step r (attempt p r .advance step n triggers).value := by
  have named : ∀ e, Trigger.Names triggers e → Trigger.Names all e := fun e h => h.mono within
  have driven := driven_carryOutAll (p := p) r.session triggers
  have fewer := fun s' refused => @refused_subset p r.session s' triggers refused
  have config := config_carryOutAll (p := p) r.session triggers
  simp only [attempt, Logged.value_bind]
  generalize (carryOutAll p r.session triggers).value = carried at driven fewer config ⊢
  obtain ⟨session, result⟩ := carried
  cases result with
  | error e =>
      exact .failed e config rfl fun finished =>
        (driven (by simpa using finished)).mono named
  | ok refused =>
      simp only
      split
      · exact .asleep _ rfl (List.Subset.trans (fewer _ _ rfl) within) ((driven (by simp)).mono named)
      · exact .ended rfl ((driven (by simp)).mono named)

theorem value_ensureStarted (r : Replay) : (r.ensureStarted p).value.1.index = r.index ∧
    (r.ensureStarted p).value.1.session.config = r.session.config ∧
      ((r.ensureStarted p).value.2 ≠ .error .unfinished →
        r.session.Driven p (fun _ => False) (r.ensureStarted p).value.1.session) := by
  rw [ensureStarted]
  split
  next => exact ⟨rfl, rfl, fun _ => .refl _⟩
  next =>
      have started := @Session.Driven.start p (fun _ => False) r.session
      have config : (r.session.start p.diagram p.bound none).value.1.config = r.session.config :=
        Session.config_act ..
      simp only [Logged.value_bind]
      generalize (r.session.start p.diagram p.bound none).value = begun at started config ⊢
      obtain ⟨session, result⟩ := begun
      cases result with
      | ok _ => exact ⟨rfl, config, fun _ => started (by simp)⟩
      | error e => exact ⟨rfl, config, fun finished => started (by simpa using finished)⟩

theorem tried_resume (r : Replay) (pause : Pause) {all : List Trigger}
    (within : pause.triggers p ⊆ all) :
    Tried p all pause.step r (resume p r ⟨.advance, pause⟩).value := by
  cases pause with
  | retrying index n pending => exact tried_attempt r index n within
  | pacing index =>
      obtain ⟨same, config, driven⟩ := value_ensureStarted (p := p) r
      simp only [resume, Logged.value_bind]
      generalize (r.ensureStarted p).value = begun at same config driven ⊢
      obtain ⟨r₁, result⟩ := begun
      cases result with
      | error e =>
          exact .failed e config same fun finished =>
            (driven (by simpa using finished)).mono fun _ => False.elim
      | ok _ =>
          exact (tried_attempt r₁ index 1 within).after same
            ((driven (by simp)).mono fun _ => False.elim)

/-- How an advance ends that was asleep. -/
structure Ended (p : ReplayPlan) (triggers : List Trigger) (step : Nat) (r : Replay)
    (ended : Replay × Report) : Prop where
  idle : ended.1.inFlight = false
  config : ended.1.session.config = r.session.config
  answer : ended.2.answer = .ok (.stepped true) ∧ ended.1.index = step + 1 ∨
    (∃ e, ended.2.answer = .error e) ∧ ended.1.index = r.index
  driven : ended.2.answer ≠ .error .unfinished →
    r.session.Driven p (Trigger.Names triggers) ended.1.session

/-- However often it still falls asleep, an advance only carries out triggers. -/
theorem ended_complete (r : Replay) (pause : Pause) (delay : Binary64) {all : List Trigger}
    (within : pause.triggers p ⊆ all) :
    Ended p all pause.step r (complete p r (.asleep delay ⟨.advance, pause⟩)).value := by
  induction rank : pause.rank p using Nat.strongRecOn generalizing r pause delay with
  | _ n ih =>
      have less := rank_resume p r ⟨.advance, pause⟩
      have tried := tried_resume (p := p) r pause within
      rw [complete_asleep]
      generalize (resume p r ⟨.advance, pause⟩).value = next at less tried ⊢
      cases tried with
      | failed e config same driven =>
          simp only [finish, complete_finished, Report.slept]
          exact ⟨rfl, config, .inr ⟨⟨e, rfl⟩, same⟩, fun finished => driven (by simpa using finished)⟩
      | ended same driven =>
          simp only [finish, complete_finished, Report.slept]
          exact ⟨rfl, driven.config, .inl ⟨rfl, same⟩, fun _ => driven⟩
      | @asleep r' delay' n' pending same fewer driven =>
          have shorter : (Pause.retrying pause.step n' pending).rank p < n := rank ▸ less
          have later := ih _ shorter r' (.retrying pause.step n' pending) delay' fewer rfl
          exact ⟨later.idle, later.config.trans driven.config,
            later.answer.imp_right (.imp_right fun index => index.trans same),
            fun finished => driven.trans (later.driven finished)⟩

theorem rounds_of_attempt (r : Replay) (step n : Nat) (triggers : List Trigger)
    (taken : (complete p (attempt p r .advance step n triggers).value.1
      (attempt p r .advance step n triggers).value.2).value.2.answer = .ok (.stepped true)) :
    ∃ s refused, (carryOutAll p r.session triggers).value = (s, .ok refused) ∧
      s.Driven p (Trigger.Names (refused.map (·.1)))
        (complete p (attempt p r .advance step n triggers).value.1
          (attempt p r .advance step n triggers).value.2).value.1.session := by
  simp only [attempt, Logged.value_bind] at taken ⊢
  generalize (carryOutAll p r.session triggers).value = carried at taken ⊢
  obtain ⟨session, result⟩ := carried
  cases result with
  | error e =>
      simp only [Logged.value_pure, finish, complete_finished] at taken
      cases taken
  | ok refused =>
      refine ⟨session, refused, rfl, ?_⟩
      simp only at taken ⊢
      split at taken
      next again =>
          rw [if_pos again]
          have ended := ended_complete (p := p) { r with session }
            (.retrying step (n + 1) (refused.map (·.1))) p.settings.triggerDelay
            (List.Subset.refl _)
          simp only [Logged.value_bind, Logged.value_pure] at taken ⊢
          refine ended.driven ?_
          simp [taken]
      next finished =>
          rw [if_neg finished]
          simp only [Logged.value_bind, endStep, Logged.value_pure, finish, complete_finished]
          exact .refl session

section Advance

variable {r : Replay}

theorem value_advance_of_more (idle : r.inFlight = false) (more : ¬ r.isDone p = true) :
    (advance p r).value = (complete p (configureGateways p { r with inFlight := true } r.index)
      (.asleep p.settings.stepDelay ⟨.advance, .pacing r.index⟩)).value := by
  rw [value_advance r idle, goOn, value_beginStep (r := { r with inFlight := true }) more]

/-- The gateways are set, and then the triggers of the step are carried out. -/
theorem ended_advance (idle : r.inFlight = false) (more : ¬ r.isDone p = true) :
    Ended p (Trigger.ofStep p.diagram p.trace r.index) r.index (r.configureGateways p r.index)
      (advance p r).value := by
  have ended := ended_complete (p := p) (configureGateways p { r with inFlight := true } r.index)
    (.pacing r.index) p.settings.stepDelay (List.Subset.refl _)
  rw [← value_advance_of_more idle more] at ended
  exact ⟨ended.idle, ended.config, ended.answer, ended.driven⟩

/-- A step that succeeds starts the process if need be, goes through its triggers and tries again
what was refused. -/
theorem rounds_of_advance (idle : r.inFlight = false) (more : ¬ r.isDone p = true)
    (taken : (advance p r).value.2.answer = .ok (.stepped true)) :
    ∃ s s' refused, (r.configureGateways p r.index).session.Driven p (fun _ => False) s ∧
      (carryOutAll p s (Trigger.ofStep p.diagram p.trace r.index)).value = (s', .ok refused) ∧
        s'.Driven p (Trigger.Names (refused.map (·.1))) (advance p r).value.1.session := by
  obtain ⟨_, _, started⟩ :=
    value_ensureStarted (p := p) (configureGateways p { r with inFlight := true } r.index)
  rw [value_advance_of_more idle more, complete_asleep] at taken ⊢
  simp only [resume, Logged.value_bind] at taken ⊢
  generalize (ensureStarted p (configureGateways p { r with inFlight := true } r.index)).value
    = begun at started taken ⊢
  obtain ⟨r₁, result⟩ := begun
  cases result with
  | error e =>
      simp only [Logged.value_pure, finish, complete_finished] at taken
      cases taken
  | ok _ =>
      obtain ⟨s, refused, carried, driven⟩ := rounds_of_attempt r₁ r.index 1 _ taken
      exact ⟨r₁.session, s, refused, started (by simp), carried, driven⟩

end Advance

/-! ## Replays that advance -/

/-- Advances from a fresh replay, each of which comes to its end. -/
inductive Advanced (p : ReplayPlan) : Replay → Prop
  | fresh : Advanced p p.initial
  | advance {r : Replay} : Advanced p r → (advance p r).value.2.answer ≠ .error .unfinished →
      Advanced p (advance p r).value.1

/-- What holds of a replay between its steps. -/
structure Calm (p : ReplayPlan) (r : Replay) : Prop where
  idle : r.inFlight = false
  resting : Resting p.diagram r.session.simulation
  unset : ∀ g ∈ p.diagram.nodes, g.kind = .exclusiveGateway →
    (r.session.config.get g).locked = false → r.session.config.get g = .default

theorem tuned_of_none {start : Nat} {g : Element} {old : ElementConfig}
    (unset : old.locked = false → old = .default)
    (none : p.trace.branch? p.diagram g start = none) : tuned p start g old = .default := by
  rw [tuned, none]
  by_cases locked : old.locked = true
  · simp only [locked, if_true]
  · simp only [if_neg locked]
    exact unset (by simpa using locked)

theorem Calm.advance (consistent : p.diagram.Consistent) {r : Replay} (h : Calm p r)
    (finished : (Replay.advance p r).value.2.answer ≠ .error .unfinished) :
    Calm p (Replay.advance p r).value.1 := by
  by_cases done : r.isDone p = true
  · rw [advance_of_done h.idle done]
    exact h
  · have ended := ended_advance h.idle done
    refine ⟨ended.idle, (ended.driven finished).operated.resting consistent h.resting, ?_⟩
    intro g node kind unlocked
    rw [ended.config, get_configureGateways p r consistent node kind] at unlocked ⊢
    cases branch : p.trace.branch? p.diagram g r.index with
    | none => exact tuned_of_none (h.unset g node kind) branch
    | some branch' =>
        rw [tuned, branch] at unlocked
        cases unlocked

theorem Advanced.calm (consistent : p.diagram.Consistent) {r : Replay} (h : Advanced p r) :
    Calm p r := by
  induction h with
  | fresh => exact ⟨rfl, .empty _, fun g node kind _ => p.startConfig_gateway consistent node kind⟩
  | advance _ finished ih => exact ih.advance consistent finished

end Replay
end ProcessDiagram
