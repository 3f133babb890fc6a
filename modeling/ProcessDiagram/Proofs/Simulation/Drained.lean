import ProcessDiagram.Simulation.Run
import ProcessDiagram.Proofs.Simulation.Operations

/-!
Drained simulations. Runs keep the simulation sound, so that once the agenda is empty every scope
has come to rest: no token is lost and none is stuck.
-/
namespace ProcessDiagram

/-- Start events lie in processes, participants and subprocesses. -/
def Diagram.StartsContained (d : Diagram) : Prop :=
  ∀ e ∈ d.nodes, e.kind = .startEvent → ∀ container ∈ e.parent.bind d.find?,
    container.kind = .process ∨ container.kind = .participant ∨ container.kind = .subProcess

/-- The start event that is taken lies in a process, a participant or a subprocess. -/
def Diagram.ContainsStart (d : Diagram) (e : Option Element) : Prop :=
  ∀ first, (e.map Except.ok).getD (Simulation.rootStart d) = .ok first →
    ∀ container ∈ first.parent.bind d.find?,
      container.kind = .process ∨ container.kind = .participant ∨ container.kind = .subProcess

/-- A scope that was signalled. -/
def Scope.resume (x : Scope) : Scope :=
  { x with state := .entered, pending := false }

namespace Simulation

variable {d : Diagram} {c : ConfigStore} {s : Simulation}

theorem exit_of_destroyed {i : Nat} {x : Scope} (hx : s.scopes[i]? = some x)
    (gone : x.destroyed = true) : s.exit i = s := by
  rw [exit, hx]
  simp only
  rw [if_pos (.inl gone)]

/-- A task whose scope is excused is carried out without an error. -/
theorem sound_runTask (consistent : d.Consistent) {t : Task}
    (h : Sound d [t.scope] s.scopes s.agenda) (due : Due s.scopes t) :
    ∃ s', runTask d c s t = .ok s' ∧ Sound d [] s'.scopes s'.agenda := by
  cases t with
  | enter i =>
      cases due with
      | inl ready =>
          obtain ⟨x, ready, nested⟩ := ready
          simp only [runTask, ready.found]
          exact sound_onEnter consistent h ready nested
      | inr merged =>
          refine ⟨s, ?_, Merged.release h merged⟩
          obtain ⟨x, hx, gone, kind⟩ := merged
          simp only [runTask, hx, onEnter, kind, enterParallel, gone, if_true]
  | signal i =>
      cases due with
      | inl ready =>
          obtain ⟨x, ready⟩ := ready
          simp only [runTask, ready.found]
          exact ⟨_, rfl, sound_onSignal h ready⟩
      | inr merged =>
          refine ⟨s, ?_, Merged.release h merged⟩
          obtain ⟨x, hx, gone, kind⟩ := merged
          have other : ¬ x.element.kind = .subProcess := by
            rw [kind]
            decide
          simp only [runTask, hx, onSignal, if_neg other, exit_of_destroyed hx gone]
  | finishExit i =>
      obtain ⟨x, hx, live, exited⟩ := due
      simp only [runTask, hx]
      exact ⟨_, rfl, sound_finishExit consistent h hx live exited⟩

theorem drain_of_empty (h : s.agenda = []) (bound : Nat) : drain d c bound s = (s, none) := by
  cases bound with
  | zero => rw [drain, h, List.isEmpty_nil, if_pos rfl]
  | succ bound => simp only [drain, h]

theorem drain_of_cons {t : Task} {rest : List Task} {s' : Simulation} (h : s.agenda = t :: rest)
    (run : runTask d c { s with agenda := rest } t = .ok s') (bound : Nat) :
    drain d c (bound + 1) s = drain d c bound s' := by
  simp only [drain, h, run]

/-- However far the agenda is run, the simulation stays sound and no error comes up. -/
theorem sound_drain (consistent : d.Consistent) (bound : Nat)
    (h : Sound d [] s.scopes s.agenda) :
    Sound d [] (drain d c bound s).1.scopes (drain d c bound s).1.agenda ∧
      ((drain d c bound s).2 = none ∨
        (drain d c bound s).2 = some .unfinished ∧ (drain d c bound s).1.agenda ≠ []) := by
  induction bound generalizing s with
  | zero =>
      rw [drain]
      by_cases idle : s.agenda.isEmpty
      · rw [if_pos idle]
        exact ⟨h, .inl rfl⟩
      · rw [if_neg idle]
        exact ⟨h, .inr ⟨rfl, fun empty => idle (List.isEmpty_iff.mpr empty)⟩⟩
  | succ bound ih =>
      cases agenda : s.agenda with
      | nil =>
          rw [drain_of_empty agenda]
          exact ⟨h, .inl rfl⟩
      | cons t rest =>
          rw [agenda] at h
          obtain ⟨taken, due⟩ := h.take
          obtain ⟨s', run, sound⟩ :=
            sound_runTask (c := c) (s := { s with agenda := rest }) consistent taken due
          rw [drain_of_cons agenda run]
          exact ih sound

theorem fst_settle {α : Type} (bound : Nat) (value : α) :
    (settle d c bound s value).1 = (drain d c bound s).1 := by
  rw [settle]
  cases result : drain d c bound s with
  | mk t error => cases error <;> rfl

theorem sound_settle {α : Type} (consistent : d.Consistent) (bound : Nat) (value : α)
    (h : Sound d [] s.scopes s.agenda) :
    Sound d [] (settle d c bound s value).1.scopes (settle d c bound s value).1.agenda := by
  rw [fst_settle]
  exact (sound_drain consistent bound h).1

theorem startEvent_of_start {e : Option Element} {start : Element}
    (named : ∀ x, e = some x → x ∈ d.nodes ∧ x.kind = .startEvent)
    (h : (e.map Except.ok).getD (rootStart d) = .ok start) :
    start ∈ d.nodes ∧ start.kind = .startEvent := by
  cases e with
  | some x =>
      cases h
      exact named _ rfl
  | none =>
      rw [Option.map_none, Option.getD_none, rootStart] at h
      split at h
      next found =>
          cases h
          obtain ⟨scope, _, first⟩ := List.exists_of_findSome?_eq_some found
          have inside := List.mem_of_head? first
          rw [Diagram.startEvents, List.mem_filter, beq_iff_eq] at inside
          exact ⟨(List.mem_filter.mp inside.1).1, inside.2⟩
      next => cases h

theorem container_of_rootStart (consistent : d.Consistent) {start : Element}
    (found : rootStart d = .ok start) : start.kind = .startEvent ∧ ∃ container,
      start.parent.bind d.find? = some container ∧
        (container.kind = .process ∨ container.kind = .participant) ∧
          (container = d.root ∨ container ∈ d.nodes) := by
  rw [rootStart] at found
  split at found
  next first =>
      cases found
      obtain ⟨scope, top, head⟩ := List.exists_of_findSome?_eq_some first
      have inside := List.mem_of_head? head
      rw [Diagram.startEvents, List.mem_filter, beq_iff_eq, Diagram.children, List.mem_filter,
        beq_iff_eq] at inside
      obtain ⟨⟨_, under⟩, kind⟩ := inside
      refine ⟨kind, scope, ?_⟩
      rw [under]
      rw [Diagram.topScopes] at top
      split at top
      next process =>
          rw [List.mem_singleton] at top
          subst top
          exact ⟨Diagram.Consistent.find?_root d, .inl process, .inl rfl⟩
      next =>
          obtain ⟨node, participant⟩ := List.mem_filter.mp top
          exact ⟨consistent.find?_node node, .inr (by simpa using participant), .inr node⟩
  next => cases found

theorem containsStart_none (consistent : d.Consistent) : d.ContainsStart none := by
  intro first chosen container around
  obtain ⟨_, root, found, kind, _⟩ := container_of_rootStart consistent chosen
  cases Option.some.inj (found.symm.trans around)
  exact kind.imp_right .inl

theorem containsStart_of_named (contained : d.StartsContained) {e : Option Element}
    (named : ∀ x, e = some x → x ∈ d.nodes ∧ x.kind = .startEvent) : d.ContainsStart e := by
  intro first chosen
  obtain ⟨node, kind⟩ := startEvent_of_start named chosen
  exact contained first node kind

theorem sound_enterAndRun (consistent : d.Consistent) (bound : Nat) {p : Nat} {y : Scope}
    (h : Sound d [] s.scopes s.agenda) (drained : s.agenda = []) (hy : s.scopes[p]? = some y)
    (live : y.destroyed = false) (entered : y.state = .entered)
    (container : y.element.kind = .subProcess ∨ y.parent = none) {e : Element} (he : e ∈ d.nodes)
    (kind : e.kind = .startEvent) :
    Sound d [] (enterAndRun d c bound s e (some p)).1.scopes
      (enterAndRun d c bound s e (some p)).1.agenda := by
  apply sound_settle consistent
  apply h.addChild hy live entered container _ he (.inl kind) nofun
  rw [drained]
  exact List.not_mem_nil

theorem sound_enterRoot (h : Sound d [] s.scopes s.agenda) {container : Element}
    (containerKind : container.kind = .process ∨ container.kind = .participant) {e : Element}
    (he : e ∈ d.nodes) (kind : e.kind = .startEvent) :
    Sound d [] (s.scopes ++ [Scope.enter container none] ++ [Scope.enter e (some s.scopes.length)])
      (s.agenda ++ [.enter (s.scopes ++ [Scope.enter container none]).length]) := by
  have opened := h.addRoot containerKind
  have root := Scopes.getElem?_append_new s.scopes (Scope.enter container none)
  have child := opened.addChild root rfl rfl (.inr rfl) opened.not_busy_of_excused he (.inl kind) (by
    intro i hi
    rw [List.mem_singleton.mp hi, List.length_append]
    exact Nat.lt_succ_self _)
  have there := Scopes.getElem?_append_old root (Scope.enter e (some s.scopes.length))
  apply child.release
  · intro y hy
    rw [Option.some.inj (hy.symm.trans there)]
    exact .inr (.inr ⟨rfl, .inr (.inl (Scopes.hasLiveChild_append.mpr (.inr ⟨rfl, rfl⟩)))⟩)
  · intro e' p ids _ _ here inside
    obtain ⟨⟨y, hy, _, _, under, _⟩, _⟩ := inside _ here
    rw [Option.some.inj (hy.symm.trans there)] at under
    cases under

theorem nested_mem (consistent : d.Consistent) {e container : Element}
    (around : e.parent.bind d.find? = some container) (nested : container.kind = .subProcess) :
    container ∈ d.nodes := by
  obtain ⟨id, _, found⟩ := Option.bind_eq_some_iff.mp around
  exact consistent.mem_of_find? found (by rw [nested]; decide)

theorem running_of_ofElementIn (consistent : d.Consistent) (h : Sound d [] s.scopes s.agenda)
    {e container : Element} (around : e.parent.bind d.find? = some container)
    (nested : container.kind = .subProcess) {p : Nat}
    (there : p ∈ s.scopes.ofElementIn container.id .entered) :
    ∃ y : Scope, s.scopes[p]? = some y ∧ y.destroyed = false ∧ y.state = .entered ∧
      (y.element.kind = .subProcess ∨ y.parent = none) := by
  obtain ⟨y, hy, token⟩ := Scopes.mem_idsWhere.mp there
  simp only [Bool.and_eq_true, Bool.not_eq_true', beq_iff_eq] at token
  obtain ⟨⟨live, named⟩, entered⟩ := token
  refine ⟨y, hy, live, entered, ?_⟩
  by_cases root : y.parent = none
  · exact .inr root
  · have inside := ((h.formed.proper p y hy).nested root).1
    rw [consistent.eq_of_id inside (nested_mem consistent around nested) named]
    exact .inl nested

theorem sound_start (consistent : d.Consistent) {e : Option Element}
    (contained : d.ContainsStart e) (bound : Nat) (h : Sound d [] s.scopes s.agenda)
    (drained : s.agenda = []) (named : ∀ x, e = some x → x ∈ d.nodes ∧ x.kind = .startEvent) :
    Sound d [] (start d c bound s e).1.scopes (start d c bound s e).1.agenda := by
  rw [start]
  split
  next => exact h
  next first chosen =>
      obtain ⟨node, kind⟩ := startEvent_of_start named chosen
      split
      next => exact h
      next container around =>
          have allowed := contained first chosen container around
          rw [openContainer]
          by_cases nested : container.kind = .subProcess
          · rw [if_pos nested]
            cases running : s.scopes.ofElementIn container.id .entered with
            | nil => exact h
            | cons p others =>
                obtain ⟨y, hy, live, entered, around'⟩ :=
                  running_of_ofElementIn consistent h around nested (running ▸ List.mem_cons_self)
                exact sound_enterAndRun consistent bound (s := s.note _) h drained hy live entered
                  around' node kind
          · rw [if_neg nested]
            have top : container.kind = .process ∨ container.kind = .participant := by
              cases allowed with
              | inl process => exact .inl process
              | inr other => exact .inr (other.resolve_right nested)
            exact sound_settle consistent bound _ (sound_enterRoot h top node kind)

theorem Effect.signal {i : Nat} {x : Scope} (hx : s.scopes[i]? = some x) (live : x.destroyed = false)
    (pending : x.pending = true) : ∃ s', s.signal i = .ok s' ∧
      Effect s s' (s.scopes.modify i Scope.resume) [.signal i] s.exitCounts := by
  have goes : ¬ (x.destroyed ∨ !x.pending) := by simp [live, pending]
  rw [Simulation.signal, hx]
  simp only [if_neg goes]
  exact ⟨_, rfl, rfl, rfl, rfl, fun h =>
    Unstalled.record (s := { s with scopes := _ }) h (by decide) _ _⟩

/-- A signalled scope is the only one without a reason to be live. -/
theorem sound_resume {i : Nat} {x : Scope} (h : Sound d [] s.scopes [])
    (hx : s.scopes[i]? = some x) (live : x.destroyed = false) (pending : x.pending = true) :
    Sound d [i] (s.scopes.modify i Scope.resume) [] ∧
      Ready (s.scopes.modify i Scope.resume) i x.resume := by
  have proper := h.formed.proper i x hx
  have childless : ¬ s.scopes.HasLiveChild i := by
    intro child
    obtain ⟨y, hy, _, entered, _⟩ := h.formed.running_of_child child
    rw [Option.some.inj (hy.symm.trans hx), proper.pending.mp pending] at entered
    cases entered
  have formed : Formed d (s.scopes.modify i Scope.resume) := by
    apply h.formed.modify hx rfl rfl _ id (.inl ⟨live, rfl⟩)
    refine ⟨⟨nofun, nofun⟩, ?_, nofun, proper.root, proper.nested⟩
    intro gone
    cases live.symm.trans gone
  refine ⟨(h.excuse List.not_mem_nil List.not_mem_nil).change hx rfl rfl formed, ?_⟩
  refine ⟨Scopes.getElem?_modify_self hx _, live, rfl, ?_⟩
  intro child
  exact childless (child.of_modify hx rfl id)

theorem sound_signal {s' : Simulation} {i : Nat} (h : Sound d [] s.scopes s.agenda)
    (drained : s.agenda = []) (resumed : s.signal i = .ok s') : Sound d [] s'.scopes s'.agenda := by
  rw [signal] at resumed
  cases hx : s.scopes[i]? with
  | none =>
      rw [hx] at resumed
      cases resumed
      exact h
  | some x =>
      rw [hx] at resumed
      simp only at resumed
      by_cases refused : x.destroyed ∨ !x.pending
      · rw [if_pos refused] at resumed
        cases resumed
      · rw [if_neg refused] at resumed
        cases resumed
        rw [not_or] at refused
        have live : x.destroyed = false := by simpa using refused.1
        have pending : x.pending = true := by simpa using refused.2
        obtain ⟨resumed, ready⟩ := sound_resume (drained ▸ h) hx live pending
        rw [← drained] at resumed
        exact resumed.schedule (.inl ⟨_, ready⟩) rfl

theorem sound_signalAndRun (consistent : d.Consistent) (bound : Nat)
    (h : Sound d [] s.scopes s.agenda) (drained : s.agenda = []) (i : Nat) :
    Sound d [] (signalAndRun d c bound s i).1.scopes (signalAndRun d c bound s i).1.agenda := by
  rw [signalAndRun]
  cases resumed : s.signal i with
  | error failure => exact h
  | ok s' => exact sound_settle consistent bound _ (sound_signal h drained resumed)

/-! ## Errors -/

theorem settle_error {α : Type} {value : α} {bound : Nat} {error : SimulationError}
    (consistent : d.Consistent) (h : Sound d [] s.scopes s.agenda)
    (failed : (settle d c bound s value).2 = .error error) : error = .unfinished := by
  have run := (sound_drain (c := c) consistent bound h).2
  rw [settle] at failed
  cases result : drain d c bound s with
  | mk t ended =>
      rw [result] at run failed
      cases ended with
      | none => cases failed
      | some other =>
          cases failed
          obtain none | ⟨unfinished, _⟩ := run
          · cases none
          · exact Option.some.inj unfinished

/-- A signal is refused, or everything that comes of it goes through. -/
theorem signalAndRun_error {bound : Nat} {i : ScopeId} {error : SimulationError}
    (consistent : d.Consistent) (h : Sound d [] s.scopes s.agenda) (drained : s.agenda = [])
    (failed : (signalAndRun d c bound s i).2 = .error error) :
    (∃ failure, error = .refused failure) ∨ error = .unfinished := by
  rw [signalAndRun] at failed
  cases resumed : s.signal i with
  | error failure =>
      rw [resumed] at failed
      cases failed
      exact .inl ⟨failure, rfl⟩
  | ok s' =>
      rw [resumed] at failed
      exact .inr (settle_error consistent (sound_signal h drained resumed) failed)

theorem rootStart_error {error : SimulationError} (failed : rootStart d = .error error) :
    error = .refused ⟨d.root.id, .noStartEvent⟩ := by
  rw [rootStart] at failed
  split at failed
  · cases failed
  · exact (Except.error.inj failed).symm

theorem start_error {bound : Nat} {error : SimulationError} {first : Element}
    (consistent : d.Consistent) (h : Sound d [] s.scopes s.agenda)
    (found : rootStart d = .ok first) (failed : (start d c bound s none).2 = .error error) :
    error = .unfinished := by
  obtain ⟨kind, container, around, top, _⟩ := container_of_rootStart consistent found
  have other : ¬ container.kind = .subProcess := by
    obtain process | participant := top
    · simp [process]
    · simp [participant]
  have node := (startEvent_of_start (e := none) nofun found).1
  simp only [start, Option.map_none, Option.getD_none, found, around, openContainer,
    if_neg other] at failed
  exact settle_error consistent (sound_enterRoot h top node kind) failed

theorem start_of_rootStart_error {bound : Nat} {error : SimulationError}
    (failed : rootStart d = .error error) : start d c bound s none = (s, .error error) := by
  simp only [start, Option.map_none, Option.getD_none, failed]

/-- Everything that can be done to a simulation from outside, with the configuration written in
between; an operation is over when the agenda is empty. A signal is for a scope of the simulation. -/
inductive Reached (d : Diagram) : ConfigStore → Simulation → Prop
  | empty (c : ConfigStore) : Reached d c .empty
  | configure {c : ConfigStore} {s : Simulation} (c' : ConfigStore) : Reached d c s → Reached d c' s
  | start {c : ConfigStore} {s : Simulation} {bound : Nat} {e : Option Element} :
      Reached d c s → (∀ x, e = some x → x ∈ d.nodes ∧ x.kind = .startEvent) →
        (s.start d c bound e).1.agenda = [] → Reached d c (s.start d c bound e).1
  | trigger {c : ConfigStore} {s : Simulation} {bound : Nat} {id : String} :
      Reached d c s → (s.trigger d c bound id).1.agenda = [] → Reached d c (s.trigger d c bound id).1
  | signal {c : ConfigStore} {s : Simulation} {bound : Nat} {i : ScopeId} :
      Reached d c s → i < s.scopes.length → (s.signalAndRun d c bound i).1.agenda = [] →
        Reached d c (s.signalAndRun d c bound i).1
  | reset {c : ConfigStore} {s : Simulation} : Reached d c s → Reached d c .empty

theorem sound_trigger (consistent : d.Consistent) (contained : d.StartsContained) (bound : Nat)
    (h : Sound d [] s.scopes s.agenda) (drained : s.agenda = []) (id : String) :
    Sound d [] (s.trigger d c bound id).1.scopes (s.trigger d c bound id).1.agenda := by
  rw [trigger]
  split
  next => exact h
  next e found =>
      split
      next i waiting =>
          have signalled := sound_signalAndRun (c := c) consistent bound h drained i
          split
          next _ _ result =>
              rw [result] at signalled
              exact signalled
          next _ _ result =>
              rw [result] at signalled
              exact signalled
      next =>
          split
          next kind =>
              have named : ∀ x, some e = some x → x ∈ d.nodes ∧ x.kind = .startEvent := by
                intro x same
                cases same
                exact ⟨consistent.mem_of_find? found (by rw [kind]; decide), kind⟩
              exact sound_start consistent (containsStart_of_named contained named) bound h drained
                named
          next => exact h

theorem Reached.sound (built : d.Built) (contained : d.StartsContained) (h : Reached d c s) :
    Sound d [] s.scopes s.agenda ∧ s.agenda = [] := by
  have consistent := built.consistent
  induction h with
  | empty c => exact ⟨.nil d, rfl⟩
  | configure c' _ ih => exact ih
  | start _ named drained ih =>
      have start := containsStart_of_named contained named
      exact ⟨sound_start consistent start _ ih.1 ih.2 named, drained⟩
  | trigger _ drained ih => exact ⟨sound_trigger consistent contained _ ih.1 ih.2 _, drained⟩
  | signal _ _ drained ih => exact ⟨sound_signalAndRun consistent _ ih.1 ih.2 _, drained⟩
  | reset _ _ => exact ⟨.nil d, rfl⟩

/-- A scope while nothing is left to be done: its marks agree with its state, and a live scope
has a running parent and a reason to be live. -/
structure AtRest (d : Diagram) (s : Simulation) (i : ScopeId) (x : Scope) : Prop where
  destroyed : x.destroyed = true ↔ x.state = .exited
  pending : x.pending = true ↔ x.state = .waiting
  parent : x.destroyed = false → ∀ p : ScopeId, x.parent = some p →
    ∃ y : Scope, s.scopes[p]? = some y ∧ y.destroyed = false ∧ y.state = .entered
  reason : x.destroyed = false → x.state = .waiting ∨
    (x.element.kind = .parallelGateway ∧ 1 < (d.incoming x.element).length ∧ x.state = .entered ∧
      ∃ p : ScopeId, x.parent = some p ∧
        (s.arrived p x.element.id).length < (d.incoming x.element).length) ∨
    (x.element.kind = .process ∨ x.element.kind = .participant ∨ x.element.kind = .subProcess) ∧
      ∃ (j : ScopeId) (y : Scope), s.scopes[j]? = some y ∧ y.parent = some i ∧ y.destroyed = false

section Rest

variable {i : Nat} {x : Scope}

/-- A join holds fewer tokens than it has incoming flows. -/
theorem length_arrived_lt_incoming (consistent : d.Consistent) (h : Sound d [] s.scopes s.agenda)
    (drained : s.agenda = []) {g : Element} (node : g ∈ d.nodes) (holds : d.HoldsAt g) (p : Nat) :
    (s.arrived p g.id).length < (d.incoming g).length := by
  apply h.held g p _ holds (Scopes.nodup_idsWhere _ _)
  intro j hj
  obtain ⟨y, hy, live, under, same, entered⟩ := mem_arrived.mp hj
  have there := ((h.formed.proper j y hy).nested (by rw [under]; simp)).1
  refine ⟨⟨y, hy, live, entered, under, consistent.eq_of_id there node same⟩, nofun, ?_⟩
  rw [drained]
  exact nofun

theorem length_arrived_lt (consistent : d.Consistent) (h : Sound d [] s.scopes s.agenda)
    (drained : s.agenda = []) (hx : s.scopes[i]? = some x) {p : Nat} (parent : x.parent = some p)
    (holds : d.HoldsAt x.element) :
    (s.arrived p x.element.id).length < (d.incoming x.element).length := by
  have inside := ((h.formed.proper i x hx).nested (by rw [parent]; simp)).1
  exact length_arrived_lt_incoming consistent h drained inside holds p

/-- A container with a live child is a subprocess or a root. -/
theorem container_of_child (h : Sound d [] s.scopes s.agenda) (hx : s.scopes[i]? = some x)
    (child : s.scopes.HasLiveChild i) :
    x.element.kind = .process ∨ x.element.kind = .participant ∨ x.element.kind = .subProcess := by
  obtain ⟨y, hy, _, _, container⟩ := h.formed.running_of_child child
  have one : y = x := Option.some.inj (hy.symm.trans hx)
  subst one
  cases container with
  | inl subProcess => exact .inr (.inr subProcess)
  | inr root =>
      cases (h.formed.proper i y hx).root root with
      | inl process => exact .inl process
      | inr participant => exact .inr (.inl participant)

/-- Without flows into processes, a process or a participant is a root. -/
theorem parent_eq_none (consistent : d.Consistent)
    (unentered : ∀ f ∈ d.flows, f.target.kind ≠ .process) (h : Sound d [] s.scopes s.agenda)
    (hx : s.scopes[i]? = some x)
    (kind : x.element.kind = .process ∨ x.element.kind = .participant) : x.parent = none := by
  by_cases root : x.parent = none
  · exact root
  · obtain ⟨_, origin⟩ := (h.formed.proper i x hx).nested root
    cases origin with
    | inl start =>
        rw [start] at kind
        exact absurd kind (by decide)
    | inr flow =>
        obtain ⟨f, hf, target⟩ := flow
        rw [← target] at kind
        cases kind with
        | inl process => exact absurd process (unentered f hf)
        | inr participant => exact absurd participant (consistent.targetKind f hf)

theorem atRest_of_sound (consistent : d.Consistent)
    (unentered : ∀ f ∈ d.flows, f.target.kind ≠ .process) (h : Sound d [] s.scopes s.agenda)
    (drained : s.agenda = []) (hx : s.scopes[i]? = some x) : AtRest d s i x := by
  have proper := h.formed.proper i x hx
  have settled := h.settled i x hx nofun (by rw [drained]; exact nofun)
  refine ⟨⟨proper.destroyed, ?_⟩, proper.pending, ?_, ?_⟩
  · intro exited
    obtain gone | waiting | entered := settled
    · exact gone
    · cases exited.symm.trans waiting
    · cases exited.symm.trans entered.1
  · intro live p parent
    obtain ⟨_, y, hy, inside⟩ := h.formed.inside i x p hx parent
    exact ⟨y, hy, inside.running live⟩
  · intro live
    obtain gone | waiting | ⟨entered, held | child | sunk⟩ := settled
    · cases live.symm.trans gone
    · exact .inl waiting
    · cases parent : x.parent with
      | none =>
          have root := proper.root parent
          rw [held.1] at root
          exact absurd root (by decide)
      | some p =>
          exact .inr (.inl ⟨held.1, held.2, entered, p, rfl,
            length_arrived_lt consistent h drained hx parent held⟩)
    · obtain ⟨j, y, hy, under, running⟩ := child
      exact .inr (.inr ⟨container_of_child h hx ⟨j, y, hy, under, running⟩, j, y, hy, under, running⟩)
    · exact absurd (parent_eq_none consistent unentered h hx sunk.1) sunk.2

theorem exists_live_root (h : Sound d [] s.scopes s.agenda) (hx : s.scopes[i]? = some x)
    (live : x.destroyed = false) : ∃ y ∈ s.scopes, y.parent = none ∧ y.destroyed = false := by
  induction i using Nat.strongRecOn generalizing x with
  | _ i ih =>
      cases parent : x.parent with
      | none => exact ⟨x, List.mem_of_getElem? hx, parent, live⟩
      | some p =>
          obtain ⟨earlier, y, hy, inside⟩ := h.formed.inside i x p hx parent
          exact ih p earlier hy (inside.running live).1

theorem isFinished_iff (h : Sound d [] s.scopes s.agenda) :
    s.isFinished = true ↔ s.scopes ≠ [] ∧ ∀ x ∈ s.scopes, x.destroyed = true := by
  have roots : s.isFinished = true ↔ (∃ x ∈ s.scopes, x.parent = none) ∧
      ∀ x ∈ s.scopes, x.parent = none → x.destroyed = true := by
    simp [isFinished, List.all_eq_true, or_iff_not_imp_left]
  rw [roots]
  constructor
  · intro finished
    obtain ⟨⟨x, hx, _⟩, done⟩ := finished
    refine ⟨List.ne_nil_of_mem hx, ?_⟩
    intro y hy
    by_cases live : y.destroyed = false
    · obtain ⟨i, found⟩ := List.mem_iff_getElem?.mp hy
      obtain ⟨z, hz, root, running⟩ := exists_live_root h found live
      cases running.symm.trans (done z hz root)
    · simpa using live
  · intro ended
    obtain ⟨made, done⟩ := ended
    refine ⟨?_, fun x hx _ => done x hx⟩
    cases scopes : s.scopes with
    | nil => exact absurd scopes made
    | cons first rest =>
        refine ⟨first, List.mem_cons_self, ?_⟩
        have hx : s.scopes[0]? = some first := by rw [scopes]; rfl
        cases parent : first.parent with
        | none => rfl
        | some p => exact absurd (h.formed.inside 0 first p hx parent).1 (Nat.not_lt_zero p)

end Rest

/-- No token is lost or stuck: in whatever order a simulation is operated, once it is drained every
scope is at rest, and it is finished when scopes were made and none of them is live. -/
theorem Reached.atRest (built : d.Built) (contained : d.StartsContained)
    (unentered : ∀ f ∈ d.flows, f.target.kind ≠ .process) (h : Reached d c s) :
    (∀ (i : ScopeId) (x : Scope), s.scopes[i]? = some x → AtRest d s i x) ∧
      (s.isFinished = true ↔ s.scopes ≠ [] ∧ ∀ x ∈ s.scopes, x.destroyed = true) := by
  obtain ⟨sound, drained⟩ := h.sound built contained
  refine ⟨?_, isFinished_iff sound⟩
  intro i x hx
  exact atRest_of_sound built.consistent unentered sound drained hx

/-- Both tasks of a pair wait for a signal. -/
def twinConfig : ConfigStore :=
  ⟨[("a", ⟨true, false, none⟩), ("b", ⟨true, false, none⟩)]⟩

def twinStarted : Simulation :=
  (empty.start .twin twinConfig 20 none).1

theorem reached_twin : Reached .twin twinConfig twinStarted :=
  .start (.empty twinConfig) (by simp) (by decide +kernel)

/-- One token still waits, the other is held at the join. -/
def twinHeld : Simulation :=
  (signalAndRun .twin twinConfig 20 twinStarted 4).1

theorem reached_twinHeld : Reached .twin twinConfig twinHeld :=
  .signal reached_twin (by decide +kernel) (by decide +kernel)

theorem atRest_twin :
    (twinHeld.scopes.filter (!·.destroyed)).map (fun x => (x.element.id, x.state))
        = [("p", .entered), ("a", .waiting), ("j", .entered)] ∧
      (∀ (i : ScopeId) (x : Scope), twinHeld.scopes[i]? = some x → AtRest .twin twinHeld i x) ∧
      (twinHeld.isFinished = true ↔
        twinHeld.scopes ≠ [] ∧ ∀ x ∈ twinHeld.scopes, x.destroyed = true) :=
  ⟨by decide +kernel,
    reached_twinHeld.atRest Diagram.built_twin (by unfold Diagram.StartsContained; decide)
      (by decide)⟩

end Simulation
end ProcessDiagram
