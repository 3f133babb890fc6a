import ProcessDiagram.Proofs.Simulation.Turns

/-!
What reaches a simulation from outside: a waiting scope is signalled, or a token is put on a start
event. Each is one change of a drained simulation, after which the agenda is run. Main statement:
`Persists.reached`, what changes and turns keep holds in whatever order a simulation is operated.
-/
namespace ProcessDiagram

theorem Queued.of_nil (scopes : Scopes) : Queued scopes [] := by
  refine ⟨fun _ => List.not_mem_nil, scopes.length, Nat.le_refl _, ?_⟩
  rw [Nat.sub_self]
  rfl

namespace Simulation

variable {d : Diagram} {c : ConfigStore} {s s' : Simulation} {i : Nat} {x : Scope}

/-! ## Signals -/

/-- A waiting scope is running again, and goes on. -/
structure Resumes (d : Diagram) (s : Simulation) (i : Nat) (x : Scope) (s₁ s' : Simulation) :
    Prop where
  found : s.scopes[i]? = some x
  live : x.destroyed = false
  pending : x.pending = true
  change : Change s s₁ (s.scopes.modify i Scope.resume) [] s.exitCounts
    [⟨.signal, x.element.id, i⟩]
  ready : Ready s₁.scopes i x.resume
  proceeds : Proceeds s₁ i x.resume (d.passed x.element) s'

theorem resumes_signalAndRun (h : Sound d [] s.scopes s.agenda) (drained : s.agenda = [])
    (hx : s.scopes[i]? = some x) (live : x.destroyed = false) (pending : x.pending = true) :
    ∃ s₁ s', Resumes d s i x s₁ s' ∧ Sound d [] s'.scopes s'.agenda ∧ Queued s'.scopes s'.agenda ∧
      (∀ c : ConfigStore, (signalAndRun d c 0 s i).1.agenda ≠ []) ∧
      ∀ (c : ConfigStore) (bound : Nat),
        signalAndRun d c (bound + 1) s i = settle d c bound s' () := by
  rw [drained] at h
  obtain ⟨s₀, signalled, change⟩ := Change.signal hx live pending
  obtain ⟨sound, ready⟩ := sound_resume h hx live pending
  have agenda : s₀.agenda = [.signal i] := by rw [change.agenda, drained, List.nil_append]
  let s₁ : Simulation := { s₀ with agenda := [] }
  rw [← change.scopes] at sound ready
  have resumed : Change s s₁ (s.scopes.modify i Scope.resume) [] s.exitCounts
      [⟨.signal, x.element.id, i⟩] :=
    ⟨change.scopes, by rw [drained]; rfl, change.exitCounts, change.events⟩
  have proceeds : Proceeds s₁ i x.resume (d.passed x.element) (onSignal d s₁ i x.resume) :=
    proceeds_onSignal (s := s₁) ready
  refine ⟨s₁, onSignal d s₁ i x.resume, ⟨hx, live, pending, resumed, ready, proceeds⟩,
    sound_onSignal (s := s₁) sound ready, proceeds.queued (.of_nil _), ?_, ?_⟩
  · intro c
    rw [signalAndRun, signalled]
    simp only [settle, drain, agenda, List.isEmpty_cons, Bool.false_eq_true, if_false]
    exact List.cons_ne_nil _ _
  · intro c bound
    have there : s₁.scopes[i]? = some x.resume := ready.found
    have run : runTask d c s₁ (.signal i) = .ok (onSignal d s₁ i x.resume) := by
      simp only [runTask, there]
    rw [signalAndRun, signalled]
    simp only [settle, drain_of_cons agenda run]

theorem settle_of_ended {α : Type} (consistent : d.Consistent) (bound : Nat) (value : α)
    (h : Sound d [] s.scopes s.agenda) (ended : (drain d c bound s).1.agenda = []) :
    settle d c bound s value = ((drain d c bound s).1, .ok value) := by
  have through : (drain d c bound s).2 = none :=
    (sound_drain consistent bound h).2.resolve_right fun unfinished => unfinished.2 ended
  rw [settle]
  cases result : drain d c bound s with
  | mk t error =>
      rw [result] at through
      cases through
      rfl

theorem state_of_isWaiting (h : Sound d [] s.scopes s.agenda) (hx : s.scopes[i]? = some x)
    (waiting : x.isWaiting = true) :
    x.state = .waiting ∧ x.pending = true ∧ x.destroyed = false := by
  obtain ⟨state, pending⟩ : x.state = .waiting ∧ x.pending = true := by
    simpa [Scope.isWaiting] using waiting
  refine ⟨state, pending, ?_⟩
  cases gone : x.destroyed with
  | false => rfl
  | true => cases ((h.formed.proper i x hx).destroyed gone).symm.trans state

/-- A waiting scope that is signalled goes on, and what follows is a run of the agenda. -/
theorem resumes_of_ended (consistent : d.Consistent) {bound : Nat}
    (h : Sound d [] s.scopes s.agenda) (drained : s.agenda = []) (hx : s.scopes[i]? = some x)
    (live : x.destroyed = false) (pending : x.pending = true)
    (ended : (signalAndRun d c bound s i).1.agenda = []) :
    ∃ s₁ s' n, Resumes d s i x s₁ s' ∧ Sound d [] s'.scopes s'.agenda ∧
      Queued s'.scopes s'.agenda ∧ signalAndRun d c bound s i = ((drain d c n s').1, .ok ()) := by
  obtain ⟨s₁, s', resumes, sound, queued, unfinished, run⟩ :=
    resumes_signalAndRun h drained hx live pending
  cases bound with
  | zero => exact absurd ended (unfinished c)
  | succ n =>
      rw [run, fst_settle] at ended
      exact ⟨s₁, s', n, resumes, sound, queued,
        (run c n).trans (settle_of_ended consistent n () sound ended)⟩

theorem Resumes.waiting (consistent : d.Consistent) {s₁ : Simulation}
    (resumes : Resumes d s i x s₁ s') (sound : Sound d [] s'.scopes s'.agenda)
    (queued : Queued s'.scopes s'.agenda) (bound : Nat) {j : Nat} {y : Scope} (other : i ≠ j)
    (hy : s.scopes[j]? = some y) (waiting : y.state = .waiting) :
    (drain d c bound s').1.scopes[j]? = some y := by
  apply turns_drain (P := fun s => s.scopes[j]? = some y) consistent _ bound sound queued
  · apply resumes.proceeds.others other
    rw [resumes.change.scopes, Scopes.getElem?_modify_other other, hy]
  · intro s t s' _ _ turn hy
    exact turn.waiting hy waiting

theorem signalAndRun_of_refused (bound : Nat) (drained : s.agenda = [])
    (idle : ¬ ∃ x, s.scopes[i]? = some x ∧ x.destroyed = false ∧ x.pending = true) :
    (signalAndRun d c bound s i).1 = s := by
  rw [signalAndRun, signal]
  cases hx : s.scopes[i]? with
  | none => simp only [settle, drain_of_empty drained]
  | some x =>
      have stays : x.destroyed = true ∨ (!x.pending) = true := by
        cases gone : x.destroyed with
        | true => exact .inl rfl
        | false =>
            rw [not_exists] at idle
            simpa [hx, gone] using idle x
      simp only [if_pos stays]

/-! ## Starts -/

/-- A token is put on a start event, inside a running scope or below a new root. -/
inductive Opens (d : Diagram) (s : Simulation) (e : Element) : Simulation → Prop
  | inside {p : Nat} {y : Scope} {s' : Simulation} :
      s.scopes[p]? = some y → y.destroyed = false → y.state = .entered →
      Change s s' (s.scopes ++ [Scope.enter e (some p)]) [.enter s.scopes.length] s.exitCounts
        [⟨.enter, e.id, s.scopes.length⟩] → Opens d s e s'
  | below {root : Element} {s₁ s' : Simulation} : root ∈ d.root :: d.nodes →
      root.kind = .process ∨ root.kind = .participant →
      Change s s₁ (s.scopes ++ [Scope.enter root none]) [] s.exitCounts
        [⟨.enter, root.id, s.scopes.length⟩] →
      Change s₁ s' (s₁.scopes ++ [Scope.enter e (some s.scopes.length)]) [.enter s₁.scopes.length]
        s₁.exitCounts [⟨.enter, e.id, s₁.scopes.length⟩] → Opens d s e s'

theorem Change.create (e : Element) (parent : Option Nat) :
    Change s (s.create e parent) (s.scopes ++ [Scope.enter e parent]) [] s.exitCounts
      [⟨.enter, e.id, s.scopes.length⟩] :=
  ⟨rfl, (List.append_nil _).symm, rfl, events_record { s with scopes := _ } ..⟩

theorem Opens.queued {e : Element} (opens : Opens d s e s') (drained : s.agenda = []) :
    Queued s'.scopes s'.agenda := by
  cases opens with
  | @inside p _ _ _ _ _ change =>
      rw [change.scopes, change.agenda, drained]
      exact (Queued.of_nil s.scopes).enterAll [e] (some p)
  | @below _ s₁ _ _ _ made change =>
      rw [change.scopes, change.agenda, made.agenda, drained]
      exact (Queued.of_nil s₁.scopes).enterAll [e] (some s.scopes.length)

/-- The scope in which a token is put on a start event: the first running one of the subprocess that
the event is in. Elsewhere a root is made for it. -/
def host? (d : Diagram) (s : Simulation) (e : Element) : Option ScopeId :=
  (e.parent.bind d.find?).bind fun container =>
    if container.kind = .subProcess then (s.scopes.ofElementIn container.id .entered).head?
    else none

/-- A start is refused, or a token is put on a start event, in its host if it has one, and the
agenda is run. -/
theorem opens_in_host (consistent : d.Consistent) {e : Option Element}
    (contained : d.ContainsStart e) (bound : Nat) (h : Sound d [] s.scopes s.agenda)
    (drained : s.agenda = [])
    (named : ∀ x, e = some x → x ∈ d.nodes ∧ x.kind = .startEvent) :
    (start d c bound s e).1 = s ∨ ∃ first s', (e.map Except.ok).getD (rootStart d) = .ok first ∧
      Opens d s first s' ∧ s'.scopes[s.scopes.length]?.map (·.parent) = some (s.host? d first) ∧
        Sound d [] s'.scopes s'.agenda ∧ (start d c bound s e).1 = (drain d c bound s').1 := by
  rw [start]
  split
  next => exact .inl rfl
  next first chosen =>
      obtain ⟨node, kind⟩ := startEvent_of_start named chosen
      split
      next => exact .inl rfl
      next container around =>
          have allowed := contained first chosen container around
          have noted := Change.note (s := s) (n := .started first.id container.id) rfl
          have host : s.host? d first = if container.kind = .subProcess then
              (s.scopes.ofElementIn container.id .entered).head? else none := by
            rw [host?, around, Option.bind_some]
          rw [openContainer]
          by_cases nested : container.kind = .subProcess
          · rw [if_pos nested] at host ⊢
            cases running : s.scopes.ofElementIn container.id .entered with
            | nil => exact .inl rfl
            | cons p others =>
                obtain ⟨y, hy, live, entered, inner⟩ :=
                  running_of_ofElementIn consistent h around nested (running ▸ List.mem_cons_self)
                refine .inr ⟨first, _, chosen, ?_, ?_, ?_, fst_settle bound _⟩
                · exact .inside hy live entered (noted.trans (.enter first (some p)))
                · rw [host, running, List.head?_cons]
                  exact congrArg _ (Scopes.getElem?_append_new s.scopes (.enter first (some p)))
                · apply h.addChild hy live entered inner _ node (.inl kind) (by simp)
                  rw [drained]
                  exact List.not_mem_nil
          · rw [if_neg nested] at host ⊢
            have top : container.kind = .process ∨ container.kind = .participant := by
              cases allowed with
              | inl process => exact .inl process
              | inr other => exact .inr (other.resolve_right nested)
            refine .inr ⟨first, _, chosen, ?_, ?_, sound_enterRoot h top node kind,
              fst_settle bound _⟩
            · obtain ⟨_, _, found⟩ := Option.bind_eq_some_iff.mp around
              exact .below (List.mem_cons.mpr (Diagram.Consistent.of_find? found)) top
                ((Change.create container none).trans (.note rfl)) (.enter first _)
            · have root := Scopes.getElem?_append_new s.scopes (Scope.enter container none)
              rw [host]
              exact congrArg _
                (Scopes.getElem?_append_old root (.enter first (some s.scopes.length)))

theorem opens_start (consistent : d.Consistent) {e : Option Element}
    (contained : d.ContainsStart e) (bound : Nat) (h : Sound d [] s.scopes s.agenda)
    (drained : s.agenda = [])
    (named : ∀ x, e = some x → x ∈ d.nodes ∧ x.kind = .startEvent) :
    (start d c bound s e).1 = s ∨ ∃ first s', first ∈ d.nodes ∧ first.kind = .startEvent ∧
      Opens d s first s' ∧ Sound d [] s'.scopes s'.agenda ∧
        (start d c bound s e).1 = (drain d c bound s').1 := by
  refine (opens_in_host (c := c) consistent contained bound h drained named).imp_right ?_
  intro ⟨first, s', chosen, opens, _, sound, run⟩
  obtain ⟨node, kind⟩ := startEvent_of_start named chosen
  exact ⟨first, s', node, kind, opens, sound, run⟩

/-- A trigger is refused, or it is a signal or a start. -/
theorem trigger_cases (consistent : d.Consistent) (bound : Nat) (s : Simulation) (id : String) :
    (s.trigger d c bound id).1 = s ∨
      (∃ i, (s.trigger d c bound id).1 = (signalAndRun d c bound s i).1) ∨
      ∃ e ∈ d.nodes, e.kind = .startEvent ∧
        (s.trigger d c bound id).1 = (s.start d c bound (some e)).1 := by
  rw [trigger]
  split
  next => exact .inl rfl
  next e found =>
      split
      next i _ =>
          refine .inr (.inl ⟨i, ?_⟩)
          split <;> (next result => rw [result])
      next =>
          split
          next kind =>
              exact .inr (.inr ⟨e, consistent.mem_of_find? found (by rw [kind]; decide), kind, rfl⟩)
          next => exact .inl rfl

/-! ## Whole courses of operation -/

/-- Kept under a configuration by every turn, with the tasks still to come in view, and by everything
from outside, which comes when the agenda is empty. Only some elements are signalled. -/
structure Sustains (d : Diagram) (c : ConfigStore) (allowed : Element → Prop)
    (P : Simulation → Prop) : Prop where
  turn : ∀ (s : Simulation) (t : Task) (s' : Simulation),
    Sound d [] s.scopes (t :: s.agenda) → Turn d c s t s' → P { s with agenda := t :: s.agenda } →
      P s'
  resumes : ∀ (s : Simulation) (i : Nat) (x : Scope) (s₁ s' : Simulation),
    Sound d [] s.scopes s.agenda → s.agenda = [] → allowed x.element → Resumes d s i x s₁ s' →
      P s → P s'
  opens : ∀ (s : Simulation) (e : Element) (s' : Simulation),
    e ∈ d.nodes → e.kind = .startEvent → s.agenda = [] → Opens d s e s' → P s → P s'

namespace Sustains

variable {allowed : Element → Prop} {P : Simulation → Prop}

theorem drain (h : Sustains d c allowed P) (consistent : d.Consistent) (bound : Nat)
    (sound : Sound d [] s.scopes s.agenda) (queued : Queued s.scopes s.agenda) (hs : P s) :
    P (drain d c bound s).1 := by
  apply turns_drain consistent _ bound sound queued hs
  intro s t s' sound _ turn hs
  exact h.turn s t s' sound turn hs

theorem start (h : Sustains d c allowed P) (consistent : d.Consistent) {e : Option Element}
    (contained : d.ContainsStart e) (bound : Nat) (sound : Sound d [] s.scopes s.agenda)
    (drained : s.agenda = []) (named : ∀ x, e = some x → x ∈ d.nodes ∧ x.kind = .startEvent)
    (hs : P s) : P (s.start d c bound e).1 := by
  cases opens_start (c := c) consistent contained bound sound drained named with
  | inl refused =>
      rw [refused]
      exact hs
  | inr opened =>
      obtain ⟨first, s', node, kind, opens, sound', run⟩ := opened
      rw [run]
      exact h.drain consistent bound sound' (opens.queued drained)
        (h.opens s first s' node kind drained opens hs)

theorem signal (h : Sustains d c allowed P) (consistent : d.Consistent) (bound : Nat)
    (sound : Sound d [] s.scopes s.agenda) (drained : s.agenda = []) {i : Nat}
    (named : ∀ x, s.scopes[i]? = some x → allowed x.element)
    (ended : (signalAndRun d c bound s i).1.agenda = []) (hs : P s) :
    P (signalAndRun d c bound s i).1 := by
  by_cases waits : ∃ x, s.scopes[i]? = some x ∧ x.destroyed = false ∧ x.pending = true
  · obtain ⟨x, hx, live, pending⟩ := waits
    obtain ⟨s₁, s', n, resumes, sound', queued, run⟩ :=
      resumes_of_ended consistent sound drained hx live pending ended
    rw [run]
    exact h.drain consistent n sound' queued
      (h.resumes s i x s₁ s' sound drained (named x hx) resumes hs)
  · rw [signalAndRun_of_refused bound drained waits]
    exact hs

end Sustains

/-- What holds of the empty simulation is kept under every configuration, whatever is signalled. -/
structure Endures (d : Diagram) (P : Simulation → Prop) : Prop where
  empty : P .empty
  turn : ∀ (c : ConfigStore) (s : Simulation) (t : Task) (s' : Simulation),
    Sound d [] s.scopes (t :: s.agenda) → Turn d c s t s' → P { s with agenda := t :: s.agenda } →
      P s'
  resumes : ∀ (s : Simulation) (i : Nat) (x : Scope) (s₁ s' : Simulation),
    Sound d [] s.scopes s.agenda → s.agenda = [] → Resumes d s i x s₁ s' → P s → P s'
  opens : ∀ (s : Simulation) (e : Element) (s' : Simulation),
    e ∈ d.nodes → e.kind = .startEvent → s.agenda = [] → Opens d s e s' → P s → P s'

namespace Endures

variable {P : Simulation → Prop}

theorem sustains (h : Endures d P) (c : ConfigStore) (allowed : Element → Prop) :
    Sustains d c allowed P :=
  ⟨h.turn c, fun s i x s₁ s' sound drained _ => h.resumes s i x s₁ s' sound drained, h.opens⟩

theorem trigger (h : Endures d P) (consistent : d.Consistent) (contained : d.StartsContained)
    (bound : Nat) (sound : Sound d [] s.scopes s.agenda) (drained : s.agenda = []) (id : String)
    (ended : (s.trigger d c bound id).1.agenda = []) (hs : P s) :
    P (s.trigger d c bound id).1 := by
  obtain same | ⟨i, same⟩ | ⟨e, node, kind, same⟩ := trigger_cases (c := c) consistent bound s id
  · rw [same]
    exact hs
  · rw [same] at ended ⊢
    exact (h.sustains c fun _ => True).signal consistent bound sound drained (fun _ _ => trivial)
      ended hs
  · have named : ∀ x, some e = some x → x ∈ d.nodes ∧ x.kind = .startEvent := by
      intro x hx
      cases hx
      exact ⟨node, kind⟩
    rw [same]
    exact (h.sustains c fun _ => True).start consistent (containsStart_of_named contained named)
      bound sound drained named hs

/-- What endures holds in whatever order a simulation is operated. -/
theorem reached (h : Endures d P) (built : d.Built) (contained : d.StartsContained)
    (reached : Reached d c s) : P s := by
  have consistent := built.consistent
  induction reached with
  | empty c => exact h.empty
  | configure c' _ ih => exact ih
  | start before named _ ih =>
      obtain ⟨sound, drained⟩ := before.sound built contained
      exact (h.sustains _ fun _ => True).start consistent (containsStart_of_named contained named) _
        sound drained named ih
  | trigger before ended ih =>
      obtain ⟨sound, drained⟩ := before.sound built contained
      exact h.trigger consistent contained _ sound drained _ ended ih
  | signal before _ ended ih =>
      obtain ⟨sound, drained⟩ := before.sound built contained
      exact (h.sustains _ fun _ => True).signal consistent _ sound drained (fun _ _ => trivial) ended
        ih
  | reset _ _ => exact h.empty

end Endures

/-- What holds of the empty simulation is kept by every turn and everything from outside, whatever
is still to come. -/
structure Persists (d : Diagram) (P : Simulation → Prop) : Prop where
  empty : P .empty
  agenda : ∀ (s : Simulation) (tasks : List Task), P s → P { s with agenda := tasks }
  turn : ∀ (c : ConfigStore) (s : Simulation) (t : Task) (s' : Simulation),
    Sound d [] s.scopes (t :: s.agenda) → Turn d c s t s' → P s → P s'
  resumes : ∀ (s : Simulation) (i : Nat) (x : Scope) (s₁ s' : Simulation),
    Sound d [] s.scopes s.agenda → Resumes d s i x s₁ s' → P s → P s'
  opens : ∀ (s : Simulation) (e : Element) (s' : Simulation),
    e ∈ d.nodes → e.kind = .startEvent → Opens d s e s' → P s → P s'

theorem Persists.endures {P : Simulation → Prop} (h : Persists d P) : Endures d P := by
  constructor
  case empty => exact h.empty
  case turn =>
    intro c s t s' sound turn hs
    exact h.turn c s t s' sound turn (h.agenda { s with agenda := t :: s.agenda } s.agenda hs)
  case resumes => exact fun s i x s₁ s' sound _ resumes hs => h.resumes s i x s₁ s' sound resumes hs
  case opens => exact fun s e s' node kind _ opens hs => h.opens s e s' node kind opens hs

theorem Persists.reached {P : Simulation → Prop} (h : Persists d P) (built : d.Built)
    (contained : d.StartsContained) (reached : Reached d c s) : P s :=
  h.endures.reached built contained reached

end Simulation
end ProcessDiagram
