import ProcessDiagram.Proofs.Simulation.Drained
import ProcessDiagram.Proofs.Simulation.Ledger

/-!
A single token on its way through a process. It goes along one flow at a time until it waits, and at
an end event the process is over with it.
-/
namespace ProcessDiagram.Simulation

variable {d : Diagram} {c : ConfigStore} {s : Simulation} {root : Element} {w : Nat} {x : Scope}

/-- Only the root and the scope of one token below it are live. -/
structure Lone (root : Element) (s : Simulation) (w : Nat) (x : Scope) : Prop where
  token : s.scopes[w]? = some x
  live : x.destroyed = false
  parent : x.parent = some 0
  top : ∃ y : Scope, s.scopes[0]? = some y ∧ y.element = root ∧ y.destroyed = false ∧
    y.state = .entered ∧ y.parent = none
  others : ∀ (i : Nat) (y : Scope), s.scopes[i]? = some y → i ≠ 0 → i ≠ w → y.destroyed = true

/-- No scope is live. -/
def Over (s : Simulation) : Prop :=
  ∀ (i : Nat) (y : Scope), s.scopes[i]? = some y → y.destroyed = true

/-- An element has exited once more. -/
def Counted (s s' : Simulation) (e : Element) : Prop :=
  ∀ id : String, s'.exitCount id = s.exitCount id + if e.id = id then 1 else 0

theorem exitCount_countUp (s' : Simulation) {e : Element}
    (counts : s'.exitCounts = countUp e.id s.exitCounts) : Counted s s' e := by
  intro id
  rw [exitCount, counts]
  exact lookup_countUp e.id id s.exitCounts

theorem onExit_of_only {f : Flow} (only : d.outgoing x.element = [f])
    (inner : x.element.kind ≠ .endEvent ∧ x.element.kind ≠ .process ∧
      x.element.kind ≠ .participant) (s : Simulation) (i : Nat) :
    onExit d c s i x = s.enterAll [f] x.parent := by
  rw [onExit]
  split
  next kind => exact absurd kind inner.1
  next kind => exact absurd kind inner.2.1
  next kind => exact absurd kind inner.2.2
  next => rw [leaveExclusive, only]
  next => rw [only]

theorem onExit_of_active {f : Flow} (kind : x.element.kind = .exclusiveGateway)
    (leaves : f ∈ d.outgoing x.element) (active : (c.get x.element).activeOutgoing = some f)
    (s : Simulation) (i : Nat) : onExit d c s i x = s.enterAll [f] x.parent := by
  simp only [onExit, kind]
  rw [leaveExclusive]
  split
  next flow only =>
      rw [only, List.mem_singleton] at leaves
      rw [leaves]
  next =>
      split
      next flow chosen =>
          have same := List.find?_some chosen
          rw [active, beq_iff_eq, Option.some.injEq] at same
          rw [same]
      next none =>
          have other := List.find?_eq_none.mp none f leaves
          rw [active, beq_self_eq_true] at other
          exact absurd rfl other

theorem tryExit_of_ready {p : Nat} {y : Scope} (ready : Ready s.scopes p y) :
    s.tryExit p = s.exit p := by
  have alone := Scopes.isEmpty_liveChildren.mpr ready.childless
  rw [tryExit, ready.found]
  simp only [ready.live, ready.entered, alone, ne_eq, not_true_eq_false, Bool.not_true,
    Bool.false_eq_true, or_self, if_false]

namespace Lone

theorem ne_root (h : Lone root s w x) : w ≠ 0 := by
  intro same
  subst same
  obtain ⟨y, hy, _, _, _, none⟩ := h.top
  rw [Option.some.inj (hy.symm.trans h.token), h.parent] at none
  cases none

theorem modify (h : Lone root s w x) {f : Scope → Scope} (live : (f x).destroyed = false)
    (parent : (f x).parent = some 0) {s' : Simulation} (scopes : s'.scopes = s.scopes.modify w f) :
    Lone root s' w (f x) := by
  obtain ⟨y, hy, above⟩ := h.top
  refine ⟨?_, live, parent, ⟨y, ?_, above⟩, ?_⟩
  · rw [scopes, Scopes.getElem?_modify_self h.token]
  · rw [scopes, Scopes.getElem?_modify_other h.ne_root, hy]
  · intro i z hz outer apart
    rw [scopes, Scopes.getElem?_modify_other (Ne.symm apart)] at hz
    exact h.others i z hz outer apart

theorem ready (h : Lone root s w x) (entered : x.state = .entered) : Ready s.scopes w x := by
  refine ⟨h.token, h.live, entered, ?_⟩
  intro child
  obtain ⟨j, y, hy, under, live⟩ := child
  by_cases outer : j = 0
  · subst outer
    obtain ⟨z, hz, _, _, _, none⟩ := h.top
    rw [Option.some.inj (hy.symm.trans hz), none] at under
    cases under
  · by_cases same : j = w
    · subst same
      rw [Option.some.inj (hy.symm.trans h.token), h.parent, Option.some.injEq] at under
      exact outer under.symm
    · rw [h.others j y hy outer same] at live
      cases live

theorem leave (h : Lone root s w x) {f : Flow}
    (goes : onExit d c s w x = s.enterAll [f] x.parent) :
    Lone root (finishExit d c s w x) s.scopes.length (Scope.enter f.target (some 0)) ∧
      (finishExit d c s w x).agenda = s.agenda ++ [.enter s.scopes.length] ∧
        (finishExit d c s w x).exitCounts = s.exitCounts := by
  obtain ⟨y, hy, own, live, entered, none⟩ := h.top
  have below := (List.getElem?_eq_some_iff.mp h.token).1
  have fresh := Scopes.getElem?_append_new s.scopes (Scope.enter f.target (some 0))
  have left : (onExit d c s w x).destroy w = (s.enter f.target (some 0)).destroy w := by
    rw [goes, h.parent]
    rfl
  have scopes : ((s.enter f.target (some 0)).destroy w).scopes
      = (s.scopes ++ [Scope.enter f.target (some 0)]).modify w Scope.destroy := rfl
  have atRoot : ((s.enter f.target (some 0)).destroy w).scopes[0]? = some y := by
    rw [scopes, Scopes.getElem?_modify_other h.ne_root]
    exact Scopes.getElem?_append_old hy _
  have atNew : ((s.enter f.target (some 0)).destroy w).scopes[s.scopes.length]?
      = some (Scope.enter f.target (some 0)) := by
    rw [scopes, Scopes.getElem?_modify_other (Nat.ne_of_lt below), fresh]
  have stays : finishExit d c s w x = (s.enter f.target (some 0)).destroy w := by
    have child : ((s.enter f.target (some 0)).destroy w).scopes.HasLiveChild 0 :=
      ⟨s.scopes.length, _, atNew, rfl, rfl⟩
    have kept : (((s.enter f.target (some 0)).destroy w).scopes.liveChildren 0).isEmpty = false := by
      rw [Bool.eq_false_iff]
      intro none
      exact Scopes.isEmpty_liveChildren.mp none child
    simp only [Simulation.finishExit, h.parent]
    rw [left, tryExit, atRoot]
    simp only [kept, Bool.not_false, or_true, if_true]
  rw [stays]
  refine ⟨⟨atNew, rfl, rfl, ⟨y, atRoot, own, live, entered, none⟩, ?_⟩, rfl, rfl⟩
  intro i z hz outer apart
  rw [scopes] at hz
  by_cases same : w = i
  · subst same
    rw [Scopes.getElem?_modify_self (Scopes.getElem?_append_old h.token _)] at hz
    rw [← Option.some.inj hz]
    rfl
  · rw [Scopes.getElem?_modify_other same] at hz
    cases Scopes.getElem?_append_cases hz with
    | inl old => exact h.others i z old outer (Ne.symm same)
    | inr new => exact absurd new.1 apart

theorem passOn (h : Lone root s w x) (entered : x.state = .entered) (quiet : s.agenda = []) {f : Flow}
    (goes : ∀ s, onExit d c s w x.leave = s.enterAll [f] x.parent) :
    ∃ s', (∀ bound, drain d c (bound + 1) (s.exit w) = drain d c bound s') ∧
      Lone root s' s.scopes.length (Scope.enter f.target (some 0)) ∧
        s'.agenda = [.enter s.scopes.length] ∧ Counted s s' x.element := by
  have effect := Effect.exit_of_ready (h.ready entered)
  have exited := h.modify (f := Scope.leave) h.live h.parent effect.scopes
  have agenda : (s.exit w).agenda = .finishExit w :: [] := by rw [effect.agenda, quiet]; rfl
  have taken : Lone root { s.exit w with agenda := [] } w x.leave :=
    ⟨exited.token, exited.live, exited.parent, exited.top, exited.others⟩
  have size : (s.exit w).scopes.length = s.scopes.length := by
    rw [effect.scopes, List.length_modify]
  obtain ⟨next, queued, counts⟩ := taken.leave (goes _)
  refine ⟨Simulation.finishExit d c { s.exit w with agenda := [] } w x.leave, ?_, ?_, ?_, ?_⟩
  · intro bound
    apply drain_of_cons agenda
    simp only [runTask, taken.token]
  · rw [← size]
    exact next
  · rw [← size]
    exact queued
  · apply exitCount_countUp
    rw [counts]
    exact effect.exitCounts

theorem hold (h : Lone root s w x) (turn : s.agenda = [.enter w])
    (kind : x.element.kind = .task ∨ x.element.kind = .exclusiveGateway)
    (waits : (c.get x.element).wait = true) :
    ∃ s', (∀ bound, drain d c (bound + 1) s = (s', none)) ∧ Lone root s' w x.suspend ∧
      s'.agenda = [] ∧ s'.exitCounts = s.exitCounts := by
  have effect := Effect.suspend (s := { s with agenda := [] }) h.token
  refine ⟨Simulation.suspend { s with agenda := [] } w, ?_, ?_, effect.agenda, effect.exitCounts⟩
  · intro bound
    have run : runTask d c { s with agenda := [] } (.enter w)
        = .ok (Simulation.suspend { s with agenda := [] } w) := by
      simp only [runTask, h.token]
      rcases kind with kind | kind
      · simp only [onEnter, kind, waitOrExit, waits, if_true]
      · simp only [onEnter, kind, waitOrExit, waits, if_true]
    rw [drain_of_cons turn run]
    exact drain_of_empty effect.agenda bound
  · exact h.modify h.live h.parent effect.scopes

theorem consume (h : Lone root s w x) (kind : x.element.kind = .endEvent) :
    ∃ (s' : Simulation) (y : Scope), finishExit d c s w x = s'.exit 0 ∧ Ready s'.scopes 0 y ∧
      y.element = root ∧ y.parent = none ∧ s'.agenda = s.agenda ∧ s'.exitCounts = s.exitCounts ∧
        ∀ (i : Nat) (z : Scope), s'.scopes[i]? = some z → i ≠ 0 → z.destroyed = true := by
  obtain ⟨y, hy, own, live, running, none⟩ := h.top
  have effect := (Effect.note (s := s) (n := .consumed x.element.id) rfl).trans (.destroy w)
  have left : (onExit d c s w x).destroy w = (s.note (.consumed x.element.id)).destroy w := by
    simp only [onExit, kind]
  generalize (s.note (.consumed x.element.id)).destroy w = s' at effect left
  have atRoot : s'.scopes[0]? = some y := by
    rw [effect.scopes]
    exact (Scopes.getElem?_modify_other h.ne_root _).trans hy
  have inner : ∀ (i : Nat) (z : Scope), s'.scopes[i]? = some z → i ≠ 0 → z.destroyed = true := by
    intro i z hz outer
    rw [effect.scopes] at hz
    cases Scopes.getElem?_modify_cases h.token hz with
    | inl here => exact here.2 ▸ rfl
    | inr other => exact h.others i z other.2 outer (Ne.symm other.1)
  have ready : Ready s'.scopes 0 y := by
    refine ⟨atRoot, live, running, ?_⟩
    intro child
    obtain ⟨i, z, hz, under, alive⟩ := child
    by_cases outer : i = 0
    · subst outer
      rw [Option.some.inj (hz.symm.trans atRoot), none] at under
      cases under
    · rw [inner i z hz outer] at alive
      cases alive
  refine ⟨s', y, ?_, ready, own, none, ?_, effect.exitCounts, inner⟩
  · simp only [finishExit, h.parent]
    rw [left, tryExit_of_ready ready]
  · rw [effect.agenda, List.append_nil, List.append_nil]

/-- At an end event the process is over with its last token. -/
theorem finish (h : Lone root s w x) (entered : x.state = .entered) (turn : s.agenda = [.enter w])
    (kind : x.element.kind = .endEvent)
    (rootKind : root.kind = .process ∨ root.kind = .participant) :
    ∃ s', (∀ bound, drain d c (bound + 3) s = (s', none)) ∧ Over s' ∧ s'.agenda = [] ∧
      ∀ id : String, s'.exitCount id = s.exitCount id + (if x.element.id = id then 1 else 0)
        + if root.id = id then 1 else 0 := by
  have start : Lone root { s with agenda := [] } w x :=
    ⟨h.token, h.live, h.parent, h.top, h.others⟩
  have exits := Effect.exit_of_ready (start.ready entered)
  have first : runTask d c { s with agenda := [] } (.enter w)
      = .ok (exit { s with agenda := [] } w) := by
    simp only [runTask, h.token, onEnter, kind]
  generalize exit { s with agenda := [] } w = s₁ at exits first
  have leaving : Lone root { s₁ with agenda := [] } w x.leave :=
    start.modify (f := Scope.leave) h.live h.parent exits.scopes
  obtain ⟨emptied, y, consumed, ready, own, outer, quiet, counts, inner⟩ :=
    leaving.consume (d := d) (c := c) kind
  have closes := Effect.exit_of_ready ready
  have second : runTask d c { s₁ with agenda := [] } (.finishExit w) = .ok (emptied.exit 0) := by
    simp only [runTask, leaving.token, consumed]
  generalize emptied.exit 0 = s₂ at closes second
  have atRoot : s₂.scopes[0]? = some y.leave := by
    rw [closes.scopes, Scopes.getElem?_modify_self ready.found]
  have third : runTask d c { s₂ with agenda := [] } (.finishExit 0)
      = .ok (destroy (note { s₂ with agenda := [] } (.finished root.id)) 0) := by
    have outer' : y.leave.parent = none := outer
    have own' : y.leave.element = root := own
    simp only [runTask, atRoot, Simulation.finishExit, onExit, own', outer']
    rcases rootKind with kind | kind
    · simp only [kind]
    · simp only [kind]
  refine ⟨destroy (note { s₂ with agenda := [] } (.finished root.id)) 0, ?_, ?_, rfl, ?_⟩
  · intro bound
    have turn₁ : s₁.agenda = [.finishExit w] := exits.agenda
    have turn₂ : s₂.agenda = [.finishExit 0] := by rw [closes.agenda, quiet]; rfl
    rw [drain_of_cons turn first, drain_of_cons turn₁ second, drain_of_cons turn₂ third]
    exact drain_of_empty rfl bound
  · intro i z hz
    have scopes : (destroy (note { s₂ with agenda := [] } (.finished root.id)) 0).scopes
        = (emptied.scopes.modify 0 Scope.leave).modify 0 Scope.destroy := by
      rw [← closes.scopes]
      rfl
    rw [scopes] at hz
    by_cases same : 0 = i
    · subst same
      rw [Scopes.getElem?_modify_self (Scopes.getElem?_modify_self ready.found _)] at hz
      exact Option.some.inj hz ▸ rfl
    · rw [Scopes.getElem?_modify_other same, Scopes.getElem?_modify_other same] at hz
      exact inner i z hz (Ne.symm same)
  · intro id
    have one := exitCount_countUp s₁ exits.exitCounts id
    have two := exitCount_countUp s₂ closes.exitCounts id
    have same : emptied.exitCount id = s₁.exitCount id := by rw [exitCount, counts]; rfl
    rw [own, same, one] at two
    exact two

theorem signal (h : Lone root s w x.suspend) :
    ∃ s', s.signal w = .ok s' ∧ Lone root s' w x.suspend.resume ∧
      s'.agenda = s.agenda ++ [.signal w] ∧ s'.exitCounts = s.exitCounts := by
  obtain ⟨s', signalled, effect⟩ := Effect.signal h.token h.live rfl
  exact ⟨s', signalled, h.modify (f := Scope.resume) h.live h.parent effect.scopes, effect.agenda,
    effect.exitCounts⟩

/-- A signal takes the token from the element at which it waits along the next flow. -/
theorem signal_passOn (h : Lone root s w x.suspend) (quiet : s.agenda = [])
    (kind : x.element.kind ≠ .subProcess) {f : Flow}
    (goes : ∀ s y, y.element = x.element → onExit d c s w y = s.enterAll [f] y.parent) :
    ∃ s' s'' w', s.signal w = .ok s' ∧
      (∀ bound, drain d c (bound + 2) s' = drain d c bound s'') ∧
        Lone root s'' w' (Scope.enter f.target (some 0)) ∧ s''.agenda = [.enter w'] ∧
          Counted s s'' x.element := by
  obtain ⟨s', signalled, lone, agenda, counts⟩ := h.signal
  have turn : s'.agenda = .signal w :: [] := by rw [agenda, quiet]; rfl
  have taken : Lone root { s' with agenda := [] } w x.suspend.resume :=
    ⟨lone.token, lone.live, lone.parent, lone.top, lone.others⟩
  have run : runTask d c { s' with agenda := [] } (.signal w)
      = .ok (exit { s' with agenda := [] } w) := by
    have other : ¬ x.suspend.resume.element.kind = .subProcess := kind
    simp only [runTask, lone.token, onSignal, if_neg other]
  obtain ⟨s'', passed, next, queued, counted⟩ :=
    taken.passOn (d := d) (c := c) rfl rfl (f := f) fun s => goes s _ rfl
  refine ⟨s', s'', _, signalled, ?_, next, queued, ?_⟩
  · intro bound
    rw [drain_of_cons turn run, passed]
  · intro id
    rw [counted id]
    have same : exitCount { s' with agenda := [] } id = s.exitCount id := by
      rw [exitCount, counts]
      rfl
    rw [same]
    rfl

theorem signal_hold (h : Lone root s w x.suspend) (quiet : s.agenda = [])
    (kind : x.element.kind ≠ .subProcess) {f : Flow}
    (goes : ∀ s y, y.element = x.element → onExit d c s w y = s.enterAll [f] y.parent)
    (next : f.target.kind = .task ∨ f.target.kind = .exclusiveGateway)
    (waits : (c.get f.target).wait = true) {bound : Nat} (enough : 3 ≤ bound) :
    ∃ s' w', signalAndRun d c bound s w = (s', .ok ()) ∧
      Lone root s' w' (Scope.enter f.target (some 0)).suspend ∧ s'.agenda = [] ∧
        Counted s s' x.element := by
  obtain ⟨s₁, s₂, w', signalled, run, passed, turn, counted⟩ := h.signal_passOn quiet kind goes
  obtain ⟨s', held, lone, drained, counts⟩ := passed.hold (d := d) (c := c) turn next waits
  obtain ⟨more, rfl⟩ := Nat.exists_eq_add_of_le' enough
  refine ⟨s', w', ?_, lone, drained, ?_⟩
  · rw [signalAndRun, signalled]
    simp only [settle, run, held]
  · intro id
    rw [exitCount, counts]
    exact counted id

theorem signal_finish (h : Lone root s w x.suspend) (quiet : s.agenda = [])
    (kind : x.element.kind ≠ .subProcess) {f : Flow}
    (goes : ∀ s y, y.element = x.element → onExit d c s w y = s.enterAll [f] y.parent)
    (last : f.target.kind = .endEvent)
    (rootKind : root.kind = .process ∨ root.kind = .participant) {bound : Nat} (enough : 5 ≤ bound) :
    ∃ s', signalAndRun d c bound s w = (s', .ok ()) ∧ Over s' ∧ s'.agenda = [] ∧
      ∀ id : String, s'.exitCount id = s.exitCount id + (if x.element.id = id then 1 else 0)
        + (if f.target.id = id then 1 else 0) + if root.id = id then 1 else 0 := by
  obtain ⟨s₁, s₂, w', signalled, run, passed, turn, counted⟩ := h.signal_passOn quiet kind goes
  obtain ⟨s', finished, ended, drained, counts⟩ := passed.finish (d := d) (c := c) rfl turn last rootKind
  obtain ⟨more, rfl⟩ := Nat.exists_eq_add_of_le' enough
  refine ⟨s', ?_, ended, drained, ?_⟩
  · rw [signalAndRun, signalled]
    simp only [settle, run, finished]
  · intro id
    rw [counts id, counted id]
    rfl

end Lone

theorem start_hold (consistent : d.Consistent) {start : Element} (found : rootStart d = .ok start)
    {f : Flow} (only : d.outgoing start = [f])
    (next : f.target.kind = .task ∨ f.target.kind = .exclusiveGateway)
    (waits : (c.get f.target).wait = true) {bound : Nat} (enough : 3 ≤ bound) :
    ∃ s' i w root, Simulation.start d c bound empty none = (s', .ok i) ∧
      (root.kind = .process ∨ root.kind = .participant) ∧ (root = d.root ∨ root ∈ d.nodes) ∧
        Lone root s' w (Scope.enter f.target (some 0)).suspend ∧ s'.agenda = [] ∧
          ∀ id : String, s'.exitCount id = if start.id = id then 1 else 0 := by
  obtain ⟨kind, root, around, rootKind, known⟩ := container_of_rootStart consistent found
  have top : root.kind ≠ .subProcess := by
    rcases rootKind with kind | kind
    · rw [kind]
      decide
    · rw [kind]
      decide
  have begun : Simulation.start d c bound empty none = settle d c bound
      (((empty.create root none).note (.started start.id root.id)).enter start (some 0)) 1 := by
    rw [Simulation.start, Option.map_none, Option.getD_none, found]
    simp only [around, openContainer, if_neg top]
    rfl
  rw [begun]
  generalize first : ((empty.create root none).note (.started start.id root.id)).enter start (some 0)
    = s₁
  have turn : s₁.agenda = .enter 1 :: [] := first ▸ rfl
  have scopes : s₁.scopes = [Scope.enter root none, Scope.enter start (some 0)] := first ▸ rfl
  have counts : s₁.exitCounts = [] := first ▸ rfl
  have lone : Lone root { s₁ with agenda := [] } 1 (Scope.enter start (some 0)) := by
    refine ⟨?_, rfl, rfl, ⟨Scope.enter root none, ?_, rfl, rfl, rfl, rfl⟩, ?_⟩
    · simp only [scopes, List.getElem?_cons_succ, List.getElem?_cons_zero]
    · simp only [scopes, List.getElem?_cons_zero]
    · intro i y hy outer apart
      simp only [scopes] at hy
      obtain ⟨more, rfl⟩ : ∃ more, i = more + 2 := ⟨i - 2, by omega⟩
      cases hy
  have run : runTask d c { s₁ with agenda := [] } (.enter 1)
      = .ok (exit { s₁ with agenda := [] } 1) := by
    have kind' : (Scope.enter start (some 0)).element.kind = .startEvent := kind
    simp only [runTask, lone.token, onEnter, kind']
  obtain ⟨s₂, left, passed, queued, counted⟩ :=
    lone.passOn (d := d) (c := c) rfl rfl (f := f) fun s => by
      apply onExit_of_only only
      rw [show (Scope.enter start (some 0)).leave.element.kind = .startEvent from kind]
      decide
  obtain ⟨s', held, waiting, drained, kept⟩ := passed.hold (d := d) (c := c) queued next waits
  obtain ⟨more, rfl⟩ := Nat.exists_eq_add_of_le' enough
  refine ⟨s', 1, _, root, ?_, rootKind, known, waiting, drained, ?_⟩
  · simp only [settle, drain_of_cons turn run, left, held]
  · intro id
    have before : exitCount { s₁ with agenda := [] } id = 0 := by
      rw [exitCount, counts]
      rfl
    rw [exitCount, kept]
    have one := counted id
    rw [before, Nat.zero_add] at one
    exact one

end ProcessDiagram.Simulation
