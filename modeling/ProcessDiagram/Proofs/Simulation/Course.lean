import ProcessDiagram.Proofs.Simulation.Ledger
import ProcessDiagram.Proofs.Simulation.Weight

/-!
The course of a run in a plain process: every move keeps the scopes flat, the queue in order and
the ledger balanced, and after finitely many moves the agenda is empty.
-/
namespace ProcessDiagram

namespace Flat

variable {d : Diagram} {scopes : Scopes}

theorem modify (h : Flat d scopes) (i : Nat) {f : Scope → Scope}
    (same : ∀ x, (f x).element = x.element ∧ (f x).parent = x.parent)
    (exits : ∀ x, (f x).state = .exited) : Flat d (scopes.modify i f) := by
  have changed : ∀ (j : Nat) (y : Scope), (List.modify scopes i f)[j]? = some y →
      ∃ x : Scope, scopes[j]? = some x ∧ y.element = x.element ∧ y.parent = x.parent ∧
        (y.state = x.state ∨ y.state = .exited) := by
    intro j y hy
    rw [List.getElem?_modify] at hy
    obtain ⟨x, hx, rfl⟩ := Option.map_eq_some_iff.mp hy
    refine ⟨x, hx, ?_⟩
    split
    · exact ⟨(same x).1, (same x).2, .inr (exits x)⟩
    · exact ⟨rfl, rfl, .inl rfl⟩
  refine ⟨?_, ?_, ?_⟩
  · obtain ⟨x, hx, own, top⟩ := h.root
    obtain ⟨y, hy⟩ : ∃ y, (List.modify scopes i f)[0]? = some y := by
      rw [List.getElem?_modify, hx]
      exact ⟨_, rfl⟩
    obtain ⟨x', hx', element, parent, _⟩ := changed 0 y hy
    have one : x' = x := Option.some.inj (hx'.symm.trans hx)
    exact ⟨y, hy, by rw [element, one, own], by rw [parent, one, top]⟩
  · intro j y hy inner
    obtain ⟨x, hx, _, parent, _⟩ := changed j y hy
    rw [parent]
    exact h.nested j x hx inner
  · intro j y hy
    obtain ⟨x, hx, _, _, state⟩ := changed j y hy
    cases state with
    | inl kept => exact kept ▸ h.going j x hx
    | inr exited =>
        rw [exited]
        decide

theorem leave (h : Flat d scopes) (i : Nat) : Flat d (scopes.modify i Scope.leave) :=
  h.modify i (fun _ => ⟨rfl, rfl⟩) fun _ => rfl

theorem destroy (h : Flat d scopes) (i : Nat) : Flat d (scopes.modify i Scope.destroy) :=
  h.modify i (fun _ => ⟨rfl, rfl⟩) fun _ => rfl

theorem destroyAll (h : Flat d scopes) (tokens : List Nat) : Flat d (scopes.destroyAll tokens) := by
  induction tokens generalizing scopes with
  | nil => exact h
  | cons i rest ih => exact ih (h.destroy i)

theorem enterAll (h : Flat d scopes) (elements : List Element) :
    Flat d (scopes.enterAll elements (some 0)) := by
  have added : ∀ (j : Nat) (y : Scope), (scopes.enterAll elements (some 0))[j]? = some y →
      scopes[j]? = some y ∨ ∃ e, y = Scope.enter e (some 0) := by
    intro j y hy
    rw [Scopes.enterAll, List.getElem?_append] at hy
    split at hy
    · exact .inl hy
    · obtain ⟨e, _, rfl⟩ := List.mem_map.mp (List.mem_of_getElem? hy)
      exact .inr ⟨e, rfl⟩
  refine ⟨?_, ?_, ?_⟩
  · obtain ⟨x, hx, root⟩ := h.root
    refine ⟨x, ?_, root⟩
    rw [Scopes.enterAll, List.getElem?_append_left (List.getElem?_eq_some_iff.mp hx).1]
    exact hx
  · intro j y hy inner
    cases added j y hy with
    | inl old => exact h.nested j y old inner
    | inr new =>
        obtain ⟨e, rfl⟩ := new
        rfl
  · intro j y hy
    cases added j y hy with
    | inl old => exact h.going j y old
    | inr new =>
        obtain ⟨e, rfl⟩ := new
        change ScopeState.entered ≠ .waiting
        decide

end Flat

namespace Queued

variable {scopes : Scopes} {agenda : List Task}

theorem rest {t : Task} (h : Queued scopes (t :: agenda)) : Queued scopes agenda := by
  refine ⟨fun i hi => h.unsignalled i (List.mem_cons_of_mem _ hi), ?_⟩
  cases t with
  | enter i =>
      obtain ⟨below, entering⟩ := h.tail
      exact ⟨i + 1, below, entering⟩
  | signal i => exact absurd List.mem_cons_self (h.unsignalled i)
  | finishExit i => exact h.entering

theorem resize (h : Queued scopes agenda) {scopes' : Scopes}
    (same : scopes'.length = scopes.length) : Queued scopes' agenda := by
  refine ⟨h.unsignalled, ?_⟩
  rw [same]
  exact h.entering

theorem finishExit (h : Queued scopes agenda) (i : Nat) :
    Queued scopes (agenda ++ [.finishExit i]) := by
  refine ⟨?_, ?_⟩
  · intro j hj
    cases List.mem_append.mp hj with
    | inl old => exact h.unsignalled j old
    | inr new => cases List.mem_singleton.mp new
  · obtain ⟨m, below, entering⟩ := h.entering
    refine ⟨m, below, ?_⟩
    rw [List.filterMap_append, entering]
    exact List.append_nil _

theorem enterAll (h : Queued scopes agenda) (elements : List Element) (parent : Option Nat) :
    Queued (scopes.enterAll elements parent)
      (agenda ++ (List.range' scopes.length elements.length).map .enter) := by
  refine ⟨?_, ?_⟩
  · intro j hj
    cases List.mem_append.mp hj with
    | inl old => exact h.unsignalled j old
    | inr new =>
        obtain ⟨i, _, other⟩ := List.mem_map.mp new
        cases other
  · obtain ⟨m, below, entering⟩ := h.entering
    have added : ((List.range' scopes.length elements.length).map Task.enter).filterMap
        Task.entering? = List.range' scopes.length elements.length := by
      rw [List.filterMap_map]
      exact List.filterMap_some
    have longer : (scopes.enterAll elements parent).length = scopes.length + elements.length := by
      rw [Scopes.enterAll, List.length_append, List.length_map]
    refine ⟨m, by omega, ?_⟩
    rw [List.filterMap_append, entering, added, longer]
    have start : scopes.length = m + (scopes.length - m) := by omega
    have whole := List.range'_append_1 (s := m) (m := scopes.length - m) (n := elements.length)
    rw [← start] at whole
    rw [whole]
    congr 1
    omega

end Queued

namespace Simulation

variable {d : Diagram} {c : ConfigStore} {s s' : Simulation} {start : Element}

/-- What holds between the tasks of a run. -/
structure Course (d : Diagram) (c : ConfigStore) (start : Element) (s : Simulation) : Prop where
  sound : Sound d [] s.scopes s.agenda
  flat : Flat d s.scopes
  queued : Queued s.scopes s.agenda
  unstalled : s.Unstalled
  ledger : Ledger d c start s.scopes s.exitCounts

theorem length_destroyAll (tokens : List Nat) (scopes : Scopes) :
    (scopes.destroyAll tokens).length = scopes.length := by
  induction tokens generalizing scopes with
  | nil => rfl
  | cons i rest ih => exact (ih _).trans (List.length_modify _ _ _)

theorem Move.flat (flat : Flat d s.scopes) {t : Task} (move : Move d c s t s') :
    Flat d s'.scopes := by
  cases move with
  | held effect => exact effect.scopes ▸ flat
  | pass _ _ _ _ _ effect => exact effect.scopes ▸ (flat.destroyAll _).leave _
  | leave _ _ effect => exact effect.scopes ▸ (flat.enterAll _).destroy _
  | last _ _ effect => exact effect.scopes ▸ ((flat.enterAll _).destroy _).leave 0
  | close effect => exact effect.scopes ▸ flat.destroy 0

theorem Move.queued {t : Task} (queued : Queued s.scopes (t :: s.agenda))
    (move : Move d c s t s') : Queued s'.scopes s'.agenda := by
  have rest := queued.rest
  cases move with
  | held effect =>
      rw [effect.scopes, effect.agenda, List.append_nil]
      exact rest
  | pass _ _ _ _ _ effect =>
      rw [effect.scopes, effect.agenda]
      apply (rest.finishExit _).resize
      rw [List.length_modify, length_destroyAll]
  | leave _ _ effect =>
      rw [effect.scopes, effect.agenda]
      exact (rest.enterAll _ _).resize (List.length_modify _ _ _)
  | last _ _ effect =>
      rw [effect.scopes, effect.agenda, ← List.append_assoc]
      apply ((rest.enterAll _ _).finishExit 0).resize
      rw [List.length_modify, List.length_modify]
  | close effect =>
      rw [effect.scopes, effect.agenda, List.append_nil]
      exact rest.resize (List.length_modify _ _ _)

theorem Move.unstalled {t : Task} (move : Move d c s t s') (unstalled : s.Unstalled) :
    s'.Unstalled := by
  cases move with
  | held effect => exact effect.unstalled unstalled
  | pass _ _ _ _ _ effect => exact effect.unstalled unstalled
  | leave _ _ effect => exact effect.unstalled unstalled
  | last _ _ effect => exact effect.unstalled unstalled
  | close effect => exact effect.unstalled unstalled

theorem Move.ledger (consistent : d.Consistent) (flat : Flat d s.scopes)
    (ledger : Ledger d c start s.scopes s.exitCounts) {t : Task} (move : Move d c s t s') :
    Ledger d c start s'.scopes s'.exitCounts := by
  have outside : ∀ root : Scope, root.element = d.root → root.element ∉ d.nodes := by
    intro root own node
    exact consistent.root_id_ne node (own ▸ rfl)
  cases move with
  | held effect =>
      rw [effect.scopes, effect.exitCounts]
      exact ledger
  | pass ready node distinct count alike effect =>
      rw [effect.scopes, effect.exitCounts]
      exact ledger.pass consistent ready node distinct count alike
  | leave exiting node effect =>
      rw [effect.scopes, effect.exitCounts]
      exact ledger.leave consistent exiting node _
  | @last i x _ exiting node effect =>
      rw [effect.scopes, effect.exitCounts]
      obtain ⟨root, atRoot, own, _⟩ := ((flat.enterAll _).destroy i).root
      apply (ledger.leave consistent exiting node _).aside atRoot (outside root own) rfl
      intro e he
      rw [exits, lookup_countUp, if_neg (consistent.root_id_ne he), Nat.add_zero, exits]
  | close effect =>
      rw [effect.scopes, effect.exitCounts]
      obtain ⟨root, atRoot, own, _⟩ := flat.root
      exact ledger.aside atRoot (outside root own) rfl fun _ _ => rfl

/-- A run goes on as long as there are tasks, and the weight on the agenda gets less. -/
theorem Course.step (consistent : d.Consistent) (acyclic : d.Acyclic) (plain : d.Plain c)
    (h : Course d c start s) {t : Task} {rest : List Task} (agenda : s.agenda = t :: rest) :
    ∃ s', runTask d c { s with agenda := rest } t = .ok s' ∧ Course d c start s' ∧
      potential d s' < potential d s := by
  have sound := h.sound
  have queued := h.queued
  have known : ∀ t' ∈ t :: rest, t'.scope < s.scopes.length := by
    intro t' ht
    exact sound.lt_of_busy (List.mem_map_of_mem (agenda ▸ ht))
  rw [agenda] at sound queued
  let s₀ : Simulation := { s with agenda := rest }
  have flat : Flat d s₀.scopes := h.flat
  obtain ⟨taken, due⟩ := sound.take
  obtain ⟨s', run, after⟩ := sound_runTask (c := c) (s := s₀) consistent taken due
  obtain ⟨s'', again, move⟩ := move_of_runTask (s := s₀) consistent plain h.flat sound queued
  have one : s'' = s' := Except.ok.inj (again.symm.trans run)
  subst one
  refine ⟨s'', run, ?_, ?_⟩
  · exact ⟨after, move.flat flat, move.queued queued, move.unstalled h.unstalled,
      move.ledger consistent flat h.ledger⟩
  · have less := move.potential_lt consistent acyclic flat known
    have whole : potential d s = t.cost d s.scopes.elements + potential d s₀ := by
      rw [potential, agenda]
      rfl
    rw [whole]
    exact less

theorem Course.drain (consistent : d.Consistent) (acyclic : d.Acyclic) (plain : d.Plain c)
    (bound : Nat) (h : Course d c start s) (enough : potential d s ≤ bound) :
    ∃ s', Simulation.drain d c bound s = (s', none) ∧ s'.agenda = [] ∧ Course d c start s' := by
  induction bound generalizing s with
  | zero =>
      cases agenda : s.agenda with
      | nil => exact ⟨s, drain_of_empty agenda 0, agenda, h⟩
      | cons t rest =>
          obtain ⟨_, _, _, less⟩ := h.step consistent acyclic plain agenda
          omega
  | succ bound ih =>
      cases agenda : s.agenda with
      | nil => exact ⟨s, drain_of_empty agenda _, agenda, h⟩
      | cons t rest =>
          obtain ⟨s', run, after, less⟩ := h.step consistent acyclic plain agenda
          rw [drain_of_cons agenda run]
          exact ih after (by omega)

end Simulation
end ProcessDiagram
