import ProcessDiagram.Proofs.Simulation.Sound

/-!
What the operations on scopes do, taken together: the scopes and the exit counts afterwards, the
tasks that are added, and that nothing was stalled.
-/
namespace ProcessDiagram

/-- A scope that exits. -/
def Scope.leave (x : Scope) : Scope :=
  { x with state := .exited, pending := false }

/-- A scope that waits for a signal. -/
def Scope.suspend (x : Scope) : Scope :=
  { x with state := .waiting, pending := true }

def Scopes.destroyAll (tokens : List Nat) (scopes : Scopes) : Scopes :=
  tokens.foldl (fun scopes i => scopes.modify i Scope.destroy) scopes

/-- The scopes with tokens put on some elements. -/
def Scopes.enterAll (scopes : Scopes) (elements : List Element) (parent : Option Nat) : Scopes :=
  scopes ++ elements.map (Scope.enter · parent)

theorem Scopes.getElem?_enterAll_cases {scopes : Scopes} {elements : List Element}
    {parent : Option Nat} {j : Nat} {y : Scope} (hy : (scopes.enterAll elements parent)[j]? = some y) :
    scopes[j]? = some y ∨ scopes.length ≤ j ∧ y.destroyed = false ∧ y.state = .entered := by
  rw [Scopes.enterAll, List.getElem?_append] at hy
  split at hy
  · exact .inl hy
  next above =>
      obtain ⟨e, _, rfl⟩ := List.mem_map.mp (List.mem_of_getElem? hy)
      exact .inr ⟨Nat.not_lt.mp above, rfl, rfl⟩

namespace Simulation

variable {c : ConfigStore} {s s' : Simulation} {i : Nat} {x : Scope}

def Unstalled (s : Simulation) : Prop :=
  ∀ ev ∈ s.events, ev.kind ≠ .stall

/-- What becomes of the scopes and the exit counts, and the tasks that are added. -/
structure Effect (s s' : Simulation) (scopes : Scopes) (added : List Task)
    (exitCounts : List (String × Nat)) : Prop where
  scopes : s'.scopes = scopes
  agenda : s'.agenda = s.agenda ++ added
  exitCounts : s'.exitCounts = exitCounts
  unstalled : s.Unstalled → s'.Unstalled

theorem Unstalled.note (h : s.Unstalled) {n : Notice} (silent : n.event? = none) :
    (s.note n).Unstalled := by
  have same : (s.note n).events = s.events := by
    rw [events, Simulation.note, List.filterMap_append, List.filterMap_cons_none silent]
    exact List.append_nil _
  rw [Unstalled, same]
  exact h

theorem Unstalled.record (h : s.Unstalled) {kind : EventKind} (other : kind ≠ .stall) (id : String)
    (i : Nat) : (s.record kind id i).Unstalled := by
  have more : (s.record kind id i).events = s.events ++ [⟨kind, id, i⟩] := by
    rw [events, Simulation.record, Simulation.note, List.filterMap_append]
    rfl
  rw [Unstalled, more]
  intro ev hev
  cases List.mem_append.mp hev with
  | inl old => exact h ev old
  | inr new => exact List.mem_singleton.mp new ▸ other

namespace Effect

theorem refl (s : Simulation) : Effect s s s.scopes [] s.exitCounts :=
  ⟨rfl, (List.append_nil _).symm, rfl, id⟩

theorem trans {s'' : Simulation} {scopes scopes' : Scopes} {added added' : List Task}
    {counts counts' : List (String × Nat)} (first : Effect s s' scopes added counts)
    (second : Effect s' s'' scopes' added' counts') :
    Effect s s'' scopes' (added ++ added') counts' := by
  refine ⟨second.scopes, ?_, second.exitCounts, fun h => second.unstalled (first.unstalled h)⟩
  rw [second.agenda, first.agenda, List.append_assoc]

theorem note {n : Notice} (silent : n.event? = none) :
    Effect s (s.note n) s.scopes [] s.exitCounts :=
  ⟨rfl, (List.append_nil _).symm, rfl, fun h => h.note silent⟩

theorem exit (hx : s.scopes[i]? = some x) (going : ¬ (x.destroyed ∨ x.state = .exited)) :
    Effect s (s.exit i) (s.scopes.modify i Scope.leave) [.finishExit i]
      (countUp x.element.id s.exitCounts) := by
  rw [Simulation.exit, hx]
  simp only [if_neg going]
  exact ⟨rfl, rfl, rfl, fun h => Unstalled.record (s := { s with scopes := _, exitCounts := _ })
    h (by decide) _ _⟩

theorem exit_of_ready (ready : Ready s.scopes i x) :
    Effect s (s.exit i) (s.scopes.modify i Scope.leave) [.finishExit i]
      (countUp x.element.id s.exitCounts) := by
  apply exit ready.found
  rw [ready.live, ready.entered]
  decide

theorem destroy (i : Nat) :
    Effect s (s.destroy i) (s.scopes.modify i Scope.destroy) [] s.exitCounts :=
  ⟨rfl, (List.append_nil _).symm, rfl, id⟩

theorem suspend (hx : s.scopes[i]? = some x) :
    Effect s (s.suspend i) (s.scopes.modify i Scope.suspend) [] s.exitCounts := by
  rw [Simulation.suspend, hx]
  exact ⟨rfl, (List.append_nil _).symm, rfl, fun h =>
    Unstalled.record (s := { s with scopes := _ }) h (by decide) _ _⟩

theorem merge (hx : s.scopes[i]? = some x) :
    Effect s (s.merge i) (s.scopes.modify i Scope.destroy) [] s.exitCounts := by
  rw [Simulation.merge, hx]
  exact ⟨rfl, (List.append_nil _).symm, rfl, fun h => h.record (by decide) _ _⟩

theorem merges (tokens : List Nat) (found : ∀ j ∈ tokens, ∃ y, s.scopes[j]? = some y) :
    Effect s (tokens.foldl Simulation.merge s) (s.scopes.destroyAll tokens) [] s.exitCounts := by
  induction tokens generalizing s with
  | nil => exact refl s
  | cons j rest ih =>
      obtain ⟨y, hy⟩ := found j List.mem_cons_self
      have here := merge hy
      have later := ih (s := s.merge j) (by
        intro k hk
        obtain ⟨z, hz⟩ := found k (List.mem_cons_of_mem _ hk)
        rw [here.scopes, List.getElem?_modify, hz]
        exact ⟨_, rfl⟩)
      have both := here.trans later
      rw [here.scopes, here.exitCounts] at both
      exact both

theorem enterAll (flows : List Flow) (parent : Option Nat) :
    Effect s (s.enterAll flows parent) (s.scopes.enterAll (flows.map (·.target)) parent)
      ((List.range' s.scopes.length flows.length).map .enter) s.exitCounts := by
  induction flows generalizing s with
  | nil =>
      refine ⟨?_, ?_, rfl, id⟩
      · rw [Scopes.enterAll, List.map_nil, List.map_nil, List.append_nil]
        rfl
      · exact (List.append_nil _).symm
  | cons f rest ih =>
      have here : Effect s (s.enter f.target parent) (s.scopes ++ [Scope.enter f.target parent])
          [.enter s.scopes.length] s.exitCounts :=
        ⟨rfl, rfl, rfl, fun h => Unstalled.record (s := { s with scopes := _ }) h (by decide) _ _⟩
      have both := here.trans (ih (s := s.enter f.target parent))
      rw [here.scopes, here.exitCounts, Scopes.enterAll, List.append_assoc, List.length_append] at both
      rw [List.length_cons, List.range'_succ]
      exact both

theorem waitOrExit {e : Element} (ready : Ready s.scopes i x) (waitless : (c.get e).wait = false) :
    Effect s (Simulation.waitOrExit c s i e) (s.scopes.modify i Scope.leave) [.finishExit i]
      (countUp x.element.id s.exitCounts) := by
  rw [Simulation.waitOrExit, if_neg (by rw [waitless]; decide)]
  exact exit_of_ready ready

theorem tryExit {p : Nat} {root : Scope} (hp : s.scopes[p]? = some root) :
    Effect s (s.tryExit p) s.scopes [] s.exitCounts ∨ Ready s.scopes p root ∧
      Effect s (s.tryExit p) (s.scopes.modify p Scope.leave) [.finishExit p]
        (countUp root.element.id s.exitCounts) := by
  rw [Simulation.tryExit, hp]
  simp only
  split
  next => exact .inl (refl s)
  next exits =>
      rw [not_or, not_or] at exits
      have childless : ¬ s.scopes.HasLiveChild p := by
        rw [← Scopes.isEmpty_liveChildren]
        simpa using exits.2.2
      have ready : Ready s.scopes p root :=
        ⟨hp, by simpa using exits.1, by simpa using exits.2.1, childless⟩
      exact .inr ⟨ready, exit_of_ready ready⟩

end Effect
end Simulation
end ProcessDiagram
