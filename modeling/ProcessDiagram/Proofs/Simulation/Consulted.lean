import ProcessDiagram.Proofs.Simulation.Lasting

/-!
What a run asks of its configuration: only how the elements of its scopes are set. Two configurations
that agree on these give the same run.
-/
namespace ProcessDiagram.Simulation

variable {d : Diagram} {c c' : ConfigStore} {s : Simulation}

theorem waitOrExit_congr {e : Element} (same : c.get e = c'.get e) (s : Simulation) (i : Nat) :
    waitOrExit c s i e = waitOrExit c' s i e := by
  rw [waitOrExit, waitOrExit, same]

theorem onEnter_congr {x : Scope} (same : c.get x.element = c'.get x.element) (s : Simulation)
    (i : Nat) : onEnter d c s i x = onEnter d c' s i x := by
  simp only [onEnter, enterParallel, waitOrExit_congr same, same]

theorem onExit_congr {x : Scope} (same : c.get x.element = c'.get x.element) (s : Simulation)
    (i : Nat) : onExit d c s i x = onExit d c' s i x := by
  simp only [onExit, leaveExclusive, same]

theorem runTask_congr {t : Task}
    (same : ∀ x, s.scopes[t.scope]? = some x → c.get x.element = c'.get x.element) :
    runTask d c s t = runTask d c' s t := by
  cases t with
  | enter i =>
      simp only [runTask]
      split
      next x hx => exact onEnter_congr (same x hx) s i
      next => rfl
  | signal i => rfl
  | finishExit i =>
      simp only [runTask]
      split
      next x hx => rw [finishExit, finishExit, onExit_congr (same x hx)]
      next => rfl

/-- A run depends on its configuration only through the elements of the scopes that it ends with. -/
theorem drain_congr (bound : Nat)
    (same : ∀ x ∈ (drain d c bound s).1.scopes, c.get x.element = c'.get x.element) :
    drain d c bound s = drain d c' bound s := by
  induction bound generalizing s with
  | zero => rfl
  | succ bound ih =>
      rw [drain, drain]
      cases agenda : s.agenda with
      | nil => rfl
      | cons t rest =>
          have here : runTask d c { s with agenda := rest } t
              = runTask d c' { s with agenda := rest } t := by
            apply runTask_congr
            intro x hx
            have kept := (Scopes.Kept.lasting s.scopes).drain (d := d) (c := c) (bound + 1)
              (Scopes.Kept.refl s.scopes)
            obtain ⟨y, hy, own, _⟩ := kept t.scope x hx
            exact own ▸ same y (List.mem_of_getElem? hy)
          rw [drain, agenda] at same
          simp only at same ⊢
          rw [← here]
          cases result : runTask d c { s with agenda := rest } t with
          | error e => rfl
          | ok s' =>
              rw [result] at same
              exact ih same

theorem settle_congr {α : Type} (bound : Nat) (value : α)
    (same : ∀ x ∈ (settle d c bound s value).1.scopes, c.get x.element = c'.get x.element) :
    settle d c bound s value = settle d c' bound s value := by
  rw [fst_settle] at same
  rw [settle, settle, drain_congr bound same]

theorem start_congr {e : Option Element} (bound : Nat)
    (same : ∀ x ∈ (start d c bound s e).1.scopes, c.get x.element = c'.get x.element) :
    start d c bound s e = start d c' bound s e := by
  rw [start] at same
  rw [start, start]
  cases chosen : (e.map Except.ok).getD (rootStart d) with
  | error err => rfl
  | ok first =>
      rw [chosen] at same
      simp only at same ⊢
      cases around : first.parent.bind d.find? with
      | none => rfl
      | some container =>
          rw [around] at same
          simp only at same ⊢
          cases opened : s.openContainer container first with
          | error err => rfl
          | ok result =>
              rw [opened] at same
              exact settle_congr bound _ same

end ProcessDiagram.Simulation
