import ProcessDiagram.Proofs.Compilation.Walked

/-!
What compiling a scope comes to: it succeeds with the folded walk from the scope's start event,
and fails where a check or the walk fails.
-/
namespace ProcessDiagram.Diagram

open Compilation

variable {d : Diagram}

/-- Where the compilation of a scope begins. -/
def entry (d : Diagram) (scope : Option Element) : Except StructuralError Element := do
  d.scopeStart (← (scope.map Except.ok).getD d.defaultScope)

theorem mem_of_scopeStart {scope start : Element} (h : d.scopeStart scope = .ok start) :
    start ∈ d.startEvents scope := by
  rw [scopeStart] at h
  split at h
  next one =>
      cases h
      rw [one]
      exact List.mem_singleton_self _
  next => cases h

theorem entry_eq_ok {scope : Option Element} {start : Element} (h : d.entry scope = .ok start) :
    ∃ top, (scope.map Except.ok).getD d.defaultScope = .ok top ∧ d.scopeStart top = .ok start := by
  rw [entry] at h
  cases here : (scope.map Except.ok).getD d.defaultScope with
  | error e =>
      rw [here] at h
      cases h
  | ok top =>
      rw [here] at h
      exact ⟨top, rfl, h⟩

theorem start_mem {scope : Option Element} {start : Element} (h : d.entry scope = .ok start) :
    start ∈ d.nodes := by
  obtain ⟨top, _, found⟩ := entry_eq_ok h
  exact (List.mem_filter.mp (List.mem_filter.mp (mem_of_scopeStart found)).1).1

/-- The computation behind `compileFrom`. -/
def compiling (d : Diagram) (scope start : Element) : Compilation Region := do
  let region ← fold (← walkBetween d (some start) none)
  let s ← get
  note .info .compiler
    ("[compile] " ++ scope.id ++ ": " ++ toString s.numbering.size ++ " mapped elements")
  return region

theorem value_compileFrom (scope start : Element) :
    (d.compileFrom scope start).value =
      (outcome (d.compiling scope start) (State.start d none)).1.map fun region =>
        ⟨region, (outcome (d.compiling scope start) (State.start d none)).2.numbering⟩ := rfl

theorem outcome_compiling (scope : Element) {start : Element} {s t : State} {items : List Region}
    (h : outcome (walk d [] [] none (some start)) s = (.ok items, t)) :
    ∃ u, outcome (d.compiling scope start) s = (.ok (t.numbers.fold items).1, u) ∧
      u.numbers = (t.numbers.fold items).2 := by
  obtain ⟨t', folded, same⟩ := fold_of_numbers (s := t) rfl items
  obtain ⟨u, noted, same'⟩ := silent_note .info .compiler
    ("[compile] " ++ scope.id ++ ": " ++ toString t'.numbering.size ++ " mapped elements") t'
  refine ⟨u, ?_, same'.trans same⟩
  have walked : outcome (walkBetween d (some start) none) s = (.ok items, t) := h
  have got : outcome (get : Compilation State) t' = (.ok t', t') := rfl
  rw [compiling, outcome_bind_of_ok walked, outcome_bind_of_ok folded, outcome_bind_of_ok got,
    outcome_bind_of_ok noted]
  rfl

theorem walked_of_compileFrom {scope start : Element} {compiled : CompiledScope}
    (h : (d.compileFrom scope start).value = .ok compiled) :
    ∃ items m, Walked d none (some start) (State.start d none).numbers items m ∧
      compiled = ⟨(m.fold items).1, m.numbering⟩ := by
  rw [value_compileFrom] at h
  cases result : (outcome (d.compiling scope start) (State.start d none)).1 with
  | error e =>
      rw [result] at h
      cases h
  | ok region =>
      have succeeds : outcome (d.compiling scope start) (State.start d none)
          = (.ok region, (outcome (d.compiling scope start) (State.start d none)).2) :=
        Prod.ext result rfl
      rw [compiling] at succeeds
      obtain ⟨items, t, walked, _⟩ := outcome_bind_eq_ok succeeds
      obtain ⟨u, compiles, same⟩ := outcome_compiling scope walked
      rw [compiles] at h
      refine ⟨items, t.numbers, (walked_of_ok d).1 _ _ _ _ _ _ _ walked, ?_⟩
      have numbering : u.numbering = t.numbering := congrArg Numbers.numbering same
      cases h
      rw [numbering]
      rfl

theorem compileFrom_of_walk {scope start : Element} {items : List Region} {t : State}
    (h : outcome (walk d [] [] none (some start)) (State.start d none) = (.ok items, t)) :
    (d.compileFrom scope start).value
      = .ok ⟨(t.numbers.fold items).1, t.numbers.numbering⟩ := by
  obtain ⟨u, compiles, same⟩ := outcome_compiling scope h
  have numbering : u.numbering = t.numbering := congrArg Numbers.numbering same
  rw [value_compileFrom, compiles]
  change Except.ok _ = _
  rw [numbering]
  rfl

theorem compileFrom_of_failed {scope start : Element} {err : StructuralError} {t : State}
    (h : outcome (walk d [] [] none (some start)) (State.start d none) = (.error err, t)) :
    (d.compileFrom scope start).value = .error err := by
  have walked : outcome (walkBetween d (some start) none) (State.start d none) = (.error err, t) := h
  rw [value_compileFrom, compiling, outcome_bind_of_error walked]
  rfl

/-- With its checks passed, compiling a scope is compiling from its start event. -/
theorem value_compile {scope : Option Element} {validated : Bool} {top start : Element}
    (valid : validated = true → d.scopeViolations = [])
    (here : (scope.map Except.ok).getD d.defaultScope = .ok top)
    (found : d.scopeStart top = .ok start) :
    (d.compile scope validated).value = (d.compileFrom top start).value := by
  have checked : (if validated then d.ensureValid else pure (.ok ())).value = .ok () := by
    cases validated with
    | false => rfl
    | true =>
        have none : d.validate.value = [] := valid rfl
        rw [if_pos rfl, ensureValid, Logged.value_bind, none]
        rfl
  rw [compile, Logged.value_bind, checked]
  simp only [here, found]

theorem walked_of_compile {scope : Option Element} {validated : Bool} {compiled : CompiledScope}
    (h : (d.compile scope validated).value = .ok compiled) :
    ∃ start items m, d.entry scope = .ok start ∧
      Walked d none (some start) (State.start d none).numbers items m ∧
      compiled = ⟨(m.fold items).1, m.numbering⟩ := by
  rw [compile, Logged.value_bind] at h
  split at h
  next => cases h
  next =>
      split at h
      next => cases h
      next top here =>
          split at h
          next => cases h
          next start found =>
              obtain ⟨items, m, walked, same⟩ := walked_of_compileFrom h
              refine ⟨start, items, m, ?_, walked, same⟩
              rw [entry, here]
              exact found

end ProcessDiagram.Diagram
