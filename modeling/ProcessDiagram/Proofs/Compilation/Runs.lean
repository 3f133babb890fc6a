import ProcessDiagram.Proofs.Compilation.Walked

/-!
Walks as finite derivations, failures included. The rules say what happens at an element and
which walks that takes, with nothing that limits how many there are; every walk has a derivation
all the same, of the one result that it comes to.
-/
namespace ProcessDiagram.Compilation

/-- What a computation comes to, and the state in which it leaves. -/
abbrev Outcome (α : Type) := Except StructuralError α × State

mutual

/-- A walk comes to this result. -/
inductive Runs (d : Diagram) :
    List String → List String → Option String → Option Element → State →
      Outcome (List Region) → Prop
  | finished {opened seen : List String} {stop : Option String} {s : State} :
      Runs d opened seen stop none s (.ok [], s)
  | ended {opened seen : List String} {stop : Option String} {e : Element} {s : State} :
      Ends stop e → Runs d opened seen stop (some e) s (.ok [], s)
  | again {opened seen : List String} {stop : Option String} {e : Element} {s : State} :
      ¬ Ends stop e → seen.contains e.id → Runs d opened seen stop (some e) s
        (.error (.revisited e.id), s)
  | work {opened seen : List String} {stop : Option String} {e : Element} {s s₁ s₂ t : State}
      {id : Int} {r : Except StructuralError (List Region)} :
      ¬ Ends stop e → ¬ seen.contains e.id → roleOf d e = .work →
        outcome (intern e.id) s = (.ok id, s₁) → outcome (noteFirstOnly d e) s₁ = (.ok (), s₂) →
          Runs d opened (e.id :: seen) stop (d.successor? e) s₂ (r, t) →
            Runs d opened seen stop (some e) s (r.map (.unitTask id e.name :: ·), t)
  | pass {opened seen : List String} {stop : Option String} {e : Element} {s s₁ : State}
      {result : Outcome (List Region)} :
      ¬ Ends stop e → ¬ seen.contains e.id → roleOf d e = .pass →
        outcome (noteFirstOnly d e) s = (.ok (), s₁) →
          Runs d opened (e.id :: seen) stop (d.successor? e) s₁ result →
            Runs d opened seen stop (some e) s result
  | unsupported {opened seen : List String} {stop : Option String} {e : Element}
      {s s₁ s₂ : State} {result : Outcome (List Region)} :
      ¬ Ends stop e → ¬ seen.contains e.id → roleOf d e = .unsupported →
        outcome (noteUnsupported e) s = (.ok (), s₁) →
          outcome (noteFirstOnly d e) s₁ = (.ok (), s₂) →
            Runs d opened (e.id :: seen) stop (d.successor? e) s₂ result →
              Runs d opened seen stop (some e) s result
  | inside {opened seen : List String} {stop : Option String} {e : Element} {s : State} :
      ¬ Ends stop e → ¬ seen.contains e.id → roleOf d e = .split → opened.contains e.id →
        Runs d opened seen stop (some e) s (.error (.reopened e.id), s)
  | unjoined {opened seen : List String} {stop : Option String} {e : Element} {s t : State}
      {err : StructuralError} :
      ¬ Ends stop e → ¬ seen.contains e.id → roleOf d e = .split → ¬ opened.contains e.id →
        outcome (joinOf d e) s = (.error err, t) →
          Runs d opened seen stop (some e) s (.error err, t)
  | fails {opened seen : List String} {stop : Option String} {e join : Element}
      {s s₁ t : State} {err : StructuralError} :
      ¬ Ends stop e → ¬ seen.contains e.id → roleOf d e = .split → ¬ opened.contains e.id →
        outcome (joinOf d e) s = (.ok join, s₁) →
          RunsAll d (e.id :: opened) e join 0 (d.outgoing e) s₁ (.error err, t) →
            Runs d opened seen stop (some e) s (.error err, t)
  | split {opened seen : List String} {stop : Option String} {e join : Element}
      {s s₁ s₂ s₃ s₄ t : State} {children : List Region} {id : Int}
      {r : Except StructuralError (List Region)} :
      ¬ Ends stop e → ¬ seen.contains e.id → roleOf d e = .split → ¬ opened.contains e.id →
        outcome (joinOf d e) s = (.ok join, s₁) →
          RunsAll d (e.id :: opened) e join 0 (d.outgoing e) s₁ (.ok children, s₂) →
            outcome (intern e.id) s₂ = (.ok id, s₃) →
              outcome (noteAfterJoin d join stop) s₃ = (.ok (), s₄) →
                Runs d opened (e.id :: seen) stop (afterJoin? d join stop) s₄ (r, t) →
                  Runs d opened seen stop (some e) s (r.map (splitRegion e id children :: ·), t)

/-- The walks along the flows out of a split come to this result. -/
inductive RunsAll (d : Diagram) :
    List String → Element → Element → Nat → List Flow → State → Outcome (List Region) → Prop
  | nil {opened : List String} {split join : Element} {index : Nat} {s : State} :
      RunsAll d opened split join index [] s (.ok [], s)
  | fails {opened : List String} {split join : Element} {index : Nat} {f : Flow}
      {rest : List Flow} {s s₁ t : State} {err : StructuralError} :
      outcome (noteBranch split index f.target) s = (.ok (), s₁) →
        Runs d opened [] (some join.id) (some f.target) s₁ (.error err, t) →
          RunsAll d opened split join index (f :: rest) s (.error err, t)
  | cons {opened : List String} {split join : Element} {index : Nat} {f : Flow}
      {rest : List Flow} {s s₁ s₂ s₃ t : State} {items : List Region} {child : Region}
      {r : Except StructuralError (List Region)} :
      outcome (noteBranch split index f.target) s = (.ok (), s₁) →
        Runs d opened [] (some join.id) (some f.target) s₁ (.ok items, s₂) →
          outcome (fold items) s₂ = (.ok child, s₃) →
            RunsAll d opened split join (index + 1) rest s₃ (r, t) →
              RunsAll d opened split join index (f :: rest) s (r.map (child :: ·), t)

end

variable {d : Diagram}

theorem runs_split {opened seen : List String} {stop : Option String} {e : Element}
    (going : ¬ Ends stop e) (fresh : ¬ seen.contains e.id) (role : roleOf d e = .split)
    (closed : ¬ opened.contains e.id)
    (inside : ∀ join s, RunsAll d (e.id :: opened) e join 0 (d.outgoing e) s
      (outcome (branches d (e.id :: opened) e join 0 (d.outgoing e)) s))
    (behind : ∀ join s, Runs d opened (e.id :: seen) stop (afterJoin? d join stop) s
      (outcome (walk d opened (e.id :: seen) stop (afterJoin? d join stop)) s)) (s : State) :
    Runs d opened seen stop (some e) s (outcome (walk d opened seen stop (some e)) s) := by
  rw [walk_of_split going fresh role closed]
  cases found : outcome (joinOf d e) s with
  | mk r s₁ =>
      cases r with
      | error err =>
          rw [outcome_bind_of_error found]
          exact .unjoined going fresh role closed found
      | ok join =>
          rw [outcome_bind_of_ok found]
          have inner := inside join s₁
          cases branched : outcome (branches d (e.id :: opened) e join 0 (d.outgoing e)) s₁ with
          | mk r s₂ =>
              rw [branched] at inner
              cases r with
              | error err =>
                  rw [outcome_bind_of_error branched]
                  exact .fails going fresh role closed found inner
              | ok children =>
                  obtain ⟨s₄, noted, _⟩ := silent_noteAfterJoin d join stop
                    { s₂ with numbering := (s₂.numbering.intern e.id).2 }
                  rw [outcome_bind_of_ok branched, outcome_bind_of_ok (outcome_intern e.id s₂),
                    outcome_bind_of_ok noted, outcome_bind_pure]
                  exact .split going fresh role closed found inner (outcome_intern e.id s₂) noted
                    (behind join s₄)

theorem runsAll_cons {opened : List String} {split join : Element} {index : Nat} {f : Flow}
    {rest : List Flow}
    (first : ∀ s, Runs d opened [] (some join.id) (some f.target) s
      (outcome (walk d opened [] (some join.id) (some f.target)) s))
    (later : ∀ s, RunsAll d opened split join (index + 1) rest s
      (outcome (branches d opened split join (index + 1) rest) s)) (s : State) :
    RunsAll d opened split join index (f :: rest) s
      (outcome (branches d opened split join index (f :: rest)) s) := by
  obtain ⟨s₁, noted, _⟩ := silent_noteBranch split index f.target s
  rw [branches, outcome_bind_of_ok noted]
  have inner := first s₁
  cases walked : outcome (walk d opened [] (some join.id) (some f.target)) s₁ with
  | mk r s₂ =>
      rw [walked] at inner
      cases r with
      | error err =>
          rw [outcome_bind_of_error walked]
          exact .fails noted inner
      | ok items =>
          rw [outcome_bind_of_ok walked, outcome_bind_of_ok (outcome_fold items s₂),
            outcome_bind_pure]
          exact .cons noted inner (outcome_fold items s₂) (later _)

/-- Every walk is carried out in finitely many steps. -/
theorem runs_walk (d : Diagram) :
    (∀ (opened seen : List String) (stop : Option String) (current : Option Element) (s : State),
      Runs d opened seen stop current s (outcome (walk d opened seen stop current) s)) ∧
    (∀ (opened : List String) (split join : Element) (index : Nat) (flows : List Flow)
        (s : State),
      RunsAll d opened split join index flows s
        (outcome (branches d opened split join index flows) s)) := by
  apply walk.mutual_induct d
  case case1 =>
    intro opened seen stop s
    rw [walk]
    exact .finished
  case case2 =>
    intro opened seen stop e ends s
    rw [walk_of_ends ends]
    exact .ended ends
  case case3 =>
    intro opened seen stop e going again s
    rw [walk_of_seen going again]
    exact .again going again
  case case4 =>
    intro opened seen stop e going fresh role ih s
    obtain ⟨s₂, noted, _⟩ := silent_noteFirstOnly d e
      { s with numbering := (s.numbering.intern e.id).2 }
    rw [walk_of_work going fresh role, outcome_bind_of_ok (outcome_intern e.id s),
      outcome_bind_of_ok noted, outcome_bind_pure]
    exact .work going fresh role (outcome_intern e.id s) noted (ih s₂)
  case case5 =>
    intro opened seen stop e going fresh role ih s
    obtain ⟨s₁, noted, _⟩ := silent_noteFirstOnly d e s
    rw [walk_of_pass going fresh role, outcome_bind_of_ok noted]
    exact .pass going fresh role noted (ih s₁)
  case case6 =>
    intro opened seen stop e going fresh role ih s
    obtain ⟨s₁, noted, _⟩ := silent_noteUnsupported e s
    obtain ⟨s₂, noted', _⟩ := silent_noteFirstOnly d e s₁
    rw [walk_of_unsupported going fresh role, outcome_bind_of_ok noted, outcome_bind_of_ok noted']
    exact .unsupported going fresh role noted noted' (ih s₂)
  case case7 =>
    intro opened seen stop e going fresh role again s
    rw [walk_of_opened going fresh role again]
    exact .inside going fresh role again
  case case8 =>
    intro opened seen stop e going fresh role closed ihBranches ihWalk s
    exact runs_split going fresh role closed ihBranches ihWalk s
  case case9 =>
    intro opened split join index s
    rw [branches]
    exact .nil
  case case10 =>
    intro opened split join index f rest ihWalk ihRest s
    exact runsAll_cons ihWalk ihRest s

theorem Runs.outcome_eq {opened seen : List String} {stop : Option String}
    {current : Option Element} {s : State} {result : Outcome (List Region)}
    (h : Runs d opened seen stop current s result) :
    outcome (walk d opened seen stop current) s = result := by
  refine @Runs.rec d
    (fun opened seen stop current s result _ =>
      outcome (walk d opened seen stop current) s = result)
    (fun opened split join index flows s result _ =>
      outcome (branches d opened split join index flows) s = result)
    ?finished ?ended ?again ?work ?pass ?unsupported ?inside ?unjoined ?fails ?split
    ?noFlow ?flowFails ?flow _ _ _ _ _ _ h
  case finished =>
    intro opened seen stop s
    rw [walk]
    rfl
  case ended =>
    intro opened seen stop e s ends
    rw [walk_of_ends ends]
    rfl
  case again =>
    intro opened seen stop e s going again
    rw [walk_of_seen going again]
    rfl
  case work =>
    intro opened seen stop e s s₁ s₂ t id r going fresh role interned noted _ rest
    rw [walk_of_work going fresh role, outcome_bind_of_ok interned, outcome_bind_of_ok noted,
      outcome_bind_pure, rest]
  case pass =>
    intro opened seen stop e s s₁ result going fresh role noted _ rest
    rw [walk_of_pass going fresh role, outcome_bind_of_ok noted, rest]
  case unsupported =>
    intro opened seen stop e s s₁ s₂ result going fresh role noted noted' _ rest
    rw [walk_of_unsupported going fresh role, outcome_bind_of_ok noted,
      outcome_bind_of_ok noted', rest]
  case inside =>
    intro opened seen stop e s going fresh role again
    rw [walk_of_opened going fresh role again]
    rfl
  case unjoined =>
    intro opened seen stop e s t err going fresh role closed found
    rw [walk_of_split going fresh role closed, outcome_bind_of_error found]
  case fails =>
    intro opened seen stop e join s s₁ t err going fresh role closed found _ branched
    rw [walk_of_split going fresh role closed, outcome_bind_of_ok found,
      outcome_bind_of_error branched]
  case split =>
    intro opened seen stop e join s s₁ s₂ s₃ s₄ t children id r going fresh role closed found _
      interned noted _ branched rest
    rw [walk_of_split going fresh role closed, outcome_bind_of_ok found,
      outcome_bind_of_ok branched, outcome_bind_of_ok interned, outcome_bind_of_ok noted,
      outcome_bind_pure, rest]
  case noFlow =>
    intro opened split join index s
    rw [branches]
    rfl
  case flowFails =>
    intro opened split join index f flows s s₁ t err noted _ walked
    rw [branches, outcome_bind_of_ok noted, outcome_bind_of_error walked]
  case flow =>
    intro opened split join index f flows s s₁ s₂ s₃ t items child r noted _ folded _ walked rest
    rw [branches, outcome_bind_of_ok noted, outcome_bind_of_ok walked,
      outcome_bind_of_ok folded, outcome_bind_pure, rest]

/-- A walk comes to one result, and it comes to it. -/
theorem runs_iff {opened seen : List String} {stop : Option String} {current : Option Element}
    {s : State} {result : Outcome (List Region)} :
    Runs d opened seen stop current s result ↔
      outcome (walk d opened seen stop current) s = result := by
  constructor
  · exact Runs.outcome_eq
  · intro same
    exact same ▸ (runs_walk d).1 opened seen stop current s

end ProcessDiagram.Compilation
