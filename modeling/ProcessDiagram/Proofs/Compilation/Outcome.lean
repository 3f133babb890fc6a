import ProcessDiagram.Compilation

/-!
What the computations of a compilation give, and the numbers they leave behind. Reports change
neither, so they are left out of account.
-/
namespace ProcessDiagram.Compilation

variable {α β : Type}

/-- The native ids numbered so far and the next synthetic id. -/
structure Numbers where
  numbering : Numbering
  nextSynthetic : Int
  deriving DecidableEq

def State.numbers (s : State) : Numbers :=
  ⟨s.numbering, s.nextSynthetic⟩

def outcome (x : Compilation α) (s : State) : Except StructuralError α × State :=
  x.run.run s

theorem outcome_bind (x : Compilation α) (f : α → Compilation β) (s : State) :
    outcome (x >>= f) s = match outcome x s with
      | (.ok a, t) => outcome (f a) t
      | (.error e, t) => (.error e, t) := by
  simp only [outcome, ExceptT.run_bind, StateT.run_bind]
  cases x.run.run s with
  | mk r t => cases r <;> rfl

theorem outcome_bind_of_ok {x : Compilation α} {s t : State} {a : α}
    (h : outcome x s = (.ok a, t)) (f : α → Compilation β) :
    outcome (x >>= f) s = outcome (f a) t := by
  rw [outcome_bind, h]

theorem outcome_bind_eq_ok {x : Compilation α} {f : α → Compilation β} {s u : State} {b : β}
    (h : outcome (x >>= f) s = (.ok b, u)) :
    ∃ a t, outcome x s = (.ok a, t) ∧ outcome (f a) t = (.ok b, u) := by
  rw [outcome_bind] at h
  cases hx : outcome x s with
  | mk r t =>
      rw [hx] at h
      cases r with
      | ok a => exact ⟨a, t, rfl, h⟩
      | error e => cases h

theorem outcome_bind_of_error {x : Compilation α} {s t : State} {e : StructuralError}
    (h : outcome x s = (.error e, t)) (f : α → Compilation β) :
    outcome (x >>= f) s = (.error e, t) := by
  rw [outcome_bind, h]

theorem outcome_bind_pure (x : Compilation α) (f : α → β) (s : State) :
    outcome (x >>= fun a => pure (f a)) s = ((outcome x s).1.map f, (outcome x s).2) := by
  rw [outcome_bind]
  cases outcome x s with
  | mk r t => cases r <;> rfl

theorem eq_error_of_map {r : Except StructuralError α} {f : α → β} {e : StructuralError}
    (h : r.map f = .error e) : r = .error e := by
  cases r with
  | ok a => cases h
  | error e' =>
      cases h
      rfl

theorem outcome_intern (id : String) (s : State) :
    outcome (intern id) s
      = (.ok ((s.numbering.intern id).1 : Int), { s with numbering := (s.numbering.intern id).2 }) :=
  rfl

theorem outcome_fold (items : List Region) (s : State) :
    outcome (fold items) s = (.ok (Region.fold items s.nextSynthetic).1,
      { s with nextSynthetic := (Region.fold items s.nextSynthetic).2 }) := rfl

/-- A report: it gives nothing and changes no number. -/
def Silent (x : Compilation Unit) : Prop :=
  ∀ s, ∃ t, outcome x s = (.ok (), t) ∧ t.numbers = s.numbers

theorem silent_note (level : Level) (channel : Channel) (message : String) :
    Silent (note level channel message) :=
  fun _ => ⟨_, rfl, rfl⟩

theorem silent_report (records : List Record) : Silent (report records) :=
  fun _ => ⟨_, rfl, rfl⟩

theorem silent_pure : Silent (pure ()) :=
  fun s => ⟨s, rfl, rfl⟩

theorem silent_noteFirstOnly (d : Diagram) (e : Element) : Silent (noteFirstOnly d e) := by
  simp only [noteFirstOnly]
  split
  · exact silent_note _ _ _
  · exact silent_pure

theorem silent_noteUnsupported (e : Element) : Silent (noteUnsupported e) :=
  silent_note _ _ _

theorem silent_noteBranch (split : Element) (index : Nat) (target : Element) :
    Silent (noteBranch split index target) :=
  silent_note _ _ _

theorem silent_noteAfterJoin (d : Diagram) (join : Element) (stop : Option String) :
    Silent (noteAfterJoin d join stop) := by
  simp only [noteAfterJoin]
  split
  · exact silent_pure
  · exact silent_noteFirstOnly d join

theorem Silent.eq_ok {x : Compilation Unit} (h : Silent x) {s t : State} {u : Unit}
    (eq : outcome x s = (.ok u, t)) : t.numbers = s.numbers := by
  obtain ⟨t', eq', same⟩ := h s
  rw [eq] at eq'
  cases eq'
  exact same

/-- A split is closed by the join of the search, or the computation fails. -/
theorem joinOf_eq_ok {d : Diagram} {split join : Element} {s t : State}
    (h : outcome (joinOf d split) s = (.ok join, t)) :
    d.findJoin split = .closesAt join ∧ t.numbers = s.numbers := by
  rw [joinOf] at h
  obtain ⟨u, s₁, reported, h⟩ := outcome_bind_eq_ok h
  have same := (silent_report _).eq_ok reported
  cases found : d.findJoin split with
  | closesAt other =>
      rw [found] at h
      cases h
      exact ⟨rfl, same⟩
  | noBranch | noGateway | ambiguous _ =>
      rw [found] at h
      cases h

theorem numbers_joinOf (d : Diagram) (split : Element) (s : State) :
    (outcome (joinOf d split) s).2.numbers = s.numbers := by
  obtain ⟨t, reported, same⟩ := silent_report ((d.findJoin split).records split) s
  rw [joinOf, outcome_bind_of_ok reported]
  cases d.findJoin split <;> exact same

theorem joinOf_of_closesAt {d : Diagram} {split join : Element}
    (found : d.findJoin split = .closesAt join) (s : State) :
    ∃ t, outcome (joinOf d split) s = (.ok join, t) ∧ t.numbers = s.numbers := by
  obtain ⟨t, reported, same⟩ := silent_report ((d.findJoin split).records split) s
  refine ⟨t, ?_, same⟩
  rw [joinOf, outcome_bind_of_ok reported, found]
  rfl

end ProcessDiagram.Compilation
