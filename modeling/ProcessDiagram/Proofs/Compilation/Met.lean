import ProcessDiagram.Proofs.Compilation.Growth

/-!
The elements that a walk numbers. They depend only on where the walk stands and where it stops,
so a split that is compiled again stands over the same elements as before, and its own number,
which comes after theirs, stays the largest.
-/
namespace ProcessDiagram.Compilation

/-- A walk up to the stop numbers the element, on its way or in a branch of a split. -/
inductive Meets (d : Diagram) : Option String → Option Element → Element → Prop
  | here {stop : Option String} {e : Element} :
      ¬ Ends stop e → roleOf d e = .work ∨ roleOf d e = .split → Meets d stop (some e) e
  | onward {stop : Option String} {e x : Element} :
      ¬ Ends stop e → roleOf d e ≠ .split →
        Meets d stop (d.successor? e) x → Meets d stop (some e) x
  | inside {stop : Option String} {e join x : Element} {f : Flow} :
      ¬ Ends stop e → roleOf d e = .split → d.findJoin e = .closesAt join → f ∈ d.outgoing e →
        Meets d (some join.id) (some f.target) x → Meets d stop (some e) x
  | behind {stop : Option String} {e join x : Element} :
      ¬ Ends stop e → roleOf d e = .split → d.findJoin e = .closesAt join →
        Meets d stop (afterJoin? d join stop) x → Meets d stop (some e) x

/-- The walk along one of the flows numbers the element before it comes to the join. -/
def MeetsAny (d : Diagram) (join : Element) (flows : List Flow) (x : Element) : Prop :=
  ∃ f ∈ flows, Meets d (some join.id) (some f.target) x

theorem MeetsAny.of_cons {d : Diagram} {join x : Element} {f : Flow} {rest : List Flow}
    (h : MeetsAny d join (f :: rest) x) :
    Meets d (some join.id) (some f.target) x ∨ MeetsAny d join rest x := by
  obtain ⟨g, hg, met⟩ := h
  obtain rfl | later := List.mem_cons.mp hg
  · exact .inl met
  · exact .inr ⟨g, later, met⟩

/-- The branches of a split number the element. -/
def Inside (d : Diagram) (split x : Element) : Prop :=
  ∃ join, d.findJoin split = .closesAt join ∧ MeetsAny d join (d.outgoing split) x

variable {d : Diagram} {stop : Option String} {e x join : Element}

theorem not_meets_none : ¬ Meets d stop none x := nofun

theorem not_meets_of_ends (ends : Ends stop e) : ¬ Meets d stop (some e) x := by
  intro h
  cases h with
  | here going => exact going ends
  | onward going => exact going ends
  | inside going => exact going ends
  | behind going => exact going ends

theorem Meets.of_work (role : roleOf d e = .work) (h : Meets d stop (some e) x) :
    x = e ∨ Meets d stop (d.successor? e) x := by
  cases h with
  | here => exact .inl rfl
  | onward _ _ h => exact .inr h
  | inside _ split => cases role.symm.trans split
  | behind _ split => cases role.symm.trans split

theorem Meets.of_pass (role : roleOf d e = .pass ∨ roleOf d e = .unsupported)
    (h : Meets d stop (some e) x) : Meets d stop (d.successor? e) x := by
  cases h with
  | onward _ _ h => exact h
  | here _ busy => rcases role with role | role <;> simp [role] at busy
  | inside _ split => rcases role with role | role <;> simp [role] at split
  | behind _ split => rcases role with role | role <;> simp [role] at split

theorem Meets.of_split (role : roleOf d e = .split) (closes : d.findJoin e = .closesAt join)
    (h : Meets d stop (some e) x) :
    x = e ∨ MeetsAny d join (d.outgoing e) x ∨ Meets d stop (afterJoin? d join stop) x := by
  cases h with
  | here => exact .inl rfl
  | onward _ other => exact absurd role other
  | inside _ _ closes' hf h =>
      cases closes.symm.trans closes'
      exact .inr (.inl ⟨_, hf, h⟩)
  | behind _ _ closes' h =>
      cases closes.symm.trans closes'
      exact .inr (.inr h)

theorem inside_iff (closes : d.findJoin e = .closesAt join) :
    Inside d e x ↔ MeetsAny d join (d.outgoing e) x := by
  constructor
  · intro ⟨join', closes', met⟩
    cases closes.symm.trans closes'
    exact met
  · intro met
    exact ⟨join, closes, met⟩

theorem Meets.mem (c : d.Consistent) {current : Option Element} (h : Meets d stop current x)
    (inside : ∀ e, current = some e → e ∈ d.nodes) : x ∈ d.nodes := by
  induction h with
  | here => exact inside _ rfl
  | onward _ _ _ ih => exact ih fun _ => successor?_mem c
  | inside _ _ _ hf _ ih =>
      apply ih
      intro e same
      cases same
      exact c.target_mem hf
  | behind _ _ closes _ ih => exact ih fun _ => afterJoin?_mem c (Diagram.findJoin_spec closes).1

/-- A numbered split comes after all that its branches number. -/
def Ordered (d : Diagram) (n : Numbering) : Prop :=
  ∀ e ∈ d.nodes, roleOf d e = .split → e.id ∈ n.ids → ∀ x, Inside d e x →
    x.id ∈ n.ids ∧ n.number x.id < n.number e.id

theorem Ordered.intern (c : d.Consistent) {n : Numbering} (h : Ordered d n) (he : e ∈ d.nodes)
    (after : roleOf d e = .split → ∀ x, Inside d e x → x.id ∈ n.ids) :
    Ordered d (n.intern e.id).2 := by
  have grown := n.prefix_intern e.id
  intro e' he' role numbered x inside
  by_cases old : e'.id ∈ n.ids
  · obtain ⟨known, less⟩ := h e' he' role old x inside
    rw [Numbering.number_of_grown grown known, Numbering.number_of_grown grown old]
    exact ⟨grown.subset known, less⟩
  · have same := (Numbering.eq_or_mem_of_mem_intern numbered).resolve_right old
    cases c.eq_of_id he' he same
    have known := after role x inside
    exact ⟨grown.subset known, Numbering.number_lt_of_not_mem old known⟩

/-- A walk numbers what it meets, and splits after their branches. -/
theorem ordered_of_walked (c : d.Consistent) :
    (∀ stop current n items m, Walked d stop current n items m →
      (∀ e, current = some e → e ∈ d.nodes) → Within d n → Ordered d n.numbering →
        Ordered d m.numbering ∧ ∀ x, Meets d stop current x → x.id ∈ m.numbering.ids) ∧
    (∀ join flows n children m, Branched d join flows n children m →
      (∀ f ∈ flows, f.target ∈ d.nodes) → Within d n → Ordered d n.numbering →
        Ordered d m.numbering ∧ ∀ x, MeetsAny d join flows x → x.id ∈ m.numbering.ids) := by
  apply inside_induction c
  case finished =>
    intro stop n ordered
    exact ⟨ordered, fun x met => absurd met not_meets_none⟩
  case ended =>
    intro stop e n ends ordered
    exact ⟨ordered, fun x met => absurd met (not_meets_of_ends ends)⟩
  case work =>
    intro stop e n m items node _ role up ih ordered
    have ordered' : Ordered d (n.intern e.id).2.numbering := by
      apply ordered.intern c node
      intro split
      cases role.symm.trans split
    obtain ⟨ordered'', numbered⟩ := ih ordered'
    refine ⟨ordered'', ?_⟩
    intro x met
    obtain rfl | later := met.of_work role
    · exact up.ids.subset (Numbering.mem_intern _ _)
    · exact numbered x later
  case pass =>
    intro stop e n m items _ _ role ih ordered
    obtain ⟨ordered', numbered⟩ := ih ordered
    exact ⟨ordered', fun x met => numbered x (met.of_pass role)⟩
  case split =>
    intro stop e join n k m children items node _ role closes _ up ihBranches ihWalk ordered
    obtain ⟨orderedK, numberedK⟩ := ihBranches ordered
    have ordered' : Ordered d (k.intern e.id).2.numbering := by
      apply orderedK.intern c node
      intro _ x inside
      exact numberedK x ((inside_iff closes).mp inside)
    obtain ⟨ordered'', numbered⟩ := ihWalk ordered'
    refine ⟨ordered'', ?_⟩
    intro x met
    obtain rfl | inBranch | later := met.of_split role closes
    · exact up.ids.subset (Numbering.mem_intern _ _)
    · exact ((Grows.intern k e.id).trans up).ids.subset (numberedK x inBranch)
    · exact numbered x later
  case nil =>
    intro join n ordered
    refine ⟨ordered, ?_⟩
    intro x ⟨f, hf, _⟩
    cases hf
  case cons =>
    intro join f rest n k m items others _ up ihWalk ihRest ordered
    obtain ⟨orderedK, numberedK⟩ := ihWalk ordered
    obtain ⟨ordered', numbered⟩ := ihRest orderedK
    refine ⟨ordered', ?_⟩
    intro x met
    cases MeetsAny.of_cons met with
    | inl first => exact ((Grows.fold k items).trans up).ids.subset (numberedK x first)
    | inr later => exact numbered x later

end ProcessDiagram.Compilation
