import ProcessDiagram.Diagram.Reachability
import ProcessDiagram.Proofs.Diagram.Built

/-!
The search finds what the flows lead to and nothing else. Diagrams whose flows never lead back
are acyclic: there, two elements that lead to each other are one.
-/
namespace ProcessDiagram.Diagram

variable {d : Diagram}

theorem mem_targetIds {a b : String} :
    b ∈ d.targetIds a ↔ ∃ f ∈ d.flows, f.source.id = a ∧ f.target.id = b := by
  simp only [targetIds, List.mem_map, List.mem_filter, beq_iff_eq, and_assoc]

namespace Leads

theorem trans {a b c : String} (h : d.Leads a b) (k : d.Leads b c) : d.Leads a c := by
  induction k with
  | refl => exact h
  | step f _ hf hs ih => exact .step f ih hf hs

theorem head {f : Flow} {b : String} (hf : f ∈ d.flows) (h : d.Leads f.target.id b) :
    d.Leads f.source.id b :=
  (Leads.step f (.refl _) hf rfl).trans h

theorem cases_head {a b : String} (h : d.Leads a b) :
    a = b ∨ ∃ f ∈ d.flows, f.source.id = a ∧ d.Leads f.target.id b := by
  induction h with
  | refl => exact .inl rfl
  | step f hl hf hs ih =>
      right
      rcases ih with rfl | ⟨g, hg, source, onward⟩
      · exact ⟨f, hf, hs, .refl _⟩
      · exact ⟨g, hg, source, .step f onward hf hs⟩

end Leads

theorem leads_iff {e : Element} {b : String} :
    d.Leads e.id b ↔ b = e.id ∨ ∃ f ∈ d.outgoing e, d.Leads f.target.id b := by
  constructor
  · intro h
    rcases h.cases_head with same | ⟨f, hf, source, onward⟩
    · exact .inl same.symm
    · exact .inr ⟨f, mem_outgoing.mpr ⟨hf, source⟩, onward⟩
  · rintro (rfl | ⟨f, hf, onward⟩)
    · exact .refl _
    · obtain ⟨hf, source⟩ := mem_outgoing.mp hf
      exact source ▸ Leads.head hf onward

theorem search_sound (waiting seen : List String) {b : String}
    (h : b ∈ d.search waiting seen) : b ∈ seen ∨ ∃ a ∈ waiting, d.Leads a b := by
  fun_induction search d waiting seen with
  | case1 seen => exact .inl h
  | case2 seen id rest _ ih =>
      rcases ih h with old | ⟨a, ha, leads⟩
      · exact .inl old
      · exact .inr ⟨a, List.mem_cons_of_mem _ ha, leads⟩
  | case3 seen id rest _ _ ih =>
      rcases ih h with old | ⟨a, ha, leads⟩
      · rcases List.mem_cons.mp old with rfl | old
        · exact .inr ⟨b, List.mem_cons_self, .refl _⟩
        · exact .inl old
      · right
        rcases List.mem_append.mp ha with ha | ha
        · obtain ⟨f, hf, rfl, rfl⟩ := mem_targetIds.mp ha
          exact ⟨_, List.mem_cons_self, leads.head hf⟩
        · exact ⟨a, List.mem_cons_of_mem _ ha, leads⟩

/-- The result holds what was seen or waiting, and every target of its members. -/
theorem search_closed (waiting seen : List String)
    (closed : ∀ a ∈ seen, ∀ b ∈ d.targetIds a, b ∈ seen ∨ b ∈ waiting) :
    (∀ a, a ∈ seen ∨ a ∈ waiting → a ∈ d.search waiting seen) ∧
      ∀ a ∈ d.search waiting seen, ∀ b ∈ d.targetIds a, b ∈ d.search waiting seen := by
  fun_induction search d waiting seen with
  | case1 seen =>
      simp only [List.not_mem_nil, or_false] at closed ⊢
      exact ⟨fun _ h => h, closed⟩
  | case2 seen id rest known ih =>
      have known : id ∈ seen := by simpa using known
      obtain ⟨inside, onward⟩ := ih (by
        intro a ha b hb
        rcases closed a ha b hb with old | new
        · exact .inl old
        · rcases List.mem_cons.mp new with rfl | new
          · exact .inl known
          · exact .inr new)
      refine ⟨?_, onward⟩
      rintro a (old | new)
      · exact inside a (.inl old)
      · rcases List.mem_cons.mp new with rfl | new
        · exact inside a (.inl known)
        · exact inside a (.inr new)
  | case3 seen id rest _ _ ih =>
      obtain ⟨inside, onward⟩ := ih (by
        intro a ha b hb
        rcases List.mem_cons.mp ha with rfl | ha
        · exact .inr (List.mem_append_left _ hb)
        · rcases closed a ha b hb with old | new
          · exact .inl (List.mem_cons_of_mem _ old)
          · rcases List.mem_cons.mp new with rfl | new
            · exact .inl List.mem_cons_self
            · exact .inr (List.mem_append_right _ new))
      refine ⟨?_, onward⟩
      rintro a (old | new)
      · exact inside a (.inl (List.mem_cons_of_mem _ old))
      · rcases List.mem_cons.mp new with rfl | new
        · exact inside a (.inl List.mem_cons_self)
        · exact inside a (.inr (List.mem_append_right _ new))

theorem mem_reachable {a b : String} : b ∈ d.reachable a ↔ d.Leads a b := by
  constructor
  · intro h
    rcases search_sound _ _ h with none | ⟨c, hc, leads⟩
    · simp at none
    · rw [List.mem_singleton] at hc
      exact hc ▸ leads
  · intro h
    obtain ⟨inside, onward⟩ := search_closed (d := d) [a] [] (by simp)
    induction h with
    | refl => exact inside a (.inr List.mem_cons_self)
    | step f _ hf hs ih => exact onward _ ih _ (mem_targetIds.mpr ⟨f, hf, hs, rfl⟩)

/-- No flow leads back to its own source. -/
def Acyclic (d : Diagram) : Prop :=
  ∀ f ∈ d.flows, ¬ d.Leads f.target.id f.source.id

/-- From the id flows lead to a flow that leads back to its source. -/
def CycleFrom (d : Diagram) (id : String) : Prop :=
  ∃ f ∈ d.flows, d.Leads id f.source.id ∧ d.Leads f.target.id f.source.id

theorem Acyclic.not_cycleFrom (acyclic : d.Acyclic) (id : String) : ¬ d.CycleFrom id := by
  intro cycle
  obtain ⟨f, hf, _, back⟩ := cycle
  exact acyclic f hf back

theorem Leads.rank_le {rank : String → Nat}
    (up : ∀ f ∈ d.flows, rank f.source.id < rank f.target.id) {a b : String} (h : d.Leads a b) :
    rank a ≤ rank b := by
  induction h with
  | refl => exact Nat.le_refl _
  | step f _ hf source ih =>
      have := up f hf
      rw [source] at this
      omega

theorem acyclic_of_rank (rank : String → Nat)
    (up : ∀ f ∈ d.flows, rank f.source.id < rank f.target.id) : d.Acyclic := by
  intro f hf back
  have := up f hf
  have := back.rank_le up
  omega

theorem Acyclic.antisymm (acyclic : d.Acyclic) {a b : String} (h : d.Leads a b)
    (k : d.Leads b a) : a = b := by
  rcases h.cases_head with same | ⟨f, hf, rfl, onward⟩
  · exact same
  · exact absurd (onward.trans k) (acyclic f hf)

theorem Acyclic.not_leads_back (acyclic : d.Acyclic) {e : Element} {f : Flow}
    (h : f ∈ d.outgoing e) : ¬ d.Leads f.target.id e.id := by
  obtain ⟨hf, source⟩ := mem_outgoing.mp h
  exact source ▸ acyclic f hf

end ProcessDiagram.Diagram
