import ProcessDiagram.Proofs.Compilation.Walked
import ProcessDiagram.Proofs.Numbering
import ProcessDiagram.Proofs.Region.Sequences

/-!
What walks do to the numbers: ids keep theirs, synthetic numbers go up, and all of them stay
above the ids of the diagram.
-/
namespace ProcessDiagram.Compilation

/-- The numbers after some more steps. -/
structure Grows (n m : Numbers) : Prop where
  ids : n.numbering.ids <+: m.numbering.ids
  synthetic : n.nextSynthetic ≤ m.nextSynthetic

/-- Only ids of the diagram are numbered, each once, and synthetic numbers lie above them. -/
structure Within (d : Diagram) (n : Numbers) : Prop where
  nodup : n.numbering.ids.Nodup
  subset : n.numbering.ids ⊆ d.nodes.map (·.id)
  above : (d.nodes.length : Int) < n.nextSynthetic

namespace Grows

theorem refl (n : Numbers) : Grows n n :=
  ⟨List.prefix_rfl, Int.le_refl _⟩

theorem trans {n k m : Numbers} (h : Grows n k) (g : Grows k m) : Grows n m :=
  ⟨h.ids.trans g.ids, Int.le_trans h.synthetic g.synthetic⟩

theorem intern (n : Numbers) (id : String) : Grows n (n.intern id).2 :=
  ⟨n.numbering.prefix_intern id, Int.le_refl _⟩

theorem fold (n : Numbers) (items : List Region) : Grows n (n.fold items).2 :=
  ⟨List.prefix_rfl, Region.le_fold items n.nextSynthetic⟩

end Grows

namespace Within

variable {d : Diagram} {n : Numbers}

theorem intern (h : Within d n) {e : Element} (he : e ∈ d.nodes) :
    Within d (n.intern e.id).2 := by
  refine ⟨Numbering.nodup_intern h.nodup e.id, ?_, h.above⟩
  intro id hid
  cases Numbering.eq_or_mem_of_mem_intern hid with
  | inl same => exact same ▸ List.mem_map_of_mem he
  | inr old => exact h.subset old

theorem fold (h : Within d n) (items : List Region) : Within d (n.fold items).2 := by
  refine ⟨h.nodup, h.subset, ?_⟩
  have up := Region.le_fold items n.nextSynthetic
  have above := h.above
  change (d.nodes.length : Int) < (Region.fold items n.nextSynthetic).2
  omega

theorem size_le (h : Within d n) : n.numbering.size ≤ d.nodes.length := by
  have few := List.Nodup.length_le_of_subset h.nodup h.subset
  rwa [List.length_map] at few

theorem native?_eq_none (h : Within d n) {id : Int} (synthetic : (d.nodes.length : Int) < id) :
    n.numbering.native? id = none := by
  apply Numbering.native?_of_size_lt
  have few := h.size_le
  omega

theorem start (d : Diagram) : Within d (State.start d none).numbers := by
  refine ⟨List.nodup_nil, List.nil_subset _, ?_⟩
  change (d.nodes.length : Int) < d.nodes.length + 1
  omega

end Within

theorem successor?_mem {d : Diagram} (c : d.Consistent) {e next : Element}
    (h : d.successor? e = some next) : next ∈ d.nodes := by
  obtain ⟨f, hf, rfl⟩ := successor?_eq_some h
  exact c.target_mem hf

theorem afterJoin?_mem {d : Diagram} (c : d.Consistent) {stop : Option String}
    {join next : Element} (node : join ∈ d.nodes) (h : afterJoin? d join stop = some next) :
    next ∈ d.nodes := by
  rw [afterJoin?] at h
  split at h
  · cases h
    exact node
  · exact successor?_mem c h

/-- Walks inside the diagram let the numbers grow within it. -/
theorem grows_of_walked {d : Diagram} (c : d.Consistent) :
    (∀ stop current n items m, Walked d stop current n items m →
      (∀ e, current = some e → e ∈ d.nodes) → Within d n → Grows n m ∧ Within d m) ∧
    (∀ join flows n children m, Branched d join flows n children m →
      (∀ f ∈ flows, f.target ∈ d.nodes) → Within d n → Grows n m ∧ Within d m) := by
  apply walked_induction
  case finished =>
    intro stop n _ within
    exact ⟨.refl n, within⟩
  case ended =>
    intro stop e n _ _ within
    exact ⟨.refl n, within⟩
  case work =>
    intro stop e n m items _ _ _ ih inside within
    obtain ⟨grows, within'⟩ := ih (fun _ => successor?_mem c) (within.intern (inside e rfl))
    exact ⟨(Grows.intern n e.id).trans grows, within'⟩
  case pass =>
    intro stop e n m items _ _ _ ih _ within
    exact ih (fun _ => successor?_mem c) within
  case split =>
    intro stop e join n k m children items _ _ closes _ _ ihBranches ihWalk inside within
    obtain ⟨grows, within'⟩ := ihBranches (fun f hf => c.target_mem hf) within
    obtain ⟨grows', within''⟩ := ihWalk
      (fun _ => afterJoin?_mem c (Diagram.findJoin_spec closes).1)
      (within'.intern (inside e rfl))
    exact ⟨grows.trans ((Grows.intern k e.id).trans grows'), within''⟩
  case nil =>
    intro join n _ within
    exact ⟨.refl n, within⟩
  case cons =>
    intro join f rest n k m items others _ _ ihWalk ihRest inside within
    obtain ⟨grows, within'⟩ := ihWalk (by
      intro e he
      cases he
      exact inside f List.mem_cons_self) within
    obtain ⟨grows', within''⟩ := ihRest
      (fun g hg => inside g (List.mem_cons_of_mem _ hg)) (within'.fold items)
    exact ⟨grows.trans ((Grows.fold k items).trans grows'), within''⟩

/-- Induction over walks inside the diagram: every element is one of its own, and the numbers
grow from each part to the next. -/
theorem inside_induction {d : Diagram} (c : d.Consistent)
    {P : Option String → Option Element → Numbers → List Region → Numbers → Prop}
    {Q : Element → List Flow → Numbers → List Region → Numbers → Prop}
    (finished : ∀ stop n, P stop none n [] n)
    (ended : ∀ stop e n, Ends stop e → P stop (some e) n [] n)
    (work : ∀ stop e n m items, e ∈ d.nodes → ¬ Ends stop e → roleOf d e = .work →
      Grows (n.intern e.id).2 m → P stop (d.successor? e) (n.intern e.id).2 items m →
        P stop (some e) n (.unitTask (n.intern e.id).1 e.name :: items) m)
    (pass : ∀ stop e n m items, e ∈ d.nodes → ¬ Ends stop e →
      roleOf d e = .pass ∨ roleOf d e = .unsupported →
        P stop (d.successor? e) n items m → P stop (some e) n items m)
    (split : ∀ stop e join n k m children items, e ∈ d.nodes → ¬ Ends stop e →
      roleOf d e = .split → d.findJoin e = .closesAt join →
        Grows n k → Grows (k.intern e.id).2 m → Q join (d.outgoing e) n children k →
          P stop (afterJoin? d join stop) (k.intern e.id).2 items m →
            P stop (some e) n (splitRegion e (k.intern e.id).1 children :: items) m)
    (nil : ∀ join n, Q join [] n [] n)
    (cons : ∀ join f rest n k m items others, Grows n k → Grows (k.fold items).2 m →
      P (some join.id) (some f.target) n items k → Q join rest (k.fold items).2 others m →
        Q join (f :: rest) n ((k.fold items).1 :: others) m) :
    (∀ stop current n items m, Walked d stop current n items m →
      (∀ e, current = some e → e ∈ d.nodes) → Within d n → P stop current n items m) ∧
    (∀ join flows n children m, Branched d join flows n children m →
      (∀ f ∈ flows, f.target ∈ d.nodes) → Within d n → Q join flows n children m) := by
  obtain ⟨grows, growsBranches⟩ := grows_of_walked c
  apply walked_induction
  case finished =>
    intro stop n _ _
    exact finished stop n
  case ended =>
    intro stop e n ends _ _
    exact ended stop e n ends
  case work =>
    intro stop e n m items going role walked ih inside within
    have next : ∀ e', d.successor? e = some e' → e' ∈ d.nodes := fun _ => successor?_mem c
    have within' := within.intern (inside e rfl)
    exact work stop e n m items (inside e rfl) going role (grows _ _ _ _ _ walked next within').1
      (ih next within')
  case pass =>
    intro stop e n m items going role _ ih inside within
    exact pass stop e n m items (inside e rfl) going role (ih (fun _ => successor?_mem c) within)
  case split =>
    intro stop e join n k m children items going role closes branched walked ihBranches ihWalk
      inside within
    have next : ∀ e', afterJoin? d join stop = some e' → e' ∈ d.nodes :=
      fun _ => afterJoin?_mem c (Diagram.findJoin_spec closes).1
    have out : ∀ f ∈ d.outgoing e, f.target ∈ d.nodes := fun f hf => c.target_mem hf
    obtain ⟨up, withinK⟩ := growsBranches _ _ _ _ _ branched out within
    have within' := withinK.intern (inside e rfl)
    exact split stop e join n k m children items (inside e rfl) going role closes up
      (grows _ _ _ _ _ walked next within').1 (ihBranches out within) (ihWalk next within')
  case nil =>
    intro join n _ _
    exact nil join n
  case cons =>
    intro join f rest n k m items others walked branched ihWalk ihRest inside within
    have head : ∀ e, some f.target = some e → e ∈ d.nodes := by
      intro e same
      cases same
      exact inside f List.mem_cons_self
    have tail : ∀ g ∈ rest, g.target ∈ d.nodes := fun g hg => inside g (List.mem_cons_of_mem _ hg)
    obtain ⟨up, withinK⟩ := grows _ _ _ _ _ walked head within
    exact cons join f rest n k m items others up
      (growsBranches _ _ _ _ _ branched tail (withinK.fold items)).1 (ihWalk head within)
      (ihRest tail (withinK.fold items))

end ProcessDiagram.Compilation
