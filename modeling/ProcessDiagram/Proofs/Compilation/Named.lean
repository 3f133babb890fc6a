import ProcessDiagram.Proofs.Compilation.Met
import ProcessDiagram.Proofs.Compilation.Sequences
import ProcessDiagram.Proofs.Region.Synthetic

/-!
A compiled tree names the diagram. Regions that stand for an element have its number, and the
numbers are given without gaps to the elements that occur; all other regions have ids of their
own above every number. The facts are collected part by part, as a walk puts the tree together.
-/
namespace ProcessDiagram
namespace Compilation

open Region

/-- The region that an element is compiled to. -/
inductive Stands (d : Diagram) (e : Element) : Region → Prop
  | work {id : Int} : e.kind.isActivity = true → Stands d e (.unitTask id e.name)
  | choice {id : Int} {children : List Region} :
      e.kind = .exclusiveGateway → 1 < (d.outgoing e).length →
        children.length = (d.outgoing e).length →
          Stands d e (.choice id (if e.label.isEmpty then "choice" else e.label) children
            (some .zero))
  | parallel {id : Int} {children : List Region} :
      e.kind = .parallelGateway → 1 < (d.outgoing e).length →
        children.length = (d.outgoing e).length →
          Stands d e (.parallel id (if e.label.isEmpty then "parallel" else e.label) children)

variable {d : Diagram} {e : Element}

theorem stands_splitRegion (role : roleOf d e = .split) {id : Int} {children : List Region}
    (each : children.length = (d.outgoing e).length) : Stands d e (splitRegion e id children) := by
  obtain ⟨gateway, several⟩ := gateway_of_split role
  rw [splitRegion]
  split
  next exclusive => exact .choice exclusive several each
  next other =>
      refine .parallel ?_ several each
      cases kind : e.kind <;> simp_all [ElementKind.isGateway]

theorem Stands.role_of_beneath {r below : Region} (h : Stands d e r)
    (beneath : below ∈ preorderAll r.children) : roleOf d e = .split := by
  cases h with
  | work => cases beneath
  | choice kind several => exact role_of_gateway (by rw [kind]; rfl) several
  | parallel kind several => exact role_of_gateway (by rw [kind]; rfl) several

theorem id_splitRegion (e : Element) (id : Int) (children : List Region) :
    (splitRegion e id children).id = id := by
  rw [splitRegion]
  split <;> rfl

theorem children_splitRegion (e : Element) (id : Int) (children : List Region) :
    (splitRegion e id children).children = children := by
  rw [splitRegion]
  split <;> rfl

theorem not_synthetic_splitRegion (e : Element) (id : Int) (children : List Region) :
    ¬ Synthetic (splitRegion e id children) := by
  rw [splitRegion]
  split <;> simp [Synthetic, type, noOp]

/-- These regions were made between two states of the numbers, from elements that were met: the
elements are numbered as they will be in the end, and the other ids come from the supply. -/
structure Spelled (d : Diagram) (final : Numbering) (met : Element → Prop) (n m : Numbers)
    (regions : List Region) : Prop where
  named : ∀ r ∈ proper regions, ∃ e, met e ∧ r.id = final.number e.id ∧ Stands d e r ∧
    ∀ below ∈ proper (preorderAll r.children), ∃ x, Inside d e x ∧ below.id = final.number x.id
  covered : ∀ id ∈ m.numbering.ids,
    id ∈ n.numbering.ids ∨ ∃ r ∈ proper regions, r.id = final.number id
  supplied : Supplied n.nextSynthetic m.nextSynthetic (syntheticIds regions)
  leaning : Leaning regions

namespace Spelled

variable {final : Numbering} {met met' beneath : Element → Prop} {n k m : Numbers}
  {regions others items children : List Region}

theorem none : Spelled d final met n n [] :=
  ⟨nofun, fun _ h => .inl h, .none _, nofun⟩

theorem mono (h : Spelled d final met n m regions) (more : ∀ x, met x → met' x) :
    Spelled d final met' n m regions := by
  refine ⟨?_, h.covered, h.supplied, h.leaning⟩
  intro r hr
  obtain ⟨e, known, rest⟩ := h.named r hr
  exact ⟨e, more e known, rest⟩

theorem append (h : Spelled d final met n k regions) (g : Spelled d final met k m others)
    (up : Grows n k) (up' : Grows k m) : Spelled d final met n m (regions ++ others) := by
  refine ⟨?_, ?_, ?_, h.leaning.append g.leaning⟩
  · intro r hr
    rw [proper_append, List.mem_append] at hr
    cases hr with
    | inl first => exact h.named r first
    | inr second => exact g.named r second
  · intro id hid
    rw [proper_append]
    cases g.covered id hid with
    | inr new =>
        obtain ⟨r, hr, here⟩ := new
        exact .inr ⟨r, List.mem_append_right _ hr, here⟩
    | inl early =>
        cases h.covered id early with
        | inl old => exact .inl old
        | inr new =>
            obtain ⟨r, hr, here⟩ := new
            exact .inr ⟨r, List.mem_append_left _ hr, here⟩
  · rw [syntheticIds_append]
    exact h.supplied.append g.supplied up.synthetic up'.synthetic

theorem cons (h : Spelled d final beneath n k (preorderAll children)) {r : Region}
    (inside : ∀ x, beneath x → Inside d e x ∧ met x) (known : met e) (stands : Stands d e r)
    (parts : r.children = children) (proper : ¬ Synthetic r)
    (here : r.id = (k.intern e.id).1) (later : (k.intern e.id).2.numbering.ids <+: final.ids) :
    Spelled d final met n (k.intern e.id).2 r.preorder := by
  subst parts
  have number : r.id = final.number e.id := by
    rw [Numbering.number_of_grown later (Numbering.mem_intern _ _), here]
    exact congrArg Nat.cast (Numbering.intern_fst _ _)
  rw [preorder_eq]
  refine ⟨?_, ?_, ?_, h.leaning.cons proper⟩
  · intro r' hr
    rw [proper_cons_of_not_synthetic proper, List.mem_cons] at hr
    cases hr with
    | inl same =>
        subst same
        refine ⟨e, known, number, stands, ?_⟩
        intro below hbelow
        obtain ⟨x, hx, named, _⟩ := h.named below hbelow
        exact ⟨x, (inside x hx).1, named⟩
    | inr below => exact (h.mono fun x hx => (inside x hx).2).named r' below
  · intro id hid
    rw [proper_cons_of_not_synthetic proper]
    cases Numbering.eq_or_mem_of_mem_intern hid with
    | inl same => exact .inr ⟨r, List.mem_cons_self, same ▸ number⟩
    | inr early =>
        cases h.covered id early with
        | inl old => exact .inl old
        | inr new =>
            obtain ⟨r', hr, named⟩ := new
            exact .inr ⟨r', List.mem_cons_of_mem _ hr, named⟩
  · rw [syntheticIds_cons_of_not_synthetic proper]
    exact h.supplied

theorem fold (h : Spelled d final met n k (preorderAll items)) (up : Grows n k)
    (tops : ∀ r ∈ items, ¬ Synthetic r) :
    Spelled d final met n (k.fold items).2 (k.fold items).1.preorder := by
  have same := proper_preorder_fold items k.nextSynthetic
  refine ⟨?_, ?_, h.supplied.fold up.synthetic, h.leaning.fold tops _⟩
  · intro r hr
    exact h.named r (same ▸ hr)
  · intro id hid
    cases h.covered id hid with
    | inl old => exact .inl old
    | inr new =>
        obtain ⟨r, hr, here⟩ := new
        exact .inr ⟨r, same ▸ hr, here⟩

variable {t r below : Region}

/-- In a whole tree the ids above the numbers are those of the synthetic regions. -/
theorem synthetic_iff (h : Spelled d final met n m t.preorder) (few : final.size ≤ d.nodes.length)
    (above : (d.nodes.length : Int) < n.nextSynthetic)
    (numbered : ∀ x, met x → x.id ∈ final.ids) (hr : r ∈ t.preorder) :
    (final.size : Int) < r.id ↔ Synthetic r := by
  constructor
  · intro high
    by_contra plain
    obtain ⟨e, known, number, _⟩ := h.named r (mem_proper.mpr ⟨hr, plain⟩)
    have := Numbering.number_le_size (numbered e known)
    omega
  · intro drawn
    have := (h.supplied.mem_iff r.id).mp (mem_syntheticIds.mpr ⟨r, hr, drawn, rfl⟩)
    omega

/-- The number of a split is larger than those in its branches. -/
theorem id_lt (h : Spelled d final met n m t.preorder) (ordered : Ordered d final)
    (numbered : ∀ x, met x → x ∈ d.nodes ∧ x.id ∈ final.ids) (hr : r ∈ proper t.preorder)
    (beneath : below ∈ proper (preorderAll r.children)) : below.id < r.id := by
  obtain ⟨e, known, number, stands, parts⟩ := h.named r hr
  obtain ⟨x, hx, number'⟩ := parts below beneath
  obtain ⟨node, mem⟩ := numbered e known
  have role := stands.role_of_beneath (mem_proper.mp beneath).1
  have := (ordered e node role mem x hx).2
  omega

end Spelled

/-- What walks give is made from the elements that they meet. -/
theorem spelled_of_walked (c : d.Consistent) (final : Numbers) :
    (∀ stop current n items m, Walked d stop current n items m →
      (∀ e, current = some e → e ∈ d.nodes) → Within d n → Grows m final →
        (∀ r ∈ items, ¬ Synthetic r) ∧
          Spelled d final.numbering (Meets d stop current) n m (preorderAll items)) ∧
    (∀ join flows n children m, Branched d join flows n children m →
      (∀ f ∈ flows, f.target ∈ d.nodes) → Within d n → Grows m final →
        children.length = flows.length ∧
          Spelled d final.numbering (MeetsAny d join flows) n m (preorderAll children)) := by
  apply inside_induction c
  case finished =>
    intro stop n _
    exact ⟨nofun, .none⟩
  case ended =>
    intro stop e n _ _
    exact ⟨nofun, .none⟩
  case work =>
    intro stop e n m items _ going role up ih after
    obtain ⟨tops, rest⟩ := ih after
    have plain := not_synthetic_unitTask (n.intern e.id).1 e.name
    have none : Spelled d final.numbering (fun _ => False) n n (preorderAll []) := .none
    have first : Spelled d final.numbering (Meets d stop (some e)) n (n.intern e.id).2
        (unitTask (n.intern e.id).1 e.name).preorder :=
      none.cons nofun (.here going (.inl role)) (.work (isActivity_of_work role)) rfl plain rfl
        (up.trans after).ids
    have onward : ∀ x, Meets d stop (d.successor? e) x → Meets d stop (some e) x := by
      intro x
      exact .onward going (by simp [role])
    exact ⟨List.forall_mem_cons.mpr ⟨plain, tops⟩,
      first.append (rest.mono onward) (.intern n e.id) up⟩
  case pass =>
    intro stop e n m items _ going role ih after
    obtain ⟨tops, rest⟩ := ih after
    refine ⟨tops, rest.mono ?_⟩
    intro x
    exact .onward going (by rcases role with role | role <;> simp [role])
  case split =>
    intro stop e join n k m children items _ going role closes up up' ihBranches ihWalk after
    have numbered := Grows.intern k e.id
    obtain ⟨each, beneath⟩ := ihBranches (numbered.trans (up'.trans after))
    obtain ⟨tops, rest⟩ := ihWalk after
    have plain := not_synthetic_splitRegion e (k.intern e.id).1 children
    have first : Spelled d final.numbering (Meets d stop (some e)) n (k.intern e.id).2
        (splitRegion e (k.intern e.id).1 children).preorder := by
      refine beneath.cons ?_ (.here going (.inr role)) (stands_splitRegion role each)
        (children_splitRegion ..) plain (id_splitRegion ..) (up'.trans after).ids
      intro x met
      obtain ⟨f, hf, there⟩ := met
      exact ⟨(inside_iff closes).mpr ⟨f, hf, there⟩, .inside going role closes hf there⟩
    have behind : ∀ x, Meets d stop (afterJoin? d join stop) x → Meets d stop (some e) x :=
      fun x => .behind going role closes
    exact ⟨List.forall_mem_cons.mpr ⟨plain, tops⟩,
      first.append (rest.mono behind) (up.trans numbered) up'⟩
  case nil =>
    intro join n _
    exact ⟨rfl, .none⟩
  case cons =>
    intro join f rest n k m items others up up' ihWalk ihRest after
    have folded := Grows.fold k items
    obtain ⟨tops, first⟩ := ihWalk (folded.trans (up'.trans after))
    obtain ⟨each, second⟩ := ihRest after
    have ofFirst : ∀ x, Meets d (some join.id) (some f.target) x →
        MeetsAny d join (f :: rest) x := fun x met => ⟨f, List.mem_cons_self, met⟩
    have ofSecond : ∀ x, MeetsAny d join rest x → MeetsAny d join (f :: rest) x := by
      intro x met
      obtain ⟨g, hg, there⟩ := met
      exact ⟨g, List.mem_cons_of_mem _ hg, there⟩
    exact ⟨congrArg Nat.succ each,
      ((first.fold up tops).mono ofFirst).append (second.mono ofSecond) (up.trans folded) up'⟩

end Compilation

namespace Diagram

open Region Compilation

variable {d : Diagram}

/-- A compiled scope with `size` numbered ids names the elements of the diagram. -/
structure Named (d : Diagram) (compiled : CompiledScope) : Prop where
  /-- The numbers count up from one, and no id has two of them. -/
  numbers : compiled.numbering.toPairs.map (·.1) = List.range' 1 compiled.numbering.size
  distinct : (compiled.numbering.toPairs.map (·.2)).Nodup
  size_le : compiled.numbering.size ≤ d.nodes.length
  /-- What is numbered is what occurs in the tree. -/
  occurs : ∀ id, id ∈ compiled.numbering.toPairs.map (·.2) ↔
    ∃ r ∈ compiled.region.preorder, compiled.numbering.native? r.id = some id
  /-- A region with a number up to `size` stands for the element that has the number. -/
  stands : ∀ r ∈ compiled.region.preorder, r.id ≤ compiled.numbering.size →
    ∃ e ∈ d.nodes, compiled.numbering.native? r.id = some e.id ∧ Stands d e r
  largest : ∀ r ∈ compiled.region.preorder, r.id ≤ compiled.numbering.size →
    ∀ below ∈ preorderAll r.children, below.id ≤ compiled.numbering.size → below.id < r.id
  /-- All others are sequences or stand in the place of nothing. -/
  synthetic : ∀ r ∈ compiled.region.preorder,
    (compiled.numbering.size : Int) < r.id ↔ r.type = "sequential" ∨ r = noOp r.id
  supplied : ∃ count, ((compiled.region.preorder.filter fun r =>
      (compiled.numbering.size : Int) < r.id).map (·.id)).Perm
    ((List.range count).map fun (i : Nat) => (d.nodes.length + 1 : Int) + i)
  leaning : ∀ id first second, sequential id first second ∈ compiled.region.preorder →
    first.type ≠ "sequential"
  /-- Where a region in the place of nothing has a parent, that is no sequence. -/
  empty : ∀ r ∈ compiled.region.preorder, ∀ child ∈ r.children, child = noOp child.id →
    r.type = "choice" ∨ r.type = "parallel"

/-- Every compiled tree names the diagram. -/
theorem named_compile (built : d.Built) {scope : Option Element} {validated : Bool}
    {compiled : CompiledScope} (success : (d.compile scope validated).value = .ok compiled) :
    d.Named compiled := by
  have c := built.consistent
  obtain ⟨start, items, m, entry, walked, rfl⟩ := walked_of_compile success
  have inside : ∀ e, some start = some e → e ∈ d.nodes := by
    intro e here
    cases here
    exact start_mem entry
  have before := Within.start d
  obtain ⟨up, within⟩ := (grows_of_walked c).1 _ _ _ _ _ walked inside before
  obtain ⟨tops, row⟩ := (spelled_of_walked c m).1 _ _ _ _ _ walked inside before (.refl m)
  obtain ⟨ordered, numbered⟩ :=
    (ordered_of_walked c).1 _ _ _ _ _ walked inside before (by intro e _ _ h; cases h)
  have tree := row.fold up tops
  have few := within.size_le
  have apart : ∀ r ∈ (m.fold items).1.preorder, (m.numbering.size : Int) < r.id ↔ Synthetic r :=
    fun r hr => tree.synthetic_iff few before.above numbered hr
  have plain : ∀ r ∈ (m.fold items).1.preorder, r.id ≤ m.numbering.size → ¬ Synthetic r := by
    intro r hr low drawn
    have := (apart r hr).mpr drawn
    omega
  refine ⟨m.numbering.map_fst_toPairs, ?_, few, ?_, ?_, ?_, apart, ?_, ?_, ?_⟩
  · rw [Numbering.map_snd_toPairs]
    exact within.nodup
  · rw [Numbering.map_snd_toPairs]
    intro id
    constructor
    · intro hid
      obtain old | ⟨r, hr, number⟩ := tree.covered id hid
      · cases old
      · exact ⟨r, (mem_proper.mp hr).1, number ▸ Numbering.native?_number hid⟩
    · intro ⟨r, _, occurs⟩
      exact Numbering.mem_of_native? occurs
  · intro r hr low
    obtain ⟨e, met, number, stands, _⟩ := tree.named r (mem_proper.mpr ⟨hr, plain r hr low⟩)
    exact ⟨e, met.mem c inside, number ▸ Numbering.native?_number (numbered e met), stands⟩
  · intro r hr low below beneath lowBelow
    have plainBelow := plain below (mem_preorder_of_beneath hr beneath) lowBelow
    exact tree.id_lt ordered (fun x met => ⟨met.mem c inside, numbered x met⟩)
      (mem_proper.mpr ⟨hr, plain r hr low⟩) (mem_proper.mpr ⟨beneath, plainBelow⟩)
  · refine ⟨((m.fold items).2.nextSynthetic - (d.nodes.length + 1)).toNat, ?_⟩
    rw [List.filter_congr fun r hr => decide_eq_decide.mpr (apart r hr)]
    exact tree.supplied.perm
  · intro id first second mem sequence
    exact (tree.leaning id first second mem).1 (.inl sequence)
  · intro r hr child
    exact tree.leaning.parent hr

theorem named_compile_fork :
    (fork.compile none true).value = .ok forkCompiled ∧ fork.Named forkCompiled :=
  ⟨value_compile_fork, named_compile built_fork value_compile_fork⟩

end Diagram
end ProcessDiagram
