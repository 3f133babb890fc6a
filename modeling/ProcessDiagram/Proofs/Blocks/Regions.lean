import ProcessDiagram.Proofs.Blocks.Joins
import ProcessDiagram.Proofs.Compilation.Compiled
import ProcessDiagram.Proofs.Numbering

/-!
The region tree of a row of blocks, by recursion on the blocks, and the walk that gives it.
-/
namespace ProcessDiagram

/-- How many ids are numbered, and the next synthetic number. -/
structure Counts where
  native : Nat
  synthetic : Int

namespace Blocks

/-- The regions of a row as one: nothing is a task that costs nothing, and several lean to the right
under sequences that are numbered from the outside. -/
def leaning : List Region → Int → Region × Int
  | [], next => (.task next "NoOp" (some .zero) [.zero], next + 1)
  | [last], next => (last, next)
  | first :: second :: rest, next =>
    let (behind, after) := leaning (second :: rest) (next + 1)
    (.sequential next first behind, after)

mutual

/-- A region for each block: a task of duration one with the single impact one, and for a split a
choice or a parallel, which is numbered after its branches. -/
def regions : Blocks → Counts → List Region × Counts
  | nil, n => ([], n)
  | task work rest, n =>
    let (items, m) := regions rest ⟨n.native + 1, n.synthetic⟩
    (.task (n.native + 1) work.name (some .one) [.one] :: items, m)
  | split gateway branches _ rest, n =>
    let (children, k) := childRegions branches n
    let (items, m) := regions rest ⟨k.native + 1, k.synthetic⟩
    let region :=
      if gateway.kind = .exclusiveGateway then
        .choice (k.native + 1) (if gateway.label = "" then "choice" else gateway.label) children
          (some .zero)
      else .parallel (k.native + 1) (if gateway.label = "" then "parallel" else gateway.label) children
    (region :: items, m)

/-- One region for each branch. -/
def childRegions : List Blocks → Counts → List Region × Counts
  | [], n => ([], n)
  | b :: others, n =>
    let (items, k) := regions b n
    let (child, next) := leaning items k.synthetic
    let (children, m) := childRegions others ⟨k.native, next⟩
    (child :: children, m)

end

theorem fold_eq_leaning (items : List Region) (next : Int) :
    Region.fold items next = leaning items next := by
  induction items generalizing next with
  | nil => rfl
  | cons first rest ih =>
      cases rest with
      | nil => rfl
      | cons second rest =>
          have behind := ih (next + 1)
          rw [leaning, ← behind]
          rfl

theorem childRegions_cons (b : Blocks) (others : List Blocks) (n : Counts) :
    childRegions (b :: others) n =
      let child := Region.fold (b.regions n).1 (b.regions n).2.synthetic
      let children := childRegions others ⟨(b.regions n).2.native, child.2⟩
      (child.1 :: children.1, children.2) := by
  simp only [childRegions, fold_eq_leaning]

theorem regions_split (gateway : Element) (branches : List Blocks) (join : Element) (rest : Blocks)
    (n : Counts) :
    (split gateway branches join rest).regions n =
      let children := childRegions branches n
      let items := rest.regions ⟨children.2.native + 1, children.2.synthetic⟩
      (Compilation.splitRegion gateway (children.2.native + 1) children.1 :: items.1, items.2) := by
  simp only [regions, Compilation.splitRegion, String.isEmpty_iff]

mutual

/-- The numbered ids in the order of their numbers. -/
def order : Blocks → List String
  | nil => []
  | task work rest => work.id :: order rest
  | split gateway branches _ rest => orderAll branches ++ gateway.id :: order rest

def orderAll : List Blocks → List String
  | [] => []
  | b :: others => order b ++ orderAll others

end

/-- A process of these blocks, compiled: synthetic numbers start above its elements. -/
def compiled (bs : Blocks) (elementCount : Nat) : CompiledScope :=
  let (items, n) := bs.regions ⟨0, elementCount + 1⟩
  ⟨(leaning items n.synthetic).1, ⟨bs.order⟩⟩

theorem compiled_eq (bs : Blocks) (elementCount : Nat) :
    bs.compiled elementCount =
      let row := bs.regions ⟨0, elementCount + 1⟩
      ⟨(Region.fold row.1 row.2.synthetic).1, ⟨bs.order⟩⟩ := by
  simp only [compiled, fold_eq_leaning]

theorem exists_of_mem_orderAll {branches : List Blocks}
    (h : ∀ b ∈ branches, ∀ id ∈ b.order, ∃ e ∈ b.elements, e.id = id) :
    ∀ id ∈ orderAll branches, ∃ e ∈ elementsAll branches, e.id = id := by
  induction branches with
  | nil =>
      intro id hid
      cases hid
  | cons b others ih =>
      intro id hid
      rw [orderAll] at hid
      rw [elementsAll]
      cases List.mem_append.mp hid with
      | inl first =>
          obtain ⟨e, he, named⟩ := h b List.mem_cons_self id first
          exact ⟨e, List.mem_append_left _ he, named⟩
      | inr later =>
          obtain ⟨e, he, named⟩ := ih (fun b' hb => h b' (List.mem_cons_of_mem _ hb)) id later
          exact ⟨e, List.mem_append_right _ he, named⟩

theorem exists_of_mem_order (bs : Blocks) : ∀ id ∈ bs.order, ∃ e ∈ bs.elements, e.id = id := by
  induction bs using Blocks.induction with
  | nil =>
      intro id h
      cases h
  | task work rest ih =>
      intro id h
      rw [order] at h
      cases List.mem_cons.mp h with
      | inl same => exact ⟨work, List.mem_cons_self, same.symm⟩
      | inr later =>
          obtain ⟨e, he, named⟩ := ih id later
          exact ⟨e, List.mem_cons_of_mem _ he, named⟩
  | split gateway branches join rest ihs ih =>
      intro id h
      rw [order] at h
      cases List.mem_append.mp h with
      | inl branch =>
          obtain ⟨e, he, named⟩ := exists_of_mem_orderAll ihs id branch
          exact ⟨e, mem_split_of_inside he, named⟩
      | inr outside =>
          cases List.mem_cons.mp outside with
          | inl same => exact ⟨gateway, List.mem_cons_self, same.symm⟩
          | inr later =>
              obtain ⟨e, he, named⟩ := ih id later
              exact ⟨e, mem_split_of_rest he, named⟩

theorem native_childRegions {branches : List Blocks}
    (h : ∀ b ∈ branches, ∀ n, (b.regions n).2.native = n.native + b.order.length) :
    ∀ n, (childRegions branches n).2.native = n.native + (orderAll branches).length := by
  induction branches with
  | nil =>
      intro n
      rfl
  | cons b others ih =>
      intro n
      rw [childRegions_cons, orderAll, List.length_append]
      have first := h b List.mem_cons_self n
      have later := ih fun b' hb => h b' (List.mem_cons_of_mem _ hb)
      simp only [later, first]
      omega

theorem native_regions (bs : Blocks) :
    ∀ n, (bs.regions n).2.native = n.native + bs.order.length := by
  induction bs using Blocks.induction with
  | nil =>
      intro n
      rfl
  | task work rest ih =>
      intro n
      rw [regions, order, List.length_cons]
      have later := ih ⟨n.native + 1, n.synthetic⟩
      simp only at later ⊢
      omega
  | split gateway branches join rest ihs ih =>
      intro n
      rw [regions, order, List.length_append, List.length_cons]
      simp only [ih, native_childRegions ihs]
      omega

end Blocks

namespace Compilation

open Blocks

variable {d : Diagram}

def Numbers.counts (n : Numbers) : Counts :=
  ⟨n.numbering.size, n.nextSynthetic⟩

theorem successor?_eq_head? (e : Element) : d.successor? e = (d.targets e).head? := by
  rw [Diagram.successor?, Diagram.targets, List.head?_map]

theorem length_outgoing_eq (e : Element) : (d.outgoing e).length = (d.targets e).length := by
  rw [Diagram.targets, List.length_map]

/-- The numbers with some more ids. -/
def Numbers.add (n : Numbers) (ids : List String) (synthetic : Int) : Numbers :=
  ⟨⟨n.numbering.ids ++ ids⟩, synthetic⟩

theorem Numbers.add_add (n : Numbers) (ids more : List String) (k m : Int) :
    (n.add ids k).add more m = n.add (ids ++ more) m := by
  rw [add, add, add, List.append_assoc]

theorem Numbers.counts_add (n : Numbers) (ids : List String) (k : Int) :
    (n.add ids k).counts = ⟨n.numbering.size + ids.length, k⟩ := by
  rw [add, counts, Numbering.size, Numbering.size, List.length_append]

theorem intern_of_fresh {n : Numbers} {id : String} (h : id ∉ n.numbering.ids) :
    n.intern id = ((n.counts.native : Int) + 1, n.add [id] n.nextSynthetic) := by
  rw [Numbers.intern, Numbering.intern_of_not_mem h]
  rfl

theorem walked_work {stop : Option String} {e : Element} {n m : Numbers} {items : List Region}
    (going : ¬ Ends stop e) (role : roleOf d e = .work) (fresh : e.id ∉ n.numbering.ids)
    (h : Walked d stop (d.successor? e) (n.add [e.id] n.nextSynthetic) items m) :
    Walked d stop (some e) n (.unitTask (n.counts.native + 1) e.name :: items) m := by
  have interned := intern_of_fresh fresh
  have onward : Walked d stop (d.successor? e) (n.intern e.id).2 items m := by
    rw [interned]
    exact h
  have whole := Walked.work going role onward
  rw [interned] at whole
  exact whole

theorem walked_split {stop : Option String} {e join : Element} {n k m : Numbers}
    {children items : List Region} (going : ¬ Ends stop e) (role : roleOf d e = .split)
    (closes : d.findJoin e = .closesAt join) (inner : Branched d join (d.outgoing e) n children k)
    (fresh : e.id ∉ k.numbering.ids)
    (h : Walked d stop (afterJoin? d join stop) (k.add [e.id] k.nextSynthetic) items m) :
    Walked d stop (some e) n (splitRegion e (k.counts.native + 1) children :: items) m := by
  have interned := intern_of_fresh fresh
  have onward : Walked d stop (afterJoin? d join stop) (k.intern e.id).2 items m := by
    rw [interned]
    exact h
  have whole := Walked.split going role closes inner onward
  rw [interned] at whole
  exact whole

/-- None of these elements is numbered. -/
def Numbers.Free (n : Numbers) (elements : List Element) : Prop :=
  ∀ e ∈ elements, e.id ∉ n.numbering.ids

theorem Numbers.Free.add (c : d.Consistent) {n : Numbers} {elements others : List Element}
    (free : n.Free elements) (inside : ∀ e ∈ elements, e ∈ d.nodes)
    (insideOthers : ∀ e ∈ others, e ∈ d.nodes) (apart : ∀ e ∈ elements, e ∉ others)
    {ids : List String} (named : ∀ id ∈ ids, ∃ e ∈ others, e.id = id) (m : Int) :
    (n.add ids m).Free elements := by
  intro e he
  rw [Numbers.add, List.mem_append, not_or]
  refine ⟨free e he, ?_⟩
  intro again
  obtain ⟨e', he', same⟩ := named e.id again
  exact apart e he (c.eq_of_id (insideOthers e' he') (inside e he) same ▸ he')

theorem Numbers.Free.tail (c : d.Consistent) {n : Numbers} {e : Element} {others : List Element}
    (free : n.Free (e :: others)) (inside : ∀ x ∈ e :: others, x ∈ d.nodes) (apart : e ∉ others)
    (m : Int) : (n.add [e.id] m).Free others := by
  have here : ∀ x ∈ [e], x ∈ d.nodes := by
    intro x hx
    exact List.mem_singleton.mp hx ▸ inside e List.mem_cons_self
  apply Numbers.Free.add c (fun x hx => free x (List.mem_cons_of_mem _ hx))
    (fun x hx => inside x (List.mem_cons_of_mem _ hx)) here
  · intro x hx same
    exact apart (List.mem_singleton.mp same ▸ hx)
  · intro id hid
    exact ⟨e, List.mem_singleton_self _, (List.mem_singleton.mp hid).symm⟩

theorem not_ends {stop : Option String} {e : Element} (other : some e.id ≠ stop)
    (kind : e.kind = .task ∨ e.kind.isGateway = true) : ¬ Ends stop e := by
  rw [Ends, not_or]
  refine ⟨other, ?_⟩
  intro ended
  rw [ended] at kind
  cases kind with
  | inl task => cases task
  | inr gateway => cases gateway

theorem afterJoin?_of_single {stop : Option String} {join x : Element}
    (other : some join.id ≠ stop) (behind : d.targets join = [x]) :
    afterJoin? d join stop = some x := by
  have plain : ¬ (some join.id = stop ∨ 1 < (d.outgoing join).length) := by
    rw [not_or, length_outgoing_eq, behind]
    exact ⟨other, by simp⟩
  rw [afterJoin?, if_neg plain, successor?_eq_head?, behind]
  rfl

/-- The numbers when the branches of a split have been walked. -/
def Numbers.inside (n : Numbers) (branches : List Blocks) : Numbers :=
  n.add (orderAll branches) (childRegions branches n.counts).2.synthetic

theorem Numbers.counts_inside (n : Numbers) (branches : List Blocks) :
    (n.inside branches).counts = (childRegions branches n.counts).2 := by
  have native := native_childRegions (fun b (_ : b ∈ branches) => native_regions b) n.counts
  rw [inside, counts_add, ← show n.counts.native = n.numbering.size from rfl, ← native]

theorem Numbers.Free.inside (c : d.Consistent) {gateway join next : Element}
    {branches : List Blocks} {rest : Blocks} {n : Numbers}
    (placed : Placed d (split gateway branches join rest) next)
    (free : n.Free (split gateway branches join rest).elements) :
    (n.inside branches).Free (gateway :: rest.elements) := by
  have apart := placed.apart
  apply Numbers.Free.add c _ placed.numbered_mem placed.branches_mem _
    (exists_of_mem_orderAll fun b (_ : b ∈ branches) => exists_of_mem_order b)
  · intro e he
    cases List.mem_cons.mp he with
    | inl same => exact same ▸ free gateway List.mem_cons_self
    | inr later => exact free e (mem_split_of_rest later)
  · intro e he inside
    cases List.mem_cons.mp he with
    | inl same => exact apart.gateway_inside (same ▸ inside)
    | inr later => exact apart.inside_rest e inside later

/-- Branches are walked one after the other, given the walk of each of them. -/
theorem branched_blocks (c : d.Consistent) {join : Element} {branches : List Blocks}
    (walks : ∀ b ∈ branches, ∀ n : Numbers, n.Free b.elements →
      Walked d (some join.id) (some (b.entry join)) n (b.regions n.counts).1
        (n.add b.order (b.regions n.counts).2.synthetic)) :
    ∀ (flows : List Flow) (n : Numbers), flows.map (·.target) = branches.map (entry · join) →
      (elementsAll branches).Nodup → (∀ e ∈ elementsAll branches, e ∈ d.nodes) →
      n.Free (elementsAll branches) →
        Branched d join flows n (childRegions branches n.counts).1
          (n.add (orderAll branches) (childRegions branches n.counts).2.synthetic) := by
  induction branches with
  | nil =>
      intro flows n same _ _ _
      rw [List.map_nil, List.map_eq_nil_iff] at same
      subst same
      have unchanged : n.add [] n.nextSynthetic = n := by
        rw [Numbers.add, List.append_nil]
      change Branched d join [] n [] (n.add [] n.nextSynthetic)
      rw [unchanged]
      exact .nil
  | cons b others ih =>
      intro flows n same nodup inside free
      cases flows with
      | nil => cases same
      | cons f rest =>
          rw [List.map_cons, List.map_cons, List.cons.injEq] at same
          obtain ⟨into, same⟩ := same
          rw [elementsAll, List.nodup_append] at nodup
          rw [elementsAll] at inside free
          have walked := walks b List.mem_cons_self n
            fun e he => free e (List.mem_append_left _ he)
          rw [← into] at walked
          let next := (Region.fold (b.regions n.counts).1 (b.regions n.counts).2.synthetic).2
          have free' : (n.add b.order next).Free (elementsAll others) := by
            apply Numbers.Free.add c (fun e he => free e (List.mem_append_right _ he))
              (fun e he => inside e (List.mem_append_right _ he))
              (fun e he => inside e (List.mem_append_left _ he))
            · intro e he again
              exact nodup.2.2 e again e he rfl
            · exact exists_of_mem_order b
          have branched := ih (fun b' hb => walks b' (List.mem_cons_of_mem _ hb)) rest _ same
            nodup.2.1 (fun e he => inside e (List.mem_append_right _ he)) free'
          have counts : (n.add b.order next).counts = ⟨(b.regions n.counts).2.native, next⟩ := by
            rw [Numbers.counts_add, native_regions]
            rfl
          rw [Numbers.add_add, counts] at branched
          rw [childRegions_cons]
          exact .cons walked branched

theorem walked_blocks (c : d.Consistent) (acyclic : d.Acyclic) (bs : Blocks) :
    ∀ (next : Element) (stop : Option String) (n : Numbers), Placed d bs next →
      Ends stop next → (∀ e ∈ bs.elements, some e.id ≠ stop) → n.Free bs.elements →
        Walked d stop (some (bs.entry next)) n (bs.regions n.counts).1
          (n.add bs.order (bs.regions n.counts).2.synthetic) := by
  induction bs using Blocks.induction with
  | nil =>
      intro next stop n _ ends _ _
      have same : n.add [] n.nextSynthetic = n := by
        rw [Numbers.add, List.append_nil]
      change Walked d stop (some next) n [] (n.add [] n.nextSynthetic)
      rw [same]
      exact .ended ends
  | task work rest ih =>
      intro next stop n placed ends other free
      have kind := placed.wellFormed.1
      have role : roleOf d work = .work := by
        rw [roleOf, kind]
        rfl
      have apart := (List.nodup_cons.mp placed.nodup).1
      have walked := ih next stop _ placed.rest_of_task ends
        (fun e he => other e (List.mem_cons_of_mem _ he))
        (Numbers.Free.tail c free placed.inside apart n.nextSynthetic)
      have onward : d.successor? work = some (rest.entry next) := by
        rw [successor?_eq_head?, placed.linked.1]
        rfl
      rw [← onward, Numbers.add_add, Numbers.counts_add] at walked
      exact walked_work (not_ends (other work List.mem_cons_self) (.inl kind)) role
        (free work List.mem_cons_self) walked
  | split gateway branches join rest ihs ih =>
      intro next stop n placed ends other free
      obtain ⟨isSplit, _, several, _, _⟩ := placed.wellFormed
      obtain ⟨out, _, behind, _⟩ := placed.linked
      have apart := placed.apart
      have count : 1 < (d.outgoing gateway).length := by
        rw [length_outgoing_eq, out, List.length_map]
        omega
      have inner : Branched d join (d.outgoing gateway) n (childRegions branches n.counts).1
          (n.inside branches) := by
        apply branched_blocks c _ _ _ out apart.inside_nodup placed.branches_mem
        · intro e he
          exact free e (mem_split_of_inside he)
        · intro b hb n' free'
          apply ihs b hb join (some join.id) n' (placed.branch hb) (.inl rfl) _ free'
          intro e he same
          have here := mem_elementsAll.mpr ⟨b, hb, he⟩
          have joined := c.eq_of_id (placed.branches_mem e here) placed.join_mem
            (Option.some.inj same)
          exact apart.join_inside (joined ▸ here)
      have free' := Numbers.Free.inside c placed free
      have walked := ih next stop _ placed.rest_of_split ends
        (fun e he => other e (mem_split_of_rest he))
        (Numbers.Free.tail c free' placed.numbered_mem apart.gateway_rest
          (n.inside branches).nextSynthetic)
      have counts : ((n.inside branches).add [gateway.id] (n.inside branches).nextSynthetic).counts
          = ⟨(childRegions branches n.counts).2.native + 1,
            (childRegions branches n.counts).2.synthetic⟩ := by
        rw [← Numbers.counts_inside]
        exact Numbers.counts_add _ _ _
      rw [← afterJoin?_of_single (other join join_mem_split) behind, counts] at walked
      have whole := walked_split (not_ends (other gateway List.mem_cons_self) (.inr isSplit))
        (role_of_gateway isSplit count) (findJoin_split c acyclic placed) inner
        (free' gateway List.mem_cons_self) walked
      rw [Numbers.counts_inside, Numbers.inside, Numbers.add_add, Numbers.add_add] at whole
      rw [regions_split]
      exact whole

end Compilation
end ProcessDiagram
