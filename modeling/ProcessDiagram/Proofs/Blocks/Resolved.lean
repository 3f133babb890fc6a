import ProcessDiagram.Proofs.Blocks.Carried
import ProcessDiagram.Proofs.Blocks.Regions
import ProcessDiagram.Proofs.Region.Survivors

/-!
Resolving the choices of a compiled row: what survives in its regions are the tasks that survive in
its blocks.
-/
namespace ProcessDiagram

/-- The position of the flow that the gateway of an id is configured to take. -/
def Diagram.chosenAt (d : Diagram) (c : ConfigStore) (id : String) : Nat :=
  ((d.find? id).map (d.chosenIndex c)).getD 0

namespace Blocks

variable {d : Diagram} {c : ConfigStore} {native? : Int → Option String}

/-- The numbers behind a number stand for these ids. -/
def Names (native? : Int → Option String) (start : Nat) (ids : List String) : Prop :=
  ∀ (k : Nat) (id : String), ids[k]? = some id → native? ((start + k + 1 : Nat) : Int) = some id

theorem Names.head {start : Nat} {id : String} {rest : List String}
    (h : Names native? start (id :: rest)) : native? ((start : Int) + 1) = some id :=
  h 0 id rfl

theorem Names.append {start : Nat} {ids more : List String}
    (h : Names native? start (ids ++ more)) :
    Names native? start ids ∧ Names native? (start + ids.length) more := by
  constructor
  · intro k id hk
    apply h k id
    rw [List.getElem?_append_left (List.getElem?_eq_some_iff.mp hk).1]
    exact hk
  · intro k id hk
    rw [Nat.add_assoc start]
    apply h (ids.length + k) id
    rw [List.getElem?_append_right (Nat.le_add_right _ _), Nat.add_sub_cancel_left]
    exact hk

theorem Names.tail {start : Nat} {id : String} {rest : List String}
    (h : Names native? start (id :: rest)) : Names native? (start + 1) rest :=
  (show Names native? start ([id] ++ rest) from h).append.2

theorem le_childRegions {branches : List Blocks}
    (h : ∀ b ∈ branches, ∀ n, n.synthetic ≤ (b.regions n).2.synthetic) :
    ∀ n, n.synthetic ≤ (childRegions branches n).2.synthetic := by
  induction branches with
  | nil => exact fun n => Int.le_refl _
  | cons b others ih =>
      intro n
      rw [childRegions_cons]
      have first := h b List.mem_cons_self n
      have folded := Region.le_fold (b.regions n).1 (b.regions n).2.synthetic
      have later := ih (fun b' hb => h b' (List.mem_cons_of_mem _ hb))
        ⟨(b.regions n).2.native, (Region.fold (b.regions n).1 (b.regions n).2.synthetic).2⟩
      exact Int.le_trans (Int.le_trans first folded) later

theorem le_regions (bs : Blocks) : ∀ n, n.synthetic ≤ (bs.regions n).2.synthetic := by
  induction bs using Blocks.induction with
  | nil => exact fun n => Int.le_refl _
  | task work rest ih => exact fun n => ih ⟨n.native + 1, n.synthetic⟩
  | split gateway branches join rest ihs ih =>
      intro n
      rw [regions]
      exact Int.le_trans (le_childRegions ihs n) (ih ⟨_, (childRegions branches n).2.synthetic⟩)

theorem survivorsEach_childRegions {index : String → Nat} {base : Int} {branches : List Blocks}
    (synthetic : ∀ id, base ≤ id → native? id = none) {S : Blocks → List String}
    (each : ∀ b ∈ branches, ∀ n : Counts, base ≤ n.synthetic → Names native? n.native b.order →
      Region.rowSurvivors native? index (b.regions n).1 = S b) :
    ∀ n : Counts, base ≤ n.synthetic → Names native? n.native (orderAll branches) →
      Region.survivorsEach native? index (childRegions branches n).1 = branches.map S := by
  induction branches with
  | nil =>
      intro n _ _
      rfl
  | cons b others ih =>
      intro n above names
      rw [orderAll] at names
      have first := each b List.mem_cons_self n above names.append.1
      have beyond := Int.le_trans above (le_regions b n)
      have folded := Region.le_fold (b.regions n).1 (b.regions n).2.synthetic
      have later := ih (fun b' hb => each b' (List.mem_cons_of_mem _ hb))
        ⟨(b.regions n).2.native, (Region.fold (b.regions n).1 (b.regions n).2.synthetic).2⟩
        (Int.le_trans beyond folded) (by
          rw [native_regions]
          exact names.append.2)
      rw [childRegions_cons]
      simp only
      rw [Region.survivorsEach, List.map_cons, later, Region.survivors_fold, first]
      intro id drawn
      exact synthetic id (Int.le_trans beyond drawn)

theorem survivors_splitRegion (consistent : d.Consistent) (plain : d.Plain c)
    {gateway join next : Element} {branches : List Blocks} {rest : Blocks}
    (placed : Placed d (split gateway branches join rest) next) {id : Int}
    (named : native? id = some gateway.id) {children : List Region}
    {S : Blocks → List String}
    (each : Region.survivorsEach native? (d.chosenAt c) children = branches.map S) :
    Region.survivors native? (d.chosenAt c) (Compilation.splitRegion gateway id children)
      = (kept (d.takes c gateway) (branches.map S)).flatten := by
  obtain ⟨isSplit, _, several, _, _⟩ := placed.wellFormed
  rw [Compilation.splitRegion]
  cases takes_of_split plain placed.gateway_mem placed.linked.1 several isSplit with
  | inl choice =>
      obtain ⟨kind, taken, _⟩ := choice
      have position : ((native? id).map (d.chosenAt c)).getD 0 = d.chosenIndex c gateway := by
        rw [named, Option.map_some, Option.getD_some, Diagram.chosenAt,
          consistent.find?_node placed.gateway_mem]
        rfl
      rw [if_pos kind, Region.survivors, each, position, taken, kept_at]
      cases (branches.map S)[d.chosenIndex c gateway]? with
      | none => rfl
      | some ids => exact (List.append_nil ids).symm
  | inr both =>
      obtain ⟨kind, taken⟩ := both
      rw [if_neg (by rw [kind]; decide), Region.survivors, each, kept_all taken]

theorem rowSurvivors_regions (consistent : d.Consistent) (plain : d.Plain c) {base : Int}
    (synthetic : ∀ id, base ≤ id → native? id = none) (bs : Blocks) :
    ∀ (next : Element) (n : Counts), Placed d bs next → base ≤ n.synthetic →
      Names native? n.native bs.order →
      Region.rowSurvivors native? (d.chosenAt c) (bs.regions n).1
        = (bs.survivors (d.takes c)).map (·.id) := by
  induction bs using Blocks.induction with
  | nil =>
      intro next n _ _ _
      rfl
  | task work rest ih =>
      intro next n placed above names
      have later := ih next ⟨n.native + 1, n.synthetic⟩ placed.rest_of_task above
        names.tail
      have here : Region.survivors native? (d.chosenAt c)
          (.task (n.native + 1) work.name (some .one) [.one]) = [work.id] := by
        rw [Region.survivors, names.head]
        rfl
      rw [regions, survivors, List.map_cons]
      simp only
      rw [Region.rowSurvivors, here, later]
      rfl
  | split gateway branches join rest ihs ih =>
      intro next n placed above names
      rw [order] at names
      obtain ⟨inside, behind⟩ := names.append
      have counted := native_childRegions (fun b (_ : b ∈ branches) => native_regions b) n
      have each := survivorsEach_childRegions synthetic (fun b hb m beyond named =>
        ihs b hb join m (placed.branch hb) beyond named) n above inside
      have named : native? (((childRegions branches n).2.native : Int) + 1) = some gateway.id := by
        rw [counted]
        exact behind.head
      have later := ih next ⟨(childRegions branches n).2.native + 1,
        (childRegions branches n).2.synthetic⟩ placed.rest_of_split
        (Int.le_trans above (le_childRegions (fun b _ => le_regions b) n)) (by
          simp only [counted]
          exact behind.tail)
      rw [regions_split, survivors, List.map_append]
      simp only
      rw [Region.rowSurvivors, survivors_splitRegion consistent plain placed named each, later,
        survivorsEach_eq_map, List.map_flatten, ← kept_map, List.map_map]
      rfl

theorem length_orderAll_le {branches : List Blocks}
    (h : ∀ b ∈ branches, b.order.length ≤ b.elements.length) :
    (orderAll branches).length ≤ (elementsAll branches).length := by
  induction branches with
  | nil => exact Nat.le_refl 0
  | cons b others ih =>
      have first := h b List.mem_cons_self
      have later := ih fun b' hb => h b' (List.mem_cons_of_mem _ hb)
      rw [orderAll, elementsAll, List.length_append, List.length_append]
      omega

theorem length_order_le (bs : Blocks) : bs.order.length ≤ bs.elements.length := by
  induction bs using Blocks.induction with
  | nil => exact Nat.le_refl 0
  | task work rest ih =>
      rw [order, elements, List.length_cons, List.length_cons]
      omega
  | split gateway branches join rest ihs ih =>
      have inside := length_orderAll_le ihs
      simp only [order, elements, List.length_append, List.length_cons]
      omega

/-- What survives in a compiled row is what survives in its blocks. -/
theorem survivors_compiled (consistent : d.Consistent) (plain : d.Plain c) {bs : Blocks}
    {next : Element} (placed : Placed d bs next) {elementCount : Nat}
    (few : bs.elements.length ≤ elementCount) :
    Region.survivors (bs.compiled elementCount).numbering.native? (d.chosenAt c)
        (bs.compiled elementCount).region = (bs.survivors (d.takes c)).map (·.id) := by
  have synthetic : ∀ id : Int, (elementCount : Int) + 1 ≤ id →
      (Numbering.mk bs.order).native? id = none := by
    intro id above
    apply Numbering.native?_of_size_lt
    have fewer := length_order_le bs
    have size : (Numbering.mk bs.order).size = bs.order.length := rfl
    omega
  have names : Names (Numbering.mk bs.order).native? 0 bs.order := by
    intro k id hk
    rw [Numbering.native?_eq, if_pos (by omega), ← hk]
    congr 1
    omega
  have row := rowSurvivors_regions consistent plain synthetic bs next ⟨0, elementCount + 1⟩ placed
    (Int.le_refl _) names
  rw [← row, compiled_eq]
  apply Region.survivors_fold
  intro id above
  exact synthetic id (Int.le_trans (le_regions bs ⟨0, elementCount + 1⟩) above)

end Blocks
end ProcessDiagram
