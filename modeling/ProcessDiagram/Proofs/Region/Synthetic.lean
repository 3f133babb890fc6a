import ProcessDiagram.Proofs.Region.Sequences
import Mathlib.Data.List.Nodup
import Mathlib.Data.List.Count
import Mathlib.Data.List.Perm.Basic

/-!
The regions that stand for no element: sequences, and the tasks in the place of nothing. Only
folding makes them, and it gives each the next id of the supply.
-/
namespace ProcessDiagram.Region

/-- A sequence, or a task in the place of nothing. -/
def Synthetic (r : Region) : Prop :=
  r.type = "sequential" ∨ r = noOp r.id

instance : DecidablePred Synthetic :=
  fun r => inferInstanceAs (Decidable (r.type = "sequential" ∨ r = noOp r.id))

theorem synthetic_sequential (id : Int) (first second : Region) :
    Synthetic (sequential id first second) := .inl rfl

theorem synthetic_noOp (id : Int) : Synthetic (noOp id) := .inr rfl

theorem sequential_ne_noOp (id id' : Int) (first second : Region) :
    sequential id first second ≠ noOp id' := nofun

theorem not_synthetic_unitTask (id : Int) (label : String) : ¬ Synthetic (unitTask id label) := by
  intro h
  cases h with
  | inl sequence => exact absurd sequence (by simp [unitTask, type])
  | inr empty =>
      injection empty with _ _ duration _
      exact absurd duration (by decide)

/-- The regions among these that stand for an element. -/
def proper (regions : List Region) : List Region :=
  regions.filter fun r => ¬ Synthetic r

def syntheticIds (regions : List Region) : List Int :=
  (regions.filter fun r => Synthetic r).map (·.id)

theorem mem_proper {r : Region} {regions : List Region} :
    r ∈ proper regions ↔ r ∈ regions ∧ ¬ Synthetic r := by
  simp [proper]

theorem mem_syntheticIds {id : Int} {regions : List Region} :
    id ∈ syntheticIds regions ↔ ∃ r ∈ regions, Synthetic r ∧ r.id = id := by
  simp [syntheticIds, and_assoc]

theorem proper_append (a b : List Region) : proper (a ++ b) = proper a ++ proper b :=
  List.filter_append ..

theorem syntheticIds_append (a b : List Region) :
    syntheticIds (a ++ b) = syntheticIds a ++ syntheticIds b := by
  simp [syntheticIds]

theorem proper_cons_of_synthetic {r : Region} (h : Synthetic r) (rest : List Region) :
    proper (r :: rest) = proper rest := by
  simp [proper, h]

theorem proper_cons_of_not_synthetic {r : Region} (h : ¬ Synthetic r) (rest : List Region) :
    proper (r :: rest) = r :: proper rest := by
  simp [proper, h]

theorem syntheticIds_cons_of_synthetic {r : Region} (h : Synthetic r) (rest : List Region) :
    syntheticIds (r :: rest) = r.id :: syntheticIds rest := by
  simp [syntheticIds, h]

theorem syntheticIds_cons_of_not_synthetic {r : Region} (h : ¬ Synthetic r)
    (rest : List Region) : syntheticIds (r :: rest) = syntheticIds rest := by
  simp [syntheticIds, h]

theorem preorder_eq (r : Region) : r.preorder = r :: preorderAll r.children := by
  cases r <;> simp [preorder, preorderAll, children]

theorem preorderAll_cons (r : Region) (rest : List Region) :
    preorderAll (r :: rest) = r.preorder ++ preorderAll rest := rfl

theorem preorderAll_singleton (r : Region) : preorderAll [r] = r.preorder := by
  simp [preorderAll]

mutual

theorem preorder_subset : ∀ t r : Region, r ∈ t.preorder → r.preorder ⊆ t.preorder
  | task id label duration impacts, r, h => by
      cases List.mem_singleton.mp h
      exact List.Subset.refl _
  | sequential id first second, r, h => by
      rw [preorder, List.cons_append, List.mem_cons, List.mem_append] at h
      obtain rfl | inFirst | inSecond := h
      · exact List.Subset.refl _
      · have part := preorder_subset first r inFirst
        intro x hx
        simp [preorder, part hx]
      · have part := preorder_subset second r inSecond
        intro x hx
        simp [preorder, part hx]
  | choice id label children maxDelay, r, h => by
      rw [preorder, List.mem_cons] at h
      obtain rfl | inside := h
      · exact List.Subset.refl _
      · exact List.subset_cons_of_subset _ (preorderAll_subset children r inside)
  | parallel id label children, r, h => by
      rw [preorder, List.mem_cons] at h
      obtain rfl | inside := h
      · exact List.Subset.refl _
      · exact List.subset_cons_of_subset _ (preorderAll_subset children r inside)

theorem preorderAll_subset : ∀ (regions : List Region) (r : Region),
    r ∈ preorderAll regions → r.preorder ⊆ preorderAll regions
  | [], r, h => by cases h
  | t :: rest, r, h => by
      rw [preorderAll, List.mem_append] at h
      obtain here | later := h
      · exact List.subset_append_of_subset_left _ (preorder_subset t r here)
      · exact List.subset_append_of_subset_right _ (preorderAll_subset rest r later)

end

theorem mem_preorder_of_beneath {t r below : Region} (h : r ∈ t.preorder)
    (beneath : below ∈ preorderAll r.children) : below ∈ t.preorder := by
  apply preorder_subset t r h
  rw [preorder_eq]
  exact List.mem_cons_of_mem _ beneath

/-- The ids from the one up to the other, each once. -/
def Supplied (first next : Int) (ids : List Int) : Prop :=
  ∀ id, ids.count id = if first ≤ id ∧ id < next then 1 else 0

theorem Supplied.none (next : Int) : Supplied next next [] := by
  intro id
  rw [if_neg (by omega)]
  rfl

theorem Supplied.one (next : Int) : Supplied next (next + 1) [next] := by
  intro id
  rw [List.count_singleton]
  by_cases here : next = id
  · rw [if_pos (beq_iff_eq.mpr here), if_pos (by omega)]
  · rw [if_neg (mt beq_iff_eq.mp here), if_neg (by omega)]

theorem Supplied.append {first middle next : Int} {a b : List Int} (ha : Supplied first middle a)
    (hb : Supplied middle next b) (up : first ≤ middle) (up' : middle ≤ next) :
    Supplied first next (a ++ b) := by
  intro id
  rw [List.count_append, ha id, hb id]
  split <;> split <;> split <;> omega

theorem Supplied.mem_iff {first next : Int} {ids : List Int} (h : Supplied first next ids)
    (id : Int) : id ∈ ids ↔ first ≤ id ∧ id < next := by
  rw [← List.count_pos_iff, h id]
  split <;> simp [*]

theorem Supplied.nodup {first next : Int} {ids : List Int} (h : Supplied first next ids) :
    ids.Nodup := by
  rw [List.nodup_iff_count]
  intro id
  rw [h id]
  split <;> omega

theorem Supplied.perm {first next : Int} {ids : List Int} (h : Supplied first next ids) :
    ids.Perm ((List.range (next - first).toNat).map fun (i : Nat) => first + i) := by
  have distinct : ((List.range (next - first).toNat).map fun (i : Nat) => first + (i : Int)).Nodup := by
    apply List.Nodup.map _ List.nodup_range
    intro i j same
    change first + (i : Int) = first + (j : Int) at same
    omega
  rw [List.perm_ext_iff_of_nodup h.nodup distinct]
  intro id
  rw [h.mem_iff, List.mem_map]
  constructor
  · intro ⟨lower, upper⟩
    exact ⟨(id - first).toNat, List.mem_range.mpr (by omega), by omega⟩
  · intro ⟨i, inside, here⟩
    rw [List.mem_range] at inside
    omega

theorem proper_preorder_fold (items : List Region) (next : Int) :
    proper (fold items next).1.preorder = proper (preorderAll items) := by
  induction items generalizing next with
  | nil => exact proper_cons_of_synthetic (synthetic_noOp next) []
  | cons item rest ih =>
      cases rest with
      | nil =>
          rw [preorderAll_singleton]
          rfl
      | cons item' rest =>
          have tail := ih (next + 1)
          change proper (sequential next item (fold (item' :: rest) (next + 1)).1).preorder = _
          rw [preorder, List.cons_append, proper_cons_of_synthetic (synthetic_sequential ..),
            proper_append, tail, preorderAll_cons item, proper_append]

theorem count_syntheticIds_fold (items : List Region) (next id : Int) :
    (syntheticIds (fold items next).1.preorder).count id
      = (syntheticIds (preorderAll items)).count id
        + if next ≤ id ∧ id < (fold items next).2 then 1 else 0 := by
  induction items generalizing next with
  | nil =>
      change (syntheticIds [noOp next]).count id = 0 + if next ≤ id ∧ id < next + 1 then 1 else 0
      rw [syntheticIds_cons_of_synthetic (synthetic_noOp next), Nat.zero_add]
      exact Supplied.one next id
  | cons item rest ih =>
      cases rest with
      | nil =>
          change _ = _ + if next ≤ id ∧ id < next then 1 else 0
          rw [if_neg (by omega), preorderAll_singleton]
          rfl
      | cons item' rest =>
          have tail := ih (next + 1)
          have up := le_fold (item' :: rest) (next + 1)
          change (syntheticIds (sequential next item
              (fold (item' :: rest) (next + 1)).1).preorder).count id
            = _ + if next ≤ id ∧ id < (fold (item' :: rest) (next + 1)).2 then 1 else 0
          rw [preorder, List.cons_append, syntheticIds_cons_of_synthetic (synthetic_sequential ..),
            List.count_cons, syntheticIds_append, List.count_append, tail, preorderAll_cons item,
            syntheticIds_append, List.count_append]
          change _ + (if (next == id) = true then 1 else 0) = _
          split <;> split <;> split <;> simp_all <;> omega

theorem Supplied.fold {first next : Int} {items : List Region}
    (h : Supplied first next (syntheticIds (preorderAll items))) (up : first ≤ next) :
    Supplied first (fold items next).2 (syntheticIds (fold items next).1.preorder) := by
  intro id
  have above := le_fold items next
  rw [count_syntheticIds_fold, h id]
  split <;> split <;> split <;> omega

/-- The regions that folding adds, the outermost first. -/
def joints : List Region → Int → List Region
  | [], next => [noOp next]
  | [_], _ => []
  | item :: item' :: rest, next =>
    (fold (item :: item' :: rest) next).1 :: joints (item' :: rest) (next + 1)

theorem synthetic_joints (items : List Region) (next : Int) :
    ∀ r ∈ joints items next, Synthetic r := by
  induction items generalizing next with
  | nil => exact List.forall_mem_singleton.mpr (synthetic_noOp next)
  | cons item rest ih =>
      cases rest with
      | nil => exact nofun
      | cons item' rest =>
          exact List.forall_mem_cons.mpr ⟨synthetic_sequential .., ih (next + 1)⟩

/-- The added regions take the drawn ids in turn. -/
theorem supplied_joints (items : List Region) (next : Int) :
    Supplied next (fold items next).2 ((joints items next).map (·.id)) := by
  induction items generalizing next with
  | nil => exact .one next
  | cons item rest ih =>
      cases rest with
      | nil => exact .none next
      | cons item' rest =>
          exact (Supplied.one next).append (ih (next + 1)) (by omega) (le_fold _ _)

theorem mem_preorder_fold {items : List Region} {next : Int} {r : Region} :
    r ∈ (fold items next).1.preorder ↔ r ∈ joints items next ∨ r ∈ preorderAll items := by
  induction items generalizing next with
  | nil => simp [joints, preorderAll, fold, foldFrom, counter, noOp, preorder]
  | cons item rest ih =>
      cases rest with
      | nil => simp [joints, preorderAll, fold, foldFrom]
      | cons item' rest =>
          have tail := @ih (next + 1)
          have parts : (fold (item :: item' :: rest) next).1.preorder
              = (fold (item :: item' :: rest) next).1
                :: (item.preorder ++ (fold (item' :: rest) (next + 1)).1.preorder) := rfl
          rw [parts, joints, preorderAll_cons item, List.mem_cons, List.mem_append, tail,
            List.mem_cons, List.mem_append]
          tauto

/-- Sequences lean to the right and have no empty parts. -/
def Leaning (regions : List Region) : Prop :=
  ∀ id first second, sequential id first second ∈ regions →
    ¬ Synthetic first ∧ second ≠ noOp second.id

theorem Leaning.append {a b : List Region} (ha : Leaning a) (hb : Leaning b) :
    Leaning (a ++ b) := by
  intro id first second h
  cases List.mem_append.mp h with
  | inl h => exact ha id first second h
  | inr h => exact hb id first second h

theorem Leaning.cons {r : Region} {rest : List Region} (proper : ¬ Synthetic r)
    (h : Leaning rest) : Leaning (r :: rest) := by
  intro id first second mem
  cases List.mem_cons.mp mem with
  | inl same => exact absurd (same ▸ synthetic_sequential id first second) proper
  | inr mem => exact h id first second mem

theorem Leaning.parent {regions : List Region} (h : Leaning regions) {r child : Region}
    (hr : r ∈ regions) (part : child ∈ r.children) (nothing : child = noOp child.id) :
    r.type = "choice" ∨ r.type = "parallel" := by
  cases r with
  | task => cases part
  | sequential id first second =>
      obtain ⟨plain, nonempty⟩ := h id first second hr
      obtain rfl | rfl := List.mem_pair.mp part
      · exact absurd (.inr nothing) plain
      · exact absurd nothing nonempty
  | choice => exact .inl rfl
  | parallel => exact .inr rfl

theorem Leaning.fold {items : List Region} (proper : ∀ r ∈ items, ¬ Synthetic r)
    (h : Leaning (preorderAll items)) (next : Int) : Leaning (fold items next).1.preorder := by
  induction items generalizing next with
  | nil =>
      intro id first second mem
      exact absurd (List.mem_singleton.mp mem) (sequential_ne_noOp id next first second)
  | cons item rest ih =>
      have split : Leaning item.preorder ∧ Leaning (preorderAll rest) := by
        constructor
        · intro id first second mem
          exact h id first second (List.mem_append_left _ mem)
        · intro id first second mem
          exact h id first second (List.mem_append_right _ mem)
      cases rest with
      | nil => exact split.1
      | cons item' rest =>
          have tail := ih (fun r hr => proper r (List.mem_cons_of_mem _ hr)) split.2 (next + 1)
          have nonempty : (Region.fold (item' :: rest) (next + 1)).1
              ≠ noOp (Region.fold (item' :: rest) (next + 1)).1.id := by
            cases rest with
            | nil =>
                intro empty
                exact proper item' (by simp) (.inr empty)
            | cons item'' rest => exact sequential_ne_noOp (next + 1) _ item' _
          change Leaning (sequential next item
            (Region.fold (item' :: rest) (next + 1)).1).preorder
          rw [preorder]
          intro id first second mem
          rw [List.cons_append, List.mem_cons, List.mem_append] at mem
          obtain here | inFirst | inTail := mem
          · cases here
            exact ⟨proper item List.mem_cons_self, nonempty⟩
          · exact split.1 id first second inFirst
          · exact tail id first second inTail

end ProcessDiagram.Region
