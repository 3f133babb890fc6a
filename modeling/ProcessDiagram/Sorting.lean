/-!
Stable sorting by a test that says whether an item may stay in front of another one. The items that
are in order at the beginning are kept together, and the others are put among them by bisection.
Main statements: `sort_perm`, `pairwise_sort`, and `sort_eq_sort`, by which the result does not
depend on the order in which items come that the test tells apart. The test need not compare all
items there are; where it compares those that are sorted, any stable sort gives the same result.
-/
namespace ProcessDiagram.Sorting

variable {α : Type} (le : α → α → Bool)

/-- Puts an item behind those that may stay in front of it. The bound is at least the number of
items, which halves each time. -/
def place (a : α) : Nat → List α → List α
  | 0, items => a :: items
  | bound + 1, items =>
    match items.drop (items.length / 2) with
    | [] => [a]
    | b :: after =>
      let before := items.take (items.length / 2)
      if le b a then before ++ b :: place a bound after else place a bound before ++ b :: after

/-- The items that may stay in the order in which they begin, and the others. -/
def rising (a : α) : List α → List α × List α
  | [] => ([a], [])
  | b :: rest =>
    if le a b then
      let (run, others) := rising b rest
      (a :: run, others)
    else ([a], b :: rest)

/-- The items that begin in the reverse order, turned round in front of a run, and the others. -/
def falling (run : List α) (a : α) : List α → List α × List α
  | [] => (a :: run, [])
  | b :: rest => if le a b then (a :: run, b :: rest) else falling (a :: run) b rest

def firstRun (a : α) (rest : List α) : List α × List α :=
  if rest.head?.all (le a) then rising le a rest else falling le [] a rest

def placeAll (sorted others : List α) : List α :=
  others.foldl (fun sorted a => place le a sorted.length sorted) sorted

def sort : List α → List α
  | [] => []
  | a :: rest =>
    let (run, others) := firstRun le a rest
    placeAll le run others

/-- Texts in the order of their code points. -/
def texts : List String → List String :=
  sort fun a b => decide (a ≤ b)

/-! ## The same items -/

theorem halves {items after : List α} {b : α} (h : items.drop (items.length / 2) = b :: after) :
    items = items.take (items.length / 2) ++ b :: after := by
  rw [← h, List.take_append_drop]

theorem place_perm (a : α) (bound : Nat) (items : List α) :
    (place le a bound items).Perm (a :: items) := by
  induction bound generalizing items with
  | zero => exact .refl _
  | succ bound ih =>
      rw [place]
      split
      next none =>
          have empty : items = [] := by
            rw [List.drop_eq_nil_iff] at none
            exact List.length_eq_zero_iff.mp (by omega)
          rw [empty]
      next b after there =>
          have parts := halves there
          split
          · refine (((ih after).cons b).append_left _).trans ?_
            conv => rhs; rw [parts]
            exact ((List.Perm.swap a b after).append_left _).trans List.perm_middle
          · refine ((ih _).append_right (b :: after)).trans ?_
            conv => rhs; rw [parts]
            exact .refl _

theorem rising_perm (a : α) (rest : List α) :
    ((rising le a rest).1 ++ (rising le a rest).2).Perm (a :: rest) := by
  induction rest generalizing a with
  | nil => exact .refl _
  | cons b rest ih =>
      rw [rising]
      split
      · exact (ih b).cons a
      · exact .refl _

theorem falling_perm (run : List α) (a : α) (rest : List α) :
    ((falling le run a rest).1 ++ (falling le run a rest).2).Perm (run ++ a :: rest) := by
  induction rest generalizing run a with
  | nil =>
      rw [falling, List.append_nil]
      exact (List.perm_append_singleton a run).symm
  | cons b rest ih =>
      rw [falling]
      split
      · exact List.perm_middle.symm
      · exact (ih (a :: run) b).trans List.perm_middle.symm

theorem firstRun_perm (a : α) (rest : List α) :
    ((firstRun le a rest).1 ++ (firstRun le a rest).2).Perm (a :: rest) := by
  rw [firstRun]
  split
  · exact rising_perm le a rest
  · exact falling_perm le [] a rest

theorem placeAll_perm (sorted others : List α) :
    (placeAll le sorted others).Perm (sorted ++ others) := by
  induction others generalizing sorted with
  | nil => rw [List.append_nil]; exact .refl _
  | cons a others ih =>
      have placed := (place_perm le a sorted.length sorted).append_right others
      exact (ih _).trans (placed.trans List.perm_middle.symm)

theorem sort_perm (items : List α) : (sort le items).Perm items := by
  cases items with
  | nil => exact .refl _
  | cons a rest => exact (placeAll_perm le _ _).trans (firstRun_perm le a rest)

@[simp] theorem mem_sort {a : α} {items : List α} : a ∈ sort le items ↔ a ∈ items :=
  (sort_perm le items).mem_iff

@[simp] theorem mem_texts {a : String} {items : List String} : a ∈ texts items ↔ a ∈ items :=
  mem_sort _

/-! ## In order -/

/-- The test compares all items of a kind, and carries over. -/
structure Compares (le : α → α → Bool) (kind : α → Prop) : Prop where
  trans {a b c : α} : kind a → kind b → kind c → le a b → le b c → le a c
  total {a b : α} : kind a → kind b → le a b ∨ le b a

variable {le} {kind : α → Prop}

namespace Compares

variable (h : Compares le kind)
include h

theorem refl {a : α} (own : kind a) : le a a :=
  (h.total own own).elim id id

theorem swap {a b : α} (first : kind a) (second : kind b) (not : ¬ le a b) : le b a :=
  (h.total first second).resolve_left not

/-- What may stay in front of the first of some sorted items may stay in front of them all. -/
theorem front {a b : α} {items : List α} (all : ∀ x ∈ b :: items, kind x) (own : kind a)
    (first : le a b) (sorted : (b :: items).Pairwise (le · ·)) : ∀ x ∈ b :: items, le a x := by
  rw [List.forall_mem_cons] at all ⊢
  obtain ⟨least, _⟩ := List.pairwise_cons.mp sorted
  exact ⟨first, fun x there => h.trans own all.1 (all.2 x there) first (least x there)⟩

theorem joined_behind {a b : α} {before after placed : List α} (own : kind a)
    (all : ∀ x ∈ before ++ b :: after, kind x) (sorted : (before ++ b :: after).Pairwise (le · ·))
    (behind : le b a) (same : placed.Perm (a :: after)) (order : placed.Pairwise (le · ·)) :
    (before ++ b :: placed).Pairwise (le · ·) := by
  obtain ⟨early, late, apart⟩ := List.pairwise_append.mp sorted
  obtain ⟨least, _⟩ := List.pairwise_cons.mp late
  rw [List.forall_mem_append, List.forall_mem_cons] at all
  refine List.pairwise_append.mpr ⟨early, List.pairwise_cons.mpr ⟨?_, order⟩, ?_⟩
  · intro x there
    rw [same.mem_iff, List.mem_cons] at there
    obtain rfl | there := there
    · exact behind
    · exact least x there
  · intro x there y here
    have next := apart x there b List.mem_cons_self
    rw [List.mem_cons, same.mem_iff, List.mem_cons] at here
    obtain rfl | rfl | here := here
    · exact next
    · exact h.trans (all.1 x there) all.2.1 own next behind
    · exact apart x there y (List.mem_cons_of_mem b here)

theorem joined_before {a b : α} {before after placed : List α} (own : kind a)
    (all : ∀ x ∈ before ++ b :: after, kind x) (sorted : (before ++ b :: after).Pairwise (le · ·))
    (first : le a b) (same : placed.Perm (a :: before)) (order : placed.Pairwise (le · ·)) :
    (placed ++ b :: after).Pairwise (le · ·) := by
  obtain ⟨_, late, apart⟩ := List.pairwise_append.mp sorted
  rw [List.forall_mem_append] at all
  refine List.pairwise_append.mpr ⟨order, late, ?_⟩
  intro x there
  rw [same.mem_iff, List.mem_cons] at there
  obtain rfl | there := there
  · exact h.front all.2 own first late
  · exact apart x there

theorem place {a : α} {bound : Nat} {items : List α} (own : kind a) (all : ∀ x ∈ items, kind x)
    (enough : items.length ≤ bound) (sorted : items.Pairwise (le · ·)) :
    (place le a bound items).Pairwise (le · ·) := by
  induction bound generalizing items with
  | zero =>
      rw [List.length_eq_zero_iff.mp (Nat.le_zero.mp enough)]
      exact List.pairwise_singleton ..
  | succ bound ih =>
      rw [Sorting.place]
      split
      next => exact List.pairwise_singleton ..
      next b after there =>
          have size : (items.drop (items.length / 2)).length = after.length + 1 :=
            congrArg List.length there
          rw [List.length_drop] at size
          have short : (items.take (items.length / 2)).length ≤ bound := by
            rw [List.length_take]
            omega
          rw [halves there] at all sorted
          have kinds := List.forall_mem_append.mp all
          obtain ⟨early, late, _⟩ := List.pairwise_append.mp sorted
          split
          next behind =>
              have placed := ih (List.forall_mem_cons.mp kinds.2).2 (by omega) late.of_cons
              exact h.joined_behind own all sorted behind (place_perm le a bound after) placed
          next not =>
              have first := h.swap (kinds.2 b List.mem_cons_self) own not
              exact h.joined_before own all sorted first (place_perm le a bound _)
                (ih kinds.1 short early)

theorem rising {a : α} {rest : List α} (all : ∀ x ∈ a :: rest, kind x) :
    (rising le a rest).1.Pairwise (le · ·) ∧ ∀ x ∈ (rising le a rest).1, le a x := by
  rw [List.forall_mem_cons] at all
  induction rest generalizing a with
  | nil => exact ⟨List.pairwise_singleton .., List.forall_mem_singleton.mpr (h.refl all.1)⟩
  | cons b rest ih =>
      rw [Sorting.rising]
      split
      next next =>
          obtain ⟨sorted, least⟩ := ih (List.forall_mem_cons.mp all.2)
          have within : ∀ x ∈ (Sorting.rising le b rest).1, kind x := fun x there =>
            all.2 x ((rising_perm le b rest).subset (List.mem_append_left _ there))
          have front : ∀ x ∈ (Sorting.rising le b rest).1, le a x := fun x there =>
            h.trans all.1 (all.2 b List.mem_cons_self) (within x there) next (least x there)
          exact ⟨List.pairwise_cons.mpr ⟨front, sorted⟩,
            List.forall_mem_cons.mpr ⟨h.refl all.1, front⟩⟩
      next =>
          exact ⟨List.pairwise_singleton .., List.forall_mem_singleton.mpr (h.refl all.1)⟩

theorem falling {run : List α} {a : α} {rest : List α} (all : ∀ x ∈ run ++ a :: rest, kind x)
    (sorted : (a :: run).Pairwise (le · ·)) :
    (falling le run a rest).1.Pairwise (le · ·) := by
  induction rest generalizing run a with
  | nil => exact sorted
  | cons b rest ih =>
      rw [Sorting.falling]
      split
      next => exact sorted
      next next =>
          have kinds : ∀ x ∈ (a :: run) ++ b :: rest, kind x := fun x there =>
            all x (List.perm_middle.symm.subset there)
          have back : le b a :=
            h.swap (all a (by simp)) (all b (by simp)) next
          refine ih kinds (List.pairwise_cons.mpr ⟨?_, sorted⟩)
          exact h.front (fun x there => kinds x (List.mem_append_left _ there)) (all b (by simp))
            back sorted

theorem firstRun {a : α} {rest : List α} (all : ∀ x ∈ a :: rest, kind x) :
    (firstRun le a rest).1.Pairwise (le · ·) := by
  rw [Sorting.firstRun]
  split
  · exact (h.rising all).1
  · exact h.falling all (List.pairwise_singleton ..)

theorem placeAll {sorted others : List α} (all : ∀ x ∈ sorted ++ others, kind x)
    (order : sorted.Pairwise (le · ·)) : (placeAll le sorted others).Pairwise (le · ·) := by
  induction others generalizing sorted with
  | nil => exact order
  | cons a others ih =>
      rw [List.forall_mem_append, List.forall_mem_cons] at all
      have placed := h.place all.2.1 all.1 (Nat.le_refl _) order
      refine ih ?_ placed
      rw [List.forall_mem_append]
      refine ⟨fun x there => ?_, all.2.2⟩
      cases List.mem_cons.mp ((place_perm le a _ sorted).subset there) with
      | inl here => exact here ▸ all.2.1
      | inr there => exact all.1 x there

end Compares

theorem pairwise_sort (compares : Compares le kind) {items : List α}
    (all : ∀ a ∈ items, kind a) : (sort le items).Pairwise (le · ·) := by
  cases items with
  | nil => exact .nil
  | cons a rest =>
      have same := firstRun_perm le a rest
      exact compares.placeAll (fun x there => all x (same.subset there)) (compares.firstRun all)

theorem sort_eq_sort (compares : Compares le kind) {items others : List α}
    (all : ∀ a ∈ items, kind a) (apart : ∀ a ∈ items, ∀ b ∈ items, le a b → le b a → a = b)
    (h : items.Perm others) : sort le items = sort le others := by
  refine List.Perm.eq_of_pairwise (fun a b ha hb => ?_) (pairwise_sort compares all)
    (pairwise_sort compares fun b there => all b (h.mem_iff.mpr there))
      (((sort_perm le items).trans h).trans (sort_perm le others).symm)
  exact apart a ((mem_sort le).1 ha) b (h.mem_iff.2 ((mem_sort le).1 hb))

end ProcessDiagram.Sorting
