import ProcessDiagram.Proofs.Region.Synthetic

/-!
The sequences that folding makes: they hang together along their second parts, with the drawn ids in
the order in which they were drawn, and each has one of the folded regions as its first part. So
nothing is lost, moved or doubled. Main statement: `Region.folds_in_order`.
-/
namespace ProcessDiagram.Region

variable {σ : Type}

section Supply

variable (draw : σ → Int × σ)

/-- The first ids of a supply, in the order in which they are drawn. -/
def drawn : Nat → σ → List Int
  | 0, _ => []
  | n + 1, supply => (draw supply).1 :: drawn n (draw supply).2

/-- What is left of a supply when some ids have been drawn. -/
def remaining : Nat → σ → σ
  | 0, supply => supply
  | n + 1, supply => remaining n (draw supply).2

theorem length_drawn (n : Nat) (supply : σ) : (drawn draw n supply).length = n := by
  induction n generalizing supply with
  | zero => rfl
  | succ n ih => rw [drawn, List.length_cons, ih]

end Supply

/-- The region that is met after so many second parts. -/
def along : Nat → Region → Option Region
  | 0, r => some r
  | n + 1, sequential _ _ second => along n second
  | _ + 1, _ => none

/-- A tree in which sequences with these ids, each one the second part of the one before, have these
regions as their first parts, up to a last region. -/
structure Threaded (ids : List Int) (items : List Region) (last tree : Region) : Prop where
  met : ∀ (k : Nat) (item : Region), items[k]? = some item →
    ∃ id rest, ids[k]? = some id ∧ along k tree = some (sequential id item rest)
  ends : along items.length tree = some last
  listed : tree.preorder
    = (items.zipIdx.flatMap fun (item, k) => (along k tree).toList ++ item.preorder) ++ last.preorder

namespace Threaded

variable {ids : List Int} {items : List Region} {last tree : Region}

theorem nil (last : Region) : Threaded [] [] last last :=
  ⟨nofun, rfl, rfl⟩

theorem cons (h : Threaded ids items last tree) (id : Int) (item : Region) :
    Threaded (id :: ids) (item :: items) last (sequential id item tree) := by
  refine ⟨?_, h.ends, ?_⟩
  · intro k other found
    cases k with
    | zero =>
        cases found
        exact ⟨id, tree, rfl, rfl⟩
    | succ k => exact h.met k other found
  · rw [preorder, h.listed, List.zipIdx_cons, List.zipIdx_succ, List.flatMap_cons, List.flatMap_map]
    simp only [along, Option.toList_some, List.cons_append, List.nil_append, List.append_assoc]

theorem unique {ids' : List Int} {items' : List Region} {last' : Region}
    (h : Threaded ids items last tree) (h' : Threaded ids' items' last' tree)
    (number : items.length = items'.length) : items = items' ∧ last = last' := by
  constructor
  · apply List.ext_getElem?
    intro k
    by_cases inside : k < items.length
    · have inside' : k < items'.length := number ▸ inside
      obtain ⟨_, _, _, here⟩ := h.met k _ (List.getElem?_eq_getElem inside)
      obtain ⟨_, _, _, there⟩ := h'.met k _ (List.getElem?_eq_getElem inside')
      have same := Option.some.inj (here.symm.trans there)
      injection same with _ first _
      rw [List.getElem?_eq_getElem inside, List.getElem?_eq_getElem inside', first]
    · rw [List.getElem?_eq_none (Nat.not_lt.mp inside),
        List.getElem?_eq_none (number ▸ Nat.not_lt.mp inside)]
  · exact Option.some.inj (h.ends.symm.trans (number ▸ h'.ends))

end Threaded

/-! ## Folding -/

theorem foldFrom_cons (draw : σ → Int × σ) (item : Region) {items : List Region}
    (more : items ≠ []) (supply : σ) :
    foldFrom draw (item :: items) supply
      = (sequential (draw supply).1 item (foldFrom draw items (draw supply).2).1,
        (foldFrom draw items (draw supply).2).2) := by
  cases items with
  | nil => exact absurd rfl more
  | cons next rest => rfl

theorem threaded_foldFrom (draw : σ → Int × σ) (items : List Region) (last : Region)
    (supply : σ) : ∃ tree,
      foldFrom draw (items ++ [last]) supply = (tree, remaining draw items.length supply) ∧
        Threaded (drawn draw items.length supply) items last tree := by
  induction items generalizing supply with
  | nil => exact ⟨last, rfl, .nil last⟩
  | cons item items ih =>
      obtain ⟨tree, folded, threaded⟩ := ih (draw supply).2
      refine ⟨sequential (draw supply).1 item tree, ?_, threaded.cons _ item⟩
      rw [List.cons_append, foldFrom_cons draw item (by simp), folded]
      rfl

/-- Puts sequences around a region, the innermost first. -/
def wrap (last : Region) (parts : List (Region × Int)) : Region :=
  parts.foldl (fun node part => sequential part.2 part.1 node) last

theorem wrap_append (last : Region) (a b : List (Region × Int)) :
    wrap last (a ++ b) = wrap (wrap last a) b :=
  List.foldl_append

/-- The ids are drawn forwards, and the tree can be put together from its end. -/
theorem foldFrom_eq_wrap (draw : σ → Int × σ) (items : List Region) (last : Region) (supply : σ) :
    (foldFrom draw (items ++ [last]) supply).1
      = wrap last (items.reverse.zip (drawn draw items.length supply).reverse) := by
  induction items generalizing supply with
  | nil => rfl
  | cons item items ih =>
      have level : items.reverse.length = (drawn draw items.length (draw supply).2).reverse.length := by
        rw [List.length_reverse, List.length_reverse, length_drawn]
      rw [List.cons_append, foldFrom_cons draw item (by simp), ih, List.length_cons, drawn,
        List.reverse_cons, List.reverse_cons, List.zip_append level, wrap_append]
      rfl

/-- Regions that are folded into one tree are the same, if they are as many. -/
theorem foldFrom_injective {draw draw' : σ → Int × σ} {supply supply' : σ}
    {items items' : List Region} (number : items.length = items'.length)
    (same : (foldFrom draw items supply).1 = (foldFrom draw' items' supply').1) :
    items = items' := by
  obtain rfl | ⟨init, last, rfl⟩ := items.eq_nil_or_concat'
  · exact (List.eq_nil_of_length_eq_zero number.symm).symm
  · obtain rfl | ⟨init', last', rfl⟩ := items'.eq_nil_or_concat'
    · exact List.eq_nil_of_length_eq_zero number
    · obtain ⟨tree, folded, threaded⟩ := threaded_foldFrom draw init last supply
      obtain ⟨tree', folded', threaded'⟩ := threaded_foldFrom draw' init' last' supply'
      rw [folded, folded'] at same
      cases same
      obtain ⟨rfl, rfl⟩ := threaded.unique threaded' (by simpa using number)
      rfl

/-! ## Listing -/

/-- The regions that come up when the first of a stack is taken off and its children are put in its
place, again and again. -/
def unstack : Nat → List Region → List Region
  | 0, _ => []
  | _ + 1, [] => []
  | steps + 1, r :: stack => r :: unstack steps (r.children ++ stack)

theorem preorderAll_append (a b : List Region) :
    preorderAll (a ++ b) = preorderAll a ++ preorderAll b := by
  induction a with
  | nil => rfl
  | cons r rest ih => rw [List.cons_append, preorderAll, preorderAll, ih, List.append_assoc]

theorem unstack_eq_preorderAll {steps : Nat} {stack : List Region}
    (enough : (preorderAll stack).length ≤ steps) : unstack steps stack = preorderAll stack := by
  induction steps generalizing stack with
  | zero => exact (List.eq_nil_of_length_eq_zero (Nat.le_zero.mp enough)).symm
  | succ steps ih =>
      cases stack with
      | nil => rfl
      | cons r stack =>
          have below : preorderAll (r :: stack) = r :: preorderAll (r.children ++ stack) := by
            rw [preorderAll, preorder_eq, preorderAll_append, List.cons_append]
          rw [below] at enough ⊢
          rw [unstack, ih (Nat.le_of_succ_le_succ enough)]

/-- An empty list takes one id, for a task in its place, and a list of regions one id less than there
are regions. Its tree has these on the way along the second parts, can be put together backwards, and
is listed by a stack in preorder; lists of one length with one tree are the same. -/
theorem folds_in_order (draw : σ → Int × σ) (supply : σ) :
    foldFrom draw [] supply = (noOp (draw supply).1, remaining draw 1 supply) ∧
    (∀ (items : List Region) (last : Region), ∃ tree,
      foldFrom draw (items ++ [last]) supply = (tree, remaining draw items.length supply) ∧
        Threaded (drawn draw items.length supply) items last tree ∧
        tree = wrap last (items.reverse.zip (drawn draw items.length supply).reverse) ∧
        ∀ steps ≥ tree.preorder.length, unstack steps [tree] = tree.preorder) ∧
    ∀ (draw' : σ → Int × σ) (supply' : σ) (items items' : List Region),
      items.length = items'.length →
        (foldFrom draw items supply).1 = (foldFrom draw' items' supply').1 → items = items' := by
  refine ⟨rfl, ?_, ?_⟩
  · intro items last
    obtain ⟨tree, folded, threaded⟩ := threaded_foldFrom draw items last supply
    have backwards := foldFrom_eq_wrap draw items last supply
    rw [folded] at backwards
    refine ⟨tree, folded, threaded, backwards, ?_⟩
    intro steps enough
    rw [← preorderAll_singleton tree] at enough ⊢
    exact unstack_eq_preorderAll enough
  · intro draw' supply' items items' number same
    exact foldFrom_injective number same

/-- A sequence, as one of the regions that are folded. -/
def pair : Region :=
  sequential 1 (unitTask 2 "a") (unitTask 3 "b")

/-- One id is drawn for two regions; a supply that hands out that id for ever makes the same tree. -/
theorem folds_in_order_pair :
    (∃ tree, fold [pair, unitTask 4 "c"] 7 = (tree, 8) ∧ Threaded [7] [pair] (unitTask 4 "c") tree ∧
      unstack 5 [tree] = tree.preorder) ∧
    (fold [pair, unitTask 4 "c"] 7).1
        = (foldFrom (fun id => (id, id)) [pair, unitTask 4 "c"] 7).1 ∧
      [pair, unitTask 4 "c"] = [pair, unitTask 4 "c"] := by
  have same : (fold [pair, unitTask 4 "c"] 7).1
      = (foldFrom (fun id => (id, id)) [pair, unitTask 4 "c"] 7).1 := rfl
  refine ⟨?_, same, (folds_in_order counter 7).2.2 _ 7 _ _ rfl same⟩
  obtain ⟨tree, folded, threaded, _, listed⟩ :=
    (folds_in_order counter 7).2.1 [pair] (unitTask 4 "c")
  have whole : sequential 7 pair (unitTask 4 "c") = tree := congrArg Prod.fst folded
  exact ⟨tree, folded, threaded, listed 5 (by rw [← whole]; decide)⟩

/-- A sequence that is folded in last cannot be told from its parts. -/
example : (fold [unitTask 4 "c", sequential 8 (unitTask 2 "a") (unitTask 3 "b")] 7).1
    = (fold [unitTask 4 "c", unitTask 2 "a", unitTask 3 "b"] 7).1 := rfl

end ProcessDiagram.Region
