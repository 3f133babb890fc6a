import ProcessDiagram.Proofs.Diagram.Leads

/-!
Block-structured processes: rows of blocks, each a task or a split whose branches are rows again
and meet at a join. Read from left to right the flows of a row only go forward.
-/
namespace ProcessDiagram

/-- Blocks one after the other. -/
inductive Blocks
  | nil
  | task (work : Element) (rest : Blocks)
  | split (gateway : Element) (branches : List Blocks) (join : Element) (rest : Blocks)

namespace Blocks

theorem induction {P : Blocks → Prop} (nil : P nil) (task : ∀ work rest, P rest → P (task work rest))
    (split : ∀ gateway branches join rest, (∀ b ∈ branches, P b) → P rest →
      P (split gateway branches join rest)) : ∀ bs, P bs := by
  intro bs
  refine @Blocks.rec P (fun branches => ∀ b ∈ branches, P b) nil task split ?_ ?_ bs
  · intro b hb
    cases hb
  · intro head tail first others b hb
    cases List.mem_cons.mp hb with
    | inl same => exact same ▸ first
    | inr later => exact others b later

mutual

/-- From left to right. -/
def elements : Blocks → List Element
  | nil => []
  | task work rest => work :: elements rest
  | split gateway branches join rest =>
    gateway :: (elementsAll branches ++ join :: elements rest)

def elementsAll : List Blocks → List Element
  | [] => []
  | b :: others => elements b ++ elementsAll others

end

/-- Where a row begins, or what follows it when it is empty. -/
def entry : Blocks → Element → Element
  | nil, next => next
  | task work _, _ => work
  | split gateway _ _ _, _ => gateway

mutual

/-- The ends of the flows inside a row and from its end to what follows. -/
def edges : Blocks → Element → List (Element × Element)
  | nil, _ => []
  | task work rest, next => (work, entry rest next) :: edges rest next
  | split gateway branches join rest, next =>
    branches.map (fun b => (gateway, b.entry join))
      ++ (edgesAll branches join ++ (join, entry rest next) :: edges rest next)

def edgesAll : List Blocks → Element → List (Element × Element)
  | [], _ => []
  | b :: others, next => edges b next ++ edgesAll others next

end

mutual

/-- Tasks are tasks, splits and joins are gateways and a split has at least two branches. -/
def WellFormed : Blocks → Prop
  | nil => True
  | task work rest => work.kind = .task ∧ WellFormed rest
  | split gateway branches join rest =>
    gateway.kind.isGateway = true ∧ join.kind.isGateway = true ∧ 2 ≤ branches.length ∧
      AllWellFormed branches ∧ WellFormed rest

def AllWellFormed : List Blocks → Prop
  | [] => True
  | b :: others => WellFormed b ∧ AllWellFormed others

end

theorem mem_elementsAll {branches : List Blocks} {e : Element} :
    e ∈ elementsAll branches ↔ ∃ b ∈ branches, e ∈ b.elements := by
  induction branches with
  | nil => simp [elementsAll]
  | cons b others ih => simp [elementsAll, ih]

section Split

variable {gateway join e : Element} {branches : List Blocks} {rest : Blocks}

theorem mem_elements_split : e ∈ (split gateway branches join rest).elements ↔
    e = gateway ∨ e ∈ elementsAll branches ∨ e = join ∨ e ∈ rest.elements := by
  rw [elements, List.mem_cons, List.mem_append, List.mem_cons]

theorem mem_split_of_inside (h : e ∈ elementsAll branches) :
    e ∈ (split gateway branches join rest).elements :=
  mem_elements_split.mpr (.inr (.inl h))

theorem join_mem_split : join ∈ (split gateway branches join rest).elements :=
  mem_elements_split.mpr (.inr (.inr (.inl rfl)))

theorem mem_split_of_rest (h : e ∈ rest.elements) :
    e ∈ (split gateway branches join rest).elements :=
  mem_elements_split.mpr (.inr (.inr (.inr h)))

end Split

theorem mem_edgesAll {branches : List Blocks} {next : Element} {edge : Element × Element} :
    edge ∈ edgesAll branches next ↔ ∃ b ∈ branches, edge ∈ b.edges next := by
  induction branches with
  | nil => simp [edgesAll]
  | cons b others ih => simp [edgesAll, ih]

theorem allWellFormed_iff {branches : List Blocks} :
    AllWellFormed branches ↔ ∀ b ∈ branches, b.WellFormed := by
  induction branches with
  | nil => simp [AllWellFormed]
  | cons b others ih => simp [AllWellFormed, ih]

theorem elements_sublist {branches : List Blocks} {b : Blocks} (h : b ∈ branches) :
    b.elements.Sublist (elementsAll branches) := by
  induction branches with
  | nil => cases h
  | cons head others ih =>
      rw [elementsAll]
      cases List.mem_cons.mp h with
      | inl same => exact same ▸ List.sublist_append_left _ _
      | inr later => exact (ih later).trans (List.sublist_append_right _ _)

theorem entry_mem (bs : Blocks) (next : Element) : bs.entry next ∈ bs.elements ++ [next] := by
  cases bs with
  | nil => exact List.mem_singleton_self _
  | task work rest => exact List.mem_cons_self
  | split gateway branches join rest => exact List.mem_cons_self

/-- The parts of a split have no element in common. -/
structure Apart (gateway : Element) (branches : List Blocks) (join : Element) (rest : Blocks) :
    Prop where
  gateway_inside : gateway ∉ elementsAll branches
  gateway_join : gateway ≠ join
  gateway_rest : gateway ∉ rest.elements
  inside_nodup : (elementsAll branches).Nodup
  join_inside : join ∉ elementsAll branches
  join_rest : join ∉ rest.elements
  rest_nodup : rest.elements.Nodup
  inside_rest : ∀ e ∈ elementsAll branches, e ∉ rest.elements

theorem apart_of_nodup {gateway join : Element} {branches : List Blocks} {rest : Blocks}
    (h : (split gateway branches join rest).elements.Nodup) :
    Apart gateway branches join rest := by
  rw [elements, List.nodup_cons, List.mem_append, List.mem_cons, not_or, not_or,
    List.nodup_append, List.nodup_cons] at h
  obtain ⟨⟨inside, other, behind⟩, nodup, ⟨joinRest, restNodup⟩, apart⟩ := h
  refine ⟨inside, other, behind, nodup, ?_, joinRest, restNodup, ?_⟩
  · intro again
    exact apart join again join List.mem_cons_self rfl
  · intro e he again
    exact apart e he e (List.mem_cons_of_mem _ again) rfl

theorem position_eq {branches : List Blocks} (nodup : (elementsAll branches).Nodup) {i j : Nat}
    {b b' : Blocks} (hb : branches[i]? = some b) (hb' : branches[j]? = some b') {e : Element}
    (he : e ∈ b.elements) (he' : e ∈ b'.elements) : i = j := by
  induction branches generalizing i j with
  | nil => cases hb
  | cons head others ih =>
      rw [elementsAll, List.nodup_append] at nodup
      obtain ⟨_, later, apart⟩ := nodup
      have clash : ∀ (b'' : Blocks) (k : Nat), others[k]? = some b'' → e ∈ head.elements →
          e ∉ b''.elements := by
        intro b'' k hk first second
        exact apart e first e (mem_elementsAll.mpr ⟨b'', List.mem_of_getElem? hk, second⟩) rfl
      cases i with
      | zero =>
          cases hb
          cases j with
          | zero => rfl
          | succ j => exact absurd he' (clash b' j hb' he)
      | succ i =>
          cases j with
          | zero =>
              cases hb'
              exact absurd he (clash b i hb he')
          | succ j => rw [ih later hb hb']

theorem eq_of_shared {branches : List Blocks} (nodup : (elementsAll branches).Nodup)
    {b b' : Blocks} (hb : b ∈ branches) (hb' : b' ∈ branches) {e : Element} (he : e ∈ b.elements)
    (he' : e ∈ b'.elements) : b = b' := by
  obtain ⟨i, hi⟩ := List.mem_iff_getElem?.mp hb
  obtain ⟨j, hj⟩ := List.mem_iff_getElem?.mp hb'
  have same := position_eq nodup hi hj he he'
  subst same
  exact Option.some.inj (hi.symm.trans hj)

theorem nodup_of_mem {branches : List Blocks} (nodup : (elementsAll branches).Nodup) {b : Blocks}
    (hb : b ∈ branches) : b.elements.Nodup :=
  (elements_sublist hb).nodup nodup

theorem entry_eq_or_mem (bs : Blocks) (next : Element) :
    bs = nil ∧ bs.entry next = next ∨ bs.entry next ∈ bs.elements := by
  cases bs with
  | nil => exact .inl ⟨rfl, rfl⟩
  | task work rest => exact .inr List.mem_cons_self
  | split gateway branches join rest => exact .inr List.mem_cons_self

theorem source_mem (bs : Blocks) : ∀ (next : Element) (edge : Element × Element),
    edge ∈ bs.edges next → edge.1 ∈ bs.elements := by
  induction bs using Blocks.induction with
  | nil =>
      intro next edge h
      cases h
  | task work rest ih =>
      intro next edge h
      rw [edges] at h
      rw [elements]
      cases List.mem_cons.mp h with
      | inl same => exact same ▸ List.mem_cons_self
      | inr later => exact List.mem_cons_of_mem _ (ih next edge later)
  | split gateway branches join rest ihs ih =>
      intro next edge h
      rw [edges] at h
      rw [mem_elements_split]
      cases List.mem_append.mp h with
      | inl out =>
          obtain ⟨b, hb, rfl⟩ := List.mem_map.mp out
          exact .inl rfl
      | inr inner =>
          cases List.mem_append.mp inner with
          | inl branch =>
              obtain ⟨b, hb, edgeOf⟩ := mem_edgesAll.mp branch
              exact .inr (.inl (mem_elementsAll.mpr ⟨b, hb, ihs b hb join edge edgeOf⟩))
          | inr behind =>
              cases List.mem_cons.mp behind with
              | inl same => exact .inr (.inr (.inl (same ▸ rfl)))
              | inr later => exact .inr (.inr (.inr (ih next edge later)))

theorem edges_forward (bs : Blocks) : ∀ (next : Element) (edge : Element × Element),
    edge ∈ bs.edges next → [edge.1, edge.2].Sublist (bs.elements ++ [next]) := by
  induction bs using Blocks.induction with
  | nil =>
      intro next edge h
      cases h
  | task work rest ih =>
      intro next edge h
      rw [edges] at h
      rw [elements, List.cons_append]
      cases List.mem_cons.mp h with
      | inl same =>
          subst same
          exact (List.singleton_sublist.mpr (entry_mem rest next)).cons_cons work
      | inr later => exact (ih next edge later).cons work
  | split gateway branches join rest ihs ih =>
      intro next edge h
      have inside : ∀ b ∈ branches, (b.elements ++ [join]).Sublist
          (elementsAll branches ++ join :: (rest.elements ++ [next])) := by
        intro b hb
        apply (elements_sublist hb).append
        exact (List.nil_sublist _).cons_cons join
      rw [edges] at h
      rw [elements, List.cons_append, List.append_assoc, List.cons_append]
      cases List.mem_append.mp h with
      | inl out =>
          obtain ⟨b, hb, rfl⟩ := List.mem_map.mp out
          apply List.Sublist.cons_cons
          exact (List.singleton_sublist.mpr (entry_mem b join)).trans (inside b hb)
      | inr inner =>
          apply List.Sublist.cons
          cases List.mem_append.mp inner with
          | inl branch =>
              obtain ⟨b, hb, edgeOf⟩ := mem_edgesAll.mp branch
              exact (ihs b hb join edge edgeOf).trans (inside b hb)
          | inr behind =>
              apply List.Sublist.trans _ (List.sublist_append_right _ _)
              cases List.mem_cons.mp behind with
              | inl same =>
                  subst same
                  exact (List.singleton_sublist.mpr (entry_mem rest next)).cons_cons join
              | inr later => exact (ih next edge later).cons join

end Blocks
end ProcessDiagram
