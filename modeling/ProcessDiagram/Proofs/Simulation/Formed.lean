import ProcessDiagram.Simulation.Behavior
import ProcessDiagram.Proofs.Diagram.Built

/-!
Well-formed scopes. Scopes are appended and changed in place, and a change keeps the element and
the parent, so what holds of the tree of scopes is kept by an append lemma and a change lemma.
-/
namespace ProcessDiagram

namespace Scopes

/-- A live child keeps its parent running. -/
def HasLiveChild (scopes : Scopes) (parent : Nat) : Prop :=
  ∃ (i : Nat) (x : Scope), scopes[i]? = some x ∧ x.parent = some parent ∧ x.destroyed = false

theorem isEmpty_liveChildren {scopes : Scopes} {parent : Nat} :
    (scopes.liveChildren parent).isEmpty = true ↔ ¬ scopes.HasLiveChild parent := by
  rw [List.isEmpty_iff, List.eq_nil_iff_forall_not_mem]
  simp only [liveChildren, mem_idsWhere, HasLiveChild, not_exists, Bool.and_eq_true,
    Bool.not_eq_true', beq_iff_eq, not_and]
  constructor
  · intro h i x hx child live
    exact h i x hx live child
  · intro h i x hx live child
    exact h i x hx child live

theorem idsWhere_sublist (scopes : Scopes) (p : Scope → Bool) :
    (scopes.idsWhere p).Sublist (List.range' 0 scopes.length) := by
  have ids : scopes.indexed.map (·.1) = List.range' 0 scopes.length := by
    rw [indexed, List.map_map]
    exact List.zipIdx_map_snd 0 scopes
  rw [← ids, idsWhere]
  exact List.filter_sublist.map _

theorem pairwise_idsWhere (scopes : Scopes) (p : Scope → Bool) :
    (scopes.idsWhere p).Pairwise (· < ·) :=
  (List.pairwise_lt_range' 1).sublist (idsWhere_sublist scopes p)

theorem nodup_idsWhere (scopes : Scopes) (p : Scope → Bool) : (scopes.idsWhere p).Nodup :=
  (pairwise_idsWhere scopes p).imp Nat.ne_of_lt

theorem head?_idsWhere_eq_some_iff {scopes : Scopes} {p : Scope → Bool} {i : ScopeId} :
    (scopes.idsWhere p).head? = some i ↔ (∃ x, scopes[i]? = some x ∧ p x = true) ∧
      ∀ (j : Nat) (y : Scope), j < i → scopes[j]? = some y → p y = false := by
  have sorted := pairwise_idsWhere scopes p
  constructor
  · intro head
    refine ⟨mem_idsWhere.mp (List.mem_of_head? head), ?_⟩
    intro j y before hy
    by_contra chosen
    have inside : j ∈ scopes.idsWhere p := mem_idsWhere.mpr ⟨y, hy, by simpa using chosen⟩
    obtain ⟨rest, ids⟩ := List.head?_eq_some_iff.mp head
    rw [ids] at sorted inside
    cases List.mem_cons.mp inside with
    | inl same => exact Nat.ne_of_lt before same
    | inr later => exact Nat.lt_asymm before ((List.pairwise_cons.mp sorted).1 j later)
  · intro ⟨found, least⟩
    have inside := mem_idsWhere.mpr found
    cases ids : scopes.idsWhere p with
    | nil =>
        rw [ids] at inside
        cases inside
    | cons k rest =>
        rw [ids] at sorted inside
        rw [List.head?_cons, Option.some.injEq]
        cases List.mem_cons.mp inside with
        | inl same => exact same.symm
        | inr later =>
            have first : k ∈ scopes.idsWhere p := ids ▸ List.mem_cons_self
            obtain ⟨y, hy, chosen⟩ := mem_idsWhere.mp first
            rw [least k y ((List.pairwise_cons.mp sorted).1 i later) hy] at chosen
            cases chosen

theorem length_idsWhere (scopes : Scopes) (p : Scope → Bool) :
    (scopes.idsWhere p).length = scopes.countP p := by
  have values : scopes.indexed.map (·.2) = scopes := by
    rw [indexed, List.map_map]
    exact List.zipIdx_map_fst 0 scopes
  have count : (scopes.indexed.map (·.2)).countP p = scopes.indexed.countP (p ∘ (·.2)) :=
    List.countP_map
  rw [values] at count
  rw [idsWhere, List.length_map, ← List.countP_eq_length_filter, count]
  rfl

theorem getElem?_append_new (scopes : Scopes) (new : Scope) :
    (scopes ++ [new])[scopes.length]? = some new :=
  List.getElem?_concat_length

theorem getElem?_append_old {scopes : Scopes} {i : Nat} {x : Scope}
    (h : scopes[i]? = some x) (new : Scope) : (scopes ++ [new])[i]? = some x := by
  have below := (List.getElem?_eq_some_iff.mp h).1
  rw [List.getElem?_append_left below]
  exact h

theorem getElem?_append_cases {scopes : Scopes} {new : Scope} {i : Nat} {x : Scope}
    (h : (scopes ++ [new])[i]? = some x) :
    scopes[i]? = some x ∨ i = scopes.length ∧ x = new := by
  by_cases below : i < scopes.length
  · rw [List.getElem?_append_left below] at h
    exact .inl h
  · rw [List.getElem?_append_right (by omega)] at h
    right
    cases position : i - scopes.length with
    | zero =>
        rw [position] at h
        exact ⟨by omega, (Option.some.inj h).symm⟩
    | succ n =>
        rw [position] at h
        cases h

theorem getElem?_modify_self {scopes : Scopes} {i : Nat} {x : Scope}
    (h : scopes[i]? = some x) (f : Scope → Scope) : (scopes.modify i f)[i]? = some (f x) := by
  rw [List.getElem?_modify_eq, h]
  rfl

theorem getElem?_modify_other {scopes : Scopes} {i j : Nat} (other : i ≠ j)
    (f : Scope → Scope) : (scopes.modify i f)[j]? = scopes[j]? :=
  List.getElem?_modify_ne f scopes other

theorem getElem?_modify_cases {scopes : Scopes} {i j : Nat} {x y : Scope}
    (hx : scopes[i]? = some x) {f : Scope → Scope} (h : (scopes.modify i f)[j]? = some y) :
    i = j ∧ y = f x ∨ i ≠ j ∧ scopes[j]? = some y := by
  by_cases same : i = j
  · subst same
    rw [getElem?_modify_self hx] at h
    exact .inl ⟨rfl, (Option.some.inj h).symm⟩
  · rw [getElem?_modify_other same] at h
    exact .inr ⟨same, h⟩

theorem getElem?_modify_or {scopes : Scopes} {i j : Nat} {y : Scope} {f : Scope → Scope}
    (h : (scopes.modify i f)[j]? = some y) : scopes[j]? = some y ∨ i = j ∧ ∃ x, y = f x := by
  rw [List.getElem?_modify] at h
  obtain ⟨x, hx, rfl⟩ := Option.map_eq_some_iff.mp h
  by_cases same : i = j
  · exact .inr ⟨same, x, if_pos same⟩
  · exact .inl (by rw [if_neg same]; exact hx)

theorem map_modify {α : Type} (scopes : Scopes) (i : Nat) {f : Scope → Scope} {g : Scope → α}
    (same : ∀ x, g (f x) = g x) : (scopes.modify i f).map g = scopes.map g := by
  apply List.ext_getElem?
  intro j
  rw [List.getElem?_map, List.getElem?_map, List.getElem?_modify]
  cases scopes[j]? with
  | none => rfl
  | some x =>
      by_cases here : i = j
      · simp [here, same]
      · simp [here]

theorem hasLiveChild_append {scopes : Scopes} {new : Scope} {p : Nat} :
    HasLiveChild (scopes ++ [new]) p ↔
      scopes.HasLiveChild p ∨ new.parent = some p ∧ new.destroyed = false := by
  constructor
  · intro h
    obtain ⟨i, x, hx, parent, live⟩ := h
    cases getElem?_append_cases hx with
    | inl old => exact .inl ⟨i, x, old, parent, live⟩
    | inr fresh => exact .inr (fresh.2 ▸ ⟨parent, live⟩)
  · intro h
    cases h with
    | inl old =>
        obtain ⟨i, x, hx, child⟩ := old
        exact ⟨i, x, getElem?_append_old hx new, child⟩
    | inr fresh => exact ⟨scopes.length, new, getElem?_append_new scopes new, fresh⟩

theorem HasLiveChild.of_modify {scopes : Scopes} {i : Nat} {x : Scope}
    (hx : scopes[i]? = some x) {f : Scope → Scope} (parent : (f x).parent = x.parent)
    (alive : (f x).destroyed = false → x.destroyed = false) {p : Nat}
    (h : HasLiveChild (scopes.modify i f) p) : scopes.HasLiveChild p := by
  obtain ⟨j, y, hy, under, live⟩ := h
  cases getElem?_modify_cases hx hy with
  | inl here =>
      obtain ⟨rfl, rfl⟩ := here
      exact ⟨i, x, hx, parent ▸ under, alive live⟩
  | inr other => exact ⟨j, y, other.2, under, live⟩

theorem hasLiveChild_modify_of_other {scopes : Scopes} {i j p : Nat} {y : Scope}
    (hy : scopes[j]? = some y) (other : i ≠ j) (under : y.parent = some p)
    (live : y.destroyed = false) (f : Scope → Scope) : HasLiveChild (scopes.modify i f) p :=
  ⟨j, y, (getElem?_modify_other other f).trans hy, under, live⟩

theorem HasLiveChild.modify {scopes : Scopes} {i : Nat} {x : Scope}
    (hx : scopes[i]? = some x) {f : Scope → Scope} (parent : (f x).parent = x.parent)
    (alive : x.destroyed = false → (f x).destroyed = false) {p : Nat}
    (h : scopes.HasLiveChild p) : HasLiveChild (scopes.modify i f) p := by
  obtain ⟨j, y, hy, under, live⟩ := h
  by_cases same : i = j
  · subst same
    have one : y = x := Option.some.inj (hy.symm.trans hx)
    subst one
    exact ⟨i, f y, getElem?_modify_self hx f, parent.trans under, alive live⟩
  · exact hasLiveChild_modify_of_other hy same under live f

end Scopes

/-- What holds of a scope by itself. -/
structure Scope.Proper (d : Diagram) (x : Scope) : Prop where
  pending : x.pending = true ↔ x.state = .waiting
  destroyed : x.destroyed = true → x.state = .exited
  active : x.state ≠ .idle
  root : x.parent = none → x.element.kind = .process ∨ x.element.kind = .participant
  nested : x.parent ≠ none → x.element ∈ d.nodes ∧
    (x.element.kind = .startEvent ∨ ∃ f ∈ d.flows, f.target = x.element)

/-- Only roots and subprocesses are parents, and a live scope has a live and entered one. -/
structure Scope.Inside (x parent : Scope) : Prop where
  container : parent.element.kind = .subProcess ∨ parent.parent = none
  running : x.destroyed = false → parent.destroyed = false ∧ parent.state = .entered

structure Formed (d : Diagram) (scopes : Scopes) : Prop where
  proper : ∀ (i : Nat) (x : Scope), scopes[i]? = some x → x.Proper d
  inside : ∀ (i : Nat) (x : Scope) (p : Nat), scopes[i]? = some x → x.parent = some p →
    p < i ∧ ∃ y : Scope, scopes[p]? = some y ∧ x.Inside y

namespace Formed

variable {d : Diagram} {scopes : Scopes}

theorem nil (d : Diagram) : Formed d [] := by
  constructor
  · intro i x h
    cases h
  · intro i x p h
    cases h

theorem append (h : Formed d scopes) {new : Scope} (proper : new.Proper d)
    (inside : ∀ p : Nat, new.parent = some p → ∃ y, scopes[p]? = some y ∧ new.Inside y) :
    Formed d (scopes ++ [new]) := by
  constructor
  · intro i x hx
    cases Scopes.getElem?_append_cases hx with
    | inl old => exact h.proper i x old
    | inr fresh => exact fresh.2 ▸ proper
  · intro i x p hx parent
    cases Scopes.getElem?_append_cases hx with
    | inl old =>
        obtain ⟨earlier, y, hy, under⟩ := h.inside i x p old parent
        exact ⟨earlier, y, Scopes.getElem?_append_old hy new, under⟩
    | inr fresh =>
        obtain ⟨rfl, rfl⟩ := fresh
        obtain ⟨y, hy, under⟩ := inside p parent
        have below := (List.getElem?_eq_some_iff.mp hy).1
        exact ⟨below, y, Scopes.getElem?_append_old hy x, under⟩

theorem modify (h : Formed d scopes) {i : Nat} {x : Scope} (hx : scopes[i]? = some x)
    {f : Scope → Scope} (element : (f x).element = x.element) (parent : (f x).parent = x.parent)
    (proper : (f x).Proper d) (alive : (f x).destroyed = false → x.destroyed = false)
    (runs : (f x).destroyed = false ∧ (f x).state = .entered ∨ ¬ scopes.HasLiveChild i) :
    Formed d (scopes.modify i f) := by
  constructor
  · intro j y hy
    cases Scopes.getElem?_modify_cases hx hy with
    | inl here => exact here.2 ▸ proper
    | inr other => exact h.proper j y other.2
  · intro j y p hy under
    have above : ∀ z, scopes[p]? = some z → (y.destroyed = false → z.destroyed = false ∧
        z.state = .entered) → (i = p → y.destroyed = false → scopes.HasLiveChild i) →
        (z.element.kind = .subProcess ∨ z.parent = none) →
          ∃ z, (scopes.modify i f)[p]? = some z ∧ y.Inside z := by
      intro z hz running child container
      by_cases same : i = p
      · subst same
        have one : z = x := Option.some.inj (hz.symm.trans hx)
        subst one
        refine ⟨f z, Scopes.getElem?_modify_self hx f, ?_, ?_⟩
        · rw [element, parent]
          exact container
        · intro live
          cases runs with
          | inl runs => exact runs
          | inr none => exact absurd (child rfl live) none
      · exact ⟨z, (Scopes.getElem?_modify_other same f).trans hz, container, running⟩
    cases Scopes.getElem?_modify_cases hx hy with
    | inl here =>
        obtain ⟨rfl, rfl⟩ := here
        rw [parent] at under
        obtain ⟨earlier, z, hz, inside⟩ := h.inside i x p hx under
        refine ⟨earlier, above z hz (fun live => inside.running (alive live)) ?_ inside.container⟩
        intro same
        omega
    | inr other =>
        obtain ⟨earlier, z, hz, inside⟩ := h.inside j y p other.2 under
        refine ⟨earlier, above z hz inside.running ?_ inside.container⟩
        intro same live
        exact ⟨j, y, other.2, same ▸ under, live⟩

theorem running_of_child (h : Formed d scopes) {p : Nat} (child : scopes.HasLiveChild p) :
    ∃ y, scopes[p]? = some y ∧ y.destroyed = false ∧ y.state = .entered ∧
      (y.element.kind = .subProcess ∨ y.parent = none) := by
  obtain ⟨i, x, hx, parent, live⟩ := child
  obtain ⟨_, y, hy, inside⟩ := h.inside i x p hx parent
  obtain ⟨yLive, entered⟩ := inside.running live
  exact ⟨y, hy, yLive, entered, inside.container⟩

theorem childless (h : Formed d scopes) {i : Nat} {x : Scope} (hx : scopes[i]? = some x)
    (nested : x.parent ≠ none) (kind : x.element.kind ≠ .subProcess) :
    ¬ scopes.HasLiveChild i := by
  intro child
  obtain ⟨y, hy, _, _, container⟩ := h.running_of_child child
  have one : y = x := Option.some.inj (hy.symm.trans hx)
  subst one
  cases container with
  | inl subProcess => exact kind subProcess
  | inr root => exact nested root

end Formed
end ProcessDiagram
