import Mathlib.Algebra.BigOperators.Group.Finset.Basic
import ProcessDiagram.Proofs.Simulation.TokenGame

/-!
The tokens that live scopes stand for. The scopes that contain others have names, which take the
part of their ids; a name is given when a scope begins and is never given twice.
-/
namespace ProcessDiagram

theorem Scopes.mem_live {scopes : Scopes} {i : Nat} :
    i ∈ scopes.live ↔ ∃ x, scopes[i]? = some x ∧ x.destroyed = false := by
  simp [live, mem_idsWhere]

/-- Names for the insides of scopes. -/
abbrev Names := Nat → Option Place

namespace Names

variable (names : Names)

def placeOf : Option ScopeId → Place
  | none => .top
  | some p => (names p).getD .top

/-- A named scope runs, others have arrived. -/
def phaseOf (i : ScopeId) : ScopeState → Phase
  | .waiting => .waiting
  | .exited => .leaving
  | .idle | .entered => ((names i).map Phase.running).getD .arrived

def token (i : ScopeId) (x : Scope) : Token :=
  ⟨names.placeOf x.parent, x.element, names.phaseOf i x.state⟩

def mark (i : ScopeId) (x : Scope) : Multiset Token :=
  if x.destroyed then 0 else {names.token i x}

def marks (scopes : Scopes) (i : Nat) : Multiset Token :=
  (scopes[i]?.map (names.mark i)).getD 0

/-- The tokens that live scopes stand for. -/
def tokens (scopes : Scopes) : Multiset Token :=
  ∑ i ∈ Finset.range scopes.length, names.marks scopes i

/-- The tokens of the other scopes. -/
def others (scopes : Scopes) (i : Nat) : Multiset Token :=
  ∑ j ∈ (Finset.range scopes.length).erase i, names.marks scopes j

variable {names} {scopes : Scopes} {i : Nat} {x : Scope}

theorem marks_of_found (hx : scopes[i]? = some x) : names.marks scopes i = names.mark i x := by
  rw [marks, hx]
  rfl

theorem mark_of_live (live : x.destroyed = false) : names.mark i x = {names.token i x} := by
  rw [mark, live]
  exact if_neg (by decide)

theorem mark_of_destroyed (gone : x.destroyed = true) : names.mark i x = 0 := by
  rw [mark, gone]
  exact if_pos rfl

theorem marks_of_live (hx : scopes[i]? = some x) (live : x.destroyed = false) :
    names.marks scopes i = {names.token i x} :=
  (marks_of_found hx).trans (mark_of_live live)

theorem mark_suspend (live : x.destroyed = false) :
    names.mark i x.suspend = {⟨names.placeOf x.parent, x.element, .waiting⟩} :=
  mark_of_live live

theorem mark_leave (live : x.destroyed = false) :
    names.mark i x.leave = {⟨names.placeOf x.parent, x.element, .leaving⟩} :=
  mark_of_live live

/-- An entered scope has arrived, or it runs under its name. -/
theorem token_of_entered (entered : x.state = .entered) : names.token i x
    = ⟨names.placeOf x.parent, x.element, ((names i).map Phase.running).getD .arrived⟩ := by
  rw [token, entered]
  rfl

theorem state_phaseOf (names : Names) (i : Nat) {a : ScopeState} (active : a ≠ .idle) :
    (names.phaseOf i a).state = a := by
  cases a with
  | idle => exact absurd rfl active
  | waiting | exited => rfl
  | entered =>
      rw [phaseOf]
      cases names i <;> rfl

theorem name_of_running {a : ScopeState} {place : Place}
    (running : names.phaseOf i a = .running place) : names i = some place := by
  have named : ((names i).map Phase.running).getD .arrived = .running place →
      names i = some place := by
    cases names i with
    | none =>
        intro other
        cases other
    | some own =>
        intro same
        cases same
        rfl
  cases a with
  | idle | entered => exact named running
  | waiting | exited => cases running

theorem tokens_live (names : Names) (scopes : Scopes) :
    names.tokens scopes = ∑ i ∈ scopes.live.toFinset, names.marks scopes i := by
  rw [tokens]
  refine (Finset.sum_subset ?_ ?_).symm
  · intro i hi
    obtain ⟨x, hx, _⟩ := Scopes.mem_live.mp (List.mem_toFinset.mp hi)
    exact Finset.mem_range.mpr (List.getElem?_eq_some_iff.mp hx).1
  · intro i hi gone
    obtain ⟨x, hx⟩ : ∃ x, scopes[i]? = some x :=
      ⟨_, List.getElem?_eq_getElem (Finset.mem_range.mp hi)⟩
    rw [List.mem_toFinset, Scopes.mem_live] at gone
    rw [marks_of_found hx]
    cases live : x.destroyed with
    | true => exact mark_of_destroyed live
    | false => exact absurd ⟨x, hx, live⟩ gone

theorem mem_tokens {t : Token} : t ∈ names.tokens scopes ↔
    ∃ (i : Nat) (x : Scope), scopes[i]? = some x ∧ x.destroyed = false ∧ t = names.token i x := by
  rw [tokens_live, Multiset.mem_sum]
  constructor
  · intro some
    obtain ⟨i, hi, ht⟩ := some
    obtain ⟨x, hx, live⟩ := Scopes.mem_live.mp (List.mem_toFinset.mp hi)
    rw [marks_of_live hx live, Multiset.mem_singleton] at ht
    exact ⟨i, x, hx, live, ht⟩
  · intro found
    obtain ⟨i, x, hx, live, rfl⟩ := found
    refine ⟨i, List.mem_toFinset.mpr (Scopes.mem_live.mpr ⟨x, hx, live⟩), ?_⟩
    rw [marks_of_live hx live]
    exact Multiset.mem_singleton_self _

/-- One scope at a time is changed: its token is apart from those of the others. -/
theorem tokens_eq (hx : scopes[i]? = some x) :
    names.tokens scopes = names.others scopes i + names.mark i x := by
  have below := (List.getElem?_eq_some_iff.mp hx).1
  rw [tokens, others, ← marks_of_found hx]
  exact (Finset.sum_erase_add _ _ (Finset.mem_range.mpr below)).symm

theorem others_modify (i : Nat) (f : Scope → Scope) :
    names.others (scopes.modify i f) i = names.others scopes i := by
  rw [others, others, List.length_modify]
  apply Finset.sum_congr rfl
  intro j hj
  rw [marks, marks, Scopes.getElem?_modify_other (Finset.mem_erase.mp hj).1.symm]

theorem tokens_modify (hx : scopes[i]? = some x) (f : Scope → Scope) :
    names.tokens (scopes.modify i f) = names.others scopes i + names.mark i (f x) := by
  rw [tokens_eq (Scopes.getElem?_modify_self hx f), others_modify]

theorem tokens_append (scopes : Scopes) (new : Scope) :
    names.tokens (scopes ++ [new]) = names.tokens scopes + names.mark scopes.length new := by
  rw [tokens, tokens, List.length_append, List.length_singleton, Finset.sum_range_succ,
    marks_of_found (Scopes.getElem?_append_new scopes new)]
  congr 1
  apply Finset.sum_congr rfl
  intro j hj
  rw [marks, marks, List.getElem?_append_left (Finset.mem_range.mp hj)]

theorem tokens_enterAll (elements : List Element) (parent : Option Nat)
    (unnamed : ∀ j, scopes.length ≤ j → names j = none) :
    names.tokens (scopes.enterAll elements parent) = names.tokens scopes
      + .ofList (elements.map fun e => ⟨names.placeOf parent, e, .arrived⟩) := by
  induction elements generalizing scopes with
  | nil =>
      rw [Scopes.enterAll, List.map_nil, List.append_nil]
      exact (add_zero _).symm
  | cons e rest ih =>
      have more : scopes.enterAll (e :: rest) parent
          = Scopes.enterAll (scopes ++ [Scope.enter e parent]) rest parent := by
        rw [Scopes.enterAll, Scopes.enterAll, List.append_assoc]
        rfl
      have new : names.mark scopes.length (Scope.enter e parent)
          = {⟨names.placeOf parent, e, .arrived⟩} := by
        rw [mark_of_live rfl]
        simp [token, phaseOf, Scope.enter, unnamed]
      rw [more, ih, tokens_append, new, add_assoc]
      · rfl
      · intro j hj
        rw [List.length_append] at hj
        exact unnamed j (Nat.le_trans (Nat.le_add_right _ _) hj)

/-- A name counts for a scope and for those below it. -/
theorem placeOf_update {parent : Option Nat} (apart : parent ≠ some i) (place : Place) :
    placeOf (Function.update names i (some place)) parent = names.placeOf parent := by
  cases parent with
  | none => rfl
  | some p =>
      have outer : p ≠ i := fun same => apart (congrArg some same)
      rw [placeOf, placeOf, Function.update_of_ne outer]

theorem token_update {j : Nat} {y : Scope} (other : j ≠ i) (apart : y.parent ≠ some i)
    (place : Place) : token (Function.update names i (some place)) j y = names.token j y := by
  have phase : phaseOf (Function.update names i (some place)) j y.state
      = names.phaseOf j y.state := by
    cases y.state <;> simp only [phaseOf, Function.update_of_ne other]
  rw [token, token, placeOf_update apart, phase]

theorem tokens_begin (ready : Ready scopes i x) (unnamed : names scopes.length = none)
    (place : Place) (first : Element) :
    tokens (Function.update names i (some place)) (scopes ++ [Scope.enter first (some i)])
      = names.others scopes i + {⟨names.placeOf x.parent, x.element, .running place⟩,
        ⟨place, first, .arrived⟩} := by
  have below := (List.getElem?_eq_some_iff.mp ready.found).1
  have apart : ∀ (j : Nat) (y : Scope), scopes[j]? = some y → y.destroyed = false →
      y.parent ≠ some i := fun j y hy live under => ready.childless ⟨j, y, hy, under, live⟩
  have same : others (Function.update names i (some place)) scopes i = names.others scopes i := by
    apply Finset.sum_congr rfl
    intro j hj
    obtain ⟨other, inside⟩ := Finset.mem_erase.mp hj
    obtain ⟨y, hy⟩ : ∃ y, scopes[j]? = some y :=
      ⟨_, List.getElem?_eq_getElem (Finset.mem_range.mp inside)⟩
    rw [marks_of_found hy, marks_of_found hy]
    cases live : y.destroyed with
    | true => rw [mark_of_destroyed live, mark_of_destroyed live]
    | false => rw [mark_of_live live, mark_of_live live, token_update other (apart j y hy live)]
  have own : token (Function.update names i (some place)) i x
      = ⟨names.placeOf x.parent, x.element, .running place⟩ := by
    rw [token_of_entered ready.entered, placeOf_update (apart i x ready.found ready.live),
      Function.update_self]
    rfl
  have new : token (Function.update names i (some place)) scopes.length
      (Scope.enter first (some i)) = ⟨place, first, .arrived⟩ := by
    rw [token_of_entered rfl, Function.update_of_ne (Nat.ne_of_gt below), unnamed]
    simp [placeOf, Scope.enter]
  rw [tokens_append, tokens_eq ready.found, same, mark_of_live ready.live, own, mark_of_live rfl,
    new, add_assoc]
  rfl

theorem tokens_destroyAll {t : Token} {gone : List Nat} (distinct : gone.Nodup)
    (alike : ∀ j ∈ gone, ∃ y : Scope, scopes[j]? = some y ∧ y.destroyed = false ∧
      names.token j y = t) :
    names.tokens scopes = names.tokens (scopes.destroyAll gone) + .replicate gone.length t := by
  induction gone generalizing scopes with
  | nil => exact (add_zero _).symm
  | cons j rest ih =>
      obtain ⟨y, hy, live, rfl⟩ := alike j List.mem_cons_self
      have step : scopes.destroyAll (j :: rest)
          = Scopes.destroyAll rest (scopes.modify j Scope.destroy) := rfl
      have later := @ih (scopes.modify j Scope.destroy) (List.nodup_cons.mp distinct).2 (by
        intro k hk
        obtain ⟨z, hz, token⟩ := alike k (List.mem_cons_of_mem _ hk)
        refine ⟨z, (Scopes.getElem?_modify_other ?_ _).trans hz, token⟩
        intro same
        exact (List.nodup_cons.mp distinct).1 (same ▸ hk))
      rw [tokens_modify hy, mark_of_destroyed rfl, add_zero] at later
      rw [step, tokens_eq hy, mark_of_live live, later, List.length_cons,
        Multiset.replicate_succ, ← Multiset.singleton_add, add_assoc, add_comm _ {_}]

/-- The scopes that stand for one token. -/
theorem count_tokens (names : Names) (scopes : Scopes) (t : Token) :
    ∃ ids : List Nat, ids.Nodup ∧ (names.tokens scopes).count t = ids.length ∧
      ∀ i ∈ ids, ∃ x, scopes[i]? = some x ∧ x.destroyed = false ∧ names.token i x = t := by
  have single : ∀ i ∈ scopes.live.toFinset, (names.marks scopes i).count t
      = if t ∈ names.marks scopes i then 1 else 0 := by
    intro i hi
    obtain ⟨x, hx, live⟩ := Scopes.mem_live.mp (List.mem_toFinset.mp hi)
    rw [marks_of_live hx live, Multiset.count_singleton]
    simp only [Multiset.mem_singleton]
  refine ⟨(scopes.live.toFinset.filter (t ∈ names.marks scopes ·)).toList,
    Finset.nodup_toList _, ?_, ?_⟩
  · rw [tokens_live, Multiset.count_sum', Finset.sum_congr rfl single, Finset.length_toList,
      Finset.card_filter]
  · intro i hi
    rw [Finset.mem_toList, Finset.mem_filter, List.mem_toFinset, Scopes.mem_live] at hi
    obtain ⟨⟨x, hx, live⟩, here⟩ := hi
    rw [marks_of_live hx live, Multiset.mem_singleton] at here
    exact ⟨x, hx, live, here.symm⟩

end Names

/-! ## Names that are given -/

/-- The scopes that contain live ones have names, each its own, and none of those still to be
entered has one. -/
structure Naming (names : Names) (scopes : Scopes) (agenda : List Task)
    (begun : Multiset (Place × Element)) : Prop where
  named : ∀ (i : Nat) (x : Scope) (p : Nat), scopes[i]? = some x → x.destroyed = false →
    x.parent = some p → ∃ place, names p = some place
  apart : ∀ (i j : Nat) (place : Place), names i = some place → names j = some place → i = j
  proper : ∀ (i : Nat) (place : Place), names i = some place → place ≠ .top ∧
    ∃ x : Scope, scopes[i]? = some x ∧ x.state ≠ .waiting ∧
      (x.element.kind = .subProcess ∨ x.parent = none)
  begun : ∀ (i : Nat) (around : Place) (e : Element) (n : Nat),
    names i = some (.inner around e n) → n < begun.count (around, e)
  untouched : ∀ i, .enter i ∈ agenda → names i = none

namespace Naming

variable {names : Names} {scopes : Scopes} {agenda agenda' : List Task}
  {begun : Multiset (Place × Element)} {i : Nat} {x : Scope}

theorem unnamed (h : Naming names scopes agenda begun) {j : Nat} (above : scopes.length ≤ j) :
    names j = none := by
  cases name : names j with
  | none => rfl
  | some place =>
      obtain ⟨_, x, hx, _⟩ := h.proper j place name
      exact absurd (List.getElem?_eq_some_iff.mp hx).1 (Nat.not_lt.mpr above)

theorem unnamed_of_holds (h : Naming names scopes agenda begun) {d : Diagram} {p : Nat}
    (hx : scopes[i]? = some x) (holds : d.HoldsAt x.element) (parent : x.parent = some p) :
    names i = none := by
  cases name : names i with
  | none => rfl
  | some place =>
      obtain ⟨_, y, hy, _, container⟩ := h.proper i place name
      rw [Option.some.inj (hy.symm.trans hx), holds.1, parent] at container
      simp at container

theorem parent_of_placeOf (h : Naming names scopes agenda begun) (hx : scopes[i]? = some x)
    (live : x.destroyed = false) {p : Nat} {place : Place} (name : names p = some place)
    (inside : names.placeOf x.parent = place) : x.parent = some p := by
  cases parent : x.parent with
  | none =>
      rw [parent] at inside
      exact absurd inside.symm (h.proper p place name).1
  | some q =>
      obtain ⟨place', name'⟩ := h.named i x q hx live parent
      rw [parent, Names.placeOf, name', Option.getD_some] at inside
      rw [h.apart q p place (inside ▸ name') name]

theorem parent_eq_none (h : Naming names scopes agenda begun) (hx : scopes[i]? = some x)
    (live : x.destroyed = false) (top : names.placeOf x.parent = .top) : x.parent = none := by
  cases parent : x.parent with
  | none => rfl
  | some p =>
      obtain ⟨place, name⟩ := h.named i x p hx live parent
      rw [parent, Names.placeOf, name, Option.getD_some] at top
      exact absurd top (h.proper p place name).1

theorem fewer (h : Naming names scopes agenda begun)
    (kept : ∀ i, .enter i ∈ agenda' → .enter i ∈ agenda) : Naming names scopes agenda' begun :=
  ⟨h.named, h.apart, h.proper, h.begun, fun i hi => h.untouched i (kept i hi)⟩

theorem modify (h : Naming names scopes agenda begun) (i : Nat) {f : Scope → Scope}
    (element : ∀ x, (f x).element = x.element) (parent : ∀ x, (f x).parent = x.parent)
    (alive : ∀ x, (f x).destroyed = false → x.destroyed = false)
    (going : names i = none ∨ ∀ x, (f x).state ≠ .waiting) :
    Naming names (scopes.modify i f) agenda begun := by
  refine ⟨?_, h.apart, ?_, h.begun, h.untouched⟩
  · intro j y p hy live under
    rw [List.getElem?_modify] at hy
    obtain ⟨x, hx, rfl⟩ := Option.map_eq_some_iff.mp hy
    by_cases same : i = j
    · rw [if_pos same] at live under
      exact h.named j x p hx (alive x live) ((parent x).symm.trans under)
    · rw [if_neg same] at live under
      exact h.named j x p hx live under
  · intro j place name
    obtain ⟨nested, x, hx, running, container⟩ := h.proper j place name
    obtain ⟨y, hy, own, under⟩ := (Scopes.Kept.refl scopes).modify i element parent j x hx
    refine ⟨nested, y, hy, ?_, by rwa [own, under]⟩
    cases Scopes.getElem?_modify_or hy with
    | inl same => exact Option.some.inj (hx.symm.trans same) ▸ running
    | inr changed =>
        obtain ⟨rfl, z, rfl⟩ := changed
        cases going with
        | inl unnamed =>
            rw [unnamed] at name
            cases name
        | inr going => exact going z

theorem destroy (h : Naming names scopes agenda begun) (i : Nat) :
    Naming names (scopes.modify i Scope.destroy) agenda begun :=
  h.modify i (fun _ => rfl) (fun _ => rfl) (by simp [Scope.destroy])
    (.inr (by simp [Scope.destroy]))

theorem destroyAll (h : Naming names scopes agenda begun) (gone : List Nat) :
    Naming names (scopes.destroyAll gone) agenda begun := by
  induction gone generalizing scopes with
  | nil => exact h
  | cons j rest ih => exact ih (h.destroy j)

theorem enterAll (h : Naming names scopes agenda begun) (elements : List Element)
    {parent : Option Nat} (above : ∀ p, parent = some p → ∃ place, names p = some place) :
    Naming names (scopes.enterAll elements parent)
      (agenda ++ (List.range' scopes.length elements.length).map .enter) begun := by
  refine ⟨?_, h.apart, ?_, h.begun, ?_⟩
  · intro j y p hy live under
    rw [Scopes.enterAll, List.getElem?_append] at hy
    split at hy
    · exact h.named j y p hy live under
    · obtain ⟨e, _, rfl⟩ := List.mem_map.mp (List.mem_of_getElem? hy)
      exact above p under
  · intro j place name
    obtain ⟨nested, x, hx, running, container⟩ := h.proper j place name
    refine ⟨nested, x, ?_, running, container⟩
    rw [Scopes.enterAll, List.getElem?_append_left (List.getElem?_eq_some_iff.mp hx).1, hx]
  · intro j hj
    cases List.mem_append.mp hj with
    | inl old => exact h.untouched j old
    | inr new =>
        obtain ⟨k, hk, same⟩ := List.mem_map.mp new
        cases same
        exact h.unnamed (List.mem_range'_1.mp hk).1

theorem begin (h : Naming names scopes agenda begun) (hx : scopes[i]? = some x)
    (running : x.state ≠ .waiting) (kind : x.element.kind = .subProcess)
    (unnamed : names i = none) (quiet : .enter i ∉ agenda) (around : Place) (e : Element) :
    Naming (Function.update names i (some (.inner around e (begun.count (around, e))))) scopes
      agenda ((around, e) ::ₘ begun) := by
  have either : ∀ (j : Nat) (place : Place),
      Function.update names i (some (.inner around e (begun.count (around, e)))) j = some place →
        j = i ∧ place = .inner around e (begun.count (around, e)) ∨
          j ≠ i ∧ names j = some place := by
    intro j place name
    by_cases same : j = i
    · subst same
      rw [Function.update_self] at name
      exact .inl ⟨rfl, (Option.some.inj name).symm⟩
    · rw [Function.update_of_ne same] at name
      exact .inr ⟨same, name⟩
  have taken : ∀ j, names j ≠ some (.inner around e (begun.count (around, e))) := by
    intro j name
    exact Nat.lt_irrefl _ (h.begun j around e _ name)
  refine ⟨?_, ?_, ?_, ?_, ?_⟩
  · intro j y p hy live under
    obtain ⟨place, name⟩ := h.named j y p hy live under
    have other : p ≠ i := by
      intro same
      rw [same, unnamed] at name
      cases name
    exact ⟨place, by rwa [Function.update_of_ne other]⟩
  · intro j k place hj hk
    obtain ⟨rfl, rfl⟩ | ⟨_, hj⟩ := either j place hj
    · obtain ⟨rfl, _⟩ | ⟨_, hk⟩ := either k _ hk
      · rfl
      · exact absurd hk (taken k)
    · obtain ⟨_, rfl⟩ | ⟨_, hk⟩ := either k place hk
      · exact absurd hj (taken j)
      · exact h.apart j k place hj hk
  · intro j place name
    obtain ⟨rfl, rfl⟩ | ⟨_, name⟩ := either j place name
    · exact ⟨by simp, x, hx, running, .inl kind⟩
    · exact h.proper j place name
  · intro j p e' n name
    obtain ⟨_, same⟩ | ⟨_, name⟩ := either j _ name
    · cases same
      rw [Multiset.count_cons_self]
      exact Nat.lt_succ_self _
    · exact Nat.lt_of_lt_of_le (h.begun j p e' n name) (Multiset.count_le_count_cons _ _ _)
  · intro j hj
    have other : j ≠ i := fun same => quiet (same ▸ hj)
    rw [Function.update_of_ne other]
    exact h.untouched j hj

end Naming

namespace Names

variable {names : Names} {scopes : Scopes}

/-- The scopes that contain live ones, by their ids. -/
def known (scopes : Scopes) : Names := fun i =>
  if (scopes.liveChildren i).isEmpty then none else some (.known i)

theorem known_eq_some {i : Nat} {place : Place} :
    known scopes i = some place ↔ scopes.HasLiveChild i ∧ place = .known i := by
  rw [known]
  by_cases child : scopes.HasLiveChild i
  · rw [if_neg fun none => Scopes.isEmpty_liveChildren.mp none child, Option.some.injEq]
    exact ⟨fun same => ⟨child, same.symm⟩, fun both => both.2.symm⟩
  · rw [if_pos (Scopes.isEmpty_liveChildren.mpr child)]
    simp [child]

theorem naming_known {d : Diagram} (formed : Formed d scopes) :
    Naming (known scopes) scopes [] 0 := by
  refine ⟨?_, ?_, ?_, ?_, ?_⟩
  · intro i x p hx live parent
    exact ⟨.known p, known_eq_some.mpr ⟨⟨i, x, hx, parent, live⟩, rfl⟩⟩
  · intro i j place hi hj
    have one := (known_eq_some.mp hi).2.symm.trans (known_eq_some.mp hj).2
    cases one
    rfl
  · intro i place name
    obtain ⟨child, rfl⟩ := known_eq_some.mp name
    obtain ⟨y, hy, _, entered, container⟩ := formed.running_of_child child
    exact ⟨by simp, y, hy, by rw [entered]; decide, container⟩
  · intro i around e n name
    cases (known_eq_some.mp name).2
  · intro i hi
    cases hi

theorem token_of_waiting {names' : Names} {agenda : List Task} {begun : Multiset (Place × Element)}
    (naming : Naming names scopes agenda begun) {i : Nat} {x : Scope} (hx : scopes[i]? = some x)
    (live : x.destroyed = false) (waiting : x.state = .waiting)
    (more : ∀ (i : Nat) (place : Place), names i = some place → names' i = some place) :
    names'.token i x = names.token i x := by
  have place : names'.placeOf x.parent = names.placeOf x.parent := by
    cases parent : x.parent with
    | none => rfl
    | some p =>
        obtain ⟨place, name⟩ := naming.named i x p hx live parent
        rw [placeOf, placeOf, name, more p place name]
  rw [token, token, place, waiting]
  rfl

end Names
end ProcessDiagram
