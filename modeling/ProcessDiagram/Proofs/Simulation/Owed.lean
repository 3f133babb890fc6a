import ProcessDiagram.Proofs.Simulation.Effort
import ProcessDiagram.Proofs.Simulation.Ledger
import ProcessDiagram.Proofs.Simulation.Weight
import Mathlib.Algebra.BigOperators.Group.Finset.Piecewise

/-!
What a simulation still owes: the effort of the tasks on its agenda and, for each running scope
with others beneath it, that of leaving it. A parent only exits because of a scope beneath it, so
what its exit takes has been held for it since the first one was put there; and each task takes
more off than it adds.

Main statement: `Simulation.spends_runTask`.
-/
namespace ProcessDiagram

open Finset (range)

namespace Scopes

variable {d : Diagram} {w : Element → Nat} {scopes : Scopes} {i j : ScopeId} {x new : Scope}

def parents (scopes : Scopes) : List (Option ScopeId) :=
  scopes.map (·.parent)

theorem parents_modify (scopes : Scopes) (i : Nat) {f : Scope → Scope}
    (same : ∀ x, (f x).parent = x.parent) : parents (scopes.modify i f) = scopes.parents :=
  map_modify scopes i same

theorem parents_append (scopes : Scopes) (new : Scope) :
    parents (scopes ++ [new]) = scopes.parents ++ [new.parent] :=
  List.map_append

theorem mem_parents (hx : scopes[i]? = some x) : x.parent ∈ scopes.parents :=
  List.mem_map_of_mem (List.mem_of_getElem? hx)

theorem getElem?_elements (hx : scopes[i]? = some x) : scopes.elements[i]? = some x.element := by
  rw [elements, List.getElem?_map, hx]
  rfl

/-- What it takes to leave a scope that may still exit because the last one beneath it is gone. -/
def held (d : Diagram) (w : Element → Nat) (scopes : Scopes) (i : ScopeId) : Nat :=
  match scopes[i]? with
  | none => 0
  | some x =>
    if x.destroyed = false ∧ x.state = .entered ∧ some i ∈ scopes.parents then
      d.span w x.element
    else 0

theorem held_of_running (hx : scopes[i]? = some x) (live : x.destroyed = false)
    (entered : x.state = .entered) (beneath : some i ∈ scopes.parents) :
    held d w scopes i = d.span w x.element := by
  simp only [held, hx]
  exact if_pos ⟨live, entered, beneath⟩

theorem held_of_not_mem (none : some i ∉ scopes.parents) : held d w scopes i = 0 := by
  rw [held]
  split
  · rfl
  · exact if_neg fun running => none running.2.2

theorem held_le (hx : scopes[i]? = some x) : held d w scopes i ≤ d.span w x.element := by
  simp only [held, hx]
  split
  · exact Nat.le_refl _
  · exact Nat.zero_le _

/-- A scope that stops running gives up what it held. -/
theorem sum_held_modify (hx : scopes[i]? = some x) {f : Scope → Scope}
    (parent : ∀ x, (f x).parent = x.parent)
    (stopped : (f x).destroyed = false → (f x).state ≠ .entered) :
    ∑ j ∈ range scopes.length, held d w (scopes.modify i f) j + held d w scopes i
      = ∑ j ∈ range scopes.length, held d w scopes j := by
  have inside : i ∈ range scopes.length := by
    rw [Finset.mem_range]
    exact (List.getElem?_eq_some_iff.mp hx).1
  have gone : held d w (scopes.modify i f) i = 0 := by
    simp only [held, getElem?_modify_self hx]
    exact if_neg fun running => stopped running.1 running.2.1
  have others : ∀ j ∈ (range scopes.length).erase i,
      held d w (scopes.modify i f) j = held d w scopes j := by
    intro j hj
    rw [held, held, parents_modify scopes i parent,
      getElem?_modify_other (Finset.ne_of_mem_erase hj).symm]
  rw [← Finset.sum_erase_add _ _ inside, gone, Nat.add_zero, Finset.sum_congr rfl others,
    Finset.sum_erase_add _ _ inside]

theorem held_append (below : j < scopes.length) (known : new.parent = some j →
    some j ∈ scopes.parents) : held d w (scopes ++ [new]) j = held d w scopes j := by
  have same : some j ∈ parents (scopes ++ [new]) ↔ some j ∈ scopes.parents := by
    rw [parents_append, List.mem_append, List.mem_singleton]
    exact ⟨fun h => h.elim id fun here => known here.symm, .inl⟩
  rw [held, held, List.getElem?_append_left below]
  simp only [same]

theorem sum_held_append (grounded : ∀ p : ScopeId, some p ∈ scopes.parents → p < scopes.length)
    (under : ∀ p : ScopeId, new.parent = some p → p < scopes.length) :
    ∑ j ∈ range (scopes ++ [new]).length, held d w (scopes ++ [new]) j
      = ∑ j ∈ range scopes.length, held d w (scopes ++ [new]) j := by
  have last : held d w (scopes ++ [new]) scopes.length = 0 := by
    apply held_of_not_mem
    rw [parents_append, List.mem_append, List.mem_singleton]
    rintro (old | here)
    · exact Nat.lt_irrefl _ (grounded _ old)
    · exact Nat.lt_irrefl _ (under _ here.symm)
  rw [List.length_append, List.length_singleton, Finset.sum_range_succ, last, Nat.add_zero]

theorem sum_held_append_of_mem
    (grounded : ∀ p : ScopeId, some p ∈ scopes.parents → p < scopes.length)
    (known : ∀ p : ScopeId, new.parent = some p → some p ∈ scopes.parents) :
    ∑ j ∈ range (scopes ++ [new]).length, held d w (scopes ++ [new]) j
      = ∑ j ∈ range scopes.length, held d w scopes j := by
  rw [sum_held_append grounded fun p here => grounded p (known p here)]
  apply Finset.sum_congr rfl
  intro j hj
  exact held_append (Finset.mem_range.mp hj) (known j)

theorem sum_held_append_le
    (grounded : ∀ p : ScopeId, some p ∈ scopes.parents → p < scopes.length)
    (hx : scopes[i]? = some x) (under : new.parent = some i) :
    ∑ j ∈ range (scopes ++ [new]).length, held d w (scopes ++ [new]) j
      ≤ ∑ j ∈ range scopes.length, held d w scopes j + d.span w x.element := by
  have below : i < scopes.length := (List.getElem?_eq_some_iff.mp hx).1
  have inside : i ∈ range scopes.length := Finset.mem_range.mpr below
  have others : ∀ j ∈ (range scopes.length).erase i,
      held d w (scopes ++ [new]) j = held d w scopes j := by
    intro j hj
    obtain ⟨other, old⟩ := Finset.mem_erase.mp hj
    apply held_append (Finset.mem_range.mp old)
    intro here
    exact absurd (Option.some.inj (here.symm.trans under)) other
  have most := held_le (d := d) (w := w) (getElem?_append_old hx new)
  rw [sum_held_append grounded fun p here => Option.some.inj (here.symm.trans under) ▸ below,
    ← Finset.sum_erase_add _ _ inside, ← Finset.sum_erase_add (range scopes.length) _ inside,
    Finset.sum_congr rfl others]
  exact Nat.add_le_add (Nat.le_add_right _ _) most

end Scopes

namespace Diagram

variable {d : Diagram} {c : ConfigStore} {w : Element → Nat} {e : Element}

theorem one_le_span (e : Element) : 1 ≤ d.span w e :=
  Nat.le_add_right 1 _

theorem sum_targets_lt_span (e : Element) :
    ((d.outgoing e).map fun f => w f.target).sum < d.span w e := by
  rw [span, onward, List.map_append, List.sum_append, targets, List.map_map]
  change _ < 1 + (((d.outgoing e).map fun f => w f.target).sum + _)
  omega

theorem target_lt_span {f : Flow} (hf : f ∈ d.outgoing e) : w f.target < d.span w e :=
  Nat.lt_of_le_of_lt
    (List.single_le_sum (fun _ _ => Nat.zero_le _) _ (List.mem_map_of_mem (f := fun f : Flow =>
      w f.target) hf)) (sum_targets_lt_span e)

theorem inner_lt_span (kind : e.kind = .subProcess) {start : Element} {others : List Element}
    (starts : d.startEvents e = start :: others) : w start < d.span w e := by
  rw [span, onward, if_pos kind, starts, List.map_append, List.sum_append]
  simp
  omega

end Diagram

/-- What it takes to carry out a task with all that follows from it. -/
def Task.price (d : Diagram) (w : Element → Nat) (elements : List Element) : Task → Nat
  | .enter i => (elements[i]?.map w).getD 1
  | .signal i => (elements[i]?.map fun e => 2 * d.span w e).getD 1
  | .finishExit i => (elements[i]?.map (d.span w)).getD 1

theorem Task.price_append {d : Diagram} {w : Element → Nat} {elements : List Element}
    {t : Task} (known : t.scope < elements.length) (more : List Element) :
    t.price d w (elements ++ more) = t.price d w elements := by
  cases t with
  | enter i | signal i | finishExit i =>
      have old : (elements ++ more)[i]? = elements[i]? := List.getElem?_append_left known
      simp only [Task.price, old]

theorem Diagram.Sufficient.price_pos {d : Diagram} {c : ConfigStore} {w : Element → Nat}
    (h : d.Sufficient c w) (elements : List Element) (t : Task) :
    0 < t.price d w elements := by
  have spans : ∀ e, 0 < d.span w e := Diagram.one_le_span
  have efforts : ∀ e, 0 < w e := by
    intro e
    have := spans e
    rw [h e]
    split <;> omega
  cases t with
  | enter i =>
      cases found : elements[i]? with
      | none => simp [Task.price, found]
      | some e => simpa [Task.price, found] using efforts e
  | signal i | finishExit i =>
      cases found : elements[i]? with
      | none => simp [Task.price, found]
      | some e => simpa [Task.price, found] using spans e

namespace Simulation

variable {d : Diagram} {c : ConfigStore} {w : Element → Nat} {s s' : Simulation} {i : Nat}
  {e : Element} {x : Scope} {n m : Nat}

def owed (d : Diagram) (w : Element → Nat) (s : Simulation) : Nat :=
  (s.agenda.map (Task.price d w s.scopes.elements)).sum
    + ∑ i ∈ range s.scopes.length, s.scopes.held d w i

/-- Tasks and parents are scopes that are there. -/
structure Grounded (s : Simulation) : Prop where
  tasks : ∀ t ∈ s.agenda, t.scope < s.scopes.length
  parents : ∀ p : ScopeId, some p ∈ s.scopes.parents → p < s.scopes.length

theorem Grounded.modify {f : Scope → Scope} {added : List Task} {counts : List (String × Nat)}
    (h : s.Grounded) (effect : Effect s s' (s.scopes.modify i f) added counts)
    (parent : ∀ x, (f x).parent = x.parent) (known : ∀ t ∈ added, t.scope < s.scopes.length) :
    s'.Grounded := by
  have length : s'.scopes.length = s.scopes.length := by
    rw [effect.scopes, List.length_modify]
  refine ⟨?_, ?_⟩
  · intro t ht
    rw [length]
    rw [effect.agenda] at ht
    exact (List.mem_append.mp ht).elim (h.tasks t) (known t)
  · rw [length, effect.scopes, Scopes.parents_modify s.scopes i parent]
    exact h.parents

theorem Grounded.grow {new : Scope} {added : List Task} (h : s.Grounded)
    (scopes : s'.scopes = s.scopes ++ [new]) (agenda : s'.agenda = s.agenda ++ added)
    (own : ∀ t ∈ added, t.scope = s.scopes.length)
    (under : ∀ p, new.parent = some p → p < s.scopes.length) : s'.Grounded := by
  refine ⟨?_, ?_⟩
  · intro t ht
    rw [scopes, List.length_append, List.length_singleton]
    rw [agenda] at ht
    cases List.mem_append.mp ht with
    | inl old => exact Nat.lt_succ_of_lt (h.tasks t old)
    | inr fresh => exact Nat.lt_succ_of_le (Nat.le_of_eq (own t fresh))
  · intro p hp
    rw [scopes, List.length_append, List.length_singleton]
    rw [scopes, Scopes.parents_append, List.mem_append, List.mem_singleton] at hp
    exact Nat.lt_succ_of_lt (hp.elim (h.parents p) fun here => under p here.symm)

theorem Grounded.enter {parent : Option ScopeId} (h : s.Grounded)
    (under : ∀ p, parent = some p → p < s.scopes.length) : (s.enter e parent).Grounded :=
  h.grow rfl rfl (fun _ ht => List.mem_singleton.mp ht ▸ rfl) under

/-- Something was done after which no more than so much is owed in addition. -/
structure Spends (d : Diagram) (w : Element → Nat) (s s' : Simulation) (n : Nat) : Prop where
  grounded : s'.Grounded
  elements : s.scopes.elements <+: s'.scopes.elements
  parents : s.scopes.parents ⊆ s'.scopes.parents
  owed_le : owed d w s' ≤ owed d w s + n

namespace Spends

theorem refl (h : s.Grounded) : Spends d w s s 0 :=
  ⟨h, List.prefix_rfl, List.Subset.refl _, Nat.le_refl _⟩

theorem mono (h : Spends d w s s' n) (less : n ≤ m) : Spends d w s s' m :=
  ⟨h.grounded, h.elements, h.parents, h.owed_le.trans (Nat.add_le_add_left less _)⟩

theorem trans {s'' : Simulation} (h : Spends d w s s' n) (g : Spends d w s' s'' m) :
    Spends d w s s'' (n + m) := by
  refine ⟨g.grounded, h.elements.trans g.elements, List.Subset.trans h.parents g.parents, ?_⟩
  have := h.owed_le
  have := g.owed_le
  omega

theorem note (h : s.Grounded) (n : Notice) : Spends d w s (s.note n) 0 :=
  ⟨⟨h.tasks, h.parents⟩, List.prefix_rfl, List.Subset.refl _, Nat.le_refl _⟩

theorem found (h : Spends d w s s' n) (hx : s.scopes[i]? = some x) :
    ∃ y, s'.scopes[i]? = some y ∧ y.element = x.element := by
  have old := Scopes.getElem?_elements hx
  obtain ⟨more, whole⟩ := h.elements
  have new : s'.scopes.elements[i]? = some x.element := by
    rw [← whole, List.getElem?_append_left (List.getElem?_eq_some_iff.mp old).1]
    exact old
  rw [Scopes.elements, List.getElem?_map] at new
  exact Option.map_eq_some_iff.mp new

/-- A scope that stops running gives up what it held, in exchange for the tasks that are added. -/
theorem of_modify {f : Scope → Scope} {added : List Task} {counts : List (String × Nat)}
    (h : s.Grounded) (hx : s.scopes[i]? = some x)
    (effect : Effect s s' (s.scopes.modify i f) added counts)
    (element : ∀ x, (f x).element = x.element) (parent : ∀ x, (f x).parent = x.parent)
    (stopped : (f x).destroyed = false → (f x).state ≠ .entered)
    (known : ∀ t ∈ added, t.scope < s.scopes.length)
    (enough : (added.map (Task.price d w s.scopes.elements)).sum
      ≤ n + s.scopes.held d w i) : Spends d w s s' n := by
  have elements := Scopes.elements_modify s.scopes i element
  have parents := Scopes.parents_modify s.scopes i parent
  have length : s'.scopes.length = s.scopes.length := by
    rw [effect.scopes, List.length_modify]
  refine ⟨h.modify effect parent known, ?_, ?_, ?_⟩
  · rw [effect.scopes, elements]
  · rw [effect.scopes, parents]
    exact List.Subset.refl _
  · have given := Scopes.sum_held_modify (d := d) (w := w) hx parent stopped
    rw [owed, owed, length, effect.scopes, effect.agenda, elements, List.map_append,
      List.sum_append]
    omega

theorem suspend (h : s.Grounded) (hx : s.scopes[i]? = some x) :
    Spends d w s (s.suspend i) 0 :=
  of_modify h hx (Effect.suspend hx) (fun _ => rfl) (fun _ => rfl) nofun nofun (Nat.zero_le _)

theorem destroy (h : s.Grounded) (hx : s.scopes[i]? = some x) :
    Spends d w s (s.destroy i) 0 :=
  of_modify h hx (Effect.destroy i) (fun _ => rfl) (fun _ => rfl) nofun nofun (Nat.zero_le _)

theorem merge (h : s.Grounded) (i : Nat) : Spends d w s (s.merge i) 0 := by
  cases hx : s.scopes[i]? with
  | none =>
      rw [Simulation.merge, hx]
      exact refl h
  | some x =>
      apply of_modify h hx (Effect.merge hx) (fun _ => rfl) (fun _ => rfl)
        (fun alive => by cases alive) (List.forall_mem_nil _) (Nat.zero_le _)

theorem merges (h : s.Grounded) (tokens : List Nat) :
    Spends d w s (tokens.foldl Simulation.merge s) 0 := by
  induction tokens generalizing s with
  | nil => exact refl h
  | cons i rest ih =>
      have here : Spends d w s (s.merge i) 0 := merge h i
      exact here.trans (ih here.grounded)

theorem exit (h : s.Grounded) (hx : s.scopes[i]? = some x)
    (enough : d.span w x.element ≤ n + s.scopes.held d w i) :
    Spends d w s (s.exit i) n := by
  by_cases gone : x.destroyed ∨ x.state = .exited
  · rw [Simulation.exit, hx]
    simp only [if_pos gone]
    exact (refl h).mono (Nat.zero_le n)
  · apply of_modify h hx (Effect.exit hx gone) (fun _ => rfl) (fun _ => rfl)
      fun _ state => by cases state
    · intro t ht
      rw [List.mem_singleton.mp ht]
      exact (List.getElem?_eq_some_iff.mp hx).1
    · rw [List.map_singleton, List.sum_singleton, Task.price, Scopes.getElem?_elements hx]
      exact enough

theorem tryExit (h : s.Grounded) (beneath : some i ∈ s.scopes.parents) :
    Spends d w s (s.tryExit i) 0 := by
  rw [Simulation.tryExit]
  split
  next => exact refl h
  next x hx =>
      split
      next => exact refl h
      next running =>
          rw [not_or, not_or] at running
          apply exit h hx
          rw [Scopes.held_of_running hx (by simpa using running.1) (by simpa using running.2.1)
            beneath]
          omega

theorem of_enter {parent : Option ScopeId} (h : s.Grounded)
    (under : ∀ p, parent = some p → p < s.scopes.length)
    (enough : ∑ j ∈ range (s.scopes ++ [Scope.enter e parent]).length,
        Scopes.held d w (s.scopes ++ [Scope.enter e parent]) j
      ≤ ∑ j ∈ range s.scopes.length, s.scopes.held d w j + n) :
    Spends d w s (s.enter e parent) (w e + n) := by
  have scopes : (s.enter e parent).scopes = s.scopes ++ [Scope.enter e parent] := rfl
  have agenda : (s.enter e parent).agenda = s.agenda ++ [.enter s.scopes.length] := rfl
  have elements : (s.enter e parent).scopes.elements = s.scopes.elements ++ [e] := List.map_append
  have length : s.scopes.elements.length = s.scopes.length := List.length_map _
  refine ⟨h.enter under, ?_, ?_, ?_⟩
  · rw [elements]
    exact List.prefix_append _ _
  · rw [scopes, Scopes.parents_append]
    exact List.subset_append_left _ _
  · have old : s.agenda.map (Task.price d w (s.scopes.elements ++ [e]))
        = s.agenda.map (Task.price d w s.scopes.elements) := by
      apply List.map_congr_left
      intro t ht
      exact Task.price_append (length ▸ h.tasks t ht) _
    have new : Task.price d w (s.scopes.elements ++ [e]) (.enter s.scopes.length)
        = w e := by
      rw [Task.price, ← length, List.getElem?_concat_length]
      rfl
    rw [owed, owed, elements, agenda, scopes, List.map_append, List.sum_append, old,
      List.map_singleton, List.sum_singleton, new]
    omega

theorem enter {parent : Option ScopeId} (h : s.Grounded)
    (known : ∀ p, parent = some p → some p ∈ s.scopes.parents) :
    Spends d w s (s.enter e parent) (w e) := by
  apply of_enter (n := 0) h fun p here => h.parents p (known p here)
  rw [Scopes.sum_held_append_of_mem h.parents known]
  exact Nat.le_refl _

theorem enterInside (h : s.Grounded) (hx : s.scopes[i]? = some x) :
    Spends d w s (s.enter e (some i)) (w e + d.span w x.element) := by
  apply of_enter h
  · intro p here
    cases here
    exact (List.getElem?_eq_some_iff.mp hx).1
  · exact Scopes.sum_held_append_le h.parents hx rfl

theorem enterAll {parent : Option ScopeId} (flows : List Flow) (h : s.Grounded)
    (known : ∀ p, parent = some p → some p ∈ s.scopes.parents) :
    Spends d w s (s.enterAll flows parent) ((flows.map fun f => w f.target).sum) := by
  induction flows generalizing s with
  | nil => exact refl h
  | cons f rest ih =>
      have here : Spends d w s (s.enter f.target parent) (w f.target) := enter h known
      exact here.trans (ih here.grounded fun p hp => here.parents (known p hp))

/-! ## What elements do -/

theorem waitOrExit (h : s.Grounded) (hx : s.scopes[i]? = some x)
    (stops : c.stops x.element = (c.get x.element).wait) :
    Spends d w s (waitOrExit c s i x.element)
      (if c.stops x.element then 0 else d.span w x.element) := by
  rw [Simulation.waitOrExit, stops]
  split
  · exact suspend h hx
  · exact exit h hx (Nat.le_add_right _ _)

theorem startInner (h : s.Grounded) (hx : s.scopes[i]? = some x)
    (kind : x.element.kind = .subProcess) :
    Spends d w s (startInner d s i x.element) (2 * d.span w x.element - 1) := by
  have positive := d.one_le_span (w := w) x.element
  rw [Simulation.startInner]
  split
  next =>
      have noted := note (d := d) (w := w) h (.noInnerStart x.element.id)
      have left : Spends d w (s.note (.noInnerStart x.element.id)) _
          (d.span w x.element) := exit noted.grounded hx (Nat.le_add_right _ _)
      exact (noted.trans left).mono (by omega)
  next start others starts =>
      have inner := d.inner_lt_span (w := w) kind starts
      exact (enterInside h hx).mono (by omega)

theorem enterParallel (h : s.Grounded) (hx : s.scopes[i]? = some x)
    (kind : x.element.kind = .parallelGateway) (result : enterParallel d c s i x = .ok s') :
    Spends d w s s' (if c.stops x.element then 0 else d.span w x.element) := by
  have stops : c.stops x.element = (c.get x.element).wait := by rw [ConfigStore.stops, kind]
  rw [Simulation.enterParallel] at result
  simp only at result
  split at result
  · cases result
    exact (refl h).mono (Nat.zero_le _)
  · split at result
    · cases result
      exact waitOrExit h hx stops
    · split at result
      · cases result
      next p _ =>
          split at result
          · cases result
            exact (note h _).mono (Nat.zero_le _)
          · cases result
            have merged := merges (d := d) (w := w) h
              (((s.arrived p x.element.id).take (d.incoming x.element).length).filter (· != i))
            have others : ∀ j ∈ ((s.arrived p x.element.id).take
                (d.incoming x.element).length).filter (· != i), ∃ y, s.scopes[j]? = some y := by
              intro j hj
              obtain ⟨y, hy, _⟩ := mem_arrived.mp (List.mem_of_mem_take (List.mem_filter.mp hj).1)
              exact ⟨y, hy⟩
            have there : (((s.arrived p x.element.id).take (d.incoming x.element).length).filter
                (· != i)).foldl Simulation.merge s |>.scopes[i]? = some x := by
              rw [(Effect.merges _ others).scopes, Scopes.getElem?_destroyAll (by simp)]
              exact hx
            exact (merged.trans (waitOrExit merged.grounded there stops)).mono (by omega)

theorem onEnter (h : s.Grounded) (hx : s.scopes[i]? = some x)
    (result : onEnter d c s i x = .ok s') :
    Spends d w s s' (if c.stops x.element then 0 else 2 * d.span w x.element - 1) := by
  have positive := d.one_le_span (w := w) x.element
  have wider : (if c.stops x.element then 0 else d.span w x.element)
      ≤ if c.stops x.element then 0 else 2 * d.span w x.element - 1 := by
    split
    · exact Nat.le_refl _
    · omega
  rw [Simulation.onEnter] at result
  cases kind : x.element.kind with
  | startEvent | endEvent =>
      rw [kind] at result
      cases result
      have going : c.stops x.element = false := by rw [ConfigStore.stops, kind]
      rw [going, if_neg (by decide)]
      exact exit h hx (by omega)
  | intermediateCatchEvent =>
      rw [kind] at result
      cases result
      exact (suspend h hx).mono (Nat.zero_le _)
  | parallelGateway =>
      rw [kind] at result
      exact (enterParallel h hx kind result).mono wider
  | subProcess =>
      rw [kind] at result
      cases result
      have stops : c.stops x.element = (c.get x.element).wait := by rw [ConfigStore.stops, kind]
      rw [stops]
      split
      · exact suspend h hx
      · exact startInner h hx kind
  | process | participant =>
      rw [kind] at result
      cases result
      exact (refl h).mono (Nat.zero_le _)
  | task | exclusiveGateway | collaboration | unknown =>
      rw [kind] at result
      cases result
      exact (waitOrExit h hx (by rw [ConfigStore.stops, kind])).mono wider

theorem onSignal (h : s.Grounded) (hx : s.scopes[i]? = some x) :
    Spends d w s (onSignal d s i x) (2 * d.span w x.element - 1) := by
  have positive := d.one_le_span (w := w) x.element
  rw [Simulation.onSignal]
  split
  next kind => exact startInner h hx kind
  next => exact exit h hx (by omega)

theorem stall (h : s.Grounded) (i : Nat) : Spends d w s (s.stall i) 0 := by
  rw [Simulation.stall]
  split
  · exact refl h
  next x _ =>
      have recorded := note (d := d) (w := w) h (.event ⟨.stall, x.element.id, i⟩)
      exact recorded.trans (note recorded.grounded (.stalled x.element.id))

theorem onExit (h : s.Grounded) (hx : s.scopes[i]? = some x) :
    Spends d w s (onExit d c s i x) (d.span w x.element - 1) := by
  have known : ∀ p, x.parent = some p → some p ∈ s.scopes.parents :=
    fun p here => here ▸ Scopes.mem_parents hx
  have along : ∀ f ∈ d.outgoing x.element,
      Spends d w s (s.enterAll [f] x.parent) (d.span w x.element - 1) := by
    intro f hf
    have less := d.target_lt_span (w := w) hf
    refine (enterAll [f] h known).mono ?_
    rw [List.map_singleton, List.sum_singleton]
    omega
  have less := d.sum_targets_lt_span (w := w) x.element
  rw [Simulation.onExit]
  split
  · exact (note h _).mono (Nat.zero_le _)
  · exact (note h _).mono (Nat.zero_le _)
  · exact (note h _).mono (Nat.zero_le _)
  · rw [leaveExclusive]
    split
    next flow only => exact along flow (only ▸ List.mem_singleton_self flow)
    next =>
        split
        next flow chosen => exact along flow (List.mem_of_find?_eq_some chosen)
        next => exact (stall h i).mono (Nat.zero_le _)
  · exact (enterAll _ h known).mono (by omega)

theorem finishExit (h : s.Grounded) (hx : s.scopes[i]? = some x) :
    Spends d w s (finishExit d c s i x) (d.span w x.element - 1) := by
  have left : Spends d w s (Simulation.onExit d c s i x) _ := onExit h hx
  obtain ⟨y, hy, _⟩ := left.found hx
  have destroyed := left.trans (destroy left.grounded hy)
  rw [Simulation.finishExit]
  split
  next p parent =>
      have beneath := destroyed.parents (parent ▸ Scopes.mem_parents hx)
      exact destroyed.trans (tryExit destroyed.grounded beneath)
  next => exact destroyed

end Spends

/-- A task takes less than its price, where the efforts are sufficient. -/
theorem spends_runTask (h : s.Grounded) {t : Task} (run : runTask d c s t = .ok s') :
    ∃ n, Spends d w s s' n ∧
      (d.Sufficient c w → n < t.price d w s.scopes.elements) := by
  have positive := d.one_le_span (w := w)
  cases t with
  | enter i =>
      rw [runTask] at run
      split at run
      next x hx =>
          refine ⟨_, Spends.onEnter h hx run, ?_⟩
          intro sufficient
          have enough := sufficient x.element
          have := positive x.element
          rw [Task.price, Scopes.getElem?_elements hx, Option.map_some, Option.getD_some, enough]
          split <;> omega
      next =>
          cases run
          exact ⟨0, .refl h, fun sufficient => sufficient.price_pos _ _⟩
  | signal i =>
      rw [runTask] at run
      split at run
      next x hx =>
          cases run
          refine ⟨_, Spends.onSignal h hx, fun _ => ?_⟩
          have := positive x.element
          rw [Task.price, Scopes.getElem?_elements hx, Option.map_some, Option.getD_some]
          omega
      next =>
          cases run
          exact ⟨0, .refl h, fun sufficient => sufficient.price_pos _ _⟩
  | finishExit i =>
      rw [runTask] at run
      split at run
      next x hx =>
          cases run
          refine ⟨_, Spends.finishExit h hx, fun _ => ?_⟩
          have := positive x.element
          rw [Task.price, Scopes.getElem?_elements hx, Option.map_some, Option.getD_some]
          omega
      next =>
          cases run
          exact ⟨0, .refl h, fun sufficient => sufficient.price_pos _ _⟩

end Simulation
end ProcessDiagram
