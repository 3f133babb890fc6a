import ProcessDiagram.Proofs.Simulation.Moves

/-!
Book-keeping for tokens. For every element the scopes that were made are balanced by the exits of
the elements before it, and the scopes that are gone by its own exits; every move keeps the balance.
-/
namespace ProcessDiagram

namespace Scopes

/-- How many scopes were made for an element. -/
def made (scopes : Scopes) (e : Element) : Nat :=
  scopes.countP fun x => x.element == e

/-- How many of them are destroyed. -/
def gone (scopes : Scopes) (e : Element) : Nat :=
  scopes.countP fun x => x.element == e && x.destroyed

/-- How many of them have exited and are still to be destroyed. -/
def exiting (scopes : Scopes) (e : Element) : Nat :=
  scopes.countP fun x => x.element == e && (!x.destroyed && x.state == .exited)

/-- How many of them are not destroyed. -/
def remaining (scopes : Scopes) (e : Element) : Nat :=
  scopes.countP fun x => x.element == e && !x.destroyed

theorem made_eq_gone_add_remaining (scopes : Scopes) (e : Element) :
    scopes.made e = scopes.gone e + scopes.remaining e := by
  rw [made, gone, remaining]
  induction scopes with
  | nil => rfl
  | cons x rest ih =>
      rw [List.countP_cons, List.countP_cons, List.countP_cons, ih]
      cases x.destroyed <;> simp <;> omega

variable {scopes : Scopes} {i : Nat} {x : Scope}

theorem countP_modify (hx : scopes[i]? = some x) (f : Scope → Scope) (P : Scope → Bool) :
    List.countP P (scopes.modify i f) + (if P x then 1 else 0)
      = List.countP P scopes + if P (f x) then 1 else 0 := by
  obtain ⟨below, here⟩ := List.getElem?_eq_some_iff.mp hx
  have parts : scopes = scopes.take i ++ x :: scopes.drop (i + 1) := by
    rw [← here, List.getElem_cons_drop, List.take_append_drop]
  have changed : scopes.modify i f = scopes.take i ++ f x :: scopes.drop (i + 1) := by
    rw [List.modify_eq_take_cons_drop below, here]
  have count := congrArg (List.countP P) parts
  rw [List.countP_append, List.countP_cons] at count
  rw [changed, count, List.countP_append, List.countP_cons]
  omega

theorem made_modify (hx : scopes[i]? = some x) {f : Scope → Scope}
    (same : (f x).element = x.element) (e : Element) :
    made (scopes.modify i f) e = scopes.made e := by
  have count := countP_modify hx f fun x => x.element == e
  rw [same] at count
  exact Nat.add_right_cancel count

theorem gone_modify (hx : scopes[i]? = some x) {f : Scope → Scope}
    (same : (f x).element = x.element) (e : Element) :
    gone (scopes.modify i f) e + (if x.element = e ∧ x.destroyed then 1 else 0)
      = scopes.gone e + if x.element = e ∧ (f x).destroyed then 1 else 0 := by
  have count := countP_modify hx f fun x => x.element == e && x.destroyed
  simp only [same, Bool.and_eq_true, beq_iff_eq] at count
  exact count

theorem exiting_modify (hx : scopes[i]? = some x) {f : Scope → Scope}
    (same : (f x).element = x.element) (e : Element) :
    exiting (scopes.modify i f) e
        + (if x.element = e ∧ x.destroyed = false ∧ x.state = .exited then 1 else 0)
      = scopes.exiting e
        + if x.element = e ∧ (f x).destroyed = false ∧ (f x).state = .exited then 1 else 0 := by
  have count := countP_modify hx f fun x =>
    x.element == e && (!x.destroyed && x.state == .exited)
  simp only [same, Bool.and_eq_true, beq_iff_eq, Bool.not_eq_true'] at count
  exact count

theorem made_enterAll (elements : List Element) (parent : Option Nat) (e : Element) :
    (scopes.enterAll elements parent).made e = scopes.made e + elements.count e := by
  rw [made, enterAll, List.countP_append, List.countP_map]
  rfl

theorem gone_enterAll (elements : List Element) (parent : Option Nat) (e : Element) :
    (scopes.enterAll elements parent).gone e = scopes.gone e := by
  have none : List.countP (fun x : Scope => x.element == e && x.destroyed)
      (elements.map (Scope.enter · parent)) = 0 := by
    rw [List.countP_map]
    exact List.countP_eq_zero.mpr (by simp [Scope.enter])
  rw [gone, enterAll, List.countP_append, none, Nat.add_zero]
  rfl

theorem exiting_enterAll (elements : List Element) (parent : Option Nat) (e : Element) :
    (scopes.enterAll elements parent).exiting e = scopes.exiting e := by
  have none : List.countP
      (fun x : Scope => x.element == e && (!x.destroyed && x.state == .exited))
      (elements.map (Scope.enter · parent)) = 0 := by
    rw [List.countP_map]
    exact List.countP_eq_zero.mpr (by simp [Scope.enter])
  rw [exiting, enterAll, List.countP_append, none, Nat.add_zero]
  rfl

/-- Tokens that are used up: as many scopes of their element are gone. -/
theorem counts_destroyAll {e₀ : Element} (tokens : List Nat) (distinct : tokens.Nodup)
    (alike : ∀ j ∈ tokens, ∃ y : Scope, scopes[j]? = some y ∧ y.element = e₀ ∧
      y.destroyed = false ∧ y.state = .entered) (e : Element) :
    (scopes.destroyAll tokens).made e = scopes.made e ∧
      (scopes.destroyAll tokens).gone e
        = scopes.gone e + (if e₀ = e then tokens.length else 0) ∧
      (scopes.destroyAll tokens).exiting e = scopes.exiting e := by
  induction tokens generalizing scopes with
  | nil => simp [destroyAll]
  | cons j rest ih =>
      obtain ⟨y, hy, rfl, live, entered⟩ := alike j List.mem_cons_self
      obtain ⟨made, gone, exiting⟩ := @ih (scopes.modify j Scope.destroy)
        (List.nodup_cons.mp distinct).2 (by
          intro k hk
          obtain ⟨z, hz, token⟩ := alike k (List.mem_cons_of_mem _ hk)
          refine ⟨z, (getElem?_modify_other ?_ _).trans hz, token⟩
          intro same
          exact (List.nodup_cons.mp distinct).1 (same ▸ hk))
      have first := gone_modify hy (f := Scope.destroy) rfl e
      have still := exiting_modify hy (f := Scope.destroy) rfl e
      have step : scopes.destroyAll (j :: rest)
          = Scopes.destroyAll rest (scopes.modify j Scope.destroy) := rfl
      rw [step, made, gone, exiting, made_modify hy rfl]
      simp only [live, entered, Scope.destroy] at first still
      refine ⟨rfl, ?_, ?_⟩
      · rw [List.length_cons]
        by_cases own : y.element = e
        · simp only [own, true_and] at first ⊢
          simp at first ⊢
          omega
        · simp only [own, false_and] at first ⊢
          simpa using first
      · simpa using still

theorem getElem?_destroyAll {tokens : List Nat} (other : i ∉ tokens) :
    (scopes.destroyAll tokens)[i]? = scopes[i]? := by
  induction tokens generalizing scopes with
  | nil => rfl
  | cons j rest ih =>
      rw [List.mem_cons, not_or] at other
      exact (ih other.2).trans (getElem?_modify_other (Ne.symm other.1) _)

theorem getElem?_destroyAll_of_mem {tokens : List Nat} (token : i ∈ tokens)
    (hx : scopes[i]? = some x) : (scopes.destroyAll tokens)[i]? = some x.destroy := by
  induction tokens generalizing scopes x with
  | nil => cases token
  | cons j rest ih =>
      have step : scopes.destroyAll (j :: rest)
          = Scopes.destroyAll rest (scopes.modify j Scope.destroy) := rfl
      rw [step]
      by_cases again : i ∈ rest
      · by_cases same : j = i
        · subst same
          have twice := ih (x := x.destroy) again (getElem?_modify_self hx Scope.destroy)
          exact twice
        · exact ih again ((getElem?_modify_other same _).trans hx)
      · have own : i = j := (List.mem_cons.mp token).resolve_right again
        subst own
        exact (getElem?_destroyAll again).trans (getElem?_modify_self hx Scope.destroy)

end Scopes

namespace Simulation

theorem lookup_countUp (id other : String) (counts : List (String × Nat)) :
    ((countUp id counts).lookup other).getD 0
      = (counts.lookup other).getD 0 + if id = other then 1 else 0 := by
  induction counts with
  | nil =>
      by_cases same : id = other
      · simp [countUp, same]
      · simp [countUp, same, List.lookup_cons, beq_eq_false_iff_ne.mpr (Ne.symm same)]
  | cons entry rest ih =>
      obtain ⟨i, n⟩ := entry
      by_cases here : i = id
      · subst here
        by_cases same : i = other
        · simp [countUp, same]
        · simp [countUp, same, List.lookup_cons, beq_eq_false_iff_ne.mpr (Ne.symm same)]
      · by_cases there : i = other
        · subst there
          have apart : id ≠ i := Ne.symm here
          simp [countUp, here, apart]
        · simp only [countUp, if_neg here, List.lookup_cons,
            beq_eq_false_iff_ne.mpr (Ne.symm there), ih]

end Simulation

/-- How often an element has exited. -/
def exits (counts : List (String × Nat)) (e : Element) : Nat :=
  (counts.lookup e.id).getD 0

/-- Scopes that exit and are still there will send their tokens when they are left. -/
structure Ledger (d : Diagram) (c : ConfigStore) (start : Element) (scopes : Scopes)
    (counts : List (String × Nat)) : Prop where
  made : ∀ e ∈ d.nodes, scopes.made e + d.inflow (d.takes c) scopes.exiting d.nodes e
    = (if start = e then 1 else 0) + d.inflow (d.takes c) (exits counts) d.nodes e
  gone : ∀ e ∈ d.nodes, scopes.gone e + scopes.exiting e = d.share e * exits counts e

namespace Ledger

variable {d : Diagram} {c : ConfigStore} {start : Element} {scopes : Scopes}
  {counts : List (String × Nat)} {i : Nat} {x : Scope}

theorem exits_countUp (consistent : d.Consistent) {e e' : Element} (he : e ∈ d.nodes)
    (he' : e' ∈ d.nodes) :
    exits (Simulation.countUp e.id counts) e' = exits counts e' + if e = e' then 1 else 0 := by
  have same : e.id = e'.id ↔ e = e' := ⟨consistent.eq_of_id he he', congrArg Element.id⟩
  rw [exits, Simulation.lookup_countUp, exits]
  simp only [same]

theorem pass (consistent : d.Consistent) (h : Ledger d c start scopes counts)
    (ready : Ready scopes i x) (node : x.element ∈ d.nodes) {tokens : List Nat}
    (distinct : (i :: tokens).Nodup) (count : tokens.length + 1 = d.share x.element)
    (alike : ∀ j ∈ tokens, ∃ y : Scope, scopes[j]? = some y ∧ y.element = x.element ∧
      y.destroyed = false ∧ y.state = .entered) :
    Ledger d c start ((scopes.destroyAll tokens).modify i Scope.leave)
      (Simulation.countUp x.element.id counts) := by
  obtain ⟨others, distinct⟩ := List.nodup_cons.mp distinct
  have there := (Scopes.getElem?_destroyAll others).trans ready.found
  have exiting : ∀ e, Scopes.exiting ((scopes.destroyAll tokens).modify i Scope.leave) e
      = scopes.exiting e + if x.element = e then 1 else 0 := by
    intro e
    have more := Scopes.exiting_modify there (f := Scope.leave) rfl e
    rw [(Scopes.counts_destroyAll tokens distinct alike e).2.2] at more
    simpa [Scope.leave, ready.live, ready.entered] using more
  have left : ∀ e ∈ d.nodes, exits (Simulation.countUp x.element.id counts) e
      = exits counts e + if x.element = e then 1 else 0 := fun e he => exits_countUp consistent node he
  constructor
  · intro e he
    have balance := h.made e he
    rw [Scopes.made_modify there rfl, (Scopes.counts_destroyAll tokens distinct alike e).1,
      Diagram.inflow_bump node consistent.nodes_nodup fun e' _ => exiting e',
      Diagram.inflow_bump node consistent.nodes_nodup left]
    omega
  · intro e he
    have balance := h.gone e he
    have same := Scopes.gone_modify there (f := Scope.leave) rfl e
    have unchanged : (Scope.leave x).destroyed = x.destroyed := rfl
    rw [(Scopes.counts_destroyAll tokens distinct alike e).2.1, unchanged] at same
    rw [exiting e, left e he, Nat.mul_add]
    by_cases own : x.element = e
    · subst own
      rw [if_pos rfl] at same
      rw [if_pos rfl]
      omega
    · rw [if_neg own] at same
      rw [if_neg own]
      omega

theorem leave (consistent : d.Consistent) (h : Ledger d c start scopes counts)
    (exiting : Exiting scopes i x) (node : x.element ∈ d.nodes) (parent : Option Nat) :
    Ledger d c start
      ((scopes.enterAll (d.routes (d.takes c) x.element) parent).modify i Scope.destroy) counts := by
  have there : (scopes.enterAll (d.routes (d.takes c) x.element) parent)[i]? = some x := by
    rw [Scopes.enterAll,
      List.getElem?_append_left (List.getElem?_eq_some_iff.mp exiting.found).1]
    exact exiting.found
  have fewer : ∀ e, scopes.exiting e = Scopes.exiting
      ((scopes.enterAll (d.routes (d.takes c) x.element) parent).modify i Scope.destroy) e
        + if x.element = e then 1 else 0 := by
    intro e
    have less := Scopes.exiting_modify there (f := Scope.destroy) rfl e
    rw [Scopes.exiting_enterAll] at less
    simpa [Scope.destroy, exiting.live, exiting.exited] using less.symm
  constructor
  · intro e he
    have balance := h.made e he
    rw [Diagram.inflow_bump node consistent.nodes_nodup fun e' _ => fewer e'] at balance
    rw [Scopes.made_modify there rfl, Scopes.made_enterAll]
    omega
  · intro e he
    have balance := h.gone e he
    have more := Scopes.gone_modify there (f := Scope.destroy) rfl e
    rw [Scopes.gone_enterAll] at more
    have less := fewer e
    simp only [Scope.destroy, exiting.live, Bool.false_eq_true, and_false, if_false,
      and_true] at more
    omega

/-- What becomes of the root is not accounted for. -/
theorem aside (h : Ledger d c start scopes counts) (hx : scopes[i]? = some x)
    (outside : x.element ∉ d.nodes) {f : Scope → Scope} (same : (f x).element = x.element)
    {counts' : List (String × Nat)} (unchanged : ∀ e ∈ d.nodes, exits counts' e = exits counts e) :
    Ledger d c start (scopes.modify i f) counts' := by
  have other : ∀ e ∈ d.nodes, x.element ≠ e := fun e he own => outside (own ▸ he)
  have exiting : ∀ e ∈ d.nodes, Scopes.exiting (scopes.modify i f) e = scopes.exiting e := by
    intro e he
    simpa [other e he] using Scopes.exiting_modify hx same e
  constructor
  · intro e he
    rw [Scopes.made_modify hx same, Diagram.inflow_congr exiting, Diagram.inflow_congr unchanged]
    exact h.made e he
  · intro e he
    have gone : Scopes.gone (scopes.modify i f) e = scopes.gone e := by
      simpa [other e he] using Scopes.gone_modify hx same e
    rw [gone, exiting e he, unchanged e he]
    exact h.gone e he

end Ledger
end ProcessDiagram
