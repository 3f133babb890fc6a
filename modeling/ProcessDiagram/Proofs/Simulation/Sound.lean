import ProcessDiagram.Proofs.Simulation.Formed
import Mathlib.Data.List.Perm.Basic

/-!
What holds between the tasks of an agenda. A scope either has a task to come or has come to rest;
while an operation is going on, the scopes it works on are excused from that.
-/
namespace ProcessDiagram

def Task.scope : Task → ScopeId
  | .enter i | .signal i | .finishExit i => i

/-- The scopes that the tasks of an agenda are for. -/
def busy (agenda : List Task) : List Nat :=
  agenda.map Task.scope

/-- A scope that is entered and has nothing running below it. -/
structure Ready (scopes : Scopes) (i : Nat) (x : Scope) : Prop where
  found : scopes[i]? = some x
  live : x.destroyed = false
  entered : x.state = .entered
  childless : ¬ scopes.HasLiveChild i

/-- A token whose scope was used up by a join. -/
def Merged (scopes : Scopes) (i : Nat) : Prop :=
  ∃ x : Scope, scopes[i]? = some x ∧ x.destroyed = true ∧ x.element.kind = .parallelGateway

/-- What a task finds when its turn comes. -/
def Due (scopes : Scopes) : Task → Prop
  | .enter i => (∃ x, Ready scopes i x ∧ x.parent ≠ none) ∨ Merged scopes i
  | .signal i => (∃ x, Ready scopes i x) ∨ Merged scopes i
  | .finishExit i => ∃ x : Scope, scopes[i]? = some x ∧ x.destroyed = false ∧ x.state = .exited

/-- A parallel gateway that holds its tokens. -/
def Diagram.HoldsAt (d : Diagram) (e : Element) : Prop :=
  e.kind = .parallelGateway ∧ 1 < (d.incoming e).length

/-- Rest: destroyed, waiting for a signal, or entered and held at a join, kept by a child or sunk
in a process that a flow has entered. -/
def Settled (d : Diagram) (scopes : Scopes) (i : Nat) (x : Scope) : Prop :=
  x.destroyed = true ∨ x.state = .waiting ∨ x.state = .entered ∧
    (d.HoldsAt x.element ∨ scopes.HasLiveChild i ∨
      (x.element.kind = .process ∨ x.element.kind = .participant) ∧ x.parent ≠ none)

/-- A token that an element holds below a parent. -/
def Held (excused : List Nat) (scopes : Scopes) (agenda : List Task) (e : Element) (p i : Nat) :
    Prop :=
  (∃ x : Scope, scopes[i]? = some x ∧ x.destroyed = false ∧ x.state = .entered ∧
    x.parent = some p ∧ x.element = e) ∧ i ∉ excused ∧ i ∉ busy agenda

/-- A task keeps finding what it needs while its scope is left alone. -/
theorem Due.transfer {scopes scopes' : Scopes} {t : Task} (h : Due scopes t)
    (same : scopes'[t.scope]? = scopes[t.scope]?)
    (fewer : scopes'.HasLiveChild t.scope → scopes.HasLiveChild t.scope) : Due scopes' t := by
  have ready : ∀ x, Ready scopes t.scope x → Ready scopes' t.scope x := by
    intro x ready
    exact ⟨same.trans ready.found, ready.live, ready.entered, fun child => ready.childless (fewer child)⟩
  have merged : Merged scopes t.scope → Merged scopes' t.scope := by
    intro m
    obtain ⟨x, hx, gone⟩ := m
    exact ⟨x, same.trans hx, gone⟩
  cases t with
  | enter i =>
      cases h with
      | inl h =>
          obtain ⟨x, r, nested⟩ := h
          exact .inl ⟨x, ready x r, nested⟩
      | inr m => exact .inr (merged m)
  | signal i =>
      cases h with
      | inl h =>
          obtain ⟨x, r⟩ := h
          exact .inl ⟨x, ready x r⟩
      | inr m => exact .inr (merged m)
  | finishExit i =>
      obtain ⟨x, hx, exited⟩ := h
      exact ⟨x, same.trans hx, exited⟩

theorem Due.exists_scope {scopes : Scopes} {t : Task} (h : Due scopes t) :
    ∃ x, scopes[t.scope]? = some x := by
  have merged : Merged scopes t.scope → ∃ x, scopes[t.scope]? = some x := by
    intro m
    obtain ⟨x, hx, _⟩ := m
    exact ⟨x, hx⟩
  cases t with
  | enter i =>
      cases h with
      | inl h =>
          obtain ⟨x, r, _⟩ := h
          exact ⟨x, r.found⟩
      | inr m => exact merged m
  | signal i =>
      cases h with
      | inl h =>
          obtain ⟨x, r⟩ := h
          exact ⟨x, r.found⟩
      | inr m => exact merged m
  | finishExit i =>
      obtain ⟨x, hx, _⟩ := h
      exact ⟨x, hx⟩

theorem Settled.transfer {d : Diagram} {scopes scopes' : Scopes} {i : Nat} {x : Scope}
    (h : Settled d scopes i x) (more : scopes.HasLiveChild i → scopes'.HasLiveChild i) :
    Settled d scopes' i x :=
  h.imp_right (·.imp_right (·.imp_right (·.imp_right (·.imp_left more))))

theorem Held.transfer {excused : List Nat} {scopes scopes' : Scopes} {agenda : List Task}
    {e : Element} {p i : Nat} (h : Held excused scopes' agenda e p i)
    (same : ∀ x, scopes'[i]? = some x → scopes[i]? = some x) :
    Held excused scopes agenda e p i := by
  obtain ⟨⟨x, hx, token⟩, free⟩ := h
  exact ⟨⟨x, same x hx, token⟩, free⟩

structure Sound (d : Diagram) (excused : List Nat) (scopes : Scopes) (agenda : List Task) :
    Prop where
  formed : Formed d scopes
  distinct : (excused ++ busy agenda).Nodup
  due : ∀ t ∈ agenda, Due scopes t
  settled : ∀ (i : Nat) (x : Scope), scopes[i]? = some x → i ∉ excused → i ∉ busy agenda →
    Settled d scopes i x
  held : ∀ (e : Element) (p : Nat) (ids : List Nat), d.HoldsAt e → ids.Nodup →
    (∀ i ∈ ids, Held excused scopes agenda e p i) → ids.length < (d.incoming e).length

namespace Sound

variable {d : Diagram} {excused : List Nat} {scopes : Scopes} {agenda : List Task}

theorem nil (d : Diagram) : Sound d [] [] [] := by
  refine ⟨.nil d, List.nodup_nil, ?_, ?_, ?_⟩
  · intro t ht
    cases ht
  · intro i x hx
    cases hx
  · intro e p ids holds _ inside
    cases ids with
    | nil =>
        have several := holds.2
        rw [List.length_nil]
        omega
    | cons i rest =>
        obtain ⟨⟨x, hx, _⟩, _⟩ := inside i List.mem_cons_self
        cases hx

theorem not_busy_of_child (h : Sound d excused scopes agenda) {i : Nat}
    (child : scopes.HasLiveChild i) : i ∉ busy agenda := by
  intro again
  obtain ⟨t, ht, rfl⟩ := List.mem_map.mp again
  obtain ⟨y, hy, live, entered, _⟩ := h.formed.running_of_child child
  have merged : ¬ Merged scopes t.scope := by
    intro m
    obtain ⟨z, hz, gone, _⟩ := m
    rw [Option.some.inj (hy.symm.trans hz), gone] at live
    cases live
  have due := h.due t ht
  cases t with
  | enter i =>
      cases due with
      | inl ready =>
          obtain ⟨_, ready, _⟩ := ready
          exact ready.childless child
      | inr m => exact merged m
  | signal i =>
      cases due with
      | inl ready =>
          obtain ⟨_, ready⟩ := ready
          exact ready.childless child
      | inr m => exact merged m
  | finishExit i =>
      obtain ⟨z, hz, _, exited⟩ := due
      rw [Option.some.inj (hy.symm.trans hz), exited] at entered
      cases entered

/-- The first task of the agenda is taken; until it is carried out, its scope is excused. -/
theorem take {t : Task} {rest : List Task} (h : Sound d [] scopes (t :: rest)) :
    Sound d [t.scope] scopes rest ∧ Due scopes t := by
  refine ⟨⟨h.formed, h.distinct, ?_, ?_, ?_⟩, h.due t List.mem_cons_self⟩
  · intro u hu
    exact h.due u (List.mem_cons_of_mem _ hu)
  · intro i x hx free quiet
    apply h.settled i x hx List.not_mem_nil
    rw [busy, List.map_cons, List.mem_cons, not_or]
    exact ⟨fun same => free (same ▸ List.mem_cons_self), quiet⟩
  · intro e p ids holds nodup inside
    apply h.held e p ids holds nodup
    intro i hi
    obtain ⟨there, free, quiet⟩ := inside i hi
    refine ⟨there, List.not_mem_nil, ?_⟩
    rw [busy, List.map_cons, List.mem_cons, not_or]
    exact ⟨fun same => free (same ▸ List.mem_cons_self), quiet⟩

theorem schedule {i : Nat} (h : Sound d (i :: excused) scopes agenda) {t : Task}
    (due : Due scopes t) (own : t.scope = i) : Sound d excused scopes (agenda ++ [t]) := by
  have busyMore : busy (agenda ++ [t]) = busy agenda ++ [i] := by
    rw [busy, List.map_append, List.map_singleton, own]
    rfl
  have outside : ∀ j, j ∉ excused → j ∉ busy (agenda ++ [t]) →
      j ∉ i :: excused ∧ j ∉ busy agenda := by
    intro j free quiet
    rw [busyMore, List.mem_append, List.mem_singleton, not_or] at quiet
    rw [List.mem_cons, not_or]
    exact ⟨⟨quiet.2, free⟩, quiet.1⟩
  refine ⟨h.formed, ?_, ?_, ?_, ?_⟩
  · have moved : (i :: excused ++ busy agenda).Perm (excused ++ busy (agenda ++ [t])) := by
      rw [busyMore, ← List.append_assoc]
      exact (List.perm_append_singleton i (excused ++ busy agenda)).symm
    exact moved.nodup_iff.mp h.distinct
  · intro u hu
    cases List.mem_append.mp hu with
    | inl old => exact h.due u old
    | inr new => exact List.mem_singleton.mp new ▸ due
  · intro j x hx free quiet
    obtain ⟨free', quiet'⟩ := outside j free quiet
    exact h.settled j x hx free' quiet'
  · intro e p ids holds nodup inside
    apply h.held e p ids holds nodup
    intro j hj
    obtain ⟨there, free, quiet⟩ := inside j hj
    exact ⟨there, outside j free quiet⟩

/-- A scope that has come to rest need not be excused any more; a join must have room for it. -/
theorem release {i : Nat} (h : Sound d (i :: excused) scopes agenda)
    (rests : ∀ x, scopes[i]? = some x → Settled d scopes i x)
    (room : ∀ (e : Element) (p : Nat) (ids : List Nat), d.HoldsAt e → ids.Nodup → i ∈ ids →
      (∀ j ∈ ids, Held excused scopes agenda e p j) → ids.length < (d.incoming e).length) :
    Sound d excused scopes agenda := by
  refine ⟨h.formed, (List.nodup_cons.mp h.distinct).2, h.due, ?_, ?_⟩
  · intro j x hx free quiet
    by_cases same : j = i
    · subst same
      exact rests x hx
    · exact h.settled j x hx (by rw [List.mem_cons, not_or]; exact ⟨same, free⟩) quiet
  · intro e p ids holds nodup inside
    by_cases here : i ∈ ids
    · exact room e p ids holds nodup here inside
    · apply h.held e p ids holds nodup
      intro j hj
      obtain ⟨there, free, quiet⟩ := inside j hj
      refine ⟨there, ?_, quiet⟩
      rw [List.mem_cons, not_or]
      exact ⟨fun same => here (same ▸ hj), free⟩

/-- Any scope without a task may be excused. -/
theorem excuse {i : Nat} (h : Sound d excused scopes agenda) (free : i ∉ excused)
    (quiet : i ∉ busy agenda) : Sound d (i :: excused) scopes agenda := by
  refine ⟨h.formed, ?_, h.due, ?_, ?_⟩
  · rw [List.cons_append, List.nodup_cons, List.mem_append, not_or]
    exact ⟨⟨free, quiet⟩, h.distinct⟩
  · intro j x hx outside
    exact h.settled j x hx fun inside => outside (List.mem_cons_of_mem _ inside)
  · intro e p ids holds nodup inside
    apply h.held e p ids holds nodup
    intro j hj
    obtain ⟨there, outside, calm⟩ := inside j hj
    exact ⟨there, fun inside => outside (List.mem_cons_of_mem _ inside), calm⟩

theorem of_perm (h : Sound d excused scopes agenda) {excused' : List Nat}
    (same : excused.Perm excused') : Sound d excused' scopes agenda := by
  refine ⟨h.formed, (same.append_right _).nodup_iff.mp h.distinct, h.due, ?_, ?_⟩
  · intro i x hx free
    exact h.settled i x hx fun again => free (same.mem_iff.mp again)
  · intro e p ids holds nodup inside
    apply h.held e p ids holds nodup
    intro i hi
    obtain ⟨there, free, quiet⟩ := inside i hi
    exact ⟨there, fun again => free (same.mem_iff.mp again), quiet⟩

theorem not_busy_of_excused {i : Nat} (h : Sound d (i :: excused) scopes agenda) :
    i ∉ busy agenda := by
  intro again
  have distinct := h.distinct
  rw [List.cons_append, List.nodup_cons, List.mem_append] at distinct
  exact distinct.1 (.inr again)

theorem change {i : Nat} (h : Sound d (i :: excused) scopes agenda) {x : Scope}
    (hx : scopes[i]? = some x) {f : Scope → Scope} (parent : (f x).parent = x.parent)
    (alive : (f x).destroyed = x.destroyed) (formed : Formed d (scopes.modify i f)) :
    Sound d (i :: excused) (scopes.modify i f) agenda := by
  have quiet := h.not_busy_of_excused
  refine ⟨formed, h.distinct, ?_, ?_, ?_⟩
  · intro t ht
    have other : i ≠ t.scope := fun same => quiet (same ▸ List.mem_map_of_mem ht)
    apply (h.due t ht).transfer (Scopes.getElem?_modify_other other f)
    exact Scopes.HasLiveChild.of_modify hx parent fun live => alive ▸ live
  · intro j y hy free calm
    have other : i ≠ j := fun same => free (same ▸ List.mem_cons_self)
    rw [Scopes.getElem?_modify_other other] at hy
    apply (h.settled j y hy free calm).transfer
    exact Scopes.HasLiveChild.modify hx parent fun live => alive.trans live
  · intro e p ids holds nodup inside
    apply h.held e p ids holds nodup
    intro j hj
    apply (inside j hj).transfer
    have other : i ≠ j := fun same => (inside j hj).2.1 (same ▸ List.mem_cons_self)
    intro y hy
    rw [Scopes.getElem?_modify_other other] at hy
    exact hy

/-- A scope with nothing running below it is destroyed. Its parent keeps another child or is
excused; a task for it can only be that of a token that a join uses up. -/
theorem destroy (h : Sound d excused scopes agenda) {i : Nat} {x : Scope}
    (hx : scopes[i]? = some x) (childless : ¬ scopes.HasLiveChild i)
    (used : i ∈ busy agenda → x.state = .entered ∧ x.element.kind = .parallelGateway)
    (kept : ∀ p : Nat, x.parent = some p → p ∈ excused ∨
      ∃ (j : Nat) (y : Scope), i ≠ j ∧ scopes[j]? = some y ∧ y.parent = some p ∧
        y.destroyed = false) :
    Sound d excused (scopes.modify i Scope.destroy) agenda := by
  have gone : (Scope.destroy x).destroyed = false → x.destroyed = false := nofun
  have proper := h.formed.proper i x hx
  have formed : Formed d (scopes.modify i Scope.destroy) := by
    apply h.formed.modify hx rfl rfl _ gone (.inr childless)
    exact ⟨⟨nofun, nofun⟩, fun _ => rfl, nofun, proper.root, proper.nested⟩
  refine ⟨formed, h.distinct, ?_, ?_, ?_⟩
  · intro t ht
    by_cases own : i = t.scope
    · obtain ⟨entered, kind⟩ := used (own ▸ List.mem_map_of_mem ht)
      have merged : Merged (scopes.modify i Scope.destroy) t.scope :=
        own ▸ ⟨x.destroy, Scopes.getElem?_modify_self hx _, rfl, kind⟩
      cases t with
      | enter j => exact .inr merged
      | signal j => exact .inr merged
      | finishExit j =>
          obtain ⟨y, hy, _, exited⟩ := h.due _ ht
          have one : x = y := Option.some.inj (hx.symm.trans (own ▸ hy))
          rw [one, exited] at entered
          cases entered
    · apply (h.due t ht).transfer (Scopes.getElem?_modify_other own _)
      exact Scopes.HasLiveChild.of_modify hx rfl gone
  · intro j y hy free quiet
    cases Scopes.getElem?_modify_cases hx hy with
    | inl here => exact .inl (here.2 ▸ rfl)
    | inr other =>
        apply (h.settled j y other.2 free quiet).transfer
        intro child
        obtain ⟨k, z, hz, under, live⟩ := child
        by_cases same : i = k
        · subst same
          have one : z = x := Option.some.inj (hz.symm.trans hx)
          subst one
          cases kept j under with
          | inl excused => exact absurd excused free
          | inr another =>
              obtain ⟨l, w, apart, hw, underToo, liveToo⟩ := another
              exact Scopes.hasLiveChild_modify_of_other hw apart underToo liveToo _
        · exact Scopes.hasLiveChild_modify_of_other hz same under live _
  · intro e p ids holds nodup inside
    apply h.held e p ids holds nodup
    intro j hj
    have there := inside j hj
    apply there.transfer
    intro y hy
    cases Scopes.getElem?_modify_cases hx hy with
    | inl here =>
        obtain ⟨⟨z, hz, live, _⟩, _⟩ := there
        rw [Option.some.inj (hz.symm.trans hy), here.2] at live
        cases live
    | inr other => exact other.2

theorem lt_of_busy (h : Sound d excused scopes agenda) {i : Nat} (again : i ∈ busy agenda) :
    i < scopes.length := by
  obtain ⟨t, ht, rfl⟩ := List.mem_map.mp again
  obtain ⟨x, hx⟩ := (h.due t ht).exists_scope
  exact (List.getElem?_eq_some_iff.mp hx).1

theorem not_hasLiveChild_length (h : Sound d excused scopes agenda) :
    ¬ scopes.HasLiveChild scopes.length := by
  intro child
  obtain ⟨y, hy, _⟩ := h.formed.running_of_child child
  exact absurd (List.getElem?_eq_some_iff.mp hy).1 (Nat.lt_irrefl _)

theorem due_append (h : Sound d excused scopes agenda) {new : Scope}
    (quiet : ∀ p : Nat, new.parent = some p → p ∉ busy agenda) :
    ∀ t ∈ agenda, Due (scopes ++ [new]) t := by
  intro t ht
  obtain ⟨x, hx⟩ := (h.due t ht).exists_scope
  apply (h.due t ht).transfer ((Scopes.getElem?_append_old hx new).trans hx.symm)
  intro child
  cases Scopes.hasLiveChild_append.mp child with
  | inl old => exact old
  | inr fresh => exact absurd (List.mem_map_of_mem ht) (quiet _ fresh.1)

theorem held_append (h : Sound d excused scopes agenda) {new : Scope} {agenda' : List Task}
    (more : busy agenda ⊆ busy agenda') {excused' : List Nat} (moreExcused : excused ⊆ excused')
    (covered : scopes.length ∈ excused' ∨ scopes.length ∈ busy agenda') (e : Element) (p : Nat)
    (ids : List Nat) (holds : d.HoldsAt e) (nodup : ids.Nodup)
    (inside : ∀ i ∈ ids, Held excused' (scopes ++ [new]) agenda' e p i) :
    ids.length < (d.incoming e).length := by
  apply h.held e p ids holds nodup
  intro i hi
  obtain ⟨⟨x, hx, token⟩, free, quiet⟩ := inside i hi
  refine ⟨⟨x, ?_, token⟩, fun again => free (moreExcused again), fun again => quiet (more again)⟩
  cases Scopes.getElem?_append_cases hx with
  | inl old => exact old
  | inr fresh =>
      cases covered with
      | inl excused => exact absurd (fresh.1 ▸ excused) free
      | inr busy => exact absurd (fresh.1 ▸ busy) quiet

theorem addChild (h : Sound d excused scopes agenda) {p : Nat} {y : Scope}
    (hy : scopes[p]? = some y) (live : y.destroyed = false) (entered : y.state = .entered)
    (container : y.element.kind = .subProcess ∨ y.parent = none) (quiet : p ∉ busy agenda)
    {e : Element} (he : e ∈ d.nodes) (origin : e.kind = .startEvent ∨ ∃ f ∈ d.flows, f.target = e)
    (known : ∀ i ∈ excused, i < scopes.length) :
    Sound d excused (scopes ++ [Scope.enter e (some p)]) (agenda ++ [.enter scopes.length]) := by
  have busyMore : busy (agenda ++ [.enter scopes.length]) = busy agenda ++ [scopes.length] := by
    rw [busy, List.map_append]
    rfl
  refine ⟨?_, ?_, ?_, ?_, ?_⟩
  · apply h.formed.append
    · exact ⟨⟨nofun, nofun⟩, nofun, nofun, nofun, fun _ => ⟨he, origin⟩⟩
    · intro q parent
      cases parent
      exact ⟨y, hy, container, fun _ => ⟨live, entered⟩⟩
  · rw [busyMore, ← List.append_assoc, List.nodup_append]
    refine ⟨h.distinct, List.nodup_singleton _, ?_⟩
    intro i hi j hj same
    rw [List.mem_singleton] at hj
    subst hj same
    cases List.mem_append.mp hi with
    | inl again => exact absurd (known _ again) (Nat.lt_irrefl _)
    | inr again => exact absurd (h.lt_of_busy again) (Nat.lt_irrefl _)
  · intro t ht
    cases List.mem_append.mp ht with
    | inl old =>
        apply h.due_append _ t old
        intro q parent
        cases parent
        exact quiet
    | inr new =>
        rw [List.mem_singleton.mp new]
        refine .inl ⟨Scope.enter e (some p), ⟨Scopes.getElem?_append_new _ _, rfl, rfl, ?_⟩, nofun⟩
        intro child
        cases Scopes.hasLiveChild_append.mp child with
        | inl old => exact h.not_hasLiveChild_length old
        | inr fresh =>
            have below := (List.getElem?_eq_some_iff.mp hy).1
            rw [Option.some.inj fresh.1] at below
            exact absurd below (Nat.lt_irrefl _)
  · intro i x hx free calm
    rw [busyMore, List.mem_append, List.mem_singleton, not_or] at calm
    cases Scopes.getElem?_append_cases hx with
    | inl old =>
        apply (h.settled i x old free calm.1).transfer
        exact fun child => Scopes.hasLiveChild_append.mpr (.inl child)
    | inr fresh => exact absurd fresh.1 calm.2
  · apply h.held_append
    · rw [busyMore]
      exact List.subset_append_left _ _
    · exact List.Subset.refl _
    · rw [busyMore]
      exact .inr (List.mem_append_right _ (List.mem_singleton_self _))

theorem addRoot (h : Sound d [] scopes agenda) {e : Element}
    (kind : e.kind = .process ∨ e.kind = .participant) :
    Sound d [scopes.length] (scopes ++ [Scope.enter e none]) agenda := by
  refine ⟨?_, ?_, ?_, ?_, ?_⟩
  · apply h.formed.append
    · exact ⟨⟨nofun, nofun⟩, nofun, nofun, fun _ => kind, fun nested => absurd rfl nested⟩
    · intro p parent
      cases parent
  · rw [List.singleton_append, List.nodup_cons]
    exact ⟨fun again => absurd (h.lt_of_busy again) (Nat.lt_irrefl _), h.distinct⟩
  · apply h.due_append
    intro p parent
    cases parent
  · intro i x hx free calm
    cases Scopes.getElem?_append_cases hx with
    | inl old =>
        apply (h.settled i x old List.not_mem_nil calm).transfer
        exact fun child => Scopes.hasLiveChild_append.mpr (.inl child)
    | inr fresh => exact absurd (List.mem_singleton.mpr fresh.1) free
  · apply h.held_append
    · exact List.Subset.refl _
    · exact List.nil_subset _
    · exact .inl (List.mem_singleton_self _)

end Sound
end ProcessDiagram
