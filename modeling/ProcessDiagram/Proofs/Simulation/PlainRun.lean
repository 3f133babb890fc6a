import ProcessDiagram.Proofs.Simulation.Course

/-!
A plain process, run from its start event until nothing is left to be done. The exits of every
element are then what its tokens allow for, and the process is finished when no token is left.
-/
namespace ProcessDiagram.Simulation

variable {d : Diagram} {c : ConfigStore} {s : Simulation} {start : Element}

/-- The root, entered, with a token on the start event. -/
def launched (d : Diagram) (start : Element) : Simulation :=
  ((empty.create d.root none).note (.started start.id d.root.id)).enter start (some 0)

theorem start_empty (root : d.root.kind = .process) (first : d.startEvents d.root = [start])
    (inside : start.parent = some d.root.id) (bound : Nat) :
    Simulation.start d c bound empty none = settle d c bound (launched d start) 1 := by
  have found : rootStart d = .ok start := by
    rw [rootStart, Diagram.topScopes, if_pos root, List.findSome?_cons, first]
    rfl
  have around : start.parent.bind d.find? = some d.root := by
    rw [inside]
    exact Diagram.Consistent.find?_root d
  have top : ¬ d.root.kind = .subProcess := by
    rw [root]
    decide
  rw [Simulation.start, Option.map_none, Option.getD_none, found]
  simp only [around, openContainer, if_neg top]
  rfl

theorem course_launched (consistent : d.Consistent) (c : ConfigStore)
    (root : d.root.kind = .process) (node : start ∈ d.nodes) (kind : start.kind = .startEvent) :
    Course d c start (launched d start) := by
  have scopes : (launched d start).scopes
      = [Scope.enter d.root none, Scope.enter start (some 0)] := rfl
  have outside : ∀ e ∈ d.nodes, d.root ≠ e := by
    intro e he same
    exact consistent.root_id_ne he (congrArg Element.id same)
  have exiting : ∀ e, (launched d start).scopes.exiting e = 0 := by
    intro e
    rw [scopes, Scopes.exiting]
    simp [Scope.enter]
  refine ⟨?_, ?_, ?_, ?_, ?_, ?_⟩
  · exact sound_enterRoot (s := empty) (.nil d) (.inl root) node kind
  · refine ⟨⟨_, rfl, rfl, rfl⟩, ?_, ?_⟩
    · intro i x hx inner
      rw [scopes] at hx
      cases i with
      | zero => exact absurd rfl inner
      | succ i =>
          cases i with
          | zero => exact (Option.some.inj hx).symm ▸ rfl
          | succ i => cases hx
    · intro i x hx
      have member := List.mem_of_getElem? hx
      rw [scopes, List.mem_pair] at member
      have entered : x.state = .entered := by
        cases member with
        | inl outer => rw [outer, Scope.enter]
        | inr token => rw [token, Scope.enter]
      rw [entered]
      decide
  · refine ⟨?_, 1, Nat.le_succ 1, rfl⟩
    intro i hi
    cases List.mem_singleton.mp hi
  · intro ev hev
    have kinds : ev = ⟨.enter, d.root.id, 0⟩ ∨ ev = ⟨.enter, start.id, 1⟩ :=
      List.mem_pair.mp hev
    have entered : ev.kind = .enter := by
      cases kinds with
      | inl outer => rw [outer]
      | inr token => rw [token]
    rw [entered]
    decide
  · intro e he
    have never : ∀ e' ∈ d.nodes, exits (launched d start).exitCounts e' = 0 := fun _ _ => rfl
    rw [Diagram.inflow_of_never_left fun e' _ => exiting e', Diagram.inflow_of_never_left never,
      scopes, Scopes.made]
    simp [Scope.enter, outside e he]
  · intro e he
    rw [exiting e, scopes, Scopes.gone]
    simp [Scope.enter, exits, launched, enter, create, empty, record, note, schedule]

theorem Course.settled (h : Course d c start s) (drained : s.agenda = []) {i : Nat} {x : Scope}
    (hx : s.scopes[i]? = some x) : Settled d s.scopes i x := by
  apply h.sound.settled i x hx List.not_mem_nil
  rw [drained]
  exact List.not_mem_nil

/-- At rest a live token is held at a join. -/
theorem Course.holdsAt_of_live (plain : d.Plain c) (h : Course d c start s)
    (drained : s.agenda = []) {i : Nat} {x : Scope} (hx : s.scopes[i]? = some x)
    (live : x.destroyed = false) (node : x.element ∈ d.nodes) (inner : i ≠ 0) :
    d.HoldsAt x.element ∧ x.state = .entered := by
  obtain gone | waiting | ⟨entered, held | child | sunk⟩ := h.settled drained hx
  · cases live.symm.trans gone
  · exact absurd waiting (h.flat.going i x hx)
  · exact ⟨held, entered⟩
  · obtain ⟨j, y, hy, under, _⟩ := child
    by_cases outer : j = 0
    · subst outer
      obtain ⟨root, atRoot, _, top⟩ := h.flat.root
      rw [Option.some.inj (hy.symm.trans atRoot), top] at under
      cases under
    · rw [h.flat.nested j y hy outer, Option.some.injEq] at under
      exact absurd under.symm inner
  · have kinds := plain.kinds x.element node
    cases sunk.1 with
    | inl kind =>
        rw [kind] at kinds
        exact absurd kinds (by decide)
    | inr kind =>
        rw [kind] at kinds
        exact absurd kinds (by decide)

theorem Course.inner (consistent : d.Consistent) (h : Course d c start s) {i : Nat} {x : Scope}
    (hx : s.scopes[i]? = some x) (node : x.element ∈ d.nodes) : i ≠ 0 := by
  intro outer
  subst outer
  obtain ⟨root, atRoot, own, _⟩ := h.flat.root
  rw [Option.some.inj (hx.symm.trans atRoot), own] at node
  exact consistent.root_id_ne node rfl

theorem Course.remaining_lt_share (consistent : d.Consistent) (plain : d.Plain c)
    (h : Course d c start s) (drained : s.agenda = []) {e : Element} (he : e ∈ d.nodes) :
    s.scopes.remaining e < d.share e := by
  have token : ∀ (i : Nat) (x : Scope), s.scopes[i]? = some x → x.element = e →
      x.destroyed = false → d.HoldsAt e ∧ x.state = .entered ∧ x.parent = some 0 := by
    intro i x hx own live
    subst own
    have inner := h.inner consistent hx he
    obtain ⟨holds, entered⟩ := h.holdsAt_of_live plain drained hx live he inner
    exact ⟨holds, entered, h.flat.nested i x hx inner⟩
  by_cases holds : d.HoldsAt e
  · rw [Diagram.share, if_pos holds, Scopes.remaining, ← Scopes.length_idsWhere]
    apply h.sound.held e 0 _ holds (Scopes.nodup_idsWhere _ _)
    intro i hi
    obtain ⟨x, hx, chosen⟩ := Scopes.mem_idsWhere.mp hi
    simp only [Bool.and_eq_true, beq_iff_eq, Bool.not_eq_true'] at chosen
    obtain ⟨_, entered, parent⟩ := token i x hx chosen.1 chosen.2
    refine ⟨⟨x, hx, chosen.2, entered, parent, chosen.1⟩, List.not_mem_nil, ?_⟩
    rw [drained]
    exact List.not_mem_nil
  · rw [share_of_not_holdsAt holds, Scopes.remaining, List.countP_eq_zero.mpr]
    · exact Nat.one_pos
    · intro x hx chosen
      simp only [Bool.and_eq_true, beq_iff_eq, Bool.not_eq_true'] at chosen
      obtain ⟨i, hi⟩ := List.mem_iff_getElem?.mp hx
      exact holds (token i x hi chosen.1 chosen.2).1

/-- What the tokens of an element amount to when nothing is left to be done. -/
structure Balance (d : Diagram) (c : ConfigStore) (start : Element) (s : Simulation)
    (e : Element) : Prop where
  made : s.scopes.made e
    = (if start = e then 1 else 0) + d.inflow (d.takes c) (exits s.exitCounts) d.nodes e
  exited : exits s.exitCounts e = s.scopes.made e / d.share e
  remaining : s.scopes.made e = d.share e * exits s.exitCounts e + s.scopes.remaining e

theorem Course.balance (consistent : d.Consistent) (plain : d.Plain c)
    (h : Course d c start s) (drained : s.agenda = []) {e : Element} (he : e ∈ d.nodes) :
    Balance d c start s e := by
  have none : ∀ e ∈ d.nodes, s.scopes.exiting e = 0 := by
    intro e he
    rw [Scopes.exiting, List.countP_eq_zero]
    intro x hx chosen
    simp only [Bool.and_eq_true, beq_iff_eq, Bool.not_eq_true'] at chosen
    obtain ⟨own, live, exited⟩ := chosen
    obtain ⟨i, hi⟩ := List.mem_iff_getElem?.mp hx
    subst own
    have entered := (h.holdsAt_of_live plain drained hi live he (h.inner consistent hi he)).2
    cases exited.symm.trans entered
  have made := h.ledger.made e he
  have gone := h.ledger.gone e he
  rw [Diagram.inflow_of_never_left none, Nat.add_zero] at made
  rw [none e he, Nat.add_zero] at gone
  have parts := s.scopes.made_eq_gone_add_remaining e
  have few := h.remaining_lt_share consistent plain drained he
  rw [gone] at parts
  refine ⟨made, ?_, parts⟩
  rw [parts, Nat.mul_add_div (Nat.zero_lt_of_lt few), Nat.div_eq_of_lt few, Nat.add_zero]

/-- When every token is used up, the process is finished. -/
theorem Course.finished (root : d.root.kind = .process)
    (h : Course d c start s) (drained : s.agenda = [])
    (used : ∀ e ∈ d.nodes, s.scopes.remaining e = 0) :
    s.isFinished = true ∧ s.scopes.live = [] := by
  have inner : ∀ (i : Nat) (x : Scope), s.scopes[i]? = some x → i ≠ 0 → x.destroyed = true := by
    intro i x hx inner
    have parent := h.flat.nested i x hx inner
    have node := ((h.sound.formed.proper i x hx).nested (by rw [parent]; simp)).1
    have none := List.countP_eq_zero.mp (used x.element node) x (List.mem_of_getElem? hx)
    simpa using none
  have outer : ∀ x : Scope, s.scopes[0]? = some x → x.destroyed = true := by
    intro x hx
    obtain ⟨y, hy, own, top⟩ := h.flat.root
    rw [Option.some.inj (hy.symm.trans hx)] at own top
    obtain gone | waiting | ⟨_, held | child | sunk⟩ := h.settled drained hx
    · exact gone
    · exact absurd waiting (h.flat.going 0 x hx)
    · have kind := held.1
      rw [own, root] at kind
      cases kind
    · obtain ⟨j, z, hz, under, live⟩ := child
      by_cases same : j = 0
      · rw [same] at hz
        rw [Option.some.inj (hz.symm.trans hx), top] at under
        cases under
      · cases live.symm.trans (inner j z hz same)
    · exact absurd top sunk.2
  have all : ∀ x ∈ s.scopes, x.destroyed = true := by
    intro x hx
    obtain ⟨i, hi⟩ := List.mem_iff_getElem?.mp hx
    by_cases same : i = 0
    · exact outer x (same ▸ hi)
    · exact inner i x hi same
  refine ⟨(isFinished_iff h.sound).mpr ⟨?_, all⟩, ?_⟩
  · obtain ⟨x, hx, _⟩ := h.flat.root
    exact List.ne_nil_of_mem (List.mem_of_getElem? hx)
  · rw [Scopes.live, List.eq_nil_iff_forall_not_mem]
    intro i hi
    obtain ⟨x, hx, live⟩ := Scopes.mem_idsWhere.mp hi
    rw [all x (List.mem_of_getElem? hx)] at live
    cases live

end ProcessDiagram.Simulation
