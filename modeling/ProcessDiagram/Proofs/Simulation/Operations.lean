import ProcessDiagram.Proofs.Simulation.Effect

/-!
Every operation on a scope keeps the simulation sound: the scope it is for was excused, and comes
out of the operation at rest or with a task.
-/
namespace ProcessDiagram.Simulation

variable {d : Diagram} {c : ConfigStore} {s : Simulation} {excused : List Nat} {i : Nat} {x : Scope}

theorem sound_exit (h : Sound d (i :: excused) s.scopes s.agenda) (ready : Ready s.scopes i x) :
    Sound d excused (s.exit i).scopes (s.exit i).agenda := by
  have effect := Effect.exit_of_ready ready
  have proper := h.formed.proper i x ready.found
  rw [effect.scopes, effect.agenda]
  have changed := h.change ready.found (f := Scope.leave) rfl rfl (by
    apply h.formed.modify ready.found rfl rfl _ id (.inr ready.childless)
    exact ⟨⟨nofun, nofun⟩, fun _ => rfl, nofun, proper.root, proper.nested⟩)
  apply changed.schedule _ rfl
  exact ⟨_, Scopes.getElem?_modify_self ready.found _, ready.live, rfl⟩

theorem sound_suspend (h : Sound d (i :: excused) s.scopes s.agenda)
    (ready : Ready s.scopes i x) :
    Sound d excused (s.suspend i).scopes (s.suspend i).agenda := by
  have effect := Effect.suspend ready.found
  have proper := h.formed.proper i x ready.found
  have self := Scopes.getElem?_modify_self ready.found Scope.suspend
  rw [effect.scopes, effect.agenda, List.append_nil]
  have changed := h.change ready.found (f := Scope.suspend) rfl rfl (by
    apply h.formed.modify ready.found rfl rfl _ id (.inr ready.childless)
    refine ⟨⟨fun _ => rfl, fun _ => rfl⟩, ?_, nofun, proper.root, proper.nested⟩
    intro gone
    cases ready.live.symm.trans gone)
  apply changed.release
  · intro y hy
    rw [Option.some.inj (hy.symm.trans self)]
    exact .inr (.inl rfl)
  · intro e p ids _ _ here inside
    obtain ⟨⟨y, hy, _, entered, _⟩, _⟩ := inside i here
    rw [Option.some.inj (hy.symm.trans self)] at entered
    cases entered

theorem sound_waitOrExit (h : Sound d (i :: excused) s.scopes s.agenda)
    (ready : Ready s.scopes i x) (e : Element) :
    Sound d excused (waitOrExit c s i e).scopes (waitOrExit c s i e).agenda := by
  rw [waitOrExit]
  split
  · exact sound_suspend h ready
  · exact sound_exit h ready

/-- A subprocess comes to rest with a token inside, or exits. -/
theorem sound_startInner (h : Sound d [i] s.scopes s.agenda) (ready : Ready s.scopes i x)
    (kind : x.element.kind = .subProcess) :
    Sound d [] (startInner d s i x.element).scopes (startInner d s i x.element).agenda := by
  rw [startInner]
  split
  next => exact sound_exit (s := s.note (.noInnerStart x.element.id)) h ready
  next start others found =>
      have inside : start ∈ d.startEvents x.element := found ▸ List.mem_cons_self
      rw [Diagram.startEvents, List.mem_filter, beq_iff_eq] at inside
      have node : start ∈ d.nodes := (List.mem_filter.mp inside.1).1
      have below := (List.getElem?_eq_some_iff.mp ready.found).1
      have child := h.addChild ready.found ready.live ready.entered (.inl kind)
        h.not_busy_of_excused node (.inl inside.2) (by
          intro j hj
          exact List.mem_singleton.mp hj ▸ below)
      have there := Scopes.getElem?_append_old ready.found (Scope.enter start (some i))
      apply child.release
      · intro y hy
        rw [Option.some.inj (hy.symm.trans there)]
        refine .inr (.inr ⟨ready.entered, .inr (.inl ?_)⟩)
        exact Scopes.hasLiveChild_append.mpr (.inr ⟨rfl, rfl⟩)
      · intro e p ids holds _ here inside
        obtain ⟨⟨y, hy, _, _, _, own⟩, _⟩ := inside i here
        rw [Option.some.inj (hy.symm.trans there)] at own
        rw [← own, Diagram.HoldsAt, kind] at holds
        cases holds.1

theorem mem_arrived {p : Nat} {gateway : String} {j : Nat} :
    j ∈ s.arrived p gateway ↔ ∃ y : Scope, s.scopes[j]? = some y ∧ y.destroyed = false ∧
      y.parent = some p ∧ y.element.id = gateway ∧ y.state = .entered := by
  rw [arrived, Scopes.mem_idsWhere]
  simp only [Bool.and_eq_true, Bool.not_eq_true', beq_iff_eq, and_assoc]

theorem sound_merges (c : d.Consistent) {p : Nat} (tokens : List Nat)
    (h : Sound d [i] s.scopes s.agenda) (ready : Ready s.scopes i x) (parent : x.parent = some p)
    (kind : x.element.kind = .parallelGateway) (distinct : tokens.Nodup) (others : i ∉ tokens)
    (merged : ∀ j ∈ tokens, j ∈ s.arrived p x.element.id) :
    Sound d [i] (tokens.foldl merge s).scopes (tokens.foldl merge s).agenda ∧
      Ready (tokens.foldl merge s).scopes i x := by
  induction tokens generalizing s with
  | nil => exact ⟨h, ready⟩
  | cons j rest ih =>
      obtain ⟨y, hy, live, under, same, entered⟩ := mem_arrived.mp (merged j List.mem_cons_self)
      have effect := Effect.merge hy
      have apart : j ≠ i := fun same => others (same ▸ List.mem_cons_self)
      have one : y.element = x.element := by
        have hx := (h.formed.proper i x ready.found).nested (by rw [parent]; simp)
        have hy := (h.formed.proper j y hy).nested (by rw [under]; simp)
        exact c.eq_of_id hy.1 hx.1 same
      have childless := h.formed.childless hy (by rw [under]; simp) (by rw [one, kind]; decide)
      have destroyed := h.destroy hy childless
        (fun _ => ⟨entered, by rw [one, kind]⟩) (by
          intro q hq
          refine .inr ⟨i, x, apart, ready.found, ?_, ready.live⟩
          rw [parent, ← under, hq])
      rw [List.foldl_cons]
      apply ih
      · rw [effect.scopes, effect.agenda, List.append_nil]
        exact destroyed
      · rw [effect.scopes]
        refine ⟨(Scopes.getElem?_modify_other apart _).trans ready.found, ready.live,
          ready.entered, ?_⟩
        intro child
        exact ready.childless (Scopes.HasLiveChild.of_modify hy (f := Scope.destroy) rfl nofun child)
      · exact (List.nodup_cons.mp distinct).2
      · exact fun again => others (List.mem_cons_of_mem _ again)
      · intro k hk
        obtain ⟨z, hz, token⟩ := mem_arrived.mp (merged k (List.mem_cons_of_mem _ hk))
        rw [mem_arrived, effect.scopes]
        refine ⟨z, (Scopes.getElem?_modify_other ?_ _).trans hz, token⟩
        intro same
        exact (List.nodup_cons.mp distinct).1 (same ▸ hk)

theorem sound_enterParallel (consistent : d.Consistent) (h : Sound d [i] s.scopes s.agenda)
    (ready : Ready s.scopes i x) (nested : x.parent ≠ none)
    (kind : x.element.kind = .parallelGateway) :
    ∃ s', enterParallel d c s i x = .ok s' ∧ Sound d [] s'.scopes s'.agenda := by
  rw [enterParallel]
  simp only [ready.live, Bool.false_eq_true, if_false]
  split
  next => exact ⟨_, rfl, sound_waitOrExit h ready x.element⟩
  next several =>
      cases parent : x.parent with
      | none => exact absurd parent nested
      | some p =>
          simp only
          split
          next few =>
              refine ⟨_, rfl, ?_⟩
              apply h.release
              · intro y hy
                rw [Option.some.inj (hy.symm.trans ready.found)]
                exact .inr (.inr ⟨ready.entered, .inl ⟨kind, by omega⟩⟩)
              · intro e q ids holds distinct here inside
                obtain ⟨⟨y, hy, _, _, under, own⟩, _⟩ := inside i here
                rw [Option.some.inj (hy.symm.trans ready.found)] at under own
                have all : ids ⊆ s.arrived p x.element.id := by
                  intro j hj
                  obtain ⟨⟨z, hz, live, entered, below, same⟩, _⟩ := inside j hj
                  refine mem_arrived.mpr ⟨z, hz, live, ?_, ?_, entered⟩
                  · rw [below, ← under, parent]
                  · rw [same, own]
                have few' := List.Nodup.length_le_of_subset distinct all
                rw [← own]
                omega
          next =>
              refine ⟨_, rfl, ?_⟩
              have distinct : (((s.arrived p x.element.id).take
                  (d.incoming x.element).length).filter (· != i)).Nodup :=
                ((Scopes.nodup_idsWhere _ _).sublist (List.take_sublist _ _)).filter _
              obtain ⟨merged, ready'⟩ := sound_merges consistent _ h ready parent kind distinct
                (by simp) (by
                  intro j hj
                  exact List.mem_of_mem_take (List.mem_filter.mp hj).1)
              exact sound_waitOrExit merged ready' x.element

theorem Merged.release (h : Sound d [i] s.scopes s.agenda) (merged : Merged s.scopes i) :
    Sound d [] s.scopes s.agenda := by
  obtain ⟨x, hx, gone, _⟩ := merged
  apply h.release
  · intro y hy
    exact .inl (Option.some.inj (hy.symm.trans hx) ▸ gone)
  · intro e p ids _ _ here inside
    obtain ⟨⟨y, hy, live, _⟩, _⟩ := inside i here
    rw [Option.some.inj (hy.symm.trans hx), gone] at live
    cases live

theorem sound_onEnter (consistent : d.Consistent) (h : Sound d [i] s.scopes s.agenda)
    (ready : Ready s.scopes i x) (nested : x.parent ≠ none) :
    ∃ s', onEnter d c s i x = .ok s' ∧ Sound d [] s'.scopes s'.agenda := by
  have sunk : (x.element.kind = .process ∨ x.element.kind = .participant) →
      Sound d [] s.scopes s.agenda := by
    intro kind
    apply h.release
    · intro y hy
      rw [Option.some.inj (hy.symm.trans ready.found)]
      exact .inr (.inr ⟨ready.entered, .inr (.inr ⟨kind, nested⟩)⟩)
    · intro e p ids holds _ here inside
      obtain ⟨⟨y, hy, _, _, _, own⟩, _⟩ := inside i here
      rw [Option.some.inj (hy.symm.trans ready.found)] at own
      rw [← own, Diagram.HoldsAt] at holds
      rw [holds.1] at kind
      cases kind with
      | inl kind => cases kind
      | inr kind => cases kind
  rw [onEnter]
  cases kind : x.element.kind with
  | startEvent | endEvent => exact ⟨_, rfl, sound_exit h ready⟩
  | intermediateCatchEvent => exact ⟨_, rfl, sound_suspend h ready⟩
  | parallelGateway => exact sound_enterParallel consistent h ready nested kind
  | subProcess =>
      refine ⟨_, rfl, ?_⟩
      split
      · exact sound_suspend h ready
      · exact sound_startInner h ready kind
  | process => exact ⟨_, rfl, sunk (.inl kind)⟩
  | participant => exact ⟨_, rfl, sunk (.inr kind)⟩
  | task | exclusiveGateway | collaboration | unknown =>
      exact ⟨_, rfl, sound_waitOrExit h ready x.element⟩

theorem sound_onSignal (h : Sound d [i] s.scopes s.agenda) (ready : Ready s.scopes i x) :
    Sound d [] (onSignal d s i x).scopes (onSignal d s i x).agenda := by
  rw [onSignal]
  split
  next kind => exact sound_startInner h ready kind
  next => exact sound_exit h ready

/-- Behind an exiting scope that is not yet destroyed, more tokens are put below its parent. -/
theorem sound_enterAll (consistent : d.Consistent) {p : Nat} (flows : List Flow)
    (known : ∀ f ∈ flows, f ∈ d.flows) (h : Sound d [i] s.scopes s.agenda)
    (hx : s.scopes[i]? = some x) (live : x.destroyed = false) (parent : x.parent = some p) :
    Sound d [i] (s.enterAll flows (some p)).scopes (s.enterAll flows (some p)).agenda ∧
      (s.enterAll flows (some p)).scopes[i]? = some x := by
  induction flows generalizing s with
  | nil => exact ⟨h, hx⟩
  | cons f rest ih =>
      have child : s.scopes.HasLiveChild p := ⟨i, x, hx, parent, live⟩
      obtain ⟨y, hy, yLive, entered, container⟩ := h.formed.running_of_child child
      have hf := known f List.mem_cons_self
      have below := (List.getElem?_eq_some_iff.mp hx).1
      have more := h.addChild hy yLive entered container (h.not_busy_of_child child)
        (consistent.target f hf) (.inr ⟨f, hf, rfl⟩) (by
          intro j hj
          exact List.mem_singleton.mp hj ▸ below)
      exact ih (s := s.enter f.target (some p)) (fun g hg => known g (List.mem_cons_of_mem _ hg))
        more (Scopes.getElem?_append_old hx _)

theorem sound_leaveExclusive (consistent : d.Consistent) {p : Nat}
    (h : Sound d [i] s.scopes s.agenda) (hx : s.scopes[i]? = some x) (live : x.destroyed = false)
    (parent : x.parent = some p) :
    Sound d [i] (leaveExclusive d c s i x).scopes (leaveExclusive d c s i x).agenda ∧
      (leaveExclusive d c s i x).scopes[i]? = some x := by
  have along : ∀ f, f ∈ d.outgoing x.element →
      Sound d [i] (s.enterAll [f] x.parent).scopes (s.enterAll [f] x.parent).agenda ∧
        (s.enterAll [f] x.parent).scopes[i]? = some x := by
    intro f hf
    rw [parent]
    apply sound_enterAll consistent [f] _ h hx live parent
    intro g hg
    exact List.mem_singleton.mp hg ▸ (Diagram.mem_outgoing.mp hf).1
  rw [leaveExclusive]
  split
  next flow only => exact along flow (only ▸ List.mem_singleton_self flow)
  next =>
      split
      next flow chosen => exact along flow (List.mem_of_find?_eq_some chosen)
      next =>
          rw [stall, hx]
          exact ⟨h, hx⟩

theorem sound_onExit (consistent : d.Consistent) (h : Sound d [i] s.scopes s.agenda)
    (hx : s.scopes[i]? = some x) (live : x.destroyed = false) :
    Sound d [i] (onExit d c s i x).scopes (onExit d c s i x).agenda ∧
      (onExit d c s i x).scopes[i]? = some x := by
  have proper := h.formed.proper i x hx
  have out : x.element.kind ≠ .process → x.element.kind ≠ .participant →
      ∃ p : Nat, x.parent = some p := by
    intro notProcess notParticipant
    cases parent : x.parent with
    | some p => exact ⟨p, rfl⟩
    | none =>
        cases proper.root parent with
        | inl kind => exact absurd kind notProcess
        | inr kind => exact absurd kind notParticipant
  have all : x.element.kind ≠ .process → x.element.kind ≠ .participant →
      Sound d [i] (s.enterAll (d.outgoing x.element) x.parent).scopes
          (s.enterAll (d.outgoing x.element) x.parent).agenda ∧
        (s.enterAll (d.outgoing x.element) x.parent).scopes[i]? = some x := by
    intro notProcess notParticipant
    obtain ⟨p, parent⟩ := out notProcess notParticipant
    rw [parent]
    exact sound_enterAll consistent _ (fun f hf => (Diagram.mem_outgoing.mp hf).1) h hx live parent
  rw [onExit]
  cases kind : x.element.kind with
  | endEvent | process | participant => exact ⟨h, hx⟩
  | exclusiveGateway =>
      obtain ⟨p, parent⟩ := out (by rw [kind]; decide) (by rw [kind]; decide)
      exact sound_leaveExclusive consistent h hx live parent
  | task | parallelGateway | startEvent | subProcess | intermediateCatchEvent | collaboration
  | unknown => exact all (by rw [kind]; decide) (by rw [kind]; decide)

theorem sound_tryExit {p : Nat} (h : Sound d [p] s.scopes s.agenda) {y : Scope}
    (hy : s.scopes[p]? = some y) (live : y.destroyed = false) (entered : y.state = .entered)
    (container : y.element.kind = .subProcess ∨ y.parent = none) :
    Sound d [] (s.tryExit p).scopes (s.tryExit p).agenda := by
  rw [tryExit, hy]
  simp only
  split
  next stays =>
      rw [live, entered] at stays
      have child : s.scopes.HasLiveChild p := by
        by_cases child : s.scopes.HasLiveChild p
        · exact child
        · rw [Scopes.isEmpty_liveChildren.mpr child] at stays
          exact absurd stays (by decide)
      apply h.release
      · intro z hz
        rw [Option.some.inj (hz.symm.trans hy)]
        exact .inr (.inr ⟨entered, .inr (.inl child)⟩)
      · intro e q ids holds _ here inside
        obtain ⟨⟨z, hz, _, _, under, own⟩, _⟩ := inside p here
        rw [Option.some.inj (hz.symm.trans hy)] at under own
        rw [← own, Diagram.HoldsAt] at holds
        cases container with
        | inl subProcess =>
            rw [subProcess] at holds
            cases holds.1
        | inr root =>
            rw [root] at under
            cases under
  next exits =>
      rw [not_or, not_or] at exits
      have childless : ¬ s.scopes.HasLiveChild p := by
        rw [← Scopes.isEmpty_liveChildren]
        simpa using exits.2.2
      exact sound_exit h ⟨hy, live, entered, childless⟩

theorem childless_of_exited (h : Sound d excused s.scopes s.agenda) (hx : s.scopes[i]? = some x)
    (exited : x.state = .exited) : ¬ s.scopes.HasLiveChild i := by
  intro child
  obtain ⟨y, hy, _, entered, _⟩ := h.formed.running_of_child child
  rw [Option.some.inj (hy.symm.trans hx), exited] at entered
  cases entered

/-- Once its scope is destroyed, a token need not be accounted for. -/
theorem release_destroyed {scopes : Scopes} {agenda : List Task}
    (h : Sound d (i :: excused) (scopes.modify i Scope.destroy) agenda)
    (hx : scopes[i]? = some x) : Sound d excused (scopes.modify i Scope.destroy) agenda := by
  have self := Scopes.getElem?_modify_self hx Scope.destroy
  apply h.release
  · intro y hy
    exact .inl (Option.some.inj (hy.symm.trans self) ▸ rfl)
  · intro e p ids _ _ here inside
    obtain ⟨⟨y, hy, live, _⟩, _⟩ := inside i here
    rw [Option.some.inj (hy.symm.trans self)] at live
    cases live

theorem sound_finishExit (consistent : d.Consistent) (h : Sound d [i] s.scopes s.agenda)
    (hx : s.scopes[i]? = some x) (live : x.destroyed = false) (exited : x.state = .exited) :
    Sound d [] (finishExit d c s i x).scopes (finishExit d c s i x).agenda := by
  obtain ⟨h, hx⟩ := sound_onExit (c := c) consistent h hx live
  have childless := childless_of_exited h hx exited
  have quiet := h.not_busy_of_excused
  rw [finishExit]
  cases parent : x.parent with
  | none =>
      have destroyed := h.destroy hx childless (fun again => absurd again quiet) (by
        intro p under
        rw [parent] at under
        cases under)
      exact release_destroyed destroyed hx
  | some p =>
      have child : (onExit d c s i x).scopes.HasLiveChild p := ⟨i, x, hx, parent, live⟩
      obtain ⟨y, hy, yLive, entered, container⟩ := h.formed.running_of_child child
      have other : p ≠ i := Nat.ne_of_lt (h.formed.inside i x p hx parent).1
      -- The parent may lose its last child, so it is excused until it has tried to exit.
      have both := h.excuse (i := p) (by simpa using other) (h.not_busy_of_child child)
      have destroyed := both.destroy hx childless (fun again => absurd again quiet) (by
        intro q under
        rw [parent] at under
        cases under
        exact .inl List.mem_cons_self)
      have swapped := destroyed.of_perm (List.Perm.swap i p [])
      apply sound_tryExit (s := (onExit d c s i x).destroy i) (release_destroyed swapped hx)
        ((Scopes.getElem?_modify_other other.symm _).trans hy) yLive entered container

end ProcessDiagram.Simulation
