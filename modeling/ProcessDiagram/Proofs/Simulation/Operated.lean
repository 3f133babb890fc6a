import ProcessDiagram.Proofs.Simulation.Protocol

/-!
A simulation that is operated under one configuration: it is started at the root, and waiting scopes
of some elements are signalled. Between two operations the simulation is at rest. Main statement:
`Operated.keeps`.
-/
namespace ProcessDiagram.Simulation

variable {d : Diagram} {c : ConfigStore} {allowed : Element → Prop} {P : Simulation → Prop}
  {s s' : Simulation} {i : Nat} {x : Scope}

/-- Nothing is left to be done, and what was done is accounted for. -/
structure Resting (d : Diagram) (s : Simulation) : Prop where
  sound : Sound d [] s.scopes s.agenda
  drained : s.agenda = []
  accounts : ∃ fired, Accounts d fired s
  booked : Booked s

namespace Resting

theorem empty (d : Diagram) : Resting d .empty :=
  ⟨.nil d, rfl, ⟨_, .empty d⟩, ⟨fun _ none => absurd none List.not_mem_nil, rfl⟩⟩

theorem of_reached (built : d.Built) (contained : d.StartsContained) (h : Reached d c s) :
    Resting d s := by
  obtain ⟨sound, drained⟩ := h.sound built contained
  exact ⟨sound, drained, (persists_accounts built.consistent).reached built contained h,
    Booked.lasting.reached ⟨fun _ none => absurd none List.not_mem_nil, rfl⟩ h⟩

theorem eq_of_id (consistent : d.Consistent) (h : Resting d s) (hx : s.scopes[i]? = some x)
    {e : Element} (node : e ∈ d.nodes) (own : x.element.id = e.id) : x.element = e := by
  obtain ⟨_, accounts⟩ := h.accounts
  have known := accounts.known x (List.mem_of_getElem? hx)
  exact consistent.eq_of_id_of_known known (List.mem_cons_of_mem _ node) own

theorem gateway (h : Resting d s) (hx : s.scopes[i]? = some x)
    (kind : x.element.kind = .exclusiveGateway) :
    x.destroyed = true ∨ x.destroyed = false ∧ x.state = .waiting ∧ x.pending = true := by
  have settled := h.sound.settled i x hx nofun (by rw [h.drained]; exact nofun)
  cases gone : x.destroyed with
  | true => exact .inl rfl
  | false =>
      right
      have waiting : x.state = .waiting := by
        obtain destroyed | waiting | ⟨_, held | child | sunk⟩ := settled
        · cases gone.symm.trans destroyed
        · exact waiting
        · cases kind.symm.trans held.1
        · have container := container_of_child h.sound hx child
          rw [kind] at container
          simp at container
        · have process := sunk.1
          rw [kind] at process
          simp at process
      exact ⟨rfl, waiting, (h.sound.formed.proper i x hx).pending.mpr waiting⟩

end Resting

/-- Starts at the root, and signals to scopes of the elements that are allowed; each of them has come
to its end. -/
inductive Operated (d : Diagram) (c : ConfigStore) (allowed : Element → Prop) (s : Simulation) :
    Simulation → Prop
  | refl : Operated d c allowed s s
  | start {s' : Simulation} (bound : Nat) : Operated d c allowed s s' →
      (s'.start d c bound none).1.agenda = [] → Operated d c allowed s (s'.start d c bound none).1
  | signal {s' : Simulation} (bound : Nat) {i : ScopeId} : Operated d c allowed s s' →
      (∀ x, s'.scopes[i]? = some x → allowed x.element) →
      (s'.signalAndRun d c bound i).1.agenda = [] →
      Operated d c allowed s (s'.signalAndRun d c bound i).1

namespace Operated

theorem trans {s'' : Simulation} (first : Operated d c allowed s s')
    (second : Operated d c allowed s' s'') : Operated d c allowed s s'' := by
  induction second with
  | refl => exact first
  | start bound _ ended ih => exact .start bound ih ended
  | signal bound _ named ended ih => exact .signal bound ih named ended

theorem mono {more : Element → Prop} (h : Operated d c allowed s s')
    (wider : ∀ e, allowed e → more e) : Operated d c more s s' := by
  induction h with
  | refl => exact .refl
  | start bound _ ended ih => exact .start bound ih ended
  | signal bound _ named ended ih => exact .signal bound ih (fun x hx => wider _ (named x hx)) ended

theorem sound (consistent : d.Consistent) (h : Operated d c allowed s s')
    (sound : Sound d [] s.scopes s.agenda) (drained : s.agenda = []) :
    Sound d [] s'.scopes s'.agenda ∧ s'.agenda = [] := by
  induction h with
  | refl => exact ⟨sound, drained⟩
  | start bound _ ended ih =>
      exact ⟨sound_start consistent (containsStart_none consistent) bound ih.1 ih.2 nofun, ended⟩
  | signal bound _ _ ended ih => exact ⟨sound_signalAndRun consistent bound ih.1 ih.2 _, ended⟩

/-- What is sustained is kept. -/
theorem keeps (consistent : d.Consistent) (h : Operated d c allowed s s')
    (sustains : Sustains d c allowed P) (sound : Sound d [] s.scopes s.agenda)
    (drained : s.agenda = []) (hs : P s) : P s' := by
  induction h with
  | refl => exact hs
  | start bound before _ ih =>
      obtain ⟨sound, drained⟩ := before.sound consistent sound drained
      exact sustains.start consistent (containsStart_none consistent) bound sound drained nofun ih
  | signal bound before named ended ih =>
      obtain ⟨sound, drained⟩ := before.sound consistent sound drained
      exact sustains.signal consistent bound sound drained named ended ih

theorem lasts (h : Operated d c allowed s s') (lasting : Lasting P) (hs : P s) : P s' := by
  induction h with
  | refl => exact hs
  | start bound _ _ ih => exact lasting.start bound ih none
  | signal bound _ _ _ ih => exact lasting.signalAndRun bound ih _

theorem resting (consistent : d.Consistent) (h : Operated d c allowed s s')
    (rest : Resting d s) : Resting d s' := by
  obtain ⟨sound, drained⟩ := h.sound consistent rest.sound rest.drained
  have accounted := (persists_accounts consistent).endures.sustains c allowed
  exact ⟨sound, drained, h.keeps consistent accounted rest.sound rest.drained rest.accounts,
    h.lasts Booked.lasting rest.booked⟩

end Operated
end ProcessDiagram.Simulation
