import ProcessDiagram.Proofs.Compilation.Runs
import ProcessDiagram.Proofs.Compilation.Sequences

/-!
What the guard against cycles does. A walk that ends has left every set of elements that flows
never lead out of, so where one succeeds there was no cycle ahead of it. Where there is none,
nothing that was seen or opened comes up again, and only a missing or ambiguous join can be in
the way.
-/
namespace ProcessDiagram

namespace Diagram

/-- From every one of the ids a flow goes on to one of them. -/
def Endless (d : Diagram) (ids : String → Prop) : Prop :=
  ∀ id, ids id → ∃ f ∈ d.flows, f.source.id = id ∧ ids f.target.id

/-- Whatever leads to a flow of a cycle leads on without end. -/
theorem endless_of_cycle {d : Diagram} {f : Flow} (hf : f ∈ d.flows)
    (back : d.Leads f.target.id f.source.id) : d.Endless fun id => d.Leads id f.source.id := by
  intro id leads
  rcases leads.cases_head with rfl | ⟨g, hg, source, onward⟩
  · exact ⟨f, hf, rfl, back⟩
  · exact ⟨g, hg, source, onward⟩

end Diagram

namespace Compilation

variable {d : Diagram}

section Endless

variable {ids : String → Prop} {e : Element}

theorem exists_outgoing_of_endless (endless : d.Endless ids) (h : ids e.id) :
    ∃ f ∈ d.outgoing e, ids f.target.id := by
  obtain ⟨f, hf, source, onward⟩ := endless e.id h
  exact ⟨f, Diagram.mem_outgoing.mpr ⟨hf, source⟩, onward⟩

theorem exists_successor_of_endless (c : d.Consistent) (endless : d.Endless ids)
    (single : (d.outgoing e).length ≤ 1) (h : ids e.id) :
    ∃ next, d.successor? e = some next ∧ next ∈ d.nodes ∧ ids next.id := by
  obtain ⟨f, hf, onward⟩ := exists_outgoing_of_endless endless h
  match out : d.outgoing e with
  | [] =>
      rw [out] at hf
      cases hf
  | [g] =>
      have node := c.target_mem hf
      rw [out, List.mem_singleton] at hf
      cases hf
      exact ⟨f.target, by rw [Diagram.successor?, out]; rfl, node, onward⟩
  | g :: g' :: rest =>
      rw [out] at single
      simp at single

/-- A walk that ends among elements that lead on without end ends at its stop. -/
theorem stop_of_endless (c : d.Consistent) (exits : d.SingleExits) (endless : d.Endless ids) :
    (∀ stop current n items m, Walked d stop current n items m →
      ∀ e, current = some e → e ∈ d.nodes → ids e.id → ∃ id, stop = some id ∧ ids id) ∧
    (∀ join flows n children m, Branched d join flows n children m →
      ∀ f ∈ flows, f.target ∈ d.nodes → ids f.target.id → ids join.id) := by
  apply walked_induction
  case finished =>
    intro stop n e none
    cases none
  case ended =>
    intro stop e n ends e' same node among
    cases same
    cases ends with
    | inl here => exact ⟨e.id, here.symm, among⟩
    | inr last =>
        obtain ⟨f, hf, _⟩ := exists_outgoing_of_endless endless among
        rw [exits.ends e node last] at hf
        cases hf
  case work =>
    intro stop e n m items _ role _ ih e' same node among
    cases same
    have single := length_outgoing_le_one exits node (by simp [role])
    obtain ⟨next, onward, node', among'⟩ := exists_successor_of_endless c endless single among
    exact ih next onward node' among'
  case pass =>
    intro stop e n m items _ role _ ih e' same node among
    cases same
    have single := length_outgoing_le_one exits node (by rcases role with role | role <;> simp [role])
    obtain ⟨next, onward, node', among'⟩ := exists_successor_of_endless c endless single among
    exact ih next onward node' among'
  case split =>
    intro stop e join n k m children items _ role closes _ _ ihBranches ihWalk e' same node among
    cases same
    obtain ⟨f, hf, onward⟩ := exists_outgoing_of_endless endless among
    have joinAmong := ihBranches f hf (c.target_mem hf) onward
    have joinNode := (Diagram.findJoin_spec closes).1
    by_cases here : some join.id = stop ∨ 1 < (d.outgoing join).length
    · exact ihWalk join (if_pos here) joinNode joinAmong
    · have single : (d.outgoing join).length ≤ 1 := by
        rw [not_or] at here
        omega
      obtain ⟨next, onward, node', among'⟩ :=
        exists_successor_of_endless c endless single joinAmong
      exact ihWalk next ((if_neg here).trans onward) node' among'
  case nil =>
    intro join n f hf
    cases hf
  case cons =>
    intro join f rest n k m items others _ _ ihWalk ihRest g hg node among
    cases List.mem_cons.mp hg with
    | inl same =>
        cases same
        obtain ⟨id, same, among'⟩ := ihWalk f.target rfl node among
        cases same
        exact among'
    | inr later => exact ihRest g later node among

end Endless

/-- A walk without a stop ends only where no cycle is ahead. -/
theorem not_cycleFrom_of_walked (c : d.Consistent) (exits : d.SingleExits) {start : Element}
    (node : start ∈ d.nodes) {n m : Numbers} {items : List Region}
    (walked : Walked d none (some start) n items m) : ¬ d.CycleFrom start.id := by
  intro ⟨f, hf, leads, back⟩
  have endless := Diagram.endless_of_cycle hf back
  obtain ⟨id, none, _⟩ :=
    (stop_of_endless c exits endless).1 _ _ _ _ _ walked start rfl node leads
  cases none

/-- A failure for want of a join. -/
def JoinFailure (err : StructuralError) : Prop :=
  (∃ split, err = .joinNotFound split) ∨
    ∃ split candidates, err = .ambiguousJoin split candidates

theorem joinFailure_of_joinOf {split : Element} {s t : State} {err : StructuralError}
    (h : outcome (joinOf d split) s = (.error err, t)) : JoinFailure err := by
  obtain ⟨u, reported, _⟩ := silent_report ((d.findJoin split).records split) s
  rw [joinOf, outcome_bind_of_ok reported] at h
  cases found : d.findJoin split with
  | closesAt join =>
      rw [found] at h
      cases h
  | noBranch | noGateway =>
      rw [found] at h
      cases h
      exact .inl ⟨_, rfl⟩
  | ambiguous candidates =>
      rw [found] at h
      cases h
      exact .inr ⟨_, _, rfl⟩

/-- Where no cycle is ahead, a walk fails for want of a join only. -/
theorem joinFailure_of_runs {start : String} (acyclic : ¬ d.CycleFrom start)
    {opened seen : List String} {stop : Option String} {current : Option Element} {s : State}
    {result : Outcome (List Region)} (h : Runs d opened seen stop current s result)
    (ahead : ∀ e, current = some e → Ahead d start opened seen e) (err : StructuralError)
    (failed : result.1 = .error err) : JoinFailure err := by
  revert ahead err
  refine @Runs.rec d
    (fun opened seen _ current _ result _ =>
      (∀ e, current = some e → Ahead d start opened seen e) →
        ∀ err, result.1 = .error err → JoinFailure err)
    (fun opened _ _ _ flows _ result _ =>
      (∀ f ∈ flows, Ahead d start opened [] f.target) →
        ∀ err, result.1 = .error err → JoinFailure err)
    ?finished ?ended ?again ?work ?pass ?unsupported ?inside ?unjoined ?fails ?split
    ?noFlow ?flowFails ?flow _ _ _ _ _ _ h
  case finished =>
    intro opened seen stop s _ err failed
    cases failed
  case ended =>
    intro opened seen stop e s _ _ err failed
    cases failed
  case again =>
    intro opened seen stop e s _ again ahead err _
    exact absurd again ((ahead e rfl).not_seen acyclic)
  case work =>
    intro opened seen stop e s s₁ s₂ t id r _ _ _ _ _ _ ih ahead err failed
    exact ih (ahead e rfl).successor err (eq_error_of_map failed)
  case pass =>
    intro opened seen stop e s s₁ result _ _ _ _ _ ih ahead
    exact ih (ahead e rfl).successor
  case unsupported =>
    intro opened seen stop e s s₁ s₂ result _ _ _ _ _ _ ih ahead
    exact ih (ahead e rfl).successor
  case inside =>
    intro opened seen stop e s _ _ _ again ahead err _
    exact absurd again ((ahead e rfl).not_opened acyclic)
  case unjoined =>
    intro opened seen stop e s t err' _ _ _ _ found _ err failed
    cases failed
    exact joinFailure_of_joinOf found
  case fails =>
    intro opened seen stop e join s s₁ t err' _ _ _ _ _ _ ihBranches ahead
    exact ihBranches fun f hf => (ahead e rfl).branch hf
  case split =>
    intro opened seen stop e join s s₁ s₂ s₃ s₄ t children id r _ _ role _ found _ _ _ _ _ ihWalk
      ahead err failed
    have closes := (joinOf_eq_ok found).1
    exact ihWalk ((ahead e rfl).afterJoin role closes) err (eq_error_of_map failed)
  case noFlow =>
    intro opened split join index s _ err failed
    cases failed
  case flowFails =>
    intro opened split join index f flows s s₁ t err' _ _ ihWalk ahead
    apply ihWalk
    intro e same
    cases same
    exact ahead f List.mem_cons_self
  case flow =>
    intro opened split join index f flows s s₁ s₂ s₃ t items child r _ _ _ _ _ ihRest ahead err
      failed
    exact ihRest (fun g hg => ahead g (List.mem_cons_of_mem _ hg)) err
      (eq_error_of_map failed)

end Compilation

namespace Diagram

open Compilation

variable {d : Diagram}

/-- What the guard against cycles does for a diagram. -/
structure Guarded (d : Diagram) : Prop where
  /-- Every walk gives regions or fails after finitely many steps. -/
  ends : ∀ (start stop : Option Element) (s : State),
    (∃ items t, Runs d [] [] (stop.map (·.id)) start s (.ok items, t)) ∨
      ∃ err t, Runs d [] [] (stop.map (·.id)) start s (.error err, t)
  result : ∀ (start stop : Option Element) (s : State) (result : Outcome (List Region)),
    Runs d [] [] (stop.map (·.id)) start s result ↔ outcome (walkBetween d start stop) s = result
  /-- Where a scope compiles, no cycle can be reached from its start event. -/
  sound : d.SingleExits → ∀ (scope : Option Element) (validated : Bool)
    (compiled : CompiledScope), (d.compile scope validated).value = .ok compiled →
      ∃ start, d.entry scope = .ok start ∧ ¬ d.CycleFrom start.id
  /-- Where no cycle can be reached, all that is left to fail is the search for a join. -/
  complete : ∀ (scope : Option Element) (validated : Bool) (start : Element)
    (err : StructuralError), (validated = true → d.scopeViolations = []) →
      d.entry scope = .ok start → ¬ d.CycleFrom start.id →
        (d.compile scope validated).value = .error err → JoinFailure err

theorem guarded (built : d.Built) : d.Guarded := by
  have c := built.consistent
  constructor
  case ends =>
    intro start stop s
    have runs := (runs_walk d).1 [] [] (stop.map (·.id)) start s
    cases result : outcome (walk d [] [] (stop.map (·.id)) start) s with
    | mk r t =>
        rw [result] at runs
        cases r with
        | ok items => exact .inl ⟨items, t, runs⟩
        | error err => exact .inr ⟨err, t, runs⟩
  case result =>
    intro start stop s result
    exact runs_iff
  case sound =>
    intro exits scope validated compiled success
    obtain ⟨start, items, m, entry, walked, _⟩ := walked_of_compile success
    exact ⟨start, entry, not_cycleFrom_of_walked c exits (start_mem entry) walked⟩
  case complete =>
    intro scope validated start err valid entry acyclic failure
    obtain ⟨top, here, found⟩ := entry_eq_ok entry
    rw [value_compile valid here found] at failure
    cases result : outcome (walk d [] [] none (some start)) (State.start d none) with
    | mk r t =>
        cases r with
        | ok items =>
            rw [compileFrom_of_walk result] at failure
            cases failure
        | error err' =>
            rw [compileFrom_of_failed result] at failure
            cases failure
            refine joinFailure_of_runs acyclic (runs_iff.mpr result) ?_ err rfl
            intro e same
            cases same
            exact .start start

/-- A choice whose branches meet at the end event only. -/
def unjoined : Diagram :=
  let start := forkNode "s" .startEvent
  let split := forkNode "g" .exclusiveGateway
  let left := forkNode "a" .task
  let right := forkNode "b" .task
  let done := forkNode "e" .endEvent
  ⟨⟨"p", .process, "", none, .zero⟩, [start, split, left, right, done],
    [⟨"Flow_1", start, split⟩, ⟨"Flow_2", split, left⟩, ⟨"Flow_3", split, right⟩,
      ⟨"Flow_4", left, done⟩, ⟨"Flow_5", right, done⟩]⟩

theorem built_unjoined : unjoined.Built :=
  built_of_grow rfl (by decide +kernel)

theorem guarded_unjoined :
    (∃ start, fork.entry none = .ok start ∧ ¬ fork.CycleFrom start.id) ∧
      ∃ err, (unjoined.compile none true).value = .error err ∧ JoinFailure err := by
  constructor
  · exact (guarded built_fork).sound singleExits_fork none true forkCompiled value_compile_fork
  · have fails : ∃ err, (unjoined.compile none true).value = .error err := ⟨_, by cbv⟩
    obtain ⟨err, failure⟩ := fails
    have acyclic : unjoined.Acyclic := by
      apply acyclic_of_rank fun id => ["s", "g", "a", "b", "e"].idxOf id
      decide
    exact ⟨err, failure, (guarded built_unjoined).complete none true (forkNode "s" .startEvent) err
      (fun _ => by decide) (by decide) (acyclic.not_cycleFrom "s") failure⟩

end Diagram
end ProcessDiagram
