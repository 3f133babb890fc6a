import Mathlib.Data.Set.Function
import ProcessDiagram.Proofs.Simulation.Reading

/-!
Independent signals commute. The two orders are played in one token game from one picture, and both
end where no token can go. Main statement: `Reached.signals_commute`.
-/
namespace ProcessDiagram

theorem exists_bijOn {γ : Type} {A B : Finset Nat} {F G : Nat → Multiset γ}
    (single : ∀ i ∈ A, ∃ t, F i = {t}) (single' : ∀ j ∈ B, ∃ t, G j = {t})
    (same : ∑ i ∈ A, F i = ∑ j ∈ B, G j) :
    ∃ φ : Nat → Nat, Set.BijOn φ A B ∧ ∀ i ∈ A, G (φ i) = F i := by
  induction A using Finset.induction_on generalizing B with
  | empty =>
      have none : B = ∅ := by
        apply Finset.eq_empty_of_forall_notMem
        intro j hj
        obtain ⟨t, ht⟩ := single' j hj
        have there : t ∈ ∑ j ∈ B, G j :=
          Multiset.mem_sum.mpr ⟨j, hj, ht ▸ Multiset.mem_singleton_self t⟩
        rw [← same, Finset.sum_empty] at there
        exact Multiset.notMem_zero t there
      subst none
      exact ⟨id, by simp, by simp⟩
  | insert i A new ih =>
      obtain ⟨t, ht⟩ := single i (Finset.mem_insert_self i A)
      rw [Finset.sum_insert new, ht] at same
      have there : t ∈ ∑ j ∈ B, G j :=
        same ▸ Multiset.mem_add.mpr (.inl (Multiset.mem_singleton_self t))
      obtain ⟨j, hj, value⟩ := Multiset.mem_sum.mp there
      obtain ⟨t', ht'⟩ := single' j hj
      rw [ht', Multiset.mem_singleton] at value
      subst value
      rw [← Finset.add_sum_erase B G hj, ht'] at same
      obtain ⟨φ, bijective, agrees⟩ := ih (fun k hk => single k (Finset.mem_insert_of_mem hk))
        (fun k hk => single' k (Finset.mem_of_mem_erase hk)) (add_left_cancel same)
      have old : ∀ k ∈ A, Function.update φ i j k = φ k := by
        intro k hk
        have apart : k ≠ i := fun here => new (here ▸ hk)
        exact Function.update_of_ne apart j φ
      refine ⟨Function.update φ i j, ?_, ?_⟩
      · have more := (bijective.congr fun k hk => (old k hk).symm).insert (a := i) (by simp)
        rw [Function.update_self, ← Finset.coe_insert, ← Finset.coe_insert,
          Finset.insert_erase hj] at more
        exact more
      · intro k hk
        cases Finset.mem_insert.mp hk with
        | inl here => rw [here, Function.update_self, ht, ht']
        | inr hk => rw [old k hk, agrees k hk]

namespace Simulation

variable {d : Diagram} {c : ConfigStore} {s s' : Simulation} {names names' : Names} {σ : Picture}

theorem happened_eq_count (s : Simulation) (kind : EventKind) (id : String) :
    s.happened kind id = s.log.count (kind, id) := by
  rw [happened, log, Multiset.count, Multiset.coe_countP, List.countP_map]
  apply List.countP_congr
  intro ev _
  simp only [Function.comp_apply, decide_eq_true_eq, Bool.and_eq_true, beq_iff_eq]
  rw [eq_comm (a := (kind, id)), Prod.mk.injEq]

/-! ## The end of a game -/

theorem Reading.fresh (h : Reading names s σ) : σ.Fresh := by
  intro t ht around e n running
  rw [h.tokens] at ht
  obtain ⟨i, x, _, _, rfl⟩ := Names.mem_tokens.mp ht
  exact h.naming.begun i around e n (Names.name_of_running running)

/-- A join does not hold as many tokens as it uses up. -/
theorem Reading.held (h : Reading names s σ) (sound : Sound d [] s.scopes s.agenda)
    (drained : s.agenda = []) {i : Nat} {x : Scope} (hx : s.scopes[i]? = some x)
    (live : x.destroyed = false) (entered : x.state = .entered) (holds : d.HoldsAt x.element) :
    σ.tokens.count (names.token i x) < (names.token i x).uses d := by
  obtain ⟨p, parent⟩ : ∃ p, x.parent = some p := by
    apply Option.ne_none_iff_exists'.mp
    intro root
    have kind := (sound.formed.proper i x hx).root root
    rw [holds.1] at kind
    exact absurd kind (by decide)
  obtain ⟨place, name⟩ := h.naming.named i x p hx live parent
  have token : names.token i x = ⟨place, x.element, .arrived⟩ := by
    rw [Names.token_of_entered entered, h.naming.unnamed_of_holds hx holds parent, parent,
      Names.placeOf, name]
    rfl
  obtain ⟨ids, distinct, count, alike⟩ := Names.count_tokens names s.scopes (names.token i x)
  rw [h.tokens, count, token, Token.uses, Diagram.share, if_pos holds]
  apply sound.held x.element p ids holds distinct
  intro j hj
  obtain ⟨y, hy, there, same⟩ := alike j hj
  rw [token, Names.token, Token.mk.injEq] at same
  obtain ⟨inside, element, phase⟩ := same
  have state : y.state = .entered := by
    rw [← Names.state_phaseOf names j (sound.formed.proper j y hy).active, phase]
    rfl
  have under := h.naming.parent_of_placeOf hy there name inside
  exact ⟨⟨y, hy, there, state, under, element⟩, List.not_mem_nil,
    by rw [drained]; exact List.not_mem_nil⟩

/-- Once a simulation is drained and nothing is asked for, no token can go. -/
theorem Reading.stuck (consistent : d.Consistent)
    (unentered : ∀ f ∈ d.flows, f.target.kind ≠ .process) (h : Reading names s σ)
    (sound : Sound d [] s.scopes s.agenda) (drained : s.agenda = []) (done : σ.requests = 0)
    (t : Token) : ¬ σ.Allows d t := by
  intro allows
  have there := allows.mem
  rw [h.tokens] at there
  obtain ⟨i, x, hx, live, rfl⟩ := Names.mem_tokens.mp there
  have quiet : i ∉ busy s.agenda := by
    rw [drained]
    exact List.not_mem_nil
  obtain gone | waiting | ⟨entered, held | child | sunk⟩ :=
    sound.settled i x hx List.not_mem_nil quiet
  · cases live.symm.trans gone
  · have asked := allows.asked (by rw [Names.token, waiting]; rfl)
    rw [done] at asked
    exact Multiset.notMem_zero _ asked
  · exact Nat.not_lt.mpr allows.there (h.held sound drained hx live entered held)
  · obtain ⟨j, y, hy, under, running⟩ := child
    obtain ⟨place, name⟩ := h.naming.named j y i hy running under
    apply allows.quiet place
    · rw [Names.token_of_entered entered, name]
      rfl
    · rw [h.tokens]
      exact Names.mem_tokens.mpr ⟨j, y, hy, running, rfl⟩
    · rw [Names.token, under, Names.placeOf, name]
      rfl
  · exact sunk.2 (parent_eq_none consistent unentered sound hx sunk.1)

/-! ## One forest -/

/-- The live scopes of two simulations correspond, with their parents. -/
structure Renamed (φ : ScopeId → ScopeId) (s s' : Simulation) : Prop where
  bijective : Set.BijOn φ {i | i ∈ s.scopes.live} {i | i ∈ s'.scopes.live}
  same : ∀ i ∈ s.scopes.live, ∀ x, s.scopes[i]? = some x → ∃ y, s'.scopes[φ i]? = some y ∧
    y.element = x.element ∧ y.state = x.state ∧ y.pending = x.pending ∧
      y.parent = x.parent.map φ

/-- The scopes that stand for the same tokens correspond to each other. -/
theorem exists_corresponding {scopes scopes' : Scopes}
    (one : names.tokens scopes = names'.tokens scopes') :
    ∃ φ : Nat → Nat, Set.BijOn φ {i | i ∈ scopes.live} {i | i ∈ scopes'.live} ∧
      ∀ (i : Nat) (x : Scope), scopes[i]? = some x → x.destroyed = false →
        ∃ y, scopes'[φ i]? = some y ∧ y.destroyed = false ∧
          names'.token (φ i) y = names.token i x := by
  have single : ∀ (names : Names) (scopes : Scopes), ∀ i ∈ scopes.live.toFinset,
      ∃ t, names.marks scopes i = {t} := by
    intro names scopes i hi
    obtain ⟨x, hx, live⟩ := Scopes.mem_live.mp (List.mem_toFinset.mp hi)
    exact ⟨_, Names.marks_of_live hx live⟩
  rw [Names.tokens_live, Names.tokens_live] at one
  obtain ⟨φ, bijective, agrees⟩ := exists_bijOn (single _ _) (single _ _) one
  rw [List.coe_toFinset, List.coe_toFinset] at bijective
  refine ⟨φ, bijective, ?_⟩
  intro i x hx live
  have there : i ∈ scopes.live := Scopes.mem_live.mpr ⟨x, hx, live⟩
  obtain ⟨y, hy, live'⟩ := Scopes.mem_live.mp (bijective.mapsTo there)
  have value := agrees i (List.mem_toFinset.mpr there)
  rw [Names.marks_of_live hx live, Names.marks_of_live hy live', Multiset.singleton_inj] at value
  exact ⟨y, hy, live', value⟩

/-- Two simulations with one picture differ in the ids of their scopes only. -/
theorem exists_renamed (h : Reading names s σ) (h' : Reading names' s' σ)
    (sound : Sound d [] s.scopes s.agenda) (sound' : Sound d [] s'.scopes s'.agenda) :
    ∃ φ, Renamed φ s s' := by
  obtain ⟨φ, bijective, token⟩ := exists_corresponding (h.tokens.symm.trans h'.tokens)
  refine ⟨φ, bijective, ?_⟩
  intro i hi x hx
  obtain ⟨x', hx', live⟩ := Scopes.mem_live.mp hi
  rw [Option.some.inj (hx'.symm.trans hx)] at live
  obtain ⟨y, hy, live', value⟩ := token i x hx live
  rw [Names.token, Names.token, Token.mk.injEq] at value
  obtain ⟨place, element, phase⟩ := value
  have proper := sound.formed.proper i x hx
  have proper' := sound'.formed.proper (φ i) y hy
  have state : y.state = x.state := by
    rw [← Names.state_phaseOf names' (φ i) proper'.active, phase,
      Names.state_phaseOf names i proper.active]
  have pending : y.pending = x.pending := by
    rw [Bool.eq_iff_iff, proper'.pending, proper.pending, state]
  refine ⟨y, hy, element, state, pending, ?_⟩
  cases parent : x.parent with
  | none =>
      rw [parent] at place
      exact h'.naming.parent_eq_none hy live' place
  | some p =>
      -- The parent runs, and its token tells the name of its inside; the same name tells which
      -- scope is the parent in the other simulation.
      obtain ⟨_, z, hz, inside⟩ := sound.formed.inside i x p hx parent
      obtain ⟨running, entered⟩ := inside.running live
      obtain ⟨place', name⟩ := h.naming.named i x p hx live parent
      obtain ⟨w, hw, _, above⟩ := token p z hz running
      rw [Names.token_of_entered entered, name] at above
      have name' := Names.name_of_running (congrArg Token.phase above)
      rw [parent, Names.placeOf, name] at place
      exact h'.naming.parent_of_placeOf hy live' name' place

/-! ## Two signals -/

/-- Two scopes that wait are signalled one after the other; the second is still there. -/
theorem Reading.signals (consistent : d.Consistent) {k l : Nat} (h : Reading names s σ)
    (sound : Sound d [] s.scopes s.agenda) (drained : s.agenda = []) {a b : Nat} {x y : Scope}
    (other : a ≠ b) (ha : s.scopes[a]? = some x) (hb : s.scopes[b]? = some y)
    (first : x.isWaiting = true) (second : y.isWaiting = true)
    (asked : σ.requests = {names.token a x, names.token b y})
    (ended : (signalAndRun d c k s a).1.agenda = [])
    (ended' : (signalAndRun d c l (signalAndRun d c k s a).1 b).1.agenda = []) :
    (signalAndRun d c k s a).2 = .ok () ∧ b < (signalAndRun d c k s a).1.scopes.length ∧
      (signalAndRun d c l (signalAndRun d c k s a).1 b).2 = .ok () ∧
      Played d c names σ 0 (signalAndRun d c l (signalAndRun d c k s a).1 b).1 := by
  obtain ⟨_, pending, live⟩ := state_of_isWaiting sound ha first
  obtain ⟨state, pending', live'⟩ := state_of_isWaiting sound hb second
  obtain ⟨s₁, s', n, resumes, sound', queued, run⟩ :=
    resumes_of_ended consistent sound drained ha live pending ended
  have there : (signalAndRun d c k s a).1.scopes[b]? = some y := by
    rw [run]
    exact resumes.waiting consistent sound' queued n other hb state
  have later := sound_signalAndRun (c := c) consistent k sound drained a
  obtain ⟨_, _, _, _, _, _, run'⟩ :=
    resumes_of_ended consistent later ended there live' pending' ended'
  refine ⟨by rw [run], (List.getElem?_eq_some_iff.mp there).1, by rw [run'], ?_⟩
  have played := h.signal consistent sound drained ha first (by rw [asked]; simp) ended
  apply played.trans
  intro names' σ' reading left more
  have own := Names.token_of_waiting h.naming hb live' state more
  have rest : σ'.requests = {names'.token b y} := by
    rw [left, asked, own, Multiset.insert_eq_cons, Multiset.erase_cons_head]
  have played' := reading.signal consistent later ended there second (by rw [rest]; simp) ended'
  rw [rest, Multiset.erase_singleton] at played'
  exact played'

/-- Two simulations that cannot be told apart but by the ids of scopes and the order of events. -/
structure Alike (s s' : Simulation) : Prop where
  forest : ∃ φ, Renamed φ s s'
  exitCounts : ∀ id, s.exitCount id = s'.exitCount id
  events : ∀ kind id, s.happened kind id = s'.happened kind id

/-- Independent signals commute: in whatever order two waiting scopes are signalled, both signals
succeed and lead to the same, where the runs come to their ends. -/
theorem Reached.signals_commute (built : d.Built) (contained : d.StartsContained)
    (unentered : ∀ f ∈ d.flows, f.target.kind ≠ .process) (h : Reached d c s) {a b : ScopeId}
    {x y : Scope} (other : a ≠ b) (ha : s.scopes[a]? = some x) (hb : s.scopes[b]? = some y)
    (first : x.isWaiting = true) (second : y.isWaiting = true) {k l m n : Nat}
    {sA sAB sB sBA : Simulation} {rA rAB rB rBA : Except SimulationError Unit}
    (runA : signalAndRun d c k s a = (sA, rA)) (runAB : signalAndRun d c l sA b = (sAB, rAB))
    (runB : signalAndRun d c m s b = (sB, rB)) (runBA : signalAndRun d c n sB a = (sBA, rBA))
    (endedAB : sA.agenda = [] ∧ sAB.agenda = []) (endedBA : sB.agenda = [] ∧ sBA.agenda = []) :
    (rA = .ok () ∧ rAB = .ok ()) ∧ (rB = .ok () ∧ rBA = .ok ()) ∧ Alike sAB sBA := by
  have consistent := built.consistent
  obtain ⟨sound, drained⟩ := h.sound built contained
  obtain rfl : (signalAndRun d c k s a).1 = sA := congrArg Prod.fst runA
  obtain rfl : (signalAndRun d c m s b).1 = sB := congrArg Prod.fst runB
  obtain rfl : (signalAndRun d c l (signalAndRun d c k s a).1 b).1 = sAB := congrArg Prod.fst runAB
  obtain rfl : (signalAndRun d c n (signalAndRun d c m s b).1 a).1 = sBA := congrArg Prod.fst runBA
  let names := Names.known s.scopes
  let σ : Picture :=
    ⟨names.tokens s.scopes, {names.token a x, names.token b y}, 0, s.log⟩
  have reading : Reading names s σ := by
    refine ⟨?_, rfl, rfl⟩
    rw [drained]
    exact Names.naming_known sound.formed
  obtain ⟨okA, thereB, okAB, namesAB, σAB, gameAB, readingAB, doneAB, _⟩ :=
    reading.signals consistent sound drained other ha hb first second rfl endedAB.1 endedAB.2
  obtain ⟨okB, thereA, okBA, namesBA, σBA, gameBA, readingBA, doneBA, _⟩ :=
    reading.signals consistent sound drained other.symm hb ha second first
      (Multiset.pair_comm _ _) endedBA.1 endedBA.2
  rw [runA] at okA
  rw [runAB] at okAB
  rw [runB] at okB
  rw [runBA] at okBA
  have reachedAB :=
    (h.signal (List.getElem?_eq_some_iff.mp ha).1 endedAB.1).signal thereB endedAB.2
  have reachedBA :=
    (h.signal (List.getElem?_eq_some_iff.mp hb).1 endedBA.1).signal thereA endedBA.2
  have soundAB := (reachedAB.sound built contained).1
  have soundBA := (reachedBA.sound built contained).1
  have one : σAB = σBA := Picture.eq_of_stuck reading.fresh gameAB gameBA
    (readingAB.stuck consistent unentered soundAB endedAB.2 doneAB)
    (readingBA.stuck consistent unentered soundBA endedBA.2 doneBA)
  subst one
  refine ⟨⟨okA, okAB⟩, ⟨okB, okBA⟩, exists_renamed readingAB readingBA soundAB soundBA, ?_, ?_⟩
  · intro id
    rw [reachedAB.exitCount_eq, reachedBA.exitCount_eq, happened_eq_count, happened_eq_count,
      ← readingAB.log, readingBA.log]
  · intro kind id
    rw [happened_eq_count, happened_eq_count, ← readingAB.log, readingBA.log]

/-- Both tasks of a pair, signalled in either order. -/
theorem signals_commute_twin :
    ((signalAndRun .twin twinConfig 20 twinStarted 3).2 = .ok () ∧
        (signalAndRun .twin twinConfig 20
          (signalAndRun .twin twinConfig 20 twinStarted 3).1 4).2 = .ok ()) ∧
      ((signalAndRun .twin twinConfig 20 twinStarted 4).2 = .ok () ∧
        (signalAndRun .twin twinConfig 20
          (signalAndRun .twin twinConfig 20 twinStarted 4).1 3).2 = .ok ()) ∧
      Alike
        (signalAndRun .twin twinConfig 20 (signalAndRun .twin twinConfig 20 twinStarted 3).1 4).1
        (signalAndRun .twin twinConfig 20 (signalAndRun .twin twinConfig 20 twinStarted 4).1 3).1 :=
  Reached.signals_commute (a := 3) (b := 4) (k := 20) (l := 20) (m := 20) (n := 20)
    (x := ⟨Diagram.forkNode "a" .task, some 0, .waiting, false, true⟩)
    (y := ⟨Diagram.forkNode "b" .task, some 0, .waiting, false, true⟩)
    Diagram.built_twin (by unfold Diagram.StartsContained; decide) (by decide) reached_twin
    (by decide) (by decide +kernel) (by decide +kernel) rfl rfl Prod.mk.eta.symm Prod.mk.eta.symm
    Prod.mk.eta.symm Prod.mk.eta.symm (by decide +kernel) (by decide +kernel)

end Simulation
end ProcessDiagram
