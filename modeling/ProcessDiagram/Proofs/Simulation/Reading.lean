import ProcessDiagram.Proofs.Simulation.Inputs
import ProcessDiagram.Proofs.Simulation.Naming

/-!
A simulation read as a token game: its picture has the tokens that its live scopes stand for. Main
statement: `Reading.signal`, what follows from a signal is played in the game.
-/
namespace ProcessDiagram.Simulation

/-- What has happened, in no order. -/
def log (s : Simulation) : Multiset (EventKind × String) :=
  .ofList (s.events.map fun ev => (ev.kind, ev.element))

variable {d : Diagram} {c : ConfigStore} {s s' : Simulation} {names : Names} {σ : Picture} {i : Nat}
  {x : Scope}

theorem Change.log {scopes : Scopes} {added : List Task} {counts : List (String × Nat)}
    {told : List Event} (change : Change s s' scopes added counts told) :
    s'.log = s.log + .ofList (told.map fun ev => (ev.kind, ev.element)) := by
  rw [Simulation.log, change.events, List.map_append]
  rfl

/-- A picture of a simulation. -/
structure Reading (names : Names) (s : Simulation) (σ : Picture) : Prop where
  naming : Naming names s.scopes s.agenda σ.begun
  tokens : σ.tokens = names.tokens s.scopes
  log : σ.log = s.log

/-- The game is played from one picture to a picture of a simulation; names are kept, and some
requests are left. -/
def Played (d : Diagram) (c : ConfigStore) (names : Names) (σ : Picture)
    (requests : Multiset Token) (s' : Simulation) : Prop :=
  ∃ (names' : Names) (σ' : Picture), Relation.ReflTransGen (Picture.Fires d c) σ σ' ∧
    Reading names' s' σ' ∧ σ'.requests = requests ∧
    ∀ (i : Nat) (place : Place), names i = some place → names' i = some place

theorem Played.head {σ' : Picture} {requests : Multiset Token}
    (first : Picture.Fires d c σ σ') (h : Played d c names σ' requests s') :
    Played d c names σ requests s' := by
  obtain ⟨names', σ'', run, rest⟩ := h
  exact ⟨names', σ'', run.head first, rest⟩

theorem Played.trans {s'' : Simulation} {requests requests' : Multiset Token}
    (first : Played d c names σ requests s')
    (second : ∀ names' σ', Reading names' s' σ' → σ'.requests = requests →
      (∀ (i : Nat) (place : Place), names i = some place → names' i = some place) →
        Played d c names' σ' requests' s'') : Played d c names σ requests' s'' := by
  obtain ⟨names', σ', run, reading, left, more⟩ := first
  obtain ⟨names'', σ'', run', reading', left', more'⟩ := second names' σ' reading left more
  exact ⟨names'', σ'', run.trans run', reading', left',
    fun i place name => more' i place (more i place name)⟩

/-- A token starts a scope and is running from then on. -/
theorem played_starts {first : Element} (naming : Naming names s.scopes s.agenda σ.begun)
    (ready : Ready s.scopes i x)
    (tokens : σ.tokens = names.others s.scopes i
      + {⟨names.placeOf x.parent, x.element, .starting⟩})
    (log : σ.log = s.log) (passed : d.passed x.element = .starts first) (unnamed : names i = none)
    (quiet : .enter i ∉ s.agenda)
    (change : Change s s' (s.scopes ++ [Scope.enter first (some i)]) [.enter s.scopes.length]
      s.exitCounts [⟨.enter, first.id, s.scopes.length⟩]) :
    Played d c names σ σ.requests s' := by
  let t : Token := ⟨names.placeOf x.parent, x.element, .starting⟩
  let inside : Place := .inner t.place x.element (σ.begun.count (t.place, x.element))
  let names' : Names := Function.update names i (some inside)
  have kind := (Diagram.of_passed_starts passed).1
  have naming' : Naming names' s.scopes s.agenda ((t.place, x.element) ::ₘ σ.begun) :=
    naming.begin ready.found (by rw [ready.entered]; decide) kind unnamed quiet t.place x.element
  obtain ⟨fires, after⟩ := Picture.fires_of_eq (d := d) (c := c) (t := t) tokens (by simp [t])
    (by simp [t])
  refine ⟨names', σ.fire d c t, .single fires, ⟨?_, ?_, ?_⟩, rfl, ?_⟩
  · rw [change.scopes, change.agenda]
    apply naming'.enterAll [first]
    intro p under
    cases under
    exact ⟨inside, Function.update_self ..⟩
  · rw [after, change.scopes, Names.tokens_begin ready (naming.unnamed (Nat.le_refl _))]
    simp only [Token.yields, t, passed]
    rfl
  · rw [change.log, Picture.fire, log]
    simp only [Token.tells, t, passed]
    rfl
  · intro j place name
    have other : j ≠ i := by
      intro same
      rw [same, unnamed] at name
      cases name
    exact (Function.update_of_ne other _ _).trans name

/-- A token that goes its way: where it starts a scope, that is one more step of the game. -/
theorem played_proceeds {o : Outcome} (naming : Naming names s.scopes s.agenda σ.begun)
    (ready : Ready s.scopes i x)
    (tokens : σ.tokens = names.others s.scopes i + {⟨names.placeOf x.parent, x.element, o.phase⟩})
    (log : σ.log = s.log + o.told x.element.id)
    (unnamed : o ≠ .leaves → names i = none)
    (begins : ∀ first, o = .starts first → d.passed x.element = .starts first ∧ .enter i ∉ s.agenda)
    (proceeds : Proceeds s i x o s') : Played d c names σ σ.requests s' := by
  cases proceeds with
  | waits change =>
      refine ⟨names, σ, .refl, ⟨?_, ?_, ?_⟩, rfl, fun _ _ name => name⟩
      · rw [change.scopes, change.agenda, List.append_nil]
        exact naming.modify i (f := Scope.suspend) (fun _ => rfl) (fun _ => rfl)
          (fun _ live => live) (.inl (unnamed (by simp)))
      · rw [change.scopes, Names.tokens_modify ready.found, Names.mark_suspend ready.live]
        exact tokens
      · rw [change.log]
        exact log
  | leaves change =>
      refine ⟨names, σ, .refl, ⟨?_, ?_, ?_⟩, rfl, fun _ _ name => name⟩
      · rw [change.scopes, change.agenda]
        apply (naming.fewer _).modify i (f := Scope.leave) (fun _ => rfl) (fun _ => rfl)
          (fun _ live => live) (.inr (by simp [Scope.leave]))
        simp
      · rw [change.scopes, Names.tokens_modify ready.found, Names.mark_leave ready.live]
        exact tokens
      · rw [change.log]
        exact log
  | @starts _ first change =>
      obtain ⟨passed, quiet⟩ := begins first rfl
      exact played_starts naming ready tokens (log.trans (add_zero _)) passed
        (unnamed (by simp)) quiet change

theorem told_entering (flows : List Flow) (first : Nat) :
    (entering flows first).map (fun ev => (ev.kind, ev.element))
      = flows.map fun f => (.enter, f.target.id) := by
  have values : (flows.zipIdx first).map (·.1) = flows := List.zipIdx_map_fst first flows
  rw [entering, List.map_map, ← values, List.map_map, values]
  rfl

namespace Reading

/-- What a join uses up is one token of the game, as many times as the join asks for. -/
theorem gathered {p : Nat} {tokens : List Nat} {s₁ : Simulation} {agenda : List Task}
    (h : Reading names { s with agenda := agenda } σ) (unnamed : names i = none)
    (ready : Ready s.scopes i x) (parent : x.parent = some p)
    (gathers : Gathers d s i x p tokens s₁) (ready₁ : Ready s₁.scopes i x) :
    σ.tokens = names.others s₁.scopes i
      + .replicate (d.share x.element) ⟨names.placeOf x.parent, x.element, .arrived⟩ := by
  have own : names.token i x = ⟨names.placeOf x.parent, x.element, .arrived⟩ := by
    rw [Names.token_of_entered ready.entered, unnamed]
    rfl
  have alike : ∀ j ∈ tokens, ∃ y : Scope, s.scopes[j]? = some y ∧ y.destroyed = false ∧
      names.token j y = ⟨names.placeOf x.parent, x.element, .arrived⟩ := by
    intro j hj
    obtain ⟨y, hy, same, live, entered, under⟩ := gathers.alike j hj
    have several := List.length_pos_of_mem hj
    have count := gathers.count
    have holds : d.HoldsAt x.element := by
      by_contra free
      rw [share_of_not_holdsAt free] at count
      omega
    have none := h.naming.unnamed_of_holds hy (same ▸ holds) under
    refine ⟨y, hy, live, ?_⟩
    rw [Names.token_of_entered entered, none, same, under, ← parent]
    rfl
  have before := Names.tokens_destroyAll (List.nodup_cons.mp gathers.distinct).2 alike
  rw [← gathers.change.scopes, Names.tokens_eq ready₁.found, Names.mark_of_live ready₁.live,
    own] at before
  rw [h.tokens, ← gathers.count, Multiset.replicate_succ, ← Multiset.singleton_add, ← add_assoc]
  exact before

theorem arrives {p : Nat} {tokens : List Nat} {s₁ : Simulation}
    (h : Reading names { s with agenda := .enter i :: s.agenda } σ) (quiet : .enter i ∉ s.agenda)
    (ready : Ready s.scopes i x) (parent : x.parent = some p)
    (gathers : Gathers d s i x p tokens s₁) (ready₁ : Ready s₁.scopes i x)
    (proceeds : Proceeds s₁ i x (d.outcome c x.element) s') : Played d c names σ σ.requests s' := by
  have unnamed : names i = none := h.naming.untouched i List.mem_cons_self
  have change := gathers.change
  let t : Token := ⟨names.placeOf x.parent, x.element, .arrived⟩
  obtain ⟨fires, after⟩ := Picture.fires_of_eq (d := d) (c := c) (t := t)
    (h.gathered unnamed ready parent gathers ready₁) (by simp [t]) (by simp [t])
  refine Played.head fires (played_proceeds (σ := σ.fire d c t) ?_ ready₁ after ?_
    (fun _ => unnamed) ?_ proceeds)
  · rw [change.scopes, change.agenda, List.append_nil]
    exact (h.naming.fewer fun j hj => List.mem_cons_of_mem _ hj).destroyAll tokens
  · have merged : s₁.log = s.log + .replicate (d.share x.element - 1) (.merge, x.element.id) := by
      rw [change.log, ← gathers.count, Nat.add_sub_cancel, List.map_map]
      have same : tokens.map (fun _ => (EventKind.merge, x.element.id))
          = List.replicate tokens.length (EventKind.merge, x.element.id) := List.map_const'
      exact congrArg (s.log + Multiset.ofList ·) same
    rw [merged, add_assoc, Picture.fire, h.log]
    rfl
  · intro first starts
    refine ⟨Diagram.passed_of_outcome starts, ?_⟩
    rw [change.agenda, List.append_nil]
    exact quiet

theorem departs (h : Reading names s σ) (exiting : Exiting s.scopes i x)
    (departs : Departs d c s i x s') : Played d c names σ σ.requests s' := by
  let t : Token := ⟨names.placeOf x.parent, x.element, .leaving⟩
  have own : names.mark i x = {t} := by
    rw [Names.mark_of_live exiting.live, Names.token, exiting.exited]
    rfl
  have whole : σ.tokens = names.others s.scopes i + {t} := by
    rw [h.tokens, Names.tokens_eq exiting.found, own]
  have above : ∀ p, x.parent = some p → ∃ place, names p = some place :=
    fun p under => h.naming.named i x p exiting.found exiting.live under
  obtain ⟨fires, after⟩ := Picture.fires_of_eq (d := d) (c := c) (t := t) whole (by simp [t])
    (by simp [t])
  refine ⟨names, σ.fire d c t, .single fires, ?_, rfl, fun _ _ name => name⟩
  cases departs with
  | @sends flows _ sent change =>
      have there : (s.scopes.enterAll (flows.map (·.target)) x.parent)[i]? = some x := by
        rw [Scopes.enterAll,
          List.getElem?_append_left (List.getElem?_eq_some_iff.mp exiting.found).1]
        exact exiting.found
      refine ⟨?_, ?_, ?_⟩
      · have more := h.naming.enterAll (flows.map (·.target)) above
        rw [List.length_map] at more
        rw [change.scopes, change.agenda]
        exact more.destroy i
      · have arrivals := Names.tokens_enterAll (flows.map (·.target)) x.parent
          fun j above => h.naming.unnamed above
        rw [Names.tokens_eq there, own, ← h.tokens, whole, add_right_comm] at arrivals
        rw [change.scopes, Names.tokens_modify there, Names.mark_of_destroyed rfl, add_zero,
          add_right_cancel arrivals, after, List.map_map]
        simp only [Token.yields, t, sent, Option.getD_some]
        rfl
      · rw [change.log, told_entering, Picture.fire, h.log]
        simp only [Token.tells, t, sent]
  | stalls sent change =>
      refine ⟨?_, ?_, ?_⟩
      · rw [change.scopes, change.agenda, List.append_nil]
        exact h.naming.destroy i
      · rw [change.scopes, Names.tokens_modify exiting.found, Names.mark_of_destroyed rfl, after]
        simp only [Token.yields, t, sent, Option.getD_none]
        rfl
      · rw [change.log, Picture.fire, h.log]
        simp only [Token.tells, t, sent]
        rfl

theorem exits {p : Nat} {y : Scope} (h : Reading names s σ) (ready : Ready s.scopes p y)
    {place : Place} (name : names p = some place) (proceeds : Proceeds s p y .leaves s') :
    Played d c names σ σ.requests s' := by
  let t : Token := ⟨names.placeOf y.parent, y.element, .running place⟩
  have own : names.mark p y = {t} := by
    rw [Names.mark_of_live ready.live, Names.token_of_entered ready.entered, name]
    rfl
  have whole : σ.tokens = names.others s.scopes p + {t} := by
    rw [h.tokens, Names.tokens_eq ready.found, own]
  have alone : ∀ u ∈ σ.tokens, u.place ≠ place := by
    intro u hu
    rw [h.tokens] at hu
    obtain ⟨j, z, hz, live, rfl⟩ := Names.mem_tokens.mp hu
    intro inside
    exact ready.childless ⟨j, z, hz, h.naming.parent_of_placeOf hz live name inside, live⟩
  have quiet : ∀ q, t.phase = .running q → ∀ u ∈ σ.tokens, u.place ≠ q := by
    intro q running
    cases running
    exact alone
  obtain ⟨fires, after⟩ := Picture.fires_of_eq (d := d) (c := c) (t := t) whole (by simp [t]) quiet
  refine Played.head fires (played_proceeds (σ := σ.fire d c t) (o := .leaves) h.naming ready after
    ?_ (fun other => absurd rfl other) ?_ proceeds)
  · rw [Picture.fire, h.log]
    rfl
  · intro first starts
    cases starts

theorem resumes {s₁ : Simulation} (h : Reading names s σ) (drained : s.agenda = [])
    (waiting : x.state = .waiting) (resumes : Resumes d s i x s₁ s')
    (asked : names.token i x ∈ σ.requests) :
    Played d c names σ (σ.requests.erase (names.token i x)) s' := by
  have change := resumes.change
  have unnamed : names i = none := by
    cases name : names i with
    | none => rfl
    | some place =>
        obtain ⟨_, y, hy, running, _⟩ := h.naming.proper i place name
        rw [Option.some.inj (hy.symm.trans resumes.found), waiting] at running
        exact absurd rfl running
  have own : names.token i x = ⟨names.placeOf x.parent, x.element, .waiting⟩ := by
    rw [Names.token, waiting]
    rfl
  have whole : σ.tokens = names.others s.scopes i + {names.token i x} := by
    rw [h.tokens, Names.tokens_eq resumes.found, Names.mark_of_live resumes.live]
  rw [own] at asked whole ⊢
  let t : Token := ⟨names.placeOf x.parent, x.element, .waiting⟩
  obtain ⟨fires, after⟩ := Picture.fires_of_eq (d := d) (c := c) (t := t) whole (fun _ => asked)
    (by simp [t])
  refine Played.head fires (played_proceeds (σ := σ.fire d c t) ?_ resumes.ready ?_ ?_
    (fun _ => unnamed) ?_ resumes.proceeds)
  · rw [change.scopes, change.agenda, List.append_nil]
    exact h.naming.modify i (f := Scope.resume) (fun _ => rfl) (fun _ => rfl) (fun _ live => live)
      (.inl unnamed)
  · rw [after, change.scopes, Names.others_modify]
    rfl
  · rw [change.log, Picture.fire, h.log, add_assoc]
    rfl
  · intro first starts
    refine ⟨starts, ?_⟩
    rw [change.agenda, drained]
    exact List.not_mem_nil

theorem turn {t : Task} (h : Reading names { s with agenda := t :: s.agenda } σ)
    (sound : Sound d [] s.scopes (t :: s.agenda)) (turn : Turn d c s t s') :
    Played d c names σ σ.requests s' := by
  have rest : Reading names s σ :=
    ⟨h.naming.fewer fun j hj => List.mem_cons_of_mem _ hj, h.tokens, h.log⟩
  cases turn with
  | rests change =>
      refine ⟨names, σ, .refl, ⟨?_, ?_, ?_⟩, rfl, fun _ _ name => name⟩
      · rw [change.scopes, change.agenda, List.append_nil]
        exact rest.naming
      · rw [change.scopes]
        exact rest.tokens
      · rw [change.log]
        exact rest.log.trans (add_zero _).symm
  | @arrives i p x tokens s₁ _ ready parent _ _ gathers ready₁ proceeds =>
      refine h.arrives ?_ ready parent gathers ready₁ proceeds
      intro again
      have distinct := sound.distinct
      rw [List.nil_append, busy, List.map_cons, List.nodup_cons] at distinct
      exact distinct.1 (List.mem_map_of_mem again)
  | departs exiting departs => exact rest.departs exiting departs
  | @closes i p x y s₁ _ exiting departs parent _ _ ready proceeds =>
      apply (rest.departs exiting departs).trans
      intro names' σ' reading left more
      obtain ⟨place, name⟩ := rest.naming.named i x p exiting.found exiting.live parent
      rw [← left]
      exact reading.exits ready (more p place name) proceeds

end Reading

/-- A run of the agenda is played. -/
theorem Played.drain (consistent : d.Consistent) (bound : Nat)
    (sound : Sound d [] s.scopes s.agenda) (queued : Queued s.scopes s.agenda) {requests : Multiset Token}
    (h : Played d c names σ requests s) : Played d c names σ requests (drain d c bound s).1 := by
  apply turns_drain consistent _ bound sound queued h
  intro s t s' sound _ turn played
  apply played.trans
  intro names' σ' reading left _
  rw [← left]
  exact reading.turn sound turn

/-- A signal is played, with all that follows from it. -/
theorem Reading.signal (consistent : d.Consistent) {bound : Nat} (h : Reading names s σ)
    (sound : Sound d [] s.scopes s.agenda) (drained : s.agenda = []) (hx : s.scopes[i]? = some x)
    (waiting : x.isWaiting = true) (asked : names.token i x ∈ σ.requests)
    (ended : (signalAndRun d c bound s i).1.agenda = []) :
    Played d c names σ (σ.requests.erase (names.token i x)) (signalAndRun d c bound s i).1 := by
  obtain ⟨state, pending, live⟩ := state_of_isWaiting sound hx waiting
  obtain ⟨s₁, s', n, resumes, sound', queued, run⟩ :=
    resumes_of_ended consistent sound drained hx live pending ended
  rw [run]
  exact (h.resumes drained state resumes asked).drain consistent n sound' queued

end ProcessDiagram.Simulation
