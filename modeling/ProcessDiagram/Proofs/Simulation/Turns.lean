import ProcessDiagram.Proofs.Simulation.Course
import ProcessDiagram.Proofs.Simulation.Lasting

/-!
What one task of the agenda can do, whatever the diagram and its configuration: the scopes, the
events and the exit counts afterwards. Main statement: `turn_of_runTask`; what holds along every run
is read off these turns.
-/
namespace ProcessDiagram

/-- What becomes of a token when it is its turn at an element. -/
inductive Outcome
  | waits
  | leaves
  | starts (first : Element)
  deriving DecidableEq

namespace Diagram

variable (d : Diagram) (c : ConfigStore) (e : Element)

/-- A token that may go on enters a subprocess or leaves the element. -/
def passed : Outcome :=
  if e.kind = .subProcess then
    match d.startEvents e with
    | [] => .leaves
    | first :: _ => .starts first
  else .leaves

def outcome : Outcome :=
  match e.kind with
  | .startEvent | .endEvent => .leaves
  | .intermediateCatchEvent => .waits
  | _ => if (c.get e).wait then .waits else d.passed e

variable {d c e}

theorem passed_of_outcome {first : Element} (starts : d.outcome c e = .starts first) :
    d.passed e = .starts first := by
  rw [outcome] at starts
  split at starts
  · cases starts
  · cases starts
  · cases starts
  · split at starts
    · cases starts
    · exact starts

theorem of_passed_starts {first : Element} (starts : d.passed e = .starts first) :
    e.kind = .subProcess ∧ first ∈ d.nodes ∧ first.kind = .startEvent := by
  rw [passed] at starts
  split at starts
  next kind =>
      split at starts
      next => cases starts
      next found =>
          cases starts
          have inside : first ∈ d.startEvents e := found ▸ List.mem_cons_self
          rw [startEvents, List.mem_filter, beq_iff_eq] at inside
          exact ⟨kind, (List.mem_filter.mp inside.1).1, inside.2⟩
  next => cases starts

variable (d c e)

/-- The flows along which tokens are sent when an element is left; an exclusive gateway without an
active flow has none and stalls. -/
def sent : Option (List Flow) :=
  match e.kind with
  | .endEvent | .process | .participant => some []
  | .exclusiveGateway =>
    match d.outgoing e with
    | [f] => some [f]
    | flows => (flows.find? fun f => (c.get e).activeOutgoing == some f).map ([·])
  | _ => some (d.outgoing e)

end Diagram

namespace Simulation

variable {d : Diagram} {c : ConfigStore} {s s' : Simulation} {i : Nat} {x : Scope}

/-- An effect together with the events that it is told by. -/
structure Change (s s' : Simulation) (scopes : Scopes) (added : List Task)
    (exitCounts : List (String × Nat)) (told : List Event) : Prop where
  scopes : s'.scopes = scopes
  agenda : s'.agenda = s.agenda ++ added
  exitCounts : s'.exitCounts = exitCounts
  events : s'.events = s.events ++ told

namespace Change

theorem refl (s : Simulation) : Change s s s.scopes [] s.exitCounts [] :=
  ⟨rfl, (List.append_nil _).symm, rfl, (List.append_nil _).symm⟩

theorem trans {s'' : Simulation} {scopes scopes' : Scopes} {added added' : List Task}
    {counts counts' : List (String × Nat)} {told told' : List Event}
    (first : Change s s' scopes added counts told)
    (second : Change s' s'' scopes' added' counts' told') :
    Change s s'' scopes' (added ++ added') counts' (told ++ told') := by
  refine ⟨second.scopes, ?_, second.exitCounts, ?_⟩
  · rw [second.agenda, first.agenda, List.append_assoc]
  · rw [second.events, first.events, List.append_assoc]

theorem note {n : Notice} (silent : n.event? = none) :
    Change s (s.note n) s.scopes [] s.exitCounts [] :=
  ⟨rfl, (List.append_nil _).symm, rfl, (events_note silent).trans (List.append_nil _).symm⟩

theorem exit (ready : Ready s.scopes i x) :
    Change s (s.exit i) (s.scopes.modify i Scope.leave) [.finishExit i]
      (countUp x.element.id s.exitCounts) [⟨.exit, x.element.id, i⟩] := by
  have effect := Effect.exit_of_ready ready
  refine ⟨effect.scopes, effect.agenda, effect.exitCounts, ?_⟩
  have going : ¬ (x.destroyed ∨ x.state = .exited) := by simp [ready.live, ready.entered]
  rw [Simulation.exit, ready.found]
  simp only [if_neg going]
  exact events_record { s with scopes := _, exitCounts := _ } ..

theorem suspend (hx : s.scopes[i]? = some x) :
    Change s (s.suspend i) (s.scopes.modify i Scope.suspend) [] s.exitCounts
      [⟨.wait, x.element.id, i⟩] := by
  have effect := Effect.suspend hx
  refine ⟨effect.scopes, effect.agenda, effect.exitCounts, ?_⟩
  rw [Simulation.suspend, hx]
  exact events_record { s with scopes := _ } ..

theorem signal (hx : s.scopes[i]? = some x) (live : x.destroyed = false)
    (pending : x.pending = true) : ∃ s', s.signal i = .ok s' ∧
      Change s s' (s.scopes.modify i Scope.resume) [.signal i] s.exitCounts
        [⟨.signal, x.element.id, i⟩] := by
  have goes : ¬ (x.destroyed ∨ !x.pending) := by simp [live, pending]
  rw [Simulation.signal, hx]
  simp only [if_neg goes]
  exact ⟨_, rfl, rfl, rfl, rfl, events_record { s with scopes := _ } ..⟩

theorem merge (hx : s.scopes[i]? = some x) :
    Change s (s.merge i) (s.scopes.modify i Scope.destroy) [] s.exitCounts
      [⟨.merge, x.element.id, i⟩] := by
  have effect := Effect.merge hx
  refine ⟨effect.scopes, effect.agenda, effect.exitCounts, ?_⟩
  rw [Simulation.merge, hx]
  exact events_record s ..

theorem merges {e : Element} (tokens : List Nat) (found : ∀ j ∈ tokens, ∃ y : Scope,
    s.scopes[j]? = some y ∧ y.element = e) :
    Change s (tokens.foldl Simulation.merge s) (s.scopes.destroyAll tokens) [] s.exitCounts
      (tokens.map fun j => ⟨.merge, e.id, j⟩) := by
  induction tokens generalizing s with
  | nil => exact refl s
  | cons j rest ih =>
      obtain ⟨y, hy, own⟩ := found j List.mem_cons_self
      have here := merge hy
      have later := ih (s := s.merge j) (by
        intro k hk
        obtain ⟨z, hz, same⟩ := found k (List.mem_cons_of_mem _ hk)
        rw [here.scopes, List.getElem?_modify, hz]
        refine ⟨_, rfl, ?_⟩
        split <;> exact same)
      have both := here.trans later
      rw [here.scopes, here.exitCounts, own] at both
      exact both

theorem stall (hx : s.scopes[i]? = some x) :
    Change s (s.stall i) s.scopes [] s.exitCounts [⟨.stall, x.element.id, i⟩] := by
  rw [Simulation.stall, hx]
  exact ⟨rfl, (List.append_nil _).symm, rfl, (events_note rfl).trans (events_record s ..)⟩

theorem destroy {scopes : Scopes} {added : List Task} {counts : List (String × Nat)}
    {told : List Event} (h : Change s s' scopes added counts told) (i : Nat) :
    Change s (s'.destroy i) (scopes.modify i Scope.destroy) added counts told :=
  ⟨h.scopes ▸ rfl, h.agenda, h.exitCounts, h.events⟩

theorem enter (e : Element) (parent : Option Nat) :
    Change s (s.enter e parent) (s.scopes ++ [Scope.enter e parent]) [.enter s.scopes.length]
      s.exitCounts [⟨.enter, e.id, s.scopes.length⟩] :=
  ⟨rfl, rfl, rfl, events_record { s with scopes := _ } ..⟩

end Change

/-- The events of tokens that are put on the ends of flows. -/
def entering (flows : List Flow) (first : Nat) : List Event :=
  (flows.zipIdx first).map fun entry => ⟨.enter, entry.1.target.id, entry.2⟩

theorem Change.enterAll (flows : List Flow) (parent : Option Nat) :
    Change s (s.enterAll flows parent) (s.scopes.enterAll (flows.map (·.target)) parent)
      ((List.range' s.scopes.length flows.length).map .enter) s.exitCounts
      (entering flows s.scopes.length) := by
  have effect := Effect.enterAll (s := s) flows parent
  refine ⟨effect.scopes, effect.agenda, effect.exitCounts, ?_⟩
  induction flows generalizing s with
  | nil => exact (List.append_nil _).symm
  | cons f rest ih =>
      have here := Change.enter (s := s) f.target parent
      have later := ih (s := s.enter f.target parent) (Effect.enterAll rest parent)
      have size : (s.enter f.target parent).scopes.length = s.scopes.length + 1 := by
        rw [here.scopes, List.length_append]
        rfl
      have more : s.enterAll (f :: rest) parent
          = (s.enter f.target parent).enterAll rest parent := rfl
      rw [more, later, here.events, size, List.append_assoc]
      rfl

/-! ## Turns -/

/-- A scope goes the way of an outcome. -/
inductive Proceeds (s : Simulation) (i : Nat) (x : Scope) : Outcome → Simulation → Prop
  | waits {s' : Simulation} :
      Change s s' (s.scopes.modify i Scope.suspend) [] s.exitCounts [⟨.wait, x.element.id, i⟩] →
      Proceeds s i x .waits s'
  | leaves {s' : Simulation} :
      Change s s' (s.scopes.modify i Scope.leave) [.finishExit i]
        (countUp x.element.id s.exitCounts) [⟨.exit, x.element.id, i⟩] →
      Proceeds s i x .leaves s'
  | starts {s' : Simulation} {first : Element} :
      Change s s' (s.scopes ++ [Scope.enter first (some i)]) [.enter s.scopes.length] s.exitCounts
        [⟨.enter, first.id, s.scopes.length⟩] →
      Proceeds s i x (.starts first) s'

/-- The tokens of a join that become one with the token whose turn it is. -/
structure Gathers (d : Diagram) (s : Simulation) (i : Nat) (x : Scope) (p : Nat)
    (tokens : List Nat) (s' : Simulation) : Prop where
  distinct : (i :: tokens).Nodup
  count : tokens.length + 1 = d.share x.element
  alike : ∀ j ∈ tokens, ∃ y : Scope, s.scopes[j]? = some y ∧ y.element = x.element ∧
    y.destroyed = false ∧ y.state = .entered ∧ y.parent = some p
  change : Change s s' (s.scopes.destroyAll tokens) [] s.exitCounts
    (tokens.map fun j => ⟨.merge, x.element.id, j⟩)

/-- A scope that has exited sends its tokens, or stalls, and is destroyed. -/
inductive Departs (d : Diagram) (c : ConfigStore) (s : Simulation) (i : Nat) (x : Scope) :
    Simulation → Prop
  | sends {flows : List Flow} {s' : Simulation} : d.sent c x.element = some flows →
      Change s s' ((s.scopes.enterAll (flows.map (·.target)) x.parent).modify i Scope.destroy)
        ((List.range' s.scopes.length flows.length).map .enter) s.exitCounts
        (entering flows s.scopes.length) → Departs d c s i x s'
  | stalls {s' : Simulation} : d.sent c x.element = none →
      Change s s' (s.scopes.modify i Scope.destroy) [] s.exitCounts
        [⟨.stall, x.element.id, i⟩] → Departs d c s i x s'

/-- A token rests where it is, or it is its turn; a scope is left, and its parent may exit after
it. -/
inductive Turn (d : Diagram) (c : ConfigStore) (s : Simulation) : Task → Simulation → Prop
  | rests {i : Nat} {s' : Simulation} :
      Change s s' s.scopes [] s.exitCounts [] → Turn d c s (.enter i) s'
  | arrives {i p : Nat} {x : Scope} {tokens : List Nat} {s₁ s' : Simulation} :
      Ready s.scopes i x → x.parent = some p → x.element ∈ d.nodes →
      x.element.kind ≠ .process ∧ x.element.kind ≠ .participant →
      Gathers d s i x p tokens s₁ → Ready s₁.scopes i x →
      Proceeds s₁ i x (d.outcome c x.element) s' → Turn d c s (.enter i) s'
  | departs {i : Nat} {x : Scope} {s' : Simulation} :
      Exiting s.scopes i x → Departs d c s i x s' → Turn d c s (.finishExit i) s'
  | closes {i p : Nat} {x y : Scope} {s₁ s' : Simulation} :
      Exiting s.scopes i x → Departs d c s i x s₁ → x.parent = some p → s.scopes[p]? = some y →
      y.element.kind = .subProcess ∨ y.parent = none → Ready s₁.scopes p y →
      Proceeds s₁ p y .leaves s' → Turn d c s (.finishExit i) s'

theorem proceeds_exit (ready : Ready s.scopes i x) : Proceeds s i x .leaves (s.exit i) :=
  .leaves (.exit ready)

theorem proceeds_waitOrExit (ready : Ready s.scopes i x) (kind : x.element.kind ≠ .subProcess) :
    Proceeds s i x (if (c.get x.element).wait then .waits else d.passed x.element)
      (waitOrExit c s i x.element) := by
  rw [waitOrExit, Diagram.passed, if_neg kind]
  split
  · exact .waits (.suspend ready.found)
  · exact proceeds_exit ready

theorem proceeds_startInner (ready : Ready s.scopes i x) (kind : x.element.kind = .subProcess) :
    Proceeds s i x (d.passed x.element) (startInner d s i x.element) := by
  rw [startInner, Diagram.passed, if_pos kind]
  cases d.startEvents x.element with
  | nil =>
      have noted := Change.note (s := s) (n := .noInnerStart x.element.id) rfl
      have left := noted.trans (.exit (s := s.note (.noInnerStart x.element.id)) ready)
      exact .leaves left
  | cons first others => exact .starts (.enter first (some i))

theorem proceeds_onSignal (ready : Ready s.scopes i x) :
    Proceeds s i x (d.passed x.element) (onSignal d s i x) := by
  rw [onSignal]
  split
  next kind => exact proceeds_startInner ready kind
  next kind =>
      rw [Diagram.passed, if_neg kind]
      exact proceeds_exit ready

theorem gathers_alone {p : Nat} (free : ¬ d.HoldsAt x.element) : Gathers d s i x p [] s :=
  ⟨List.nodup_singleton i, (share_of_not_holdsAt free).symm, by simp, .refl s⟩

theorem turn_enterParallel (consistent : d.Consistent) (h : Sound d [i] s.scopes s.agenda)
    (queued : Queued s.scopes (.enter i :: s.agenda)) (ready : Ready s.scopes i x) {p : Nat}
    (parent : x.parent = some p) (node : x.element ∈ d.nodes)
    (kind : x.element.kind = .parallelGateway) :
    ∃ s', enterParallel d c s i x = .ok s' ∧ Turn d c s (.enter i) s' := by
  have inner : x.element.kind ≠ .process ∧ x.element.kind ≠ .participant := by
    rw [kind]
    decide
  have way : ∀ s₁, Ready s₁.scopes i x →
      Proceeds s₁ i x (d.outcome c x.element) (waitOrExit c s₁ i x.element) := by
    intro s₁ ready₁
    have proceeds := proceeds_waitOrExit (d := d) (c := c) ready₁ (by rw [kind]; decide)
    rwa [Diagram.outcome, kind]
  rw [enterParallel]
  simp only [ready.live, Bool.false_eq_true, if_false, parent]
  split
  next single =>
      have free : ¬ d.HoldsAt x.element := by
        intro holds
        have several := holds.2
        omega
      exact ⟨_, rfl, .arrives ready parent node inner (gathers_alone free) ready (way s ready)⟩
  next several =>
      have holds : d.HoldsAt x.element := ⟨kind, by omega⟩
      split
      next => exact ⟨_, rfl, .rests (.note rfl)⟩
      next enough =>
          have those :=
            companions_of_arrived consistent h queued ready parent holds (Nat.not_lt.mp enough)
          have merged := Change.merges (e := x.element) _ fun j hj =>
            (those.alike j hj).imp fun _ own => ⟨own.1, own.2.1⟩
          have gathers : Gathers d s i x p _ _ := ⟨those.distinct, those.count, those.alike, merged⟩
          exact ⟨_, rfl, .arrives ready parent node inner gathers those.ready (way _ those.ready)⟩

theorem turn_onEnter (consistent : d.Consistent) (h : Sound d [i] s.scopes s.agenda)
    (queued : Queued s.scopes (.enter i :: s.agenda)) (ready : Ready s.scopes i x)
    (nested : x.parent ≠ none) :
    ∃ s', onEnter d c s i x = .ok s' ∧ Turn d c s (.enter i) s' := by
  have node := ((h.formed.proper i x ready.found).nested nested).1
  obtain ⟨p, parent⟩ := Option.ne_none_iff_exists'.mp nested
  have alone : ∀ s', x.element.kind ≠ .parallelGateway → x.element.kind ≠ .process →
      x.element.kind ≠ .participant → Proceeds s i x (d.outcome c x.element) s' →
        Turn d c s (.enter i) s' := by
    intro s' free notProcess notParticipant proceeds
    exact .arrives ready parent node ⟨notProcess, notParticipant⟩
      (gathers_alone fun holds => free holds.1) ready proceeds
  have waitOrExit := proceeds_waitOrExit (d := d) (c := c) ready
  rw [onEnter]
  rw [Diagram.outcome] at alone
  cases kind : x.element.kind with
  | startEvent | endEvent =>
      rw [kind] at alone
      exact ⟨_, rfl, alone _ (by decide) (by decide) (by decide) (proceeds_exit ready)⟩
  | intermediateCatchEvent =>
      rw [kind] at alone
      exact ⟨_, rfl, alone _ (by decide) (by decide) (by decide) (.waits (.suspend ready.found))⟩
  | parallelGateway => exact turn_enterParallel consistent h queued ready parent node kind
  | subProcess =>
      simp only [kind] at alone
      refine ⟨_, rfl, alone _ (by decide) (by decide) (by decide) ?_⟩
      split
      · exact .waits (.suspend ready.found)
      · exact proceeds_startInner ready kind
  | process | participant => exact ⟨_, rfl, .rests (.refl s)⟩
  | task | exclusiveGateway | collaboration | unknown =>
      rw [kind] at alone waitOrExit
      exact ⟨_, rfl, alone _ (by decide) (by decide) (by decide) (waitOrExit (by decide))⟩

/-- A scope that departs leaves the others alone. -/
theorem Departs.others (departs : Departs d c s i x s') {j : Nat} {y : Scope} (other : i ≠ j)
    (hy : s.scopes[j]? = some y) : s'.scopes[j]? = some y := by
  cases departs with
  | sends _ change =>
      rw [change.scopes, Scopes.getElem?_modify_other other, Scopes.enterAll,
        List.getElem?_append_left (List.getElem?_eq_some_iff.mp hy).1, hy]
  | stalls _ change => rw [change.scopes, Scopes.getElem?_modify_other other, hy]

theorem Proceeds.others {o : Outcome} (proceeds : Proceeds s i x o s') {j : Nat} {y : Scope}
    (other : i ≠ j) (hy : s.scopes[j]? = some y) : s'.scopes[j]? = some y := by
  cases proceeds with
  | waits change => rw [change.scopes, Scopes.getElem?_modify_other other, hy]
  | leaves change => rw [change.scopes, Scopes.getElem?_modify_other other, hy]
  | starts change =>
      rw [change.scopes]
      exact Scopes.getElem?_append_old hy _

theorem Turn.waiting {t : Task} (turn : Turn d c s t s') {j : Nat} {y : Scope}
    (hy : s.scopes[j]? = some y) (waiting : y.state = .waiting) : s'.scopes[j]? = some y := by
  have apart : ∀ (k : Nat) (z : Scope), s.scopes[k]? = some z → z.state ≠ .waiting → k ≠ j := by
    intro k z hz going same
    subst same
    rw [Option.some.inj (hz.symm.trans hy)] at going
    exact going waiting
  cases turn with
  | rests change =>
      rw [change.scopes]
      exact hy
  | @arrives i _ x tokens _ _ ready _ _ _ gathers _ proceeds =>
      have resting : j ∉ tokens := by
        intro token
        obtain ⟨z, hz, _, _, entered, _⟩ := gathers.alike j token
        exact apart j z hz (by rw [entered]; decide) rfl
      apply proceeds.others (apart i x ready.found (by rw [ready.entered]; decide))
      rw [gathers.change.scopes, Scopes.getElem?_destroyAll resting, hy]
  | @departs i x _ exiting departs =>
      exact departs.others (apart i x exiting.found (by rw [exiting.exited]; decide)) hy
  | @closes i p x y' s₁ _ exiting departs _ hp _ ready proceeds =>
      have there := departs.others (apart i x exiting.found (by rw [exiting.exited]; decide)) hy
      refine proceeds.others (apart p y' hp ?_) there
      rw [ready.entered]
      decide

theorem departs_onExit (hx : s.scopes[i]? = some x) :
    Departs d c s i x ((onExit d c s i x).destroy i) := by
  have along : ∀ flows, d.sent c x.element = some flows →
      Departs d c s i x ((s.enterAll flows x.parent).destroy i) := by
    intro flows sent
    exact .sends sent ((Change.enterAll flows x.parent).destroy i)
  have quiet : ∀ n : Notice, n.event? = none → d.sent c x.element = some [] →
      Departs d c s i x ((s.note n).destroy i) := by
    intro n silent sent
    have whole := (Change.note (s := s) silent).destroy i
    have same : s.scopes.enterAll (([] : List Flow).map (·.target)) x.parent = s.scopes := by
      rw [List.map_nil, Scopes.enterAll, List.map_nil, List.append_nil]
    exact .sends sent (same.symm ▸ whole)
  rw [onExit]
  cases kind : x.element.kind with
  | endEvent | process | participant =>
      exact quiet _ rfl (by rw [Diagram.sent, kind])
  | exclusiveGateway =>
      have chosen : ∀ (flows : List Flow) (s' : Simulation),
          d.sent c x.element = (flows.find? fun f => (c.get x.element).activeOutgoing == some f).map
            ([·]) →
          (∀ f, (flows.find? fun f => (c.get x.element).activeOutgoing == some f) = some f →
            s' = s.enterAll [f] x.parent) →
          ((flows.find? fun f => (c.get x.element).activeOutgoing == some f) = none →
            s' = s.stall i) → Departs d c s i x (s'.destroy i) := by
        intro flows s' sent goes stalls
        cases found : flows.find? fun f => (c.get x.element).activeOutgoing == some f with
        | some flow =>
            rw [found] at sent
            exact goes flow found ▸ along [flow] sent
        | none =>
            rw [found] at sent
            exact stalls found ▸ .stalls sent ((Change.stall hx).destroy i)
      simp only [leaveExclusive]
      cases flows : d.outgoing x.element with
      | nil => exact chosen [] _ (by simp only [Diagram.sent, kind, flows]) (by simp) (by simp)
      | cons f rest =>
          cases rest with
          | nil => exact along [f] (by simp only [Diagram.sent, kind, flows])
          | cons g rest =>
              apply chosen (f :: g :: rest) _ (by simp only [Diagram.sent, kind, flows])
              · intro flow found
                simp only [found]
              · intro none
                simp only [none]
  | task | parallelGateway | startEvent | subProcess | intermediateCatchEvent | collaboration
  | unknown => exact along _ (by rw [Diagram.sent, kind])

theorem tryExit_cases (s : Simulation) (p : Nat) :
    s.tryExit p = s ∨ ∃ y, Ready s.scopes p y ∧ s.tryExit p = s.exit p := by
  rw [tryExit]
  cases hp : s.scopes[p]? with
  | none => exact .inl rfl
  | some y =>
      simp only
      split
      next => exact .inl rfl
      next exits =>
          rw [not_or, not_or] at exits
          refine .inr ⟨y, ⟨hp, by simpa using exits.1, by simpa using exits.2.1, ?_⟩, rfl⟩
          rw [← Scopes.isEmpty_liveChildren]
          simpa using exits.2.2

theorem turn_finishExit (formed : Formed d s.scopes) (exiting : Exiting s.scopes i x) :
    Turn d c s (.finishExit i) (finishExit d c s i x) := by
  have departs := departs_onExit (d := d) (c := c) exiting.found
  rw [finishExit]
  cases parent : x.parent with
  | none => exact .departs exiting departs
  | some p =>
      simp only
      obtain stays | ⟨z, ready, exits⟩ := tryExit_cases ((onExit d c s i x).destroy i) p
      · rw [stays]
        exact .departs exiting departs
      · obtain ⟨earlier, y, hy, inside⟩ := formed.inside i x p exiting.found parent
        have one : z = y :=
          Option.some.inj (ready.found.symm.trans (departs.others (Nat.ne_of_gt earlier) hy))
        subst one
        rw [exits]
        exact .closes exiting departs parent hy inside.container ready (proceeds_exit ready)

/-- Every task is a turn, and none fails. -/
theorem turn_of_runTask (consistent : d.Consistent) {t : Task}
    (h : Sound d [] s.scopes (t :: s.agenda)) (queued : Queued s.scopes (t :: s.agenda)) :
    ∃ s', runTask d c s t = .ok s' ∧ Turn d c s t s' := by
  obtain ⟨taken, due⟩ := h.take
  cases t with
  | enter i =>
      cases due with
      | inl ready =>
          obtain ⟨x, ready, nested⟩ := ready
          simp only [runTask, ready.found]
          exact turn_onEnter consistent taken queued ready nested
      | inr merged =>
          obtain ⟨x, hx, gone, kind⟩ := merged
          refine ⟨s, ?_, .rests (.refl s)⟩
          simp only [runTask, hx, onEnter, kind, enterParallel, gone, if_true]
  | signal i => exact absurd List.mem_cons_self (queued.unsignalled i)
  | finishExit i =>
      obtain ⟨x, hx, live, exited⟩ := due
      simp only [runTask, hx]
      exact ⟨_, rfl, turn_finishExit h.formed ⟨hx, live, exited⟩⟩

theorem Proceeds.queued {o : Outcome} (proceeds : Proceeds s i x o s')
    (queued : Queued s.scopes s.agenda) : Queued s'.scopes s'.agenda := by
  cases proceeds with
  | waits change =>
      rw [change.scopes, change.agenda, List.append_nil]
      exact queued.resize (List.length_modify ..)
  | leaves change =>
      rw [change.scopes, change.agenda]
      exact (queued.resize (List.length_modify ..)).finishExit i
  | @starts _ first change =>
      rw [change.scopes, change.agenda]
      exact queued.enterAll [first] (some i)

theorem Departs.queued (departs : Departs d c s i x s') (queued : Queued s.scopes s.agenda) :
    Queued s'.scopes s'.agenda := by
  cases departs with
  | @sends flows _ _ change =>
      rw [change.scopes, change.agenda]
      have more := queued.enterAll (flows.map (·.target)) x.parent
      rw [List.length_map] at more
      exact more.resize (List.length_modify ..)
  | stalls _ change =>
      rw [change.scopes, change.agenda, List.append_nil]
      exact queued.resize (List.length_modify ..)

/-- Turns keep the order in which scopes are to be entered. -/
theorem Turn.queued {t : Task} (turn : Turn d c s t s') (queued : Queued s.scopes (t :: s.agenda)) :
    Queued s'.scopes s'.agenda := by
  have rest := queued.rest
  cases turn with
  | rests change =>
      rw [change.scopes, change.agenda, List.append_nil]
      exact rest
  | arrives _ _ _ _ gathers _ proceeds =>
      apply proceeds.queued
      rw [gathers.change.scopes, gathers.change.agenda, List.append_nil]
      exact rest.resize (length_destroyAll ..)
  | departs _ departs => exact departs.queued rest
  | closes _ departs _ _ _ _ proceeds => exact proceeds.queued (departs.queued rest)

/-- What every turn keeps, a run keeps. -/
theorem turns_drain (consistent : d.Consistent) {P : Simulation → Prop}
    (step : ∀ (s : Simulation) (t : Task) (s' : Simulation), Sound d [] s.scopes (t :: s.agenda) →
      Queued s.scopes (t :: s.agenda) → Turn d c s t s' →
        P { s with agenda := t :: s.agenda } → P s')
    (bound : Nat) (h : Sound d [] s.scopes s.agenda) (queued : Queued s.scopes s.agenda)
    (hs : P s) : P (drain d c bound s).1 := by
  induction bound generalizing s with
  | zero =>
      rw [drain]
      split <;> exact hs
  | succ bound ih =>
      cases agenda : s.agenda with
      | nil =>
          rw [drain_of_empty agenda]
          exact hs
      | cons t rest =>
          rw [agenda] at h queued
          obtain ⟨s', run, turn⟩ :=
            turn_of_runTask (c := c) (s := { s with agenda := rest }) consistent h queued
          obtain ⟨taken, due⟩ := h.take
          obtain ⟨s'', run', sound⟩ :=
            sound_runTask (c := c) (s := { s with agenda := rest }) consistent taken due
          rw [run] at run'
          cases run'
          rw [drain_of_cons agenda run]
          apply ih sound (turn.queued queued)
          have same : s = { s with agenda := t :: rest } := by rw [← agenda]
          exact step _ t _ h queued turn (same ▸ hs)

end Simulation
end ProcessDiagram
