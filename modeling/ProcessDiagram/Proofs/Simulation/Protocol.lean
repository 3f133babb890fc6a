import ProcessDiagram.Proofs.Simulation.Conserved

/-!
The protocol that every scope follows: it is entered, it may wait and be signalled, it exits and may
stall, or it is merged into another right after it was entered. How far a scope has come is known
from the events that tell of it. Main statement: `Reached.protocol`.
-/
namespace ProcessDiagram

/-- The events of one scope, in order. -/
def storyOf (told : List Event) (i : ScopeId) : List EventKind :=
  (told.filter (·.scope == i)).map (·.kind)

theorem storyOf_append (told more : List Event) (i : ScopeId) :
    storyOf (told ++ more) i = storyOf told i ++ storyOf more i := by
  rw [storyOf, List.filter_append, List.map_append]
  rfl

theorem storyOf_cons (ev : Event) (told : List Event) (i : ScopeId) :
    storyOf (ev :: told) i = (if ev.scope = i then [ev.kind] else []) ++ storyOf told i := by
  by_cases own : ev.scope = i <;> simp [storyOf, own]

theorem storyOf_own {told : List Event} {i : ScopeId} (own : ∀ ev ∈ told, ev.scope = i)
    (j : ScopeId) : storyOf told j = if i = j then told.map (·.kind) else [] := by
  split
  next same =>
      rw [storyOf, List.filter_eq_self.mpr]
      intro ev hev
      exact beq_iff_eq.mpr ((own ev hev).trans same)
  next other =>
      rw [storyOf, List.filter_eq_nil_iff.mpr, List.map_nil]
      intro ev hev
      rw [own ev hev, beq_iff_eq]
      exact other

/-- Merged tokens, each of which is told of once. -/
theorem storyOf_merges {tokens : List Nat} (distinct : tokens.Nodup) (id : String) (i : Nat) :
    storyOf (tokens.map fun j => ⟨.merge, id, j⟩) i = if i ∈ tokens then [.merge] else [] := by
  induction tokens with
  | nil => rfl
  | cons j rest ih =>
      obtain ⟨new, others⟩ := List.nodup_cons.mp distinct
      rw [List.map_cons, storyOf_cons, ih others]
      by_cases own : j = i
      · subst own
        simp [new]
      · simp [own, Ne.symm own]

namespace Simulation

theorem storyOf_entering (flows : List Flow) (first i : Nat) : storyOf (entering flows first) i
    = if first ≤ i ∧ i < first + flows.length then [.enter] else [] := by
  induction flows generalizing first with
  | nil => simp [entering, storyOf]
  | cons f rest ih =>
      have more : entering (f :: rest) first
          = ⟨.enter, f.target.id, first⟩ :: entering rest (first + 1) := rfl
      rw [more, storyOf_cons, ih, List.length_cons]
      by_cases own : first = i
      · subst own
        simp
      · have beyond : first + 1 ≤ i ↔ first ≤ i := by omega
        have size : first + 1 + rest.length = first + (rest.length + 1) := by omega
        simp [own, beyond, size]

def story (s : Simulation) (i : ScopeId) : List EventKind :=
  storyOf s.events i

variable {d : Diagram} {c : ConfigStore} {s s' : Simulation} {t : Task} {i : Nat}
  {x : Scope}

theorem Change.story {scopes : Scopes} {added : List Task} {counts : List (String × Nat)}
    {told : List Event} (change : Change s s' scopes added counts told) (j : ScopeId) :
    s'.story j = s.story j ++ storyOf told j := by
  rw [Simulation.story, change.events, storyOf_append]
  rfl

/-- A scope that runs was entered just now, or signalled after it had waited. -/
def Ran (told : List EventKind) : Prop :=
  told = [.enter] ∨ told = [.enter, .wait, .signal]

/-- How far a scope has come, by what is told of it. Only a subprocess goes on running once it was
signalled. -/
inductive Phase (d : Diagram) (x : Scope) : List EventKind → Prop
  | entered : x.destroyed = false → x.state = .entered → Phase d x [.enter]
  | waiting : x.destroyed = false → x.state = .waiting → Phase d x [.enter, .wait]
  | resumed : x.destroyed = false → x.state = .entered → x.element.kind = .subProcess →
      Phase d x [.enter, .wait, .signal]
  | left {told : List EventKind} : Ran told → x.state = .exited → Phase d x (told ++ [.exit])
  | stalled {told : List EventKind} : Ran told → x.destroyed = true →
      x.element.kind = .exclusiveGateway → (d.outgoing x.element).length ≠ 1 →
      Phase d x (told ++ [.exit, .stall])
  | merged : x.destroyed = true → d.HoldsAt x.element → Phase d x [.enter, .merge]

namespace Phase

variable {told : List EventKind}

/-- A scope that runs was entered just now, or it is a subprocess that was signalled. -/
theorem running (h : Phase d x told) (live : x.destroyed = false) (entered : x.state = .entered) :
    told = [.enter] ∨ told = [.enter, .wait, .signal] ∧ x.element.kind = .subProcess := by
  cases h with
  | entered => exact .inl rfl
  | resumed _ _ kind => exact .inr ⟨rfl, kind⟩
  | waiting _ state | left _ state =>
      rw [entered] at state
      cases state
  | stalled _ gone | merged gone =>
      rw [live] at gone
      cases gone

theorem leave (h : Phase d x told) (live : x.destroyed = false) (entered : x.state = .entered) :
    Phase d x.leave (told ++ [.exit]) :=
  .left ((h.running live entered).imp_right And.left) rfl

theorem eq_enter (h : Phase d x told) (live : x.destroyed = false) (entered : x.state = .entered)
    (unwaited : .wait ∉ told) : told = [.enter] := by
  apply (h.running live entered).resolve_right
  intro signalled
  rw [signalled.1] at unwaited
  simp at unwaited

theorem eq_enter_of_holdsAt (h : Phase d x told) (live : x.destroyed = false)
    (entered : x.state = .entered) (holds : d.HoldsAt x.element) : told = [.enter] := by
  apply (h.running live entered).resolve_right
  intro signalled
  cases holds.1.symm.trans signalled.2

theorem eq_wait (h : Phase d x told) (waiting : x.state = .waiting) (live : x.destroyed = false) :
    told = [.enter, .wait] := by
  cases h with
  | waiting => rfl
  | entered _ state | resumed _ state _ | left _ state =>
      rw [waiting] at state
      cases state
  | stalled _ gone | merged gone =>
      rw [live] at gone
      cases gone

theorem exists_ran (h : Phase d x told) (live : x.destroyed = false) (exited : x.state = .exited) :
    ∃ before, Ran before ∧ told = before ++ [.exit] := by
  cases h with
  | left ran => exact ⟨_, ran, rfl⟩
  | entered _ state | resumed _ state _ | waiting _ state =>
      rw [exited] at state
      cases state
  | stalled _ gone | merged gone =>
      rw [live] at gone
      cases gone

end Phase

/-- Every scope is as far as it is told of. Of scopes that are not there nothing is told, and a token
whose turn is still to come has never waited. -/
structure Storied (d : Diagram) (s : Simulation) : Prop where
  phase : ∀ (i : Nat) (x : Scope), s.scopes[i]? = some x → Phase d x (s.story i)
  beyond : ∀ i : Nat, s.scopes.length ≤ i → s.story i = []
  unwaited : ∀ i : Nat, .enter i ∈ s.agenda → .wait ∉ s.story i

namespace Storied

section Changes

variable {added : List Task} {counts : List (String × Nat)} {told : List Event}

theorem modify (h : Storied d s) (hx : s.scopes[i]? = some x) {f : Scope → Scope}
    (change : Change s s' (s.scopes.modify i f) added counts told)
    (own : ∀ ev ∈ told, ev.scope = i) (phase : Phase d (f x) (s.story i ++ told.map (·.kind)))
    (calm : ∀ j : Nat, .enter j ∉ added)
    (waits : .wait ∈ told.map (·.kind) → .enter i ∉ s.agenda) : Storied d s' := by
  refine ⟨?_, ?_, ?_⟩
  · intro j y hy
    rw [change.scopes] at hy
    rw [change.story, storyOf_own own]
    cases Scopes.getElem?_modify_cases hx hy with
    | inl here =>
        obtain ⟨rfl, rfl⟩ := here
        rw [if_pos rfl]
        exact phase
    | inr other =>
        rw [if_neg other.1, List.append_nil]
        exact h.phase j y other.2
  · intro j above
    rw [change.scopes, List.length_modify] at above
    have other : i ≠ j := Nat.ne_of_lt
      (Nat.lt_of_lt_of_le (List.getElem?_eq_some_iff.mp hx).1 above)
    rw [change.story, storyOf_own own, if_neg other, List.append_nil, h.beyond j above]
  · intro j hj
    have there : .enter j ∈ s.agenda := by
      rw [change.agenda] at hj
      exact (List.mem_append.mp hj).resolve_right (calm j)
    rw [change.story, storyOf_own own, List.mem_append, not_or]
    refine ⟨h.unwaited j there, ?_⟩
    split
    next same => exact fun waited => waits waited (same ▸ there)
    next => exact List.not_mem_nil

theorem enterAll (h : Storied d s) {elements : List Element} {parent : Option Nat}
    (change : Change s s' (s.scopes.enterAll elements parent) added counts told)
    (entered : ∀ j : Nat, storyOf told j
      = if s.scopes.length ≤ j ∧ j < s.scopes.length + elements.length then [.enter] else [])
    (later : ∀ j : Nat, .enter j ∈ added → s.scopes.length ≤ j) : Storied d s' := by
  have size : (s.scopes.enterAll elements parent).length = s.scopes.length + elements.length := by
    rw [Scopes.enterAll, List.length_append, List.length_map]
  have calm : ∀ j : Nat, .wait ∉ storyOf told j := by
    intro j
    rw [entered]
    split <;> simp
  refine ⟨?_, ?_, ?_⟩
  · intro j y hy
    rw [change.scopes] at hy
    have inside := (List.getElem?_eq_some_iff.mp hy).1
    rw [size] at inside
    rw [change.story, entered]
    cases Scopes.getElem?_enterAll_cases hy with
    | inl old =>
        have below := (List.getElem?_eq_some_iff.mp old).1
        rw [if_neg (by omega), List.append_nil]
        exact h.phase j y old
    | inr new =>
        obtain ⟨above, live, entered⟩ := new
        rw [if_pos ⟨above, inside⟩, h.beyond j above]
        exact .entered live entered
  · intro j above
    rw [change.scopes, size] at above
    rw [change.story, entered, if_neg (by omega), h.beyond j (by omega)]
    rfl
  · intro j hj
    rw [change.story, List.mem_append, not_or]
    refine ⟨?_, calm j⟩
    rw [change.agenda, List.mem_append] at hj
    cases hj with
    | inl old => exact h.unwaited j old
    | inr new =>
        rw [h.beyond j (later j new)]
        exact List.not_mem_nil

theorem create (h : Storied d s) {e : Element} {parent : Option Nat}
    (change : Change s s' (s.scopes ++ [Scope.enter e parent]) added counts
      [⟨.enter, e.id, s.scopes.length⟩])
    (later : ∀ j : Nat, .enter j ∈ added → s.scopes.length ≤ j) : Storied d s' := by
  have entered : Change s s' (s.scopes.enterAll [e] parent) added counts
      [⟨.enter, e.id, s.scopes.length⟩] := change
  refine h.enterAll entered ?_ later
  intro j
  rw [storyOf_own (fun ev hev => congrArg Event.scope (List.mem_singleton.mp hev))]
  have same : s.scopes.length = j ↔ s.scopes.length ≤ j ∧ j < s.scopes.length + [e].length := by
    rw [List.length_singleton]
    omega
  simp only [same]
  rfl

end Changes

theorem rest {t : Task} (h : Storied d { s with agenda := t :: s.agenda }) : Storied d s :=
  ⟨h.phase, h.beyond, fun i hi => h.unwaited i (List.mem_cons_of_mem _ hi)⟩

theorem proceeds (h : Storied d s) (ready : Ready s.scopes i x) {o : Outcome}
    (fresh : o = .waits → .wait ∉ s.story i ∧ .enter i ∉ s.agenda)
    (proceeds : Proceeds s i x o s') : Storied d s' := by
  have phase := h.phase i x ready.found
  cases proceeds with
  | waits change =>
      obtain ⟨unwaited, last⟩ := fresh rfl
      refine h.modify ready.found change (by simp) ?_ (by simp) fun _ => last
      rw [phase.eq_enter ready.live ready.entered unwaited]
      exact .waiting ready.live rfl
  | leaves change =>
      exact h.modify ready.found change (by simp) (phase.leave ready.live ready.entered) (by simp)
        (by simp)
  | starts change => exact h.create change (by simp)

theorem departs (h : Storied d s) (exiting : Exiting s.scopes i x)
    (departs : Departs d c s i x s') : Storied d s' := by
  obtain ⟨before, ran, told⟩ :=
    (h.phase i x exiting.found).exists_ran exiting.live exiting.exited
  have inside := (List.getElem?_eq_some_iff.mp exiting.found).1
  cases departs with
  | @sends flows _ _ change =>
      -- First the new scopes, then the destruction of the one that departs.
      let s₁ : Simulation := { s' with scopes := s.scopes.enterAll (flows.map (·.target)) x.parent }
      have entered : Storied d s₁ := by
        have into : Change s s₁ (s.scopes.enterAll (flows.map (·.target)) x.parent) _ _ _ :=
          ⟨rfl, change.agenda, change.exitCounts, change.events⟩
        refine h.enterAll into ?_ ?_
        · intro j
          rw [storyOf_entering, List.length_map]
        · intro j hj
          obtain ⟨k, hk, same⟩ := List.mem_map.mp hj
          cases same
          exact (List.mem_range'_1.mp hk).1
      have there : s₁.scopes[i]? = some x :=
        (List.getElem?_append_left inside).trans exiting.found
      have own : s₁.story i = before ++ [.exit] := by
        have more := change.story i
        rw [told, storyOf_entering, if_neg (by omega), List.append_nil] at more
        exact more
      have gone : Change s₁ s' (s₁.scopes.modify i Scope.destroy) [] s₁.exitCounts [] :=
        ⟨change.scopes, (List.append_nil _).symm, rfl, (List.append_nil _).symm⟩
      refine entered.modify there gone (by simp) ?_ (by simp) (by simp)
      · rw [own, List.map_nil, List.append_nil]
        exact .left ran rfl
  | stalls sent change =>
      refine h.modify exiting.found change (by simp) ?_ (by simp) (by simp)
      rw [told, List.append_assoc]
      exact .stalled ran rfl (Diagram.sent_none sent) (Diagram.length_outgoing_of_sent_none sent)

theorem gathers (h : Storied d s) {p : Nat} {tokens : List Nat}
    (gathers : Gathers d s i x p tokens s') : Storied d s' := by
  have change := gathers.change
  have distinct := (List.nodup_cons.mp gathers.distinct).2
  have size : (s.scopes.destroyAll tokens).length = s.scopes.length := length_destroyAll ..
  refine ⟨?_, ?_, ?_⟩
  · intro j y hy
    rw [change.scopes] at hy
    rw [change.story, storyOf_merges distinct]
    split
    next token =>
        obtain ⟨z, hz, own, live, entered, _⟩ := gathers.alike j token
        have holds : d.HoldsAt z.element := by
          by_contra free
          have count := gathers.count
          rw [← own, share_of_not_holdsAt free] at count
          have none : tokens = [] := List.length_eq_zero_iff.mp (by omega)
          rw [none] at token
          cases token
        rw [Scopes.getElem?_destroyAll_of_mem token hz] at hy
        rw [(h.phase j z hz).eq_enter_of_holdsAt live entered holds, ← Option.some.inj hy]
        exact .merged rfl holds
    next other =>
        rw [Scopes.getElem?_destroyAll other] at hy
        rw [List.append_nil]
        exact h.phase j y hy
  · intro j above
    rw [change.scopes, size] at above
    have other : j ∉ tokens := by
      intro token
      obtain ⟨z, hz, _⟩ := gathers.alike j token
      exact absurd (List.getElem?_eq_some_iff.mp hz).1 (Nat.not_lt.mpr above)
    rw [change.story, storyOf_merges distinct, if_neg other, h.beyond j above]
    rfl
  · intro j hj
    rw [change.agenda, List.append_nil] at hj
    rw [change.story, storyOf_merges distinct, List.mem_append, not_or]
    refine ⟨h.unwaited j hj, ?_⟩
    split <;> simp

theorem turn (h : Storied d { s with agenda := t :: s.agenda })
    (sound : Sound d [] s.scopes (t :: s.agenda)) (turn : Turn d c s t s') : Storied d s' := by
  cases turn with
  | rests change =>
      have still : Change s s' (s.scopes.enterAll [] none) [] s.exitCounts [] := by
        rw [Scopes.enterAll, List.map_nil, List.append_nil]
        exact change
      refine h.rest.enterAll still ?_ (by simp)
      intro j
      rw [List.length_nil, if_neg (by omega)]
      rfl
  | @arrives i _ _ tokens s₁ _ _ _ _ _ gathers ready proceeds =>
      refine (h.rest.gathers gathers).proceeds ready ?_ proceeds
      intro _
      have alone : i ∉ tokens := (List.nodup_cons.mp gathers.distinct).1
      have others := (List.nodup_cons.mp gathers.distinct).2
      rw [gathers.change.story, storyOf_merges others, if_neg alone, List.append_nil,
        gathers.change.agenda, List.append_nil]
      refine ⟨h.unwaited i List.mem_cons_self, ?_⟩
      intro again
      exact (List.nodup_cons.mp sound.distinct).1 (List.mem_map_of_mem (f := Task.scope) again)
  | departs exiting departs => exact h.rest.departs exiting departs
  | closes exiting departs _ _ _ ready proceeds =>
      refine (h.rest.departs exiting departs).proceeds ready ?_ proceeds
      intro waits
      cases waits

theorem resumes (h : Storied d s) {s₁ : Simulation} (resumes : Resumes d s i x s₁ s')
    (waiting : x.state = .waiting) : Storied d s' := by
  have told := (h.phase i x resumes.found).eq_wait waiting resumes.live
  have change := resumes.change
  have proceeds := resumes.proceeds
  by_cases kind : x.element.kind = .subProcess
  · have again : Storied d s₁ := by
      refine h.modify resumes.found change (by simp) ?_ (by simp) (by simp)
      rw [told]
      exact .resumed resumes.live rfl kind
    refine again.proceeds resumes.ready ?_ proceeds
    intro waits
    rw [Diagram.passed, if_pos kind] at waits
    cases inner : d.startEvents x.element <;> (rw [inner] at waits; cases waits)
  · have way : d.passed x.element = .leaves := by rw [Diagram.passed, if_neg kind]
    rw [way] at proceeds
    cases proceeds with
    | leaves leave =>
        have both := change.trans leave
        rw [change.scopes, List.modify_modify_eq] at both
        refine h.modify (f := Scope.leave ∘ Scope.resume) resumes.found both ?_ ?_ (by simp) (by simp)
        · intro ev hev
          obtain rfl | rfl : ev = _ ∨ ev = _ := by simpa using hev
          · rfl
          · rfl
        · rw [told]
          exact .left (.inr rfl) rfl

theorem opens (h : Storied d s) {e : Element} (opens : Opens d s e s') : Storied d s' := by
  cases opens with
  | inside _ _ _ change => exact h.create change (by simp)
  | below _ _ made change => exact (h.create made (by simp)).create change (by simp)

theorem endures (d : Diagram) : Endures d (Storied d) := by
  constructor
  case empty =>
    refine ⟨?_, fun _ _ => rfl, ?_⟩
    · intro i x hx
      cases hx
    · intro i hi
      cases hi
  case turn => exact fun c s t s' sound turn h => h.turn sound turn
  case resumes =>
    intro s i x s₁ s' sound _ resumes h
    exact h.resumes resumes ((sound.formed.proper i x resumes.found).pending.mp resumes.pending)
  case opens => exact fun s e s' _ _ _ opens h => h.opens opens

end Storied

/-- Events name the elements of their scopes, and scopes are entered in the order of their ids. -/
structure Booked (s : Simulation) : Prop where
  own : ∀ ev ∈ s.events, ∃ x, s.scopes[ev.scope]? = some x ∧ x.element.id = ev.element
  entered : (s.events.filter (·.kind == .enter)).map (·.scope) = List.range s.scopes.length

namespace Booked

theorem note (h : Booked s) {n : Notice} (silent : n.event? = none) : Booked (s.note n) := by
  refine ⟨?_, ?_⟩ <;> rw [events_note silent]
  · exact h.own
  · exact h.entered

theorem modifyScope (h : Booked s) (i : Nat) {f : Scope → Scope}
    (element : ∀ x, (f x).element = x.element) : Booked (s.modifyScope i f) := by
  refine ⟨?_, ?_⟩
  · intro ev hev
    obtain ⟨x, hx, named⟩ := h.own ev hev
    refine ⟨if i = ev.scope then f x else x, ?_, ?_⟩
    · exact (List.getElem?_modify ..).trans (congrArg (Option.map _) hx)
    · split
      · exact (congrArg Element.id (element x)).trans named
      · exact named
  · exact h.entered.trans (congrArg List.range (List.length_modify ..).symm)

theorem record (h : Booked s) (hx : s.scopes[i]? = some x) {kind : EventKind}
    (old : kind ≠ .enter) : Booked (s.record kind x.element.id i) := by
  refine ⟨?_, ?_⟩ <;> rw [events_record]
  · intro ev hev
    cases List.mem_append.mp hev with
    | inl before => exact h.own ev before
    | inr now => exact List.mem_singleton.mp now ▸ ⟨x, hx, rfl⟩
  · rw [List.filter_append, List.filter_cons_of_neg (by simpa using old), List.filter_nil,
      List.append_nil]
    exact h.entered

theorem create (h : Booked s) (e : Element) (parent : Option Nat) : Booked (s.create e parent) := by
  have told : (s.create e parent).events = s.events ++ [⟨.enter, e.id, s.scopes.length⟩] :=
    events_record { s with scopes := _ } ..
  have more : (s.create e parent).scopes = s.scopes ++ [Scope.enter e parent] := rfl
  refine ⟨?_, ?_⟩ <;> rw [told, more]
  · intro ev hev
    cases List.mem_append.mp hev with
    | inl before =>
        obtain ⟨x, hx, named⟩ := h.own ev before
        exact ⟨x, Scopes.getElem?_append_old hx _, named⟩
    | inr now =>
        rw [List.mem_singleton.mp now]
        exact ⟨_, Scopes.getElem?_append_new _ _, rfl⟩
  · rw [List.filter_append, List.map_append, h.entered, List.length_append, List.length_singleton,
      List.range_succ]
    rfl

theorem lasting : Lasting Booked := by
  apply Lasting.of_parts
  case agenda => exact fun _ _ h => ⟨h.own, h.entered⟩
  case note => exact fun s n silent h => h.note silent
  case create => exact fun s e parent h => h.create e parent
  case modify => exact fun s i f element _ h => h.modifyScope i element
  case record => exact fun s i x kind hx old _ h => h.record hx old
  case leave =>
    intro s i x hx h
    have left : Booked (s.record .exit x.element.id i) := h.record hx (by decide)
    exact ⟨left.own, left.entered⟩

end Booked

/-- What can be told of a scope in the end. -/
def courses : List (List EventKind) :=
  [[.enter, .exit, .stall], [.enter, .wait, .signal, .exit, .stall], [.enter, .merge]]

/-- Every scope follows the protocol, and what is told agrees with the scopes and the exit counts. -/
structure Protocol (d : Diagram) (s : Simulation) : Prop where
  followed : ∀ i, ∃ course ∈ courses, s.story i <+: course
  own : ∀ ev ∈ s.events, ∃ x, s.scopes[ev.scope]? = some x ∧ x.element.id = ev.element
  stalls : ∀ (i : ScopeId) (x : Scope), s.scopes[i]? = some x → .stall ∈ s.story i →
    x.element.kind = .exclusiveGateway ∧ (d.outgoing x.element).length ≠ 1
  merges : ∀ (i : ScopeId) (x : Scope), s.scopes[i]? = some x → .merge ∈ s.story i →
    x.element.kind = .parallelGateway ∧ 1 < (d.incoming x.element).length
  waiting : ∀ (i : ScopeId) (x : Scope), s.scopes[i]? = some x →
    (x.state = .waiting ↔ (s.story i).getLast? = some .wait)
  destroyed : ∀ (i : ScopeId) (x : Scope), s.scopes[i]? = some x →
    (x.destroyed = true ↔
      ∃ kind ∈ [EventKind.exit, .stall, .merge], (s.story i).getLast? = some kind)
  entered : (s.events.filter (·.kind == .enter)).map (·.scope) = List.range s.scopes.length
  exits : ∀ id, s.exitCount id = s.happened .exit id
  once : ∀ i, (s.story i).count .signal ≤ 1
  signalled : ∀ (i : ScopeId) (s' : Simulation), i < s.scopes.length → s.signal i = .ok s' →
    .signal ∉ s.story i ∧ .signal ∈ s'.story i

namespace Phase

variable {told : List EventKind}

theorem followed (h : Phase d x told) : ∃ course ∈ courses, told <+: course := by
  cases h with
  | entered | waiting | resumed | merged => decide
  | left ran | stalled ran => cases ran <;> (next same => subst same; decide)

theorem count_signal_le (h : Phase d x told) : told.count .signal ≤ 1 := by
  cases h with
  | entered | waiting | resumed | merged => decide
  | left ran | stalled ran => cases ran <;> (next same => subst same; decide)

theorem stalls (h : Phase d x told) (stall : .stall ∈ told) :
    x.element.kind = .exclusiveGateway ∧ (d.outgoing x.element).length ≠ 1 := by
  cases h with
  | stalled _ _ kind several => exact ⟨kind, several⟩
  | entered | waiting | resumed | merged => simp at stall
  | left ran =>
      cases ran <;> (next same => subst same; simp at stall)

theorem merges (h : Phase d x told) (merge : .merge ∈ told) : d.HoldsAt x.element := by
  cases h with
  | merged _ holds => exact holds
  | entered | waiting | resumed => simp at merge
  | left ran | stalled ran => cases ran <;> (next same => subst same; simp at merge)

theorem waiting_iff (h : Phase d x told) (final : x.destroyed = true → x.state = .exited) :
    x.state = .waiting ↔ told.getLast? = some .wait := by
  cases h with
  | waiting _ state => simp [state]
  | entered _ state | resumed _ state _ | left _ state => simp [state]
  | stalled _ gone | merged gone => simp [final gone]

theorem destroyed_iff (h : Phase d x told) (resting : x.state = .exited → x.destroyed = true) :
    x.destroyed = true ↔
      ∃ kind ∈ [EventKind.exit, .stall, .merge], told.getLast? = some kind := by
  cases h with
  | entered live | waiting live | resumed live => simp [live]
  | left _ state => simp [resting state]
  | stalled _ gone | merged gone => simp [gone]

end Phase

theorem pending_of_signal (hx : s.scopes[i]? = some x) (signalled : s.signal i = .ok s') :
    x.destroyed = false ∧ x.pending = true := by
  rw [signal, hx] at signalled
  simp only at signalled
  split at signalled
  next => cases signalled
  next accepted => simpa using accepted

/-- In whatever order a simulation is operated, its scopes follow the protocol. -/
theorem Reached.protocol (built : d.Built) (contained : d.StartsContained) (h : Reached d c s) :
    Protocol d s := by
  obtain ⟨sound, drained⟩ := h.sound built contained
  have storied := (Storied.endures d).reached built contained h
  have booked := Booked.lasting.reached ⟨fun _ none => absurd none List.not_mem_nil, rfl⟩ h
  have known : ∀ i, s.story i ≠ [] → ∃ x, s.scopes[i]? = some x := by
    intro i told
    have below : i < s.scopes.length := by
      by_contra above
      exact told (storied.beyond i (Nat.not_lt.mp above))
    exact ⟨_, List.getElem?_eq_getElem below⟩
  refine ⟨?_, booked.own, ?_, ?_, ?_, ?_, booked.entered, h.exitCount_eq, ?_, ?_⟩
  · intro i
    by_cases told : s.story i = []
    · rw [told]
      decide
    · obtain ⟨x, hx⟩ := known i told
      exact (storied.phase i x hx).followed
  · exact fun i x hx stall => (storied.phase i x hx).stalls stall
  · exact fun i x hx merge => (storied.phase i x hx).merges merge
  · exact fun i x hx =>
      (storied.phase i x hx).waiting_iff (sound.formed.proper i x hx).destroyed
  · intro i x hx
    apply (storied.phase i x hx).destroyed_iff
    intro exited
    have settled := sound.settled i x hx List.not_mem_nil (by rw [drained]; exact List.not_mem_nil)
    obtain gone | waiting | ⟨entered, _⟩ := settled
    · exact gone
    · cases exited.symm.trans waiting
    · cases exited.symm.trans entered
  · intro i
    by_cases told : s.story i = []
    · rw [told]
      decide
    · obtain ⟨x, hx⟩ := known i told
      exact (storied.phase i x hx).count_signal_le
  · intro i s' below signalled
    have hx := List.getElem?_eq_getElem below
    obtain ⟨live, pending⟩ := pending_of_signal hx signalled
    have state := (sound.formed.proper i _ hx).pending.mp pending
    have told := (storied.phase i _ hx).eq_wait state live
    obtain ⟨s₁, signalled', change⟩ := Change.signal hx live pending
    cases signalled.symm.trans signalled'
    rw [change.story, told, storyOf_cons]
    simp

/-- Two tasks that waited are signalled, and one of their tokens is merged into the other. -/
theorem protocol_twin : Protocol .twin (signalAndRun .twin twinConfig 20 twinHeld 3).1 :=
  (Reached.signal reached_twinHeld (by decide +kernel) (by decide +kernel)).protocol
    Diagram.built_twin (by unfold Diagram.StartsContained; decide)

end Simulation
end ProcessDiagram
