import ProcessDiagram.Proofs.Simulation.Operated

/-!
Tokens at exclusive gateways. A token there waits or leaves as the gateway is set, and when it departs
it is sent along a flow or stalls. Main statements: `sustains_of_passes`, by which an invariant about
gateways is checked against what a single change does there.
-/
namespace ProcessDiagram

/-- The scope is of the gateway. -/
def Scope.IsAt (g : Element) (x : Scope) : Prop :=
  x.element.kind = .exclusiveGateway ∧ x.element.id = g.id

theorem Scope.IsAt.get_eq {g : Element} {x : Scope} (own : x.IsAt g) (c : ConfigStore) :
    c.get x.element = c.get g := by
  rw [ConfigStore.get, ConfigStore.get, own.2]

theorem Diagram.sent_of_unset {d : Diagram} {c : ConfigStore} {e : Element}
    (kind : e.kind = .exclusiveGateway) (unset : (c.get e).activeOutgoing = none)
    (several : 2 ≤ (d.outgoing e).length) : d.sent c e = none := by
  rw [Diagram.sent, kind]
  simp only
  split
  next single =>
      rw [single, List.length_singleton] at several
      omega
  next =>
      rw [List.find?_eq_none.mpr, Option.map_none]
      intro f _
      simp [unset]

namespace Simulation

variable {d : Diagram} {c : ConfigStore} {allowed : Element → Prop} {told : List Event}
  {s s₁ s' : Simulation} {i j : Nat} {x y : Scope}

/-- What one change makes of a scope at an exclusive gateway. -/
inductive Passing (d : Diagram) (c : ConfigStore) (allowed : Element → Prop) (told : List Event)
    (s : Simulation) (j : Nat) (y : Scope) : Prop
  | same : s.scopes[j]? = some y → Passing d c allowed told s j y
  | new : s.scopes.length ≤ j → y.destroyed = false → y.state = .entered →
      Passing d c allowed told s j y
  | waits {x : Scope} : s.scopes[j]? = some x → x.destroyed = false → x.state = .entered →
      (c.get x.element).wait = true → y = x.suspend → Passing d c allowed told s j y
  | leaves {x : Scope} : s.scopes[j]? = some x → x.destroyed = false → x.state = .entered →
      (c.get x.element).wait = false → y = x.leave → Passing d c allowed told s j y
  | signalled {x : Scope} : s.scopes[j]? = some x → x.destroyed = false → x.state = .waiting →
      allowed x.element → y = x.resume.leave → Passing d c allowed told s j y
  | departs {x : Scope} : s.scopes[j]? = some x → x.destroyed = false → x.state = .exited →
      (d.sent c x.element = none → ⟨.stall, x.element.id, j⟩ ∈ told) → y = x.destroy →
      Passing d c allowed told s j y

/-- What one change does at exclusive gateways: the events it is told by, the scopes afterwards, and
which tokens were stalled. -/
structure Passes (d : Diagram) (c : ConfigStore) (allowed : Element → Prop) (told : List Event)
    (s s' : Simulation) : Prop where
  events : s'.events = s.events ++ told
  kept : s.scopes.Kept s'.scopes
  scope : ∀ (j : Nat) (y : Scope), s'.scopes[j]? = some y → y.element.kind = .exclusiveGateway →
    Passing d c allowed told s j y
  stalls : ∀ ev ∈ told, ev.kind = .stall → ∃ x, Exiting s.scopes ev.scope x ∧
    x.element.kind = .exclusiveGateway ∧ x.element.id = ev.element

theorem Passing.earlier (h : Passing d c allowed told s₁ j y) {told' : List Event}
    (more : told ⊆ told') (size : s.scopes.length ≤ s₁.scopes.length)
    (kind : y.element.kind = .exclusiveGateway)
    (before : ∀ x : Scope, s₁.scopes[j]? = some x → x.element.kind = .exclusiveGateway →
      s.scopes[j]? = some x) : Passing d c allowed told' s j y := by
  cases h with
  | same hy => exact .same (before y hy kind)
  | new above live entered => exact .new (Nat.le_trans size above) live entered
  | waits hx live entered wait same =>
      subst same
      exact .waits (before _ hx kind) live entered wait rfl
  | leaves hx live entered waitless same =>
      subst same
      exact .leaves (before _ hx kind) live entered waitless rfl
  | signalled hx live waiting named same =>
      subst same
      exact .signalled (before _ hx kind) live waiting named rfl
  | departs hx live exited stalls same =>
      subst same
      exact .departs (before _ hx kind) live exited (fun none => more (stalls none)) rfl

/-! ## One change -/

theorem Gathers.same {p : Nat} {tokens : List Nat} (gathers : Gathers d s i x p tokens s')
    (hy : s'.scopes[j]? = some y) (kind : y.element.kind = .exclusiveGateway) :
    s.scopes[j]? = some y := by
  have others : j ∉ tokens := by
    intro token
    obtain ⟨z, hz, own, _⟩ := gathers.alike j token
    rw [gathers.change.scopes, Scopes.getElem?_destroyAll_of_mem token hz] at hy
    have gateway : x.element.kind = .exclusiveGateway := by
      rw [← own, ← kind, ← Option.some.inj hy]
      rfl
    have count := gathers.count
    rw [share_of_not_holdsAt fun holds => absurd (gateway.symm.trans holds.1) (by decide)] at count
    have none : tokens = [] := List.length_eq_zero_iff.mp (by omega)
    rw [none] at token
    cases token
  rw [← hy, gathers.change.scopes, Scopes.getElem?_destroyAll others]

theorem Proceeds.exists_told {o : Outcome} (proceeds : Proceeds s i x o s') :
    ∃ told, s'.events = s.events ++ told ∧ ∀ ev ∈ told, ev.kind ≠ .stall := by
  cases proceeds with
  | waits change => exact ⟨_, change.events, by simp⟩
  | leaves change => exact ⟨_, change.events, by simp⟩
  | starts change => exact ⟨_, change.events, by simp⟩

theorem Proceeds.kept {o : Outcome} (proceeds : Proceeds s i x o s') {scopes : Scopes}
    (kept : scopes.Kept s.scopes) : scopes.Kept s'.scopes := by
  cases proceeds with
  | waits change => exact change.scopes ▸ kept.modify i (fun _ => rfl) fun _ => rfl
  | leaves change => exact change.scopes ▸ kept.modify i (fun _ => rfl) fun _ => rfl
  | starts change => exact change.scopes ▸ kept.append _

theorem Departs.passes (departs : Departs d c s i x s') (exiting : Exiting s.scopes i x) :
    ∃ told, Passes d c allowed told s s' := by
  cases departs with
  | @sends flows _ sent change =>
      refine ⟨_, change.events, ?_, ?_, ?_⟩
      · rw [change.scopes]
        exact ((Scopes.Kept.refl _).enterAll _ _).modify i (fun _ => rfl) fun _ => rfl
      · intro j y hy _
        have there : (s.scopes.enterAll (flows.map (·.target)) x.parent)[i]? = some x := by
          rw [Scopes.enterAll,
            List.getElem?_append_left (List.getElem?_eq_some_iff.mp exiting.found).1, exiting.found]
        rw [change.scopes] at hy
        obtain ⟨rfl, gone⟩ | ⟨_, hy⟩ := Scopes.getElem?_modify_cases there hy
        · exact .departs exiting.found exiting.live exiting.exited
            (fun none => by cases none.symm.trans sent) gone
        · obtain old | ⟨above, live, entered⟩ := Scopes.getElem?_enterAll_cases hy
          · exact .same old
          · exact .new above live entered
      · intro ev hev stall
        obtain ⟨entry, _, rfl⟩ := List.mem_map.mp hev
        cases stall
  | stalls none change =>
      refine ⟨_, change.events, ?_, ?_, ?_⟩
      · rw [change.scopes]
        exact (Scopes.Kept.refl _).modify i (fun _ => rfl) fun _ => rfl
      · intro j y hy _
        rw [change.scopes] at hy
        obtain ⟨rfl, gone⟩ | ⟨_, old⟩ := Scopes.getElem?_modify_cases exiting.found hy
        · exact .departs exiting.found exiting.live exiting.exited
            (fun _ => List.mem_singleton_self _) gone
        · exact .same old
      · intro ev hev _
        rw [List.mem_singleton.mp hev]
        exact ⟨x, exiting, Diagram.sent_none none, rfl⟩

theorem Proceeds.passing (ready : Ready s.scopes i x)
    (proceeds : Proceeds s i x (d.outcome c x.element) s') (hy : s'.scopes[j]? = some y)
    (kind : y.element.kind = .exclusiveGateway) : Passing d c allowed told s j y := by
  have gateway : x.element.kind = .exclusiveGateway →
      d.outcome c x.element = if (c.get x.element).wait then .waits else .leaves := by
    intro kind
    simp only [Diagram.outcome, Diagram.passed, kind, reduceCtorEq, if_false]
  generalize way : d.outcome c x.element = o at proceeds gateway
  cases proceeds with
  | waits change =>
      rw [change.scopes] at hy
      obtain ⟨rfl, rfl⟩ | ⟨_, old⟩ := Scopes.getElem?_modify_cases ready.found hy
      · refine .waits ready.found ready.live ready.entered ?_ rfl
        by_contra waitless
        have other := gateway kind
        rw [if_neg waitless] at other
        cases other
      · exact .same old
  | leaves change =>
      rw [change.scopes] at hy
      obtain ⟨rfl, rfl⟩ | ⟨_, old⟩ := Scopes.getElem?_modify_cases ready.found hy
      · refine .leaves ready.found ready.live ready.entered ?_ rfl
        by_contra waits
        have other := gateway kind
        rw [if_pos (by simpa using waits)] at other
        cases other
      · exact .same old
  | starts change =>
      rw [change.scopes] at hy
      obtain old | ⟨rfl, rfl⟩ := Scopes.getElem?_append_cases hy
      · exact .same old
      · exact .new (Nat.le_refl _) rfl rfl

theorem kind_ne_of_container (formed : Formed d s.scopes) (hy : s.scopes[j]? = some y)
    (container : y.element.kind = .subProcess ∨ y.parent = none) :
    y.element.kind ≠ .exclusiveGateway := by
  intro kind
  cases container with
  | inl inner => cases kind.symm.trans inner
  | inr root =>
      have process := (formed.proper j y hy).root root
      rw [kind] at process
      simp at process

theorem Turn.passes {t : Task} (formed : Formed d s.scopes) (turn : Turn d c s t s') :
    ∃ told, Passes d c allowed told s s' := by
  cases turn with
  | rests change =>
      refine ⟨[], change.events, change.scopes ▸ .refl _, ?_, by simp⟩
      intro j y hy _
      exact .same (change.scopes ▸ hy)
  | @arrives i p x tokens s₁ _ _ _ _ _ gathers ready proceeds =>
      obtain ⟨told, events, unstalled⟩ := proceeds.exists_told
      refine ⟨tokens.map (fun j => ⟨.merge, x.element.id, j⟩) ++ told, ?_, ?_, ?_, ?_⟩
      · rw [events, gathers.change.events, List.append_assoc]
      · apply proceeds.kept
        rw [gathers.change.scopes]
        exact (Scopes.Kept.refl _).destroyAll tokens
      · intro j y hy kind
        have passing : Passing d c allowed told s₁ j y := proceeds.passing ready hy kind
        apply passing.earlier (List.subset_append_right _ _) _ kind fun z hz => gathers.same hz
        rw [gathers.change.scopes, length_destroyAll]
      · intro ev hev stall
        cases List.mem_append.mp hev with
        | inl merged =>
            obtain ⟨k, _, rfl⟩ := List.mem_map.mp merged
            cases stall
        | inr later => exact absurd stall (unstalled ev later)
  | departs exiting departs => exact departs.passes exiting
  | @closes i p x parent s₁ _ exiting departs _ hp container ready proceeds =>
      obtain ⟨told, passes⟩ : ∃ told, Passes d c allowed told s s₁ := departs.passes exiting
      have kept := proceeds.kept passes.kept
      cases proceeds with
      | leaves change =>
          refine ⟨told ++ [⟨.exit, parent.element.id, p⟩], ?_, kept, ?_, ?_⟩
          · rw [change.events, passes.events, List.append_assoc]
          · intro j y hy kind
            rw [change.scopes] at hy
            obtain ⟨rfl, rfl⟩ | ⟨_, old⟩ := Scopes.getElem?_modify_cases ready.found hy
            · exact absurd (show parent.element.kind = _ from kind)
                (kind_ne_of_container formed hp container)
            · exact (passes.scope j y old kind).earlier (List.subset_append_left _ _)
                (Nat.le_refl _) kind fun _ hx _ => hx
          · intro ev hev stall
            cases List.mem_append.mp hev with
            | inl before => exact passes.stalls ev before stall
            | inr left =>
                rw [List.mem_singleton.mp left] at stall
                cases stall

theorem Resumes.passes (formed : Formed d s.scopes) (resumes : Resumes d s i x s₁ s')
    (named : allowed x.element) : ∃ told, Passes d c allowed told s s' := by
  have waiting := (formed.proper i x resumes.found).pending.mp resumes.pending
  have change := resumes.change
  have proceeds := resumes.proceeds
  generalize way : d.passed x.element = o at proceeds
  obtain ⟨told, events, unstalled⟩ := proceeds.exists_told
  have resumed : ∀ (j : Nat) (y : Scope), s₁.scopes[j]? = some y →
      i = j ∧ y = x.resume ∨ i ≠ j ∧ s.scopes[j]? = some y := by
    intro j y hy
    rw [change.scopes] at hy
    exact Scopes.getElem?_modify_cases resumes.found hy
  refine ⟨[⟨.signal, x.element.id, i⟩] ++ told, ?_, ?_, ?_, ?_⟩
  · rw [events, change.events, List.append_assoc]
  · apply proceeds.kept
    rw [change.scopes]
    exact (Scopes.Kept.refl _).modify i (fun _ => rfl) fun _ => rfl
  · intro j y hy kind
    cases proceeds with
    | waits _ =>
        rw [Diagram.passed] at way
        split at way
        · split at way <;> cases way
        · cases way
    | leaves leave =>
        rw [leave.scopes] at hy
        obtain ⟨rfl, rfl⟩ | ⟨other, there⟩ := Scopes.getElem?_modify_cases resumes.ready.found hy
        · exact .signalled resumes.found resumes.live waiting named rfl
        · obtain ⟨here, _⟩ | ⟨_, old⟩ := resumed j y there
          · exact absurd here other
          · exact .same old
    | starts start =>
        rw [start.scopes] at hy
        obtain there | ⟨rfl, rfl⟩ := Scopes.getElem?_append_cases hy
        · obtain ⟨rfl, rfl⟩ | ⟨_, old⟩ := resumed j y there
          · cases kind.symm.trans (Diagram.of_passed_starts way).1
          · exact .same old
        · refine .new ?_ rfl rfl
          rw [change.scopes, List.length_modify]
  · intro ev hev stall
    cases List.mem_append.mp hev with
    | inl signal =>
        rw [List.mem_singleton.mp signal] at stall
        cases stall
    | inr later => exact absurd stall (unstalled ev later)

theorem Opens.passes {e : Element} (opens : Opens d s e s') :
    ∃ told, Passes d c allowed told s s' := by
  cases opens with
  | inside _ _ _ change =>
      refine ⟨_, change.events, change.scopes ▸ (Scopes.Kept.refl _).append _, ?_, by simp⟩
      intro j y hy _
      rw [change.scopes] at hy
      obtain old | ⟨rfl, rfl⟩ := Scopes.getElem?_append_cases hy
      · exact .same old
      · exact .new (Nat.le_refl _) rfl rfl
  | below _ _ made change =>
      refine ⟨_, (made.trans change).events, ?_, ?_, by simp⟩
      · rw [change.scopes, made.scopes]
        exact ((Scopes.Kept.refl _).append _).append _
      · intro j y hy _
        rw [change.scopes, made.scopes] at hy
        obtain there | ⟨rfl, rfl⟩ := Scopes.getElem?_append_cases hy
        · obtain old | ⟨rfl, rfl⟩ := Scopes.getElem?_append_cases there
          · exact .same old
          · exact .new (Nat.le_refl _) rfl rfl
        · refine .new ?_ rfl rfl
          rw [List.length_append]
          exact Nat.le_add_right _ _

/-- What every change keeps at the gateways, whatever is still to come, is sustained. -/
theorem sustains_of_passes {P : Simulation → Prop}
    (agenda : ∀ (s : Simulation) (tasks : List Task), P s → P { s with agenda := tasks })
    (step : ∀ s told s', Passes d c allowed told s s' → P s → P s') : Sustains d c allowed P := by
  constructor
  case turn =>
    intro s t s' sound turn hs
    obtain ⟨told, passes⟩ := turn.passes sound.formed
    exact step s told s' passes (agenda { s with agenda := t :: s.agenda } s.agenda hs)
  case resumes =>
    intro s i x s₁ s' sound _ named resumes hs
    obtain ⟨told, passes⟩ := resumes.passes sound.formed named
    exact step s told s' passes hs
  case opens =>
    intro s e s' _ _ _ opens hs
    obtain ⟨told, passes⟩ := opens.passes
    exact step s told s' passes hs

/-! ## Runs -/

section Runs

variable {g : Element}

theorem sustains_waiting (kind : x.element.kind = .exclusiveGateway) (waiting : x.state = .waiting)
    (unnamed : ¬ allowed x.element) :
    Sustains d c allowed fun s => s.scopes[i]? = some x := by
  refine sustains_of_passes (fun _ _ h => h) ?_
  intro s told s' passes hx
  obtain ⟨y, hy, own, _⟩ := passes.kept i x hx
  have same : ∀ z : Scope, s.scopes[i]? = some z → z = x :=
    fun z hz => Option.some.inj (hz.symm.trans hx)
  have there := passes.scope i y hy (own.symm ▸ kind)
  cases there with
  | same old => exact same y old ▸ hy
  | new above => exact absurd (List.getElem?_eq_some_iff.mp hx).1 (Nat.not_lt.mpr above)
  | waits hz _ entered | leaves hz _ entered =>
      rw [same _ hz, waiting] at entered
      cases entered
  | signalled hz _ _ named => exact absurd (same _ hz ▸ named) unnamed
  | departs hz _ exited =>
      rw [same _ hz, waiting] at exited
      cases exited

theorem sustains_exited (kind : g.kind = .exclusiveGateway) :
    Sustains d c allowed fun s => ∃ x, s.scopes[i]? = some x ∧ x.element = g ∧ x.state = .exited := by
  refine sustains_of_passes (fun _ _ h => h) ?_
  intro s told s' passes ⟨x, hx, own, exited⟩
  obtain ⟨y, hy, same, _⟩ := passes.kept i x hx
  refine ⟨y, hy, same.trans own, ?_⟩
  have there := passes.scope i y hy (by rw [same, own, kind])
  cases there with
  | same old => exact Option.some.inj (old.symm.trans hx) ▸ exited
  | new above => exact absurd (List.getElem?_eq_some_iff.mp hx).1 (Nat.not_lt.mpr above)
  | waits hz _ entered | leaves hz _ entered =>
      rw [Option.some.inj (hz.symm.trans hx), exited] at entered
      cases entered
  | signalled _ _ _ _ left | departs _ _ _ _ left => exact left ▸ rfl

/-- Since `start`, whose scopes are the first ones, no token at the gateway has left it, and none was
stalled. -/
structure Holding (start : Simulation) (g : Element) (told : List Event) (s : Simulation) : Prop where
  events : s.events = start.events ++ told
  unstalled : ∀ ev ∈ told, ev.kind = .stall → ev.element ≠ g.id
  held : ∀ (j : Nat) (x : Scope), s.scopes[j]? = some x → x.IsAt g →
    x.destroyed = true ∧ j < start.scopes.length ∨ x.destroyed = false ∧ x.state ≠ .exited

theorem sustains_holding (start : Simulation) (wait : (c.get g).wait = true)
    (unnamed : ∀ e, e.id = g.id → ¬ allowed e) :
    Sustains d c allowed fun s => ∃ told, Holding start g told s := by
  refine sustains_of_passes (fun _ _ ⟨told, h⟩ => ⟨told, h.events, h.unstalled, h.held⟩) ?_
  intro s told s' passes ⟨before, h⟩
  refine ⟨before ++ told, ?_, ?_, ?_⟩
  · rw [passes.events, h.events, List.append_assoc]
  · intro ev hev stall own
    cases List.mem_append.mp hev with
    | inl old => exact h.unstalled ev old stall own
    | inr new =>
        obtain ⟨x, exiting, kind, same⟩ := passes.stalls ev new stall
        obtain ⟨gone, _⟩ | ⟨_, going⟩ := h.held _ x exiting.found ⟨kind, same.trans own⟩
        · cases exiting.live.symm.trans gone
        · exact going exiting.exited
  · intro j y hy own
    have there := passes.scope j y hy own.1
    cases there with
    | same old => exact h.held j y old own
    | new _ live entered => exact .inr ⟨live, by rw [entered]; decide⟩
    | @waits x _ live _ _ same =>
        subst same
        exact .inr ⟨live, nofun⟩
    | @leaves x _ _ _ waitless same =>
        subst same
        rw [Scope.IsAt.get_eq (x := x) own, wait] at waitless
        cases waitless
    | @signalled x _ _ _ named same =>
        subst same
        exact absurd named (unnamed x.element own.2)
    | @departs x hx live exited _ same =>
        subst same
        obtain ⟨gone, _⟩ | ⟨_, going⟩ := h.held j x hx own
        · cases live.symm.trans gone
        · exact absurd exited going

/-- Since `start`, every token that left the gateway was stalled there, and none waits. -/
structure Losing (start : Simulation) (g : Element) (told : List Event) (s : Simulation) : Prop where
  events : s.events = start.events ++ told
  lost : ∀ (j : Nat) (x : Scope), start.scopes.length ≤ j → s.scopes[j]? = some x → x.IsAt g →
    x.destroyed = true ∧ ⟨.stall, g.id, j⟩ ∈ told ∨ x.destroyed = false ∧ x.state ≠ .waiting

theorem sustains_losing (start : Simulation) (waitless : (c.get g).wait = false)
    (unsent : ∀ x : Scope, x.IsAt g → d.sent c x.element = none) :
    Sustains d c allowed fun s => ∃ told, Losing start g told s := by
  refine sustains_of_passes (fun _ _ ⟨told, h⟩ => ⟨told, h.events, h.lost⟩) ?_
  intro s told s' passes ⟨before, h⟩
  refine ⟨before ++ told, ?_, ?_⟩
  · rw [passes.events, h.events, List.append_assoc]
  · intro j y late hy own
    have there := passes.scope j y hy own.1
    cases there with
    | same old =>
        exact (h.lost j y late old own).imp_left (.imp_right (List.mem_append_left _))
    | new _ live entered => exact .inr ⟨live, by rw [entered]; decide⟩
    | @waits x _ _ _ wait same =>
        subst same
        rw [Scope.IsAt.get_eq (x := x) own, waitless] at wait
        cases wait
    | @leaves x _ live _ _ same =>
        subst same
        exact .inr ⟨live, nofun⟩
    | @signalled x hx live waiting _ same =>
        subst same
        obtain ⟨gone, _⟩ | ⟨_, going⟩ := h.lost j x late hx own
        · cases live.symm.trans gone
        · exact absurd waiting going
    | @departs x _ _ _ stalls same =>
        subst same
        refine .inl ⟨rfl, List.mem_append_right _ ?_⟩
        have told := stalls (unsent x own)
        rwa [show x.element.id = g.id from own.2] at told

end Runs

/-! ## Operations -/

section Operations

variable {g : Element}

theorem Resting.waitingScope?_eq_some_iff (consistent : d.Consistent) (rest : Resting d s)
    (node : g ∈ d.nodes) (kind : g.kind = .exclusiveGateway) : s.waitingScope? g.id = some i ↔
      (∃ x, s.scopes[i]? = some x ∧ x.element = g ∧ x.state = .waiting) ∧
        ∀ (j : Nat) (y : Scope), j < i → s.scopes[j]? = some y → y.element = g →
          y.state = .exited := by
  rw [waitingScope?, Scopes.head?_idsWhere_eq_some_iff]
  refine and_congr (exists_congr fun x => and_congr_right fun hx => ?_)
    (forall₄_congr fun j y _ hy => ?_)
  · simp only [Bool.and_eq_true, Bool.not_eq_true', beq_iff_eq]
    constructor
    · intro ⟨⟨⟨_, own⟩, waiting⟩, _⟩
      exact ⟨rest.eq_of_id consistent hx node own, waiting⟩
    · intro ⟨own, waiting⟩
      have proper := rest.sound.formed.proper i x hx
      refine ⟨⟨⟨?_, congrArg Element.id own⟩, waiting⟩, proper.pending.mpr waiting⟩
      cases gone : x.destroyed with
      | false => rfl
      | true => cases (proper.destroyed gone).symm.trans waiting
  · constructor
    · intro passed own
      subst own
      obtain gone | ⟨live, waiting, pending⟩ := rest.gateway hy kind
      · exact (rest.sound.formed.proper j y hy).destroyed gone
      · simp [live, waiting, pending] at passed
    · intro left
      by_contra chosen
      simp only [Bool.not_eq_false, Bool.and_eq_true, beq_iff_eq] at chosen
      obtain ⟨⟨⟨_, own⟩, waiting⟩, _⟩ := chosen
      cases (left (rest.eq_of_id consistent hy node own)).symm.trans waiting

/-- While no token of a gateway is signalled, the first one that waits there stays the same. -/
theorem Operated.waitingScope? (consistent : d.Consistent) (h : Operated d c allowed s s')
    (rest : Resting d s) (node : g ∈ d.nodes) (kind : g.kind = .exclusiveGateway)
    (unnamed : ¬ allowed g) (waiting : s.waitingScope? g.id = some i) :
    s'.waitingScope? g.id = some i := by
  have after := h.resting consistent rest
  rw [rest.waitingScope?_eq_some_iff consistent node kind] at waiting
  rw [after.waitingScope?_eq_some_iff consistent node kind]
  obtain ⟨⟨x, hx, rfl, state⟩, earlier⟩ := waiting
  have held : s'.scopes[i]? = some x := h.keeps consistent
    (sustains_waiting kind state unnamed) rest.sound rest.drained hx
  refine ⟨⟨x, held, rfl, state⟩, ?_⟩
  intro j y before hy own
  have there := List.getElem?_eq_getElem (Nat.lt_trans before (List.getElem?_eq_some_iff.mp hx).1)
  have kept := h.lasts (Scopes.Kept.lasting s.scopes) (.refl _)
  obtain ⟨z, hz, same, _⟩ := kept j _ there
  obtain rfl := Option.some.inj (hz.symm.trans hy)
  have left := earlier j _ before there (same.symm.trans own)
  obtain ⟨z, hz, _, exited⟩ := h.keeps consistent (sustains_exited kind) rest.sound rest.drained
    ⟨_, there, same.symm.trans own, left⟩
  exact Option.some.inj (hz.symm.trans hy) ▸ exited

theorem Resting.exited_of_signal (consistent : d.Consistent) (rest : Resting d s)
    (kind : g.kind = .exclusiveGateway) (hx : s.scopes[i]? = some x) (own : x.element = g)
    (waiting : x.state = .waiting) {bound : Nat}
    (ended : (signalAndRun d c bound s i).1.agenda = []) :
    ∃ y, (signalAndRun d c bound s i).1.scopes[i]? = some y ∧ y.element = g ∧
      y.state = .exited := by
  subst own
  obtain gone | ⟨live, _, pending⟩ := rest.gateway hx kind
  · cases ((rest.sound.formed.proper i x hx).destroyed gone).symm.trans waiting
  · obtain ⟨s₁, s', n, resumes, sound, queued, run⟩ :=
      resumes_of_ended consistent rest.sound rest.drained hx live pending ended
    have other : ¬ x.element.kind = .subProcess := by
      rw [kind]
      decide
    have passed : d.passed x.element = .leaves := by rw [Diagram.passed, if_neg other]
    have proceeds := resumes.proceeds
    rw [passed] at proceeds
    rw [run]
    refine (@sustains_exited d c (fun _ => True) i _ kind).drain consistent n sound queued ?_
    cases proceeds with
    | leaves change =>
        refine ⟨x.resume.leave, ?_, rfl, rfl⟩
        rw [change.scopes]
        exact Scopes.getElem?_modify_self resumes.ready.found _

theorem Booked.entered_of_told (before : Booked s) (after : Booked s')
    (events : s'.events = s.events ++ told) {ev : Event} (inside : ev ∈ told)
    (enters : ev.kind = .enter) : s.scopes.length ≤ ev.scope ∧
      ∃ x, s'.scopes[ev.scope]? = some x ∧ x.element.id = ev.element := by
  refine ⟨?_, after.own ev (events ▸ List.mem_append_right _ inside)⟩
  have scopes := after.entered
  have distinct := List.nodup_range (n := s'.scopes.length)
  rw [events, List.filter_append, List.map_append, before.entered] at scopes
  rw [← scopes, List.nodup_append] at distinct
  by_contra early
  have new : ev.scope ∈ (told.filter (·.kind == .enter)).map (·.scope) :=
    List.mem_map_of_mem (List.mem_filter.mpr ⟨inside, by simp [enters]⟩)
  exact distinct.2.2 _ (List.mem_range.mpr (Nat.not_le.mp early)) _ new rfl

/-- Where a gateway is set to wait and is not signalled, tokens that come there are waiting in the end,
and none was stalled. -/
theorem Operated.holds (consistent : d.Consistent) (h : Operated d c allowed s s')
    (rest : Resting d s) (node : g ∈ d.nodes) (kind : g.kind = .exclusiveGateway)
    (wait : (c.get g).wait = true) (unnamed : ∀ e, e.id = g.id → ¬ allowed e) :
    (∀ ev ∈ s'.events.drop s.events.length, ev.kind = .stall → ev.element ≠ g.id) ∧
      ∀ ev ∈ s'.events.drop s.events.length, ev.kind = .enter → ev.element = g.id →
        ∃ x, s'.scopes[ev.scope]? = some x ∧ x.element = g ∧ x.destroyed = false ∧
          x.state = .waiting ∧ x.pending = true := by
  have first : Holding s g [] s := by
    refine ⟨(List.append_nil _).symm, nofun, ?_⟩
    intro j x hx own
    obtain gone | ⟨live, waiting, _⟩ := rest.gateway hx own.1
    · exact .inl ⟨gone, (List.getElem?_eq_some_iff.mp hx).1⟩
    · exact .inr ⟨live, by rw [waiting]; decide⟩
  obtain ⟨told, holding⟩ := h.keeps consistent (sustains_holding s wait unnamed) rest.sound
    rest.drained ⟨[], first⟩
  have after := h.resting consistent rest
  rw [holding.events, List.drop_left]
  refine ⟨holding.unstalled, ?_⟩
  intro ev inside enters own
  obtain ⟨late, x, hx, named⟩ := rest.booked.entered_of_told after.booked holding.events inside enters
  obtain rfl := after.eq_of_id consistent hx node (named.trans own)
  obtain ⟨_, early⟩ | ⟨live, _⟩ := holding.held _ x hx ⟨kind, rfl⟩
  · exact absurd early (Nat.not_lt.mpr late)
  · obtain gone | ⟨_, waiting, pending⟩ := after.gateway hx kind
    · cases live.symm.trans gone
    · exact ⟨x, hx, rfl, live, waiting, pending⟩

/-- Where a gateway neither waits nor is told which of several flows to take, tokens that come there
are stalled. -/
theorem Operated.stalls (consistent : d.Consistent) (h : Operated d c allowed s s')
    (rest : Resting d s) (node : g ∈ d.nodes) (kind : g.kind = .exclusiveGateway)
    (unset : c.get g = .default) (several : 2 ≤ (d.outgoing g).length) :
    ∀ ev ∈ s'.events.drop s.events.length, ev.kind = .enter → ev.element = g.id →
      ⟨.stall, g.id, ev.scope⟩ ∈ s'.events.drop s.events.length := by
  have unsent : ∀ x : Scope, x.IsAt g → d.sent c x.element = none := by
    intro x own
    have outgoing : d.outgoing x.element = d.outgoing g := by
      rw [Diagram.outgoing, Diagram.outgoing, own.2]
    apply Diagram.sent_of_unset own.1
    · rw [own.get_eq, unset]
      rfl
    · rw [outgoing]
      exact several
  have first : Losing s g [] s := by
    refine ⟨(List.append_nil _).symm, ?_⟩
    intro j x late hx
    exact absurd (List.getElem?_eq_some_iff.mp hx).1 (Nat.not_lt.mpr late)
  obtain ⟨told, losing⟩ := h.keeps consistent (sustains_losing s (by rw [unset]; rfl) unsent)
    rest.sound rest.drained ⟨[], first⟩
  have after := h.resting consistent rest
  rw [losing.events, List.drop_left]
  intro ev inside enters own
  obtain ⟨late, x, hx, named⟩ := rest.booked.entered_of_told after.booked losing.events inside enters
  obtain rfl := after.eq_of_id consistent hx node (named.trans own)
  obtain ⟨_, stalled⟩ | ⟨live, going⟩ := losing.lost _ x late hx ⟨kind, rfl⟩
  · exact stalled
  · obtain gone | ⟨_, waiting, _⟩ := after.gateway hx kind
    · cases live.symm.trans gone
    · exact absurd waiting going

end Operations
end Simulation
end ProcessDiagram
