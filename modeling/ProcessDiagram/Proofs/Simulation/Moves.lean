import ProcessDiagram.Proofs.Diagram.Traffic
import ProcessDiagram.Proofs.Simulation.Drained

/-!
What one task of the agenda can do in a plain process, where nothing waits and every choice is
made. Everything that holds along a run is read off these moves.
-/
namespace ProcessDiagram

/-- The position of the flow that a gateway is configured to take. -/
def Diagram.chosenIndex (d : Diagram) (c : ConfigStore) (e : Element) : Nat :=
  (d.outgoing e).findIdx fun f => (c.get e).activeOutgoing == some f

/-- Which of its outgoing flows an element takes when it is left. -/
def Diagram.takes (d : Diagram) (c : ConfigStore) (e : Element) (i : Nat) : Bool :=
  match e.kind with
  | .endEvent => false
  | .exclusiveGateway => (d.outgoing e).length == 1 || i == d.chosenIndex c e
  | _ => true

/-- Start and end events, tasks and gateways, none of which waits; an exclusive gateway has one
flow to take. -/
structure Diagram.Plain (d : Diagram) (c : ConfigStore) : Prop where
  kinds : ∀ e ∈ d.nodes,
    e.kind = .startEvent ∨ e.kind = .endEvent ∨ e.kind = .task ∨ e.kind.isGateway = true
  waitless : ∀ e ∈ d.nodes, (c.get e).wait = false
  chosen : ∀ g ∈ d.nodes, g.kind = .exclusiveGateway → (d.outgoing g).length ≠ 1 →
    ∃ f ∈ d.outgoing g, (c.get g).activeOutgoing = some f

instance (d : Diagram) (e : Element) : Decidable (d.HoldsAt e) :=
  inferInstanceAs (Decidable (_ ∧ _))

/-- How many tokens are used up when an element is left. -/
def Diagram.share (d : Diagram) (e : Element) : Nat :=
  if d.HoldsAt e then (d.incoming e).length else 1

/-- All scopes but the first are below the first, and none of them waits. -/
structure Flat (d : Diagram) (scopes : Scopes) : Prop where
  root : ∃ x : Scope, scopes[0]? = some x ∧ x.element = d.root ∧ x.parent = none
  nested : ∀ (i : Nat) (x : Scope), scopes[i]? = some x → i ≠ 0 → x.parent = some 0
  going : ∀ (i : Nat) (x : Scope), scopes[i]? = some x → x.state ≠ .waiting

def Task.entering? : Task → Option Nat
  | .enter i => some i
  | .signal _ | .finishExit _ => none

/-- The scopes that are still to be entered are the last ones, in their order. -/
structure Queued (scopes : Scopes) (agenda : List Task) : Prop where
  unsignalled : ∀ i, .signal i ∉ agenda
  entering : ∃ m ≤ scopes.length,
    agenda.filterMap Task.entering? = List.range' m (scopes.length - m)

/-- A scope that has exited and is not yet destroyed. -/
structure Exiting (scopes : Scopes) (i : Nat) (x : Scope) : Prop where
  found : scopes[i]? = some x
  live : x.destroyed = false
  exited : x.state = .exited

theorem share_of_not_holdsAt {d : Diagram} {e : Element} (h : ¬ d.HoldsAt e) : d.share e = 1 := by
  rw [Diagram.share, if_neg h]

theorem share_of_kind {d : Diagram} {e : Element} (h : e.kind ≠ .parallelGateway) : d.share e = 1 :=
  share_of_not_holdsAt fun holds => h holds.1

theorem Queued.tail {scopes : Scopes} {agenda : List Task} {i : Nat}
    (h : Queued scopes (.enter i :: agenda)) :
    i < scopes.length ∧
      agenda.filterMap Task.entering? = List.range' (i + 1) (scopes.length - (i + 1)) := by
  obtain ⟨m, below, entering⟩ := h.entering
  have first : (Task.enter i :: agenda).filterMap Task.entering?
      = i :: agenda.filterMap Task.entering? := rfl
  rw [first] at entering
  cases remaining : scopes.length - m with
  | zero =>
      rw [remaining] at entering
      cases entering
  | succ n =>
      rw [remaining, List.range'_succ, List.cons.injEq] at entering
      obtain ⟨rfl, later⟩ := entering
      refine ⟨by omega, ?_⟩
      rw [later]
      congr 1
      omega

theorem Queued.not_busy {scopes : Scopes} {agenda : List Task} {i : Nat}
    (h : Queued scopes (.enter i :: agenda)) (due : ∀ t ∈ agenda, Due scopes t) {j : Nat}
    {y : Scope} (hy : scopes[j]? = some y) (entered : y.state = .entered) (earlier : j < i) :
    j ∉ busy agenda := by
  intro again
  obtain ⟨t, ht, rfl⟩ := List.mem_map.mp again
  cases t with
  | enter k =>
      have later : k ∈ agenda.filterMap Task.entering? := List.mem_filterMap.mpr ⟨_, ht, rfl⟩
      rw [h.tail.2, List.mem_range'_1] at later
      exact Nat.lt_asymm earlier later.1
  | signal k => exact h.unsignalled k (List.mem_cons_of_mem _ ht)
  | finishExit k =>
      obtain ⟨z, hz, _, exited⟩ := due _ ht
      rw [Option.some.inj (hz.symm.trans hy), entered] at exited
      cases exited

namespace Simulation

/-- A token is held, or it goes on with the others that its element uses up; a scope is left, as
the last one or not; or the process is over. -/
inductive Move (d : Diagram) (c : ConfigStore) (s : Simulation) : Task → Simulation → Prop
  | held {i : Nat} {s' : Simulation} :
      Effect s s' s.scopes [] s.exitCounts → Move d c s (.enter i) s'
  | pass {i : Nat} {x : Scope} {tokens : List Nat} {s' : Simulation} :
      Ready s.scopes i x → x.element ∈ d.nodes → (i :: tokens).Nodup →
      tokens.length + 1 = d.share x.element →
      (∀ j ∈ tokens, ∃ y : Scope, s.scopes[j]? = some y ∧ y.element = x.element ∧
        y.destroyed = false ∧ y.state = .entered) →
      Effect s s' ((s.scopes.destroyAll tokens).modify i Scope.leave) [.finishExit i]
        (countUp x.element.id s.exitCounts) → Move d c s (.enter i) s'
  | leave {i : Nat} {x : Scope} {s' : Simulation} :
      Exiting s.scopes i x → x.element ∈ d.nodes →
      Effect s s' ((s.scopes.enterAll (d.routes (d.takes c) x.element) (some 0)).modify i
          Scope.destroy)
        ((List.range' s.scopes.length (d.routes (d.takes c) x.element).length).map .enter)
        s.exitCounts → Move d c s (.finishExit i) s'
  | last {i : Nat} {x : Scope} {s' : Simulation} :
      Exiting s.scopes i x → x.element ∈ d.nodes →
      Effect s s' (((s.scopes.enterAll (d.routes (d.takes c) x.element) (some 0)).modify i
          Scope.destroy).modify 0 Scope.leave)
        ((List.range' s.scopes.length (d.routes (d.takes c) x.element).length).map .enter
          ++ [.finishExit 0])
        (countUp d.root.id s.exitCounts) → Move d c s (.finishExit i) s'
  | close {s' : Simulation} :
      Effect s s' (s.scopes.modify 0 Scope.destroy) [] s.exitCounts → Move d c s (.finishExit 0) s'

variable {d : Diagram} {c : ConfigStore} {s : Simulation} {i : Nat} {x : Scope}

theorem mem_take_arrived (consistent : d.Consistent) (h : Sound d [i] s.scopes s.agenda)
    (queued : Queued s.scopes (.enter i :: s.agenda)) (ready : Ready s.scopes i x) {p : Nat}
    (parent : x.parent = some p) (holds : d.HoldsAt x.element) :
    i ∈ (s.arrived p x.element.id).take (d.incoming x.element).length := by
  have node := ((h.formed.proper i x ready.found).nested (by rw [parent]; simp)).1
  have there : i ∈ s.arrived p x.element.id :=
    mem_arrived.mpr ⟨x, ready.found, ready.live, parent, rfl, ready.entered⟩
  have sorted : (s.arrived p x.element.id).Pairwise (· < ·) := Scopes.pairwise_idsWhere _ _
  obtain ⟨before, after, split⟩ := List.append_of_mem there
  have few : before.length < (d.incoming x.element).length := by
    rw [split] at sorted
    obtain ⟨first, _, apart⟩ := List.pairwise_append.mp sorted
    apply h.held x.element p before holds (first.imp Nat.ne_of_lt)
    intro j hj
    have earlier : j < i := apart j hj i List.mem_cons_self
    have arrived : j ∈ s.arrived p x.element.id := split ▸ List.mem_append_left _ hj
    obtain ⟨y, hy, live, under, same, entered⟩ := mem_arrived.mp arrived
    have node' := ((h.formed.proper j y hy).nested (by rw [under]; simp)).1
    refine ⟨⟨y, hy, live, entered, under, consistent.eq_of_id node' node same⟩, ?_, ?_⟩
    · rw [List.mem_singleton]
      exact Nat.ne_of_lt earlier
    · exact queued.not_busy h.due hy entered earlier
  rw [split, List.take_append, List.mem_append]
  right
  obtain ⟨n, more⟩ := Nat.exists_eq_add_of_lt few
  rw [more, show before.length + n + 1 - before.length = n + 1 by omega, List.take_succ_cons]
  exact List.mem_cons_self

/-- An element that is left sends a token along each flow that it takes. -/
theorem Effect.onExit (inner : x.element.kind ≠ .process ∧ x.element.kind ≠ .participant)
    (chosen : x.element.kind = .exclusiveGateway → (d.outgoing x.element).length ≠ 1 →
      ∃ f ∈ d.outgoing x.element, (c.get x.element).activeOutgoing = some f) :
    Effect s (Simulation.onExit d c s i x)
      (s.scopes.enterAll (d.routes (d.takes c) x.element) x.parent)
      ((List.range' s.scopes.length (d.routes (d.takes c) x.element).length).map .enter)
      s.exitCounts := by
  have along : ∀ flows : List Flow,
      d.routes (d.takes c) x.element = flows.map (·.target) →
        Effect s (s.enterAll flows x.parent)
          (s.scopes.enterAll (d.routes (d.takes c) x.element) x.parent)
          ((List.range' s.scopes.length (d.routes (d.takes c) x.element).length).map .enter)
          s.exitCounts := by
    intro flows same
    rw [same, List.length_map]
    exact .enterAll flows x.parent
  have routes : d.routes (d.takes c) x.element
      = (kept (d.takes c x.element) (d.outgoing x.element)).map (·.target) :=
    kept_map _ _ _
  have all : (∀ i, d.takes c x.element i = true) →
      Effect s (s.enterAll (d.outgoing x.element) x.parent)
        (s.scopes.enterAll (d.routes (d.takes c) x.element) x.parent)
        ((List.range' s.scopes.length (d.routes (d.takes c) x.element).length).map .enter)
        s.exitCounts := by
    intro taken
    apply along
    rw [routes, kept_all taken]
  rw [Simulation.onExit]
  cases kind : x.element.kind with
  | endEvent =>
      have none : d.routes (d.takes c) x.element = [] := by
        rw [routes, kept_none (by intro i; rw [Diagram.takes, kind])]
        rfl
      rw [none, Scopes.enterAll, List.map_nil, List.append_nil]
      exact .note rfl
  | process => exact absurd kind inner.1
  | participant => exact absurd kind inner.2
  | exclusiveGateway =>
      simp only [leaveExclusive]
      split
      next flow only =>
          apply along
          rw [routes, only, kept_all (by intro i; rw [Diagram.takes, kind, only]; rfl)]
      next several =>
          have many : (d.outgoing x.element).length ≠ 1 := by
            intro one
            obtain ⟨flow, only⟩ := List.length_eq_one_iff.mp one
            exact several flow only
          obtain ⟨f, hf, active⟩ := chosen kind many
          have takes : d.takes c x.element = fun i => i == d.chosenIndex c x.element := by
            funext i
            rw [Diagram.takes, kind]
            simp [many]
          rw [takes, kept_at, Diagram.chosenIndex, ← List.find?_eq_getElem?_findIdx] at routes
          split
          next flow found =>
              rw [found] at routes
              exact along [flow] routes
          next missing =>
              rw [List.find?_eq_none] at missing
              exact absurd (beq_iff_eq.mpr active) (missing f hf)
  | task | parallelGateway | startEvent | subProcess | intermediateCatchEvent | collaboration
  | unknown => exact all (by intro i; rw [Diagram.takes, kind])

theorem length_others {tokens : List Nat} {required : Nat} (distinct : tokens.Nodup)
    (enough : required ≤ tokens.length) (there : i ∈ tokens.take required) :
    ((tokens.take required).filter (· != i)).length + 1 = required := by
  have first : (tokens.take required).Nodup := distinct.sublist (List.take_sublist _ _)
  have some := List.length_pos_of_mem there
  rw [← first.erase_eq_filter, List.length_erase_of_mem there]
  rw [List.length_take] at some ⊢
  omega

/-- The tokens with which one whose turn has come makes up the share of its join. They are alike, and
it is still ready once they are merged. -/
structure Companions (d : Diagram) (s : Simulation) (i : Nat) (x : Scope) (p : Nat)
    (tokens : List Nat) : Prop where
  distinct : (i :: tokens).Nodup
  count : tokens.length + 1 = d.share x.element
  alike : ∀ j ∈ tokens, ∃ y : Scope, s.scopes[j]? = some y ∧ y.element = x.element ∧
    y.destroyed = false ∧ y.state = .entered ∧ y.parent = some p
  ready : Ready (tokens.foldl Simulation.merge s).scopes i x

theorem companions_of_arrived (consistent : d.Consistent) (h : Sound d [i] s.scopes s.agenda)
    (queued : Queued s.scopes (.enter i :: s.agenda)) (ready : Ready s.scopes i x) {p : Nat}
    (parent : x.parent = some p) (holds : d.HoldsAt x.element)
    (enough : (d.incoming x.element).length ≤ (s.arrived p x.element.id).length) :
    Companions d s i x p
      (((s.arrived p x.element.id).take (d.incoming x.element).length).filter (· != i)) := by
  have distinct : (s.arrived p x.element.id).Nodup := Scopes.nodup_idsWhere _ _
  have turn := mem_take_arrived consistent h queued ready parent holds
  have count := length_others distinct enough turn
  generalize others : ((s.arrived p x.element.id).take
    (d.incoming x.element).length).filter (· != i) = tokens at count ⊢
  have among : ∀ j ∈ tokens, j ≠ i ∧ j ∈ s.arrived p x.element.id := by
    intro j hj
    rw [← others, List.mem_filter] at hj
    exact ⟨by simpa using hj.2, List.mem_of_mem_take hj.1⟩
  have apart : i ∉ tokens := fun again => (among i again).1 rfl
  have once : tokens.Nodup := others ▸ (distinct.sublist (List.take_sublist _ _)).filter _
  have merged := sound_merges consistent tokens h ready parent holds.1 once apart
    fun j hj => (among j hj).2
  refine ⟨List.nodup_cons.mpr ⟨apart, once⟩, ?_, ?_, merged.2⟩
  · rw [Diagram.share, if_pos holds]
    exact count
  · intro j hj
    obtain ⟨y, hy, live, under, same, entered⟩ := mem_arrived.mp (among j hj).2
    have node := ((h.formed.proper i x ready.found).nested (by rw [parent]; simp)).1
    have node' := ((h.formed.proper j y hy).nested (by rw [under]; simp)).1
    exact ⟨y, hy, consistent.eq_of_id node' node same, live, entered, under⟩

theorem move_enterParallel (consistent : d.Consistent)
    (h : Sound d [i] s.scopes s.agenda) (queued : Queued s.scopes (.enter i :: s.agenda))
    (ready : Ready s.scopes i x) (parent : x.parent = some 0) (node : x.element ∈ d.nodes)
    (waitless : (c.get x.element).wait = false) (kind : x.element.kind = .parallelGateway)
    (alone : ¬ d.HoldsAt x.element → Move d c s (.enter i) (waitOrExit c s i x.element)) :
    ∃ s', enterParallel d c s i x = .ok s' ∧ Move d c s (.enter i) s' := by
  rw [enterParallel]
  simp only [ready.live, Bool.false_eq_true, if_false, parent]
  split
  next single =>
      refine ⟨_, rfl, alone ?_⟩
      intro holds
      have several := holds.2
      omega
  next several =>
      have holds : d.HoldsAt x.element := ⟨kind, by omega⟩
      split
      next => exact ⟨_, rfl, .held (.note rfl)⟩
      next enough =>
          have those :=
            companions_of_arrived consistent h queued ready parent holds (Nat.not_lt.mp enough)
          refine ⟨_, rfl, .pass ready node those.distinct those.count ?_ ?_⟩
          · intro j hj
            obtain ⟨y, hy, own, live, entered, _⟩ := those.alike j hj
            exact ⟨y, hy, own, live, entered⟩
          · have used := Effect.merges (s := s) _ fun j hj => (those.alike j hj).imp fun _ => And.left
            have whole := used.trans (Effect.waitOrExit those.ready waitless)
            rw [used.scopes, used.exitCounts] at whole
            exact whole

theorem move_onEnter (consistent : d.Consistent) (plain : d.Plain c)
    (h : Sound d [i] s.scopes s.agenda) (queued : Queued s.scopes (.enter i :: s.agenda))
    (ready : Ready s.scopes i x) (parent : x.parent = some 0) :
    ∃ s', onEnter d c s i x = .ok s' ∧ Move d c s (.enter i) s' := by
  have node := ((h.formed.proper i x ready.found).nested (by rw [parent]; simp)).1
  have waitless := plain.waitless x.element node
  have alone : ∀ s', ¬ d.HoldsAt x.element → Effect s s' (s.scopes.modify i Scope.leave)
      [.finishExit i] (countUp x.element.id s.exitCounts) → Move d c s (.enter i) s' := by
    intro s' free effect
    have count : ([] : List Nat).length + 1 = d.share x.element := by
      rw [share_of_not_holdsAt free]
      rfl
    exact .pass ready node (List.nodup_singleton i) count nofun effect
  have waits := Effect.waitOrExit ready waitless
  rw [onEnter]
  cases kind : x.element.kind with
  | startEvent | endEvent =>
      refine ⟨_, rfl, alone _ ?_ (.exit_of_ready ready)⟩
      exact fun holds => absurd (kind.symm.trans holds.1) (by decide)
  | task | exclusiveGateway =>
      refine ⟨_, rfl, alone _ ?_ waits⟩
      exact fun holds => absurd (kind.symm.trans holds.1) (by decide)
  | parallelGateway =>
      exact move_enterParallel consistent h queued ready parent node waitless kind
        fun free => alone _ free waits
  | subProcess | intermediateCatchEvent | process | participant | collaboration | unknown =>
      have kinds := plain.kinds x.element node
      rw [kind] at kinds
      exact absurd kinds (by decide)

theorem move_finishExit (plain : d.Plain c) (h : Sound d [i] s.scopes s.agenda)
    (flat : Flat d s.scopes) (exiting : Exiting s.scopes i x) :
    Move d c s (.finishExit i) (finishExit d c s i x) := by
  have proper := h.formed.proper i x exiting.found
  obtain ⟨root, atRoot, rootElement, rootParent⟩ := flat.root
  by_cases outer : i = 0
  · subst outer
    have one : x = root := Option.some.inj (exiting.found.symm.trans atRoot)
    subst one
    have finished : Effect s (onExit d c s 0 x) s.scopes [] s.exitCounts := by
      rw [onExit]
      cases proper.root rootParent with
      | inl process =>
          rw [process]
          exact .note rfl
      | inr participant =>
          rw [participant]
          exact .note rfl
    have whole := finished.trans (.destroy 0)
    rw [finished.scopes, finished.exitCounts] at whole
    rw [finishExit, rootParent]
    exact .close whole
  · have parent := flat.nested i x exiting.found outer
    have node := (proper.nested (by rw [parent]; simp)).1
    have inner : x.element.kind ≠ .process ∧ x.element.kind ≠ .participant := by
      have kinds := plain.kinds x.element node
      constructor
      · intro kind
        rw [kind] at kinds
        exact absurd kinds (by decide)
      · intro kind
        rw [kind] at kinds
        exact absurd kinds (by decide)
    have left := Effect.onExit (s := s) (i := i) inner (plain.chosen x.element node)
    rw [parent] at left
    have destroyed := left.trans (.destroy i)
    rw [left.scopes, left.exitCounts, List.append_nil] at destroyed
    rw [finishExit, parent]
    have stays : ((onExit d c s i x).destroy i).scopes[0]? = some root := by
      rw [destroyed.scopes, Scopes.getElem?_modify_other outer, Scopes.enterAll,
        List.getElem?_append_left (List.getElem?_eq_some_iff.mp atRoot).1]
      exact atRoot
    cases Effect.tryExit stays with
    | inl kept =>
        have whole := destroyed.trans kept
        rw [destroyed.scopes, destroyed.exitCounts, List.append_nil] at whole
        exact .leave exiting node whole
    | inr exits =>
        have whole := destroyed.trans exits.2
        rw [destroyed.scopes, destroyed.exitCounts, rootElement] at whole
        exact .last exiting node whole

/-- Every task is carried out by a move. -/
theorem move_of_runTask (consistent : d.Consistent) (plain : d.Plain c) (flat : Flat d s.scopes)
    {t : Task} (h : Sound d [] s.scopes (t :: s.agenda))
    (queued : Queued s.scopes (t :: s.agenda)) :
    ∃ s', runTask d c s t = .ok s' ∧ Move d c s t s' := by
  obtain ⟨taken, due⟩ := h.take
  cases t with
  | enter i =>
      cases due with
      | inl ready =>
          obtain ⟨x, ready, nested⟩ := ready
          simp only [runTask, ready.found]
          apply move_onEnter consistent plain taken queued ready
          apply flat.nested i x ready.found
          intro outer
          subst outer
          obtain ⟨root, atRoot, _, rootParent⟩ := flat.root
          rw [Option.some.inj (ready.found.symm.trans atRoot)] at nested
          exact nested rootParent
      | inr merged =>
          obtain ⟨x, hx, gone, kind⟩ := merged
          refine ⟨s, ?_, .held (.refl s)⟩
          simp only [runTask, hx, onEnter, kind, enterParallel, gone, if_true]
  | signal i => exact absurd List.mem_cons_self (queued.unsignalled i)
  | finishExit i =>
      obtain ⟨x, hx, live, exited⟩ := due
      simp only [runTask, hx]
      exact ⟨_, rfl, move_finishExit plain taken flat ⟨hx, live, exited⟩⟩

end Simulation
end ProcessDiagram
