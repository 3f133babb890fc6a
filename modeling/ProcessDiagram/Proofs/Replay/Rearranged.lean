import ProcessDiagram.Proofs.Replay.Overlapping
import ProcessDiagram.Proofs.Replay.Snapshots

/-!
Traces that tell the same in another order. A replay reads a snapshot only through the status of an
element, through the elements that are listed, and through the triggers, which it sorts; so the order
of the entries does not show. Main statement: `callEach_alike`.
-/
namespace ProcessDiagram

/-- Every element has a place on the line. -/
def Diagram.Placed (d : Diagram) : Prop :=
  ∀ e ∈ d.root :: d.nodes, e.x.isNaN = false

instance (d : Diagram) : Decidable d.Placed :=
  inferInstanceAs (Decidable (∀ e ∈ d.root :: d.nodes, e.x.isNaN = false))

namespace Binary64

variable {x y : Binary64}

theorem same_iff (hx : x.isNaN = false) (hy : y.isNaN = false) :
    x.same y = true ↔ x.orderKey = y.orderKey := by
  simp only [same, hx, hy, Bool.not_false, Bool.true_and, Bool.or_eq_true, beq_iff_eq]
  exact or_iff_right_of_imp fun h => h ▸ rfl

theorem lt_iff (hx : x.isNaN = false) (hy : y.isNaN = false) :
    x.lt y = true ↔ x.orderKey < y.orderKey := by
  simp only [lt, hx, hy, Bool.not_false, Bool.true_and, decide_eq_true_eq]

end Binary64

namespace Trigger

/-- The trigger is of an element with a place. -/
def Placed (t : Trigger) : Prop :=
  t.element.x.isNaN = false

/-- The place from left to right comes first, and ids are distinct within a place. -/
theorem before_iff {a b : Trigger} (ha : a.Placed) (hb : b.Placed) : a.before b = true ↔
    a.element.x.orderKey < b.element.x.orderKey ∨
      a.element.x.orderKey = b.element.x.orderKey ∧ a.element.id ≤ b.element.id := by
  simp only [before, precedes]
  by_cases level : b.element.x.orderKey = a.element.x.orderKey
  · rw [if_pos ((Binary64.same_iff hb ha).mpr level), Bool.not_eq_true', decide_eq_false_iff_not,
      String.not_lt, level]
    exact ⟨fun le => .inr ⟨rfl, le⟩, fun h => (h.resolve_left (Int.lt_irrefl _)).2⟩
  · have apart : ¬ a.element.x.orderKey = b.element.x.orderKey := Ne.symm level
    rw [if_neg (mt (Binary64.same_iff hb ha).mp level), Bool.not_eq_true', ← Bool.not_eq_true,
      Binary64.lt_iff hb ha, Int.not_lt]
    exact ⟨fun le => .inl (Int.lt_iff_le_and_ne.mpr ⟨le, apart⟩),
      fun h => Int.le_of_lt (h.resolve_right fun same => apart same.1)⟩

theorem compares : Sorting.Compares before Placed where
  trans ha hb hc first second := by
    rw [before_iff ha hb] at first
    rw [before_iff hb hc] at second
    rw [before_iff ha hc]
    obtain left | ⟨level, le⟩ := first <;> obtain left' | ⟨level', le'⟩ := second
    · exact .inl (left.trans left')
    · exact .inl (level' ▸ left)
    · exact .inl (level ▸ left')
    · exact .inr ⟨level.trans level', String.le_trans le le'⟩
  total {a b} ha hb := by
    rw [before_iff ha hb, before_iff hb ha]
    obtain left | level | right := Int.lt_trichotomy a.element.x.orderKey b.element.x.orderKey
    · exact .inl (.inl left)
    · exact (String.le_total a.element.id b.element.id).imp (fun le => .inr ⟨level, le⟩)
        fun le => .inr ⟨level.symm, le⟩
    · exact .inr (.inl right)

theorem id_eq_of_before {a b : Trigger} (ha : a.Placed) (hb : b.Placed) (first : a.before b)
    (second : b.before a) : a.element.id = b.element.id := by
  rw [before_iff ha hb] at first
  rw [before_iff hb ha] at second
  obtain left | ⟨_, le⟩ := first
  · obtain left' | ⟨level, _⟩ := second
    · exact absurd left' (Int.lt_asymm left)
    · exact absurd level.symm (Int.ne_of_lt left)
  · obtain left' | ⟨_, le'⟩ := second
    · omega
    · exact String.le_antisymm le le'

theorem placed_of_mem_between {d : Diagram} (placed : d.Placed) {before after : Snapshot}
    {t : Trigger} (h : t ∈ between d before after) : t.Placed := by
  obtain ⟨id, _, _, found, _⟩ := mem_between.mp h
  exact placed _ (List.mem_cons.mpr (Diagram.Consistent.of_find? found))

theorem placed_of_mem_ofStep {d : Diagram} (placed : d.Placed) {t : Trace} {i : Nat}
    {trigger : Trigger} (h : trigger ∈ ofStep d t i) : trigger.Placed := by
  rw [ofStep] at h
  split at h
  next => exact placed_of_mem_between placed h
  next => cases h

theorem sorted_ofStep {d : Diagram} (placed : d.Placed) (t : Trace) (i : Nat) :
    (ofStep d t i).Pairwise (before · ·) := by
  rw [ofStep]
  split
  next earlier later _ _ =>
      refine Sorting.pairwise_sort compares fun trigger there => ?_
      have inside : trigger ∈ between d earlier later := (Sorting.mem_sort before).mpr there
      exact placed_of_mem_between placed inside
  next => exact .nil

end Trigger

theorem compares_texts : Sorting.Compares (fun a b : String => decide (a ≤ b)) fun _ => True where
  trans _ _ _ first second := by
    rw [decide_eq_true_eq] at first second ⊢
    exact String.le_trans first second
  total {a b} _ _ := by
    rw [decide_eq_true_eq, decide_eq_true_eq]
    exact String.le_total a b

theorem texts_eq_texts {items others : List String} (same : items.Perm others) :
    Sorting.texts items = Sorting.texts others := by
  refine Sorting.sort_eq_sort compares_texts (fun _ _ => trivial) ?_ same
  intro a _ b _ first second
  rw [decide_eq_true_eq] at first second
  exact String.le_antisymm first second

/-! ## What a replay reads -/

namespace Trace

/-- The traces are equally long, and their snapshots give every element the same entry. -/
def Alike (t t' : Trace) : Prop :=
  List.Forall₂ (fun s s' => ∀ id : String, s.states.lookup id = s'.states.lookup id)
    t.snapshots t'.snapshots

/-- The traces show a replay of the diagram the same. -/
structure ReadsAs (d : Diagram) (t t' : Trace) : Prop where
  size : t.size = t'.size
  elementIds : t.elementIds = t'.elementIds
  branch? : ∀ gateway start, t.branch? d gateway start = t'.branch? d gateway start
  ofStep : ∀ i, Trigger.ofStep d t i = Trigger.ofStep d t' i

variable {d : Diagram} {t t' : Trace}

namespace Alike

theorem size_eq (h : t.Alike t') : t.size = t'.size :=
  List.Forall₂.length_eq h

theorem snapshot (h : t.Alike t') (i : Nat) :
    (t.snapshots[i]? = none ∧ t'.snapshots[i]? = none) ∨ ∃ s s', t.snapshots[i]? = some s ∧
      t'.snapshots[i]? = some s' ∧ ∀ id : String, s.states.lookup id = s'.states.lookup id := by
  have size := List.Forall₂.length_eq h
  by_cases within : i < t.snapshots.length
  · right
    exact ⟨_, _, List.getElem?_eq_getElem within, List.getElem?_eq_getElem (size ▸ within),
      (List.forall₂_iff_get.mp h).2 i within (size ▸ within)⟩
  · left
    exact ⟨List.getElem?_eq_none (by omega), List.getElem?_eq_none (by omega)⟩

theorem status_eq (h : t.Alike t') (i : Nat) (id : String) : t.status i id = t'.status i id := by
  rw [status, status]
  obtain ⟨none, none'⟩ | ⟨s, s', some, some', same⟩ := h.snapshot i
  · rw [none, none']
  · rw [some, some']
    simp only [Option.map_some, Snapshot.status, same]

theorem branch?_eq (h : t.Alike t') (gateway : Element) (start : Nat) :
    t.branch? d gateway start = t'.branch? d gateway start := by
  have releases : ∀ i, t.releases gateway.id i = t'.releases gateway.id i := fun i => by
    rw [Trace.releases, Trace.releases, h.status_eq, h.status_eq]
  have passes : ∀ i, t.passes gateway.id i = t'.passes gateway.id i := fun i => by
    rw [Trace.passes, Trace.passes, h.status_eq, h.status_eq]
  have appears : ∀ since id j, t.appears since id j = t'.appears since id j := fun since id j => by
    rw [Trace.appears, Trace.appears, h.status_eq, h.status_eq]
  simp only [Trace.branch?, nextExit?, firstTaken?, h.size_eq, releases, passes, appears]

theorem symm (h : t.Alike t') : t'.Alike t :=
  List.Forall₂.flip (h.imp fun _ _ same id => (same id).symm)

theorem mem_elementIds (h : t.Alike t') {id : String} (inside : id ∈ t.elementIds) :
    id ∈ t'.elementIds := by
  rw [Trace.mem_elementIds] at inside ⊢
  obtain ⟨s, there, status, listed⟩ := inside
  obtain ⟨i, at_i⟩ := List.mem_iff_getElem?.mp there
  obtain ⟨none, _⟩ | ⟨_, s', some, some', same⟩ := h.snapshot i
  · rw [none] at at_i
    cases at_i
  · obtain rfl := Option.some.inj (some.symm.trans at_i)
    refine ⟨s', List.mem_of_getElem? some', ?_⟩
    cases entry : s'.states.lookup id with
    | none =>
        rw [← same, List.lookup_eq_none_iff] at entry
        exact absurd (beq_self_eq_true id) (by simpa using entry _ listed)
    | some status' =>
        obtain ⟨before, after, split, _⟩ := List.lookup_eq_some_iff.mp entry
        exact ⟨status', split ▸ List.mem_append_right _ List.mem_cons_self⟩

theorem elementIds_eq (h : t.Alike t') : t.elementIds = t'.elementIds := by
  apply texts_eq_texts
  rw [List.perm_ext_iff_of_nodup (nodup_eraseDups _) (nodup_eraseDups _)]
  intro id
  have either : id ∈ t.elementIds ↔ id ∈ t'.elementIds := ⟨h.mem_elementIds, h.symm.mem_elementIds⟩
  rw [elementIds, elementIds, Sorting.mem_texts, Sorting.mem_texts] at either
  exact either

/-- Triggers are sorted, and no two of them are of one element. -/
theorem ofStep_eq (placed : d.Placed) (h : t.Alike t') (keyed : t.Keyed) (keyed' : t'.Keyed)
    (i : Nat) :
    Trigger.ofStep d t i = Trigger.ofStep d t' i := by
  have same : ∀ trigger, trigger ∈ Trigger.ofStep d t i ↔ trigger ∈ Trigger.ofStep d t' i := by
    intro trigger
    rw [Trigger.mem_ofStep_iff keyed, Trigger.mem_ofStep_iff keyed', h.status_eq, h.status_eq]
  have perm := (List.perm_ext_iff_of_nodup (.of_map _ (Trigger.nodup_ofStep keyed i))
    (.of_map _ (Trigger.nodup_ofStep keyed' i))).mpr same
  apply perm.eq_of_pairwise _ (Trigger.sorted_ofStep placed ..) (Trigger.sorted_ofStep placed ..)
  intro a b first second le le'
  exact List.inj_on_of_nodup_map (Trigger.nodup_ofStep keyed i) first ((same b).mpr second)
    (Trigger.id_eq_of_before (Trigger.placed_of_mem_ofStep placed first)
      (Trigger.placed_of_mem_ofStep placed second) le le')

theorem readsAs (placed : d.Placed) (h : t.Alike t') (keyed : t.Keyed) (keyed' : t'.Keyed) :
    ReadsAs d t t' :=
  ⟨h.size_eq, h.elementIds_eq, h.branch?_eq, h.ofStep_eq placed keyed keyed'⟩

end Alike
end Trace

/-! ## Replays -/

namespace Replay

/-- Calls made one after the other, each of them run to its end. -/
def callEach (p : ReplayPlan) (r : Replay) : List Request → Logged (Replay × List Report)
  | [] => pure (r, [])
  | request :: rest => do
    let (r, report) ← call p r request
    let (r, others) ← callEach p r rest
    return (r, report :: others)

variable {p : ReplayPlan} {t : Trace}

theorem carryOutAll_trace (p : ReplayPlan) (t : Trace) (s : Session) (triggers : List Trigger) :
    carryOutAll { p with trace := t } s triggers = carryOutAll p s triggers := by
  induction triggers generalizing s with
  | nil => rfl
  | cons first rest ih =>
      have step : carryOut { p with trace := t } s first = carryOut p s first := rfl
      simp only [carryOutAll, step, ih]

theorem giveUp_trace (p : ReplayPlan) (t : Trace) (refused : List (Trigger × TriggerFailure)) :
    giveUp { p with trace := t } refused = giveUp p refused := by
  induction refused with
  | nil => rfl
  | cons first rest ih =>
      have attempts : ReplayPlan.attempts { p with trace := t } = p.attempts := rfl
      simp only [giveUp, attempts, ih]

section Reads

variable (reads : p.trace.ReadsAs p.diagram t)

include reads

theorem startConfig_readsAs : ReplayPlan.startConfig { p with trace := t } = p.startConfig := by
  simp only [ReplayPlan.startConfig, reads.elementIds]

theorem replay?_readsAs : ReplayPlan.replay? { p with trace := t } = p.replay? := by
  simp only [ReplayPlan.replay?, ReplayPlan.initial, startConfig_readsAs reads, reads.elementIds]

theorem configureGateways_readsAs (r : Replay) (start : Nat) :
    configureGateways { p with trace := t } r start = configureGateways p r start := by
  have each : configureGateway { p with trace := t } start = configureGateway p start := by
    funext c gateway
    simp only [configureGateway, reads.branch?]
  simp only [configureGateways, each]

theorem beginStep_readsAs (r : Replay) (request : Request) :
    beginStep { p with trace := t } r request = beginStep p r request := by
  simp only [beginStep, isDone, ReplayPlan.isLast, reads.size, configureGateways_readsAs reads]

theorem attempt_readsAs (r : Replay) (request : Request) (index n : Nat)
    (triggers : List Trigger) :
    attempt { p with trace := t } r request index n triggers
      = attempt p r request index n triggers := by
  have attempts : ReplayPlan.attempts { p with trace := t } = p.attempts := rfl
  simp only [attempt, endStep, carryOutAll_trace, giveUp_trace, attempts, beginStep_readsAs reads]

theorem begin_readsAs (r : Replay) (request : Request) :
    begin { p with trace := t } r request = begin p r request := by
  have reset : r.reset { p with trace := t } = r.reset p := by
    simp only [Replay.reset, ReplayPlan.initial, startConfig_readsAs reads]
  have started : ∀ r : Replay, r.ensureStarted { p with trace := t } = r.ensureStarted p :=
    fun _ => rfl
  simp only [begin, reset, started, reads.size, beginStep_readsAs reads]

theorem resume_readsAs (r : Replay) (sleeper : Sleeper) :
    resume { p with trace := t } r sleeper = resume p r sleeper := by
  have started : ∀ r : Replay, r.ensureStarted { p with trace := t } = r.ensureStarted p :=
    fun _ => rfl
  simp only [resume, started, reads.ofStep, attempt_readsAs reads]

/-- A call goes on alike, however often it still falls asleep. -/
theorem complete_readsAs (r : Replay) (progress : Progress) :
    complete { p with trace := t } r progress = complete p r progress := by
  induction rank : progress.rank p using Nat.strongRecOn generalizing r progress with
  | _ n ih =>
      cases progress with
      | finished answer => rw [complete, complete]
      | asleep delay sleeper =>
          have less := rank_resume p r sleeper
          rw [complete, complete, resume_readsAs reads,
            ih _ (rank ▸ Nat.lt_succ_of_le less) _ _ rfl]

theorem callEach_readsAs (r : Replay) (requests : List Request) :
    callEach { p with trace := t } r requests = callEach p r requests := by
  induction requests generalizing r with
  | nil => rfl
  | cons request rest ih =>
      simp only [callEach, call, begin_readsAs reads, complete_readsAs reads, ih]

end Reads

/-- When every element has a place, a replay does not depend on the order of the entries inside the
snapshots: it is refused with the same error or begins the same, and then all calls have the same
effects, reports and records. -/
theorem callEach_alike (p : ReplayPlan) (placed : p.diagram.Placed) (keyed : p.trace.Keyed)
    {t : Trace} (keyed' : t.Keyed) (alike : p.trace.Alike t) :
    ReplayPlan.replay? { p with trace := t } = p.replay? ∧ ∀ r requests,
      callEach { p with trace := t } r requests = callEach p r requests := by
  have reads : p.trace.ReadsAs p.diagram t := alike.readsAs placed keyed keyed'
  exact ⟨replay?_readsAs reads, callEach_readsAs reads⟩

/-- Two tasks at one place that are completed in the same step. -/
def abreast : ReplayPlan where
  diagram := .twin
  trace := ⟨[⟨"0", 0, []⟩, ⟨"1", 1, [("a", .active), ("b", .active)]⟩,
    ⟨"2", 2, [("a", .completed), ("b", .completed)]⟩]⟩
  settings := .default
  bound := 100

def abreastBack : Trace :=
  ⟨[⟨"0", 0, []⟩, ⟨"1", 1, [("b", .active), ("a", .active)]⟩,
    ⟨"2", 2, [("b", .completed), ("a", .completed)]⟩]⟩

theorem alike_abreast : abreast.trace.Keyed ∧ abreastBack.Keyed ∧ abreast.trace.Alike abreastBack := by
  have swapped : ∀ (status : Status) (id : String),
      List.lookup id [("a", status), ("b", status)] = List.lookup id [("b", status), ("a", status)] := by
    intro status id
    simp only [List.lookup]
    cases id == "a" <;> cases id == "b" <;> rfl
  exact ⟨by decide, by decide,
    .cons (fun _ => rfl) (.cons (swapped .active) (.cons (swapped .completed) .nil))⟩

theorem callEach_alike_abreast :
    (callEach { abreast with trace := abreastBack } abreast.initial [.advance, .advance, .play]).value
        = (callEach abreast abreast.initial [.advance, .advance, .play]).value ∧
      (Trigger.ofStep abreast.diagram abreastBack 1).map (·.element.id) = ["a", "b"] := by
  obtain ⟨keyed, keyed', alike⟩ := alike_abreast
  exact ⟨congrArg _ ((callEach_alike abreast (by decide) keyed keyed' alike).2 _ _), by decide⟩

/-- The same tasks, but the place of the first is not a number. -/
def astray : ReplayPlan :=
  let stray (e : Element) : Element := if e.id = "a" then { e with x := .notANumber } else e
  { abreast with diagram :=
      { Diagram.twin with
        nodes := Diagram.twin.nodes.map stray
        flows := Diagram.twin.flows.map fun f => ⟨f.id, stray f.source, stray f.target⟩ } }

/-- Then the two triggers are not told apart and keep the order in which the entries come, so the
tasks are completed in another order. -/
theorem callEach_astray : astray.diagram.Built ∧
    astray.trace.Keyed ∧ abreastBack.Keyed ∧ astray.trace.Alike abreastBack ∧
      (callEach { astray with trace := abreastBack } astray.initial
          [.advance, .advance]).value.1.session.simulation.chronicle
        ≠ (callEach astray astray.initial
            [.advance, .advance]).value.1.session.simulation.chronicle :=
  ⟨Diagram.built_of_grow rfl (by decide +kernel), alike_abreast.1, alike_abreast.2.1,
    alike_abreast.2.2, by decide +kernel⟩

end Replay
end ProcessDiagram
