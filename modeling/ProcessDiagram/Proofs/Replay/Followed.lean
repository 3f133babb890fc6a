import ProcessDiagram.Proofs.Replay.Playing
import ProcessDiagram.Proofs.Replay.Recorded
import ProcessDiagram.Proofs.Simulation.Lone

/-!
Replaying a trace that was recorded along a path. Each step takes the token just as far as the trace
says. Main statement: `advance_recorded`.
-/
namespace ProcessDiagram
namespace Replay

open Simulation

variable {p : ReplayPlan} {start done : Element} {path : List Element} {reached : Nat → Nat}
  {r : Replay}

theorem waitingScope?_of_lone {root : Element} {s : Simulation} {w : Nat} {e : Element}
    {parent : Option Nat} (lone : Lone root s w (Scope.enter e parent).suspend) (id : String) :
    s.waitingScope? id = if e.id = id then some w else none := by
  have waiting : ∀ i, i ∈ (s.scopes.idsWhere fun x =>
      !x.destroyed && x.element.id == id && x.state == .waiting && x.pending) ↔
        i = w ∧ e.id = id := by
    intro i
    rw [Scopes.mem_idsWhere]
    simp only [Bool.and_eq_true, Bool.not_eq_true', beq_iff_eq]
    constructor
    · intro h
      obtain ⟨x, hx, ⟨⟨live, own⟩, state⟩, _⟩ := h
      by_cases here : i = w
      · subst here
        rw [Option.some.inj (hx.symm.trans lone.token)] at own
        exact ⟨rfl, own⟩
      · exfalso
        by_cases outer : i = 0
        · subst outer
          obtain ⟨y, hy, _, _, entered, _⟩ := lone.top
          rw [Option.some.inj (hx.symm.trans hy), entered] at state
          cases state
        · rw [lone.others i x hx outer here] at live
          cases live
    · intro h
      obtain ⟨rfl, own⟩ := h
      exact ⟨_, lone.token, ⟨⟨rfl, own⟩, rfl⟩, rfl⟩
  rw [waitingScope?]
  split
  next same =>
      cases found : s.scopes.idsWhere fun x =>
          !x.destroyed && x.element.id == id && x.state == .waiting && x.pending with
      | nil =>
          have here := (waiting w).mpr ⟨rfl, same⟩
          rw [found] at here
          cases here
      | cons i rest =>
          have first := (waiting i).mp (found ▸ List.mem_cons_self)
          rw [first.1]
          rfl
  next other =>
      have none : (s.scopes.idsWhere fun x =>
          !x.destroyed && x.element.id == id && x.state == .waiting && x.pending) = [] := by
        rw [List.eq_nil_iff_forall_not_mem]
        intro i hi
        exact other ((waiting i).mp hi).2
      rw [none]
      rfl

theorem waitingScope?_of_over {s : Simulation} (ended : Over s) (id : String) :
    s.waitingScope? id = none := by
  rw [waitingScope?, List.head?_eq_none_iff, List.eq_nil_iff_forall_not_mem]
  intro i hi
  obtain ⟨x, hx, chosen⟩ := Scopes.mem_idsWhere.mp hi
  rw [ended i x hx] at chosen
  cases chosen

/-- The lone token is held at an element of the path, or it has come to the end. -/
def Parked (d : Diagram) (path : List Element) (n : Nat) (s : Simulation) : Prop :=
  (∀ e, path[n]? = some e → ∃ root w, Lone root s w (Scope.enter e (some 0)).suspend ∧
    (root.kind = .process ∨ root.kind = .participant) ∧ (root = d.root ∨ root ∈ d.nodes)) ∧
  (path[n]? = none → Over s)

/-- A replay in which the token has come as far along the path as a snapshot says. -/
structure Followed (p : ReplayPlan) (path : List Element) (n : Nat) (r : Replay) : Prop where
  started : r.started = true
  quiet : r.session.simulation.agenda = []
  parked : Parked p.diagram path n r.session.simulation
  counts : ∀ j e, path[j]? = some e →
    r.session.simulation.exitCount e.id = if j < n then 1 else 0

/-- What holds of a replay between its steps, wherever its token is. -/
structure Steady (p : ReplayPlan) (i : Nat) (r : Replay) : Prop where
  idle : r.inFlight = false
  index : r.index = i
  clean : r.failures = []
  config : ∀ e ∈ p.diagram.nodes, e.kind ≠ .exclusiveGateway →
    r.session.config.get e = p.startConfig.get e

theorem advance_of_carried {r' : Replay} {session : Session} (idle : r.inFlight = false)
    (more : r.index + 1 < p.trace.size)
    (started : (ensureStarted p (configureGateways p { r with inFlight := true } r.index)).value
      = (r', .ok ()))
    (carried : (carryOutAll p r'.session (Trigger.ofStep p.diagram p.trace r.index)).value
      = (session, .ok [])) :
    (advance p r).value = ({ r' with session, index := r.index + 1, inFlight := false },
      ⟨[p.settings.stepDelay], .ok (.stepped true)⟩) := by
  apply advance_of_resume idle
  · simp only [isDone, ReplayPlan.isLast, decide_eq_true_eq]
    omega
  · simp only [resume, Logged.value_bind, started, attempt, carried, List.isEmpty_nil, Bool.not_true,
      Bool.false_eq_true, false_and, if_false, endStep, finish, settled, List.map_nil,
      List.append_nil]
    rfl

theorem carryOutAll_of_signal {session : Session} {e : Element} {w : Nat} {s' : Simulation}
    (waiting : session.simulation.waitingScope? e.id = some w)
    (signalled : signalAndRun p.diagram session.config p.bound session.simulation w = (s', .ok ())) :
    (carryOutAll p session [⟨e, .complete⟩]).value
      = ({ session with simulation := s' }, .ok []) := by
  simp only [carryOutAll, carryOut, waiting, Logged.value_bind, Session.signal, Session.act, signalled]
  rfl

/-- A signal takes the parked token one element further along the path. -/
theorem signal_parked (consistent : p.diagram.Consistent) (route : Route p.diagram start path done)
    {c : ConfigStore} {s : Simulation} {n : Nat} {e : Element} (here : path[n]? = some e)
    (parked : Parked p.diagram path n s) (quiet : s.agenda = []) {f : Flow}
    (next : (path ++ [done])[n + 1]? = some f.target)
    (leads : ∀ (s : Simulation) (w : Nat) (x : Scope), x.element = e →
      onExit p.diagram c s w x = s.enterAll [f] x.parent)
    (waits : ∀ b, path[n + 1]? = some b → (c.get b).wait = true) {bound : Nat} (enough : 5 ≤ bound) :
    ∃ w s', s.waitingScope? e.id = some w ∧
      signalAndRun p.diagram c bound s w = (s', .ok ()) ∧ s'.agenda = [] ∧
        Parked p.diagram path (n + 1) s' ∧ ∀ (j : Nat) (b : Element), path[j]? = some b →
          s'.exitCount b.id = s.exitCount b.id + if e.id = b.id then 1 else 0 := by
  obtain ⟨root, w, lone, rootKind, known⟩ := parked.1 e here
  have held := waitingScope?_of_lone lone e.id
  rw [if_pos rfl] at held
  have kind := route.not_subProcess (List.mem_of_getElem? here)
  have leads' := fun s x => leads s w x
  cases further : path[n + 1]? with
  | some b =>
      rw [List.getElem?_append_left (List.getElem?_eq_some_iff.mp further).1, further,
        Option.some.injEq] at next
      subst next
      have plain := (route.kinds _ (List.mem_of_getElem? further)).imp (·.1) (·.1)
      obtain ⟨s', w', signalled, lone', drained, counts⟩ :=
        Lone.signal_hold (x := Scope.enter e (some 0)) lone quiet kind leads' plain
          (waits _ further) (by omega : 3 ≤ bound)
      refine ⟨w, s', held, signalled, drained, ⟨?_, ?_⟩, fun _ (b : Element) _ => counts b.id⟩
      · intro b at_b
        rw [further] at at_b
        cases at_b
        exact ⟨root, w', lone', rootKind, known⟩
      · intro none
        rw [further] at none
        cases none
  | none =>
      have below := (List.getElem?_eq_some_iff.mp here).1
      have beyond := List.getElem?_eq_none_iff.mp further
      have last : f.target = done := by
        rw [List.getElem?_append_right beyond, show n + 1 - path.length = 0 by omega] at next
        exact (Option.some.inj next).symm
      obtain ⟨s', signalled, ended, drained, counts⟩ :=
        Lone.signal_finish (x := Scope.enter e (some 0)) lone quiet kind leads'
          (last ▸ route.done) rootKind enough
      refine ⟨w, s', held, signalled, drained, ⟨?_, fun _ => ended⟩, ?_⟩
      · intro b at_b
        rw [further] at at_b
        cases at_b
      · intro j b at_j
        have inside := List.mem_of_getElem? at_j
        have node : f.target ∈ p.diagram.nodes := by
          obtain ⟨g, leaves, same⟩ := route.next here
          rw [next, Option.some.injEq] at same
          exact same ▸ consistent.target_mem leaves
        have apart : f.target.id ≠ b.id := by
          apply route.id_ne consistent inside (.inr node)
          rw [last, route.done]
          decide
        have outer := route.container_id_ne consistent inside known rootKind
        rw [counts b.id, if_neg apart, if_neg outer]
        rfl

section Step

variable (consistent : p.diagram.Consistent) (route : Route p.diagram start path done)
  (recorded : Recorded path reached p.trace)

include consistent route recorded

/-- The look-ahead lets the token be held where the trace shows it next. -/
theorem wait_configureGateways {i k : Nat} {e : Element}
    (config : ∀ e ∈ p.diagram.nodes, e.kind ≠ .exclusiveGateway →
      r.session.config.get e = p.startConfig.get e) (one : 1 ≤ k) (within : k < p.trace.size)
    (le : i ≤ k) (ahead : i = 0 ∨ reached i ≤ reached k) (here : path[reached k]? = some e) :
    ((r.configureGateways p i).session.config.get e).wait = true := by
  have inside := List.mem_of_getElem? here
  have node := route.mem_nodes consistent inside
  rcases route.kinds e inside with ⟨kind, _⟩ | ⟨kind, _⟩
  · have other : e.kind ≠ .exclusiveGateway := by
      rw [kind]
      decide
    rw [get_configureGateways_of_kind p r consistent node other, config e node other]
    apply p.wait_startConfig (consistent.find?_node node)
    · exact recorded.mem_elementIds one within here (Nat.le_refl _)
    · rw [kind]
      rfl
  · obtain ⟨k', later, within', beyond⟩ := recorded.gateway_left one within here kind
    obtain ⟨f, _, branch, _⟩ := recorded.branch_of_path consistent route here kind ahead
      ⟨k', by omega, within', by omega, beyond⟩
    rw [get_configureGateways_of_branch p r consistent node kind branch]

/-- The look-ahead lets the token go on along the path. -/
theorem onExit_configureGateways {i : Nat} {e : Element} (one : 1 ≤ i)
    (within : i + 1 < p.trace.size) (here : path[reached i]? = some e)
    (goes : reached (i + 1) = reached i + 1) :
    ∃ f, (path ++ [done])[reached i + 1]? = some f.target ∧
      ∀ (s : Simulation) (w : Nat) (x : Scope), x.element = e →
        onExit p.diagram (r.configureGateways p i).session.config s w x
          = s.enterAll [f] x.parent := by
  have inside := List.mem_of_getElem? here
  rcases route.kinds e inside with ⟨kind, only⟩ | ⟨kind, _⟩
  · obtain ⟨f, leaves, target⟩ := route.next here
    obtain ⟨g, only⟩ := List.length_eq_one_iff.mp only
    obtain rfl : f = g := List.mem_singleton.mp (only ▸ leaves)
    refine ⟨f, target, ?_⟩
    intro s w x own
    apply onExit_of_only (own ▸ only)
    rw [own, kind]
    decide
  · obtain ⟨f, leaves, branch, target⟩ := recorded.branch_of_path consistent route here kind
      (.inr (Nat.le_refl _)) ⟨i + 1, by omega, within, by omega, by omega⟩
    refine ⟨f, ?_, ?_⟩
    · rw [List.getElem?_append_left (List.getElem?_eq_some_iff.mp target).1, target]
    · intro s w x own
      apply onExit_of_active (own ▸ kind) (own ▸ leaves)
      rw [own, get_configureGateways_of_branch p r consistent
        (route.mem_nodes consistent inside) kind branch]

/-- The first step starts the process, and the token is held at the first element. -/
theorem first_step (enough : 5 ≤ p.bound) (size : 1 < p.trace.size) : ∃ r',
    (advance p p.initial).value = (r', ⟨[p.settings.stepDelay], .ok (.stepped true)⟩) ∧
      Steady p 1 r' ∧ Followed p path (reached 1) r' := by
  obtain ⟨f, only, head⟩ := route.first
  have here : path[reached 1]? = some f.target := by
    rw [recorded.first, ← List.head?_eq_getElem?, head]
  have next := (route.kinds f.target (List.mem_of_getElem? here)).imp (·.1) (·.1)
  have waits := wait_configureGateways consistent route recorded
    (r := { p.initial with inFlight := true }) (i := 0) (fun _ _ _ => rfl) (Nat.le_refl 1) size
    (Nat.zero_le 1) (.inl rfl) here
  generalize look : configureGateways p { p.initial with inFlight := true } 0 = r₁ at waits
  have config : ∀ e ∈ p.diagram.nodes, e.kind ≠ .exclusiveGateway →
      r₁.session.config.get e = p.startConfig.get e := by
    intro e node kind
    rw [← look]
    exact get_configureGateways_of_kind p _ consistent node kind
  obtain ⟨s', i, w, root, begun, rootKind, known, lone, quiet, counts⟩ :=
    start_hold consistent route.root only next waits (by omega : 3 ≤ p.bound)
  obtain ⟨session, own, kept⟩ : ∃ session : Session, session.simulation = s' ∧
      session.config = r₁.session.config := ⟨⟨r₁.session.config, s'⟩, rfl, rfl⟩
  have started : (ensureStarted p r₁).value = ({ r₁ with session, started := true }, .ok ()) := by
    have idle : ¬ r₁.started = true := by
      rw [← look]
      exact Bool.false_ne_true
    have fresh : r₁.session.simulation = Simulation.empty := by
      rw [← look]
      rfl
    rw [ensureStarted, if_neg idle]
    simp only [Logged.value_bind, Session.start, Session.act, fresh, begun]
    rw [← own, ← kept]
    rfl
  have carried : (carryOutAll p session (Trigger.ofStep p.diagram p.trace p.initial.index)).value
      = (session, .ok []) := by
    have none : Trigger.ofStep p.diagram p.trace p.initial.index = [] :=
      recorded.ofStep_of_stays consistent route size (.inl rfl)
    rw [none]
    rfl
  refine ⟨_, advance_of_carried rfl size (look ▸ started) carried,
    ⟨rfl, rfl, rfl, kept ▸ config⟩, rfl, own ▸ quiet, ?_, ?_⟩
  · refine ⟨?_, ?_⟩
    · intro e at_e
      rw [here] at at_e
      cases at_e
      exact ⟨root, w, own ▸ lone, rootKind, known⟩
    · intro none
      rw [here] at none
      cases none
  · intro j e at_j
    obtain ⟨node, kind⟩ := startEvent_of_start (e := none) (by
      intro _ named
      cases named) route.root
    have apart : start.id ≠ e.id := by
      apply route.id_ne consistent (List.mem_of_getElem? at_j) (.inr node)
      rw [kind]
      decide
    rw [own, counts, if_neg apart, recorded.first, if_neg (Nat.not_lt_zero j)]

/-- Carrying out a later step takes the token from one place of the path to the next. -/
theorem carried_later (enough : 5 ≤ p.bound) {i : Nat} (one : 1 ≤ i) (size : i + 1 < p.trace.size)
    (config : ∀ e ∈ p.diagram.nodes, e.kind ≠ .exclusiveGateway →
      r.session.config.get e = p.startConfig.get e) (followed : Followed p path (reached i) r) :
    ∃ session : Session,
      (carryOutAll p (r.configureGateways p i).session (Trigger.ofStep p.diagram p.trace i)).value
          = (session, .ok []) ∧ session.config = (r.configureGateways p i).session.config ∧
        session.simulation.agenda = [] ∧
          Parked p.diagram path (reached (i + 1)) session.simulation ∧
            ∀ j e, path[j]? = some e → session.simulation.exitCount e.id
              = if j < reached (i + 1) then 1 else 0 := by
  have simulation : (r.configureGateways p i).session.simulation = r.session.simulation := rfl
  rcases recorded.step i one size with stays | goes
  · rw [recorded.ofStep_of_stays consistent route size (.inr stays), stays]
    exact ⟨_, rfl, rfl, followed.quiet, followed.parked, followed.counts⟩
  · have below : reached i < path.length := by
      have le := recorded.reached_le_length (i := i + 1) (by omega) size
      omega
    have here : path[reached i]? = some path[reached i] := List.getElem?_eq_getElem below
    generalize path[reached i] = e at here
    obtain ⟨f, next, leads⟩ :=
      onExit_configureGateways consistent route recorded (r := r) one size here goes
    have waits : ∀ b, path[reached i + 1]? = some b →
        ((r.configureGateways p i).session.config.get b).wait = true := by
      intro b at_b
      exact wait_configureGateways consistent route recorded config (by omega) size
        (Nat.le_succ i) (.inr (by omega)) (goes ▸ at_b)
    obtain ⟨w, s', held, signalled, drained, parked, counts⟩ :=
      signal_parked consistent route here followed.parked followed.quiet next leads waits enough
    rw [← simulation] at held signalled
    rw [recorded.ofStep_of_goes consistent route one size goes here, goes]
    refine ⟨_, carryOutAll_of_signal held signalled, rfl, drained, parked, ?_⟩
    intro j b at_j
    rw [counts j b at_j, followed.counts j b at_j]
    by_cases same : j = reached i
    · subst same
      rw [here, Option.some.injEq] at at_j
      rw [at_j, if_pos rfl, if_neg (Nat.lt_irrefl _), if_pos (Nat.lt_succ_self _)]
    · have apart : e.id ≠ b.id := fun own => same (route.eq_of_id consistent here at_j own).symm
      rw [if_neg apart, Nat.add_zero]
      congr 1
      exact propext (by omega)

theorem later_step (enough : 5 ≤ p.bound) {i : Nat} (one : 1 ≤ i) (size : i + 1 < p.trace.size)
    (steady : Steady p i r) (followed : Followed p path (reached i) r) : ∃ r',
    (advance p r).value = (r', ⟨[p.settings.stepDelay], .ok (.stepped true)⟩) ∧
      Steady p (i + 1) r' ∧ Followed p path (reached (i + 1)) r' := by
  obtain ⟨idle, index, clean, config⟩ := steady
  subst index
  obtain ⟨session, carried, kept, quiet, parked, counts⟩ :=
    carried_later consistent route recorded (r := { r with inFlight := true }) enough one size
      config ⟨followed.started, followed.quiet, followed.parked, followed.counts⟩
  generalize look : configureGateways p { r with inFlight := true } r.index = r₁ at carried kept
  have mark : r₁.started = true := by
    rw [← look]
    exact followed.started
  have started : (ensureStarted p r₁).value = (r₁, .ok ()) := by
    rw [ensureStarted, if_pos mark]
    rfl
  have config' : ∀ e ∈ p.diagram.nodes, e.kind ≠ .exclusiveGateway →
      r₁.session.config.get e = p.startConfig.get e := by
    intro e node kind
    rw [← look, get_configureGateways_of_kind p _ consistent node kind]
    exact config e node kind
  refine ⟨_, advance_of_carried idle size (look ▸ started) carried,
    ⟨rfl, rfl, ?_, kept ▸ config'⟩, mark, quiet, parked, counts⟩
  rw [← clean, ← look]
  rfl

/-- What a trace shows of the path is what the simulation is in. -/
theorem waiting_iff {i : Nat} (one : 1 ≤ i) (within : i < p.trace.size)
    (followed : Followed p path (reached i) r) (id : String) :
    (r.session.simulation.waitingScope? id).isSome = true ↔ p.trace.status i id = .active := by
  have shown : p.trace.status i id = .active → ∃ e, path[reached i]? = some e ∧ e.id = id :=
    recorded.at_of_active consistent route one within
  cases here : path[reached i]? with
  | some e =>
      obtain ⟨root, w, lone, _⟩ := followed.parked.1 e here
      rw [waitingScope?_of_lone lone]
      split
      next same =>
          rw [← same, recorded.status_of_path consistent route one within here, stage_eq_active]
          exact ⟨fun _ => rfl, fun _ => rfl⟩
      next other =>
          refine ⟨nofun, fun active => ?_⟩
          obtain ⟨b, there, own⟩ := shown active
          rw [here, Option.some.injEq] at there
          exact absurd (there ▸ own) other
  | none =>
      rw [waitingScope?_of_over (followed.parked.2 here)]
      refine ⟨nofun, fun active => ?_⟩
      obtain ⟨b, there, _⟩ := shown active
      rw [here] at there
      cases there

end Step

/-- The replay after a number of advances. -/
def stepped (p : ReplayPlan) : Nat → Replay
  | 0 => p.initial
  | i + 1 => (advance p (stepped p i)).value.1

/-- Replay reproduces a trace that was recorded one element at a time: every advance takes a step,
nothing is refused, the tokens wait where the trace shows them, and just the elements that they have
passed have exited. -/
theorem advance_recorded (p : ReplayPlan) (built : p.diagram.Built) {start done : Element}
    {path : List Element} {reached : Nat → Nat} (route : Route p.diagram start path done)
    (recorded : Recorded path reached p.trace) (enough : 5 ≤ p.bound) :
    p.replay? = .ok p.initial ∧ ∀ i, i + 1 < p.trace.size →
      (advance p (stepped p i)).value.2.answer = .ok (.stepped true) ∧
      (stepped p (i + 1)).failures = [] ∧
      (∀ id : String, ((stepped p (i + 1)).session.simulation.waitingScope? id).isSome = true ↔
        p.trace.status (i + 1) id = .active) ∧
      ∀ (j : Nat) (e : Element), path[j]? = some e →
        (stepped p (i + 1)).session.simulation.exitCount e.id
          = if j < reached (i + 1) then 1 else 0 := by
  have consistent := built.consistent
  have run : ∀ i, i + 1 < p.trace.size →
      (advance p (stepped p i)).value.2.answer = .ok (.stepped true) ∧
        Steady p (i + 1) (stepped p (i + 1)) ∧
          Followed p path (reached (i + 1)) (stepped p (i + 1)) := by
    intro i
    induction i with
    | zero =>
        intro within
        obtain ⟨r', taken, steady, followed⟩ := first_step consistent route recorded enough within
        have next : stepped p (0 + 1) = r' := congrArg Prod.fst taken
        exact ⟨congrArg (·.2.answer) taken, next ▸ steady, next ▸ followed⟩
    | succ i ih =>
        intro within
        obtain ⟨_, steady, followed⟩ := ih (by omega)
        obtain ⟨r', taken, steady', followed'⟩ :=
          later_step consistent route recorded enough (by omega) within steady followed
        have next : stepped p (i + 1 + 1) = r' := congrArg Prod.fst taken
        exact ⟨congrArg (·.2.answer) taken, next ▸ steady', next ▸ followed'⟩
  constructor
  · have known : (p.trace.elementIds.filter fun id => !p.diagram.contains id) = [] := by
      rw [List.filter_eq_nil_iff]
      intro id named
      rw [recorded.contains_of_mem_elementIds consistent route named]
      decide
    rw [ReplayPlan.replay?, known]
  · intro i within
    obtain ⟨taken, steady, followed⟩ := run i within
    exact ⟨taken, steady.clean, waiting_iff consistent route recorded (by omega) within followed,
      followed.counts⟩

/-- A trace of the left way through a choice. -/
def leftward : ReplayPlan where
  diagram := .review
  trace := ⟨[⟨"0", 0, []⟩, ⟨"1", 1, [("t", .active)]⟩, ⟨"2", 2, [("t", .completed), ("g", .active)]⟩,
    ⟨"3", 3, [("t", .completed), ("g", .completed), ("a", .active)]⟩]⟩
  settings := .default
  bound := 100

theorem advance_recorded_leftward :
    (advance leftward (stepped leftward 2)).value.2.answer = .ok (.stepped true) ∧
      ((stepped leftward 3).session.simulation.waitingScope? "a").isSome = true ∧
        (stepped leftward 3).session.simulation.exitCount "g" = 1 := by
  let node := Diagram.forkNode
  let path := [node "t" .task, node "g" .exclusiveGateway, node "a" .task]
  have route : Route leftward.diagram (node "s" .startEvent) path (node "e" .endEvent) := by
    refine ⟨rfl, ⟨_, rfl, rfl⟩, ?_, by decide, by decide, ⟨node "a" .task, rfl, rfl⟩, rfl⟩
    decide
  have recorded : Recorded path (· - 1) leftward.trace := by
    refine ⟨⟨_, rfl, rfl⟩, ?_, rfl, ?_, ?_⟩
    · intro i one within
      have size : i < 4 := within
      interval_cases i
      · exact ⟨_, rfl, .refl _⟩
      · exact ⟨_, rfl, .refl _⟩
      · exact ⟨_, rfl, .refl _⟩
    · intro i one _
      exact .inr (by omega)
    · intro i one last
      obtain rfl : i = 3 := Nat.succ.inj last
      exact ⟨by decide, by decide⟩
  obtain ⟨_, run⟩ := advance_recorded leftward Diagram.built_review route recorded (by decide)
  obtain ⟨taken, _, waiting, counts⟩ := run 2 (by decide)
  exact ⟨taken, (waiting "a").mpr (by decide), counts 1 _ rfl⟩

end Replay
end ProcessDiagram
