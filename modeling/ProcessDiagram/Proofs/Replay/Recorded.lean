import ProcessDiagram.Simulation.Run
import ProcessDiagram.Proofs.Replay.Lookahead

/-!
Traces recorded along a path, one element at a time. What such a trace says of the path, which branch
it takes at the gateways of the path, and what it triggers from one snapshot to the next.
-/
namespace ProcessDiagram

/-- A path from the root's start event to an end event: tasks with one way out, and exclusive
gateways that do not lead back to themselves. -/
structure Route (d : Diagram) (start : Element) (path : List Element) (done : Element) : Prop where
  root : Simulation.rootStart d = .ok start
  first : ∃ f, d.outgoing start = [f] ∧ path.head? = some f.target
  chained : (path ++ [done]).IsChain fun a b => ∃ f ∈ d.outgoing a, f.target = b
  distinct : path.Nodup
  kinds : ∀ e ∈ path, e.kind = .task ∧ (d.outgoing e).length = 1 ∨
    e.kind = .exclusiveGateway ∧ ∀ f ∈ d.outgoing e, f.target ≠ e
  last : ∃ e, path.getLast? = some e ∧ e.kind = .task
  done : done.kind = .endEvent

/-- The first elements are completed, and the next one is active. -/
def marks (path : List Element) (reached : Nat) : List (String × Status) :=
  (path.take reached).map (fun e => (e.id, .completed))
    ++ (path[reached]?).toList.map fun e => (e.id, .active)

/-- After an empty snapshot, each snapshot marks the path as far as the token has come. From one to
the next the token stays where it is or goes on by one element. -/
structure Recorded (path : List Element) (reached : Nat → Nat) (t : Trace) : Prop where
  empty : ∃ s, t.snapshots[0]? = some s ∧ s.states = []
  marked : ∀ i, 1 ≤ i → i < t.size →
    ∃ s, t.snapshots[i]? = some s ∧ s.states.Perm (marks path (reached i))
  first : reached 1 = 0
  step : ∀ i, 1 ≤ i → i + 1 < t.size → reached (i + 1) = reached i ∨ reached (i + 1) = reached i + 1
  last : ∀ i, 1 ≤ i → i + 1 = t.size → reached i ≤ path.length ∧
    ∀ e, path[reached i]? = some e → e.kind ≠ .exclusiveGateway

variable {d : Diagram} {start done : Element} {path : List Element} {reached : Nat → Nat} {t : Trace}

namespace Route

theorem next (h : Route d start path done) {j : Nat} {e : Element} (at_j : path[j]? = some e) :
    ∃ f ∈ d.outgoing e, (path ++ [done])[j + 1]? = some f.target := by
  obtain ⟨below, rfl⟩ := List.getElem?_eq_some_iff.mp at_j
  have within : j + 1 < (path ++ [done]).length := by
    rw [List.length_append, List.length_singleton]
    omega
  obtain ⟨f, leaves, target⟩ := List.isChain_iff_getElem.mp h.chained j within
  rw [List.getElem_append_left below] at leaves
  exact ⟨f, leaves, by rw [target, List.getElem?_eq_getElem within]⟩

theorem mem_nodes (consistent : d.Consistent) (h : Route d start path done) {e : Element}
    (inside : e ∈ path) : e ∈ d.nodes := by
  obtain ⟨j, at_j⟩ := List.mem_iff_getElem?.mp inside
  cases j with
  | zero =>
      obtain ⟨f, only, head⟩ := h.first
      rw [← List.head?_eq_getElem?, head, Option.some.injEq] at at_j
      rw [← at_j]
      exact consistent.target_mem (only ▸ List.mem_singleton_self f)
  | succ j =>
      have below := (List.getElem?_eq_some_iff.mp at_j).1
      obtain ⟨f, leaves, target⟩ := h.next (List.getElem?_eq_getElem (by omega : j < path.length))
      rw [List.getElem?_append_left below, at_j, Option.some.injEq] at target
      rw [target]
      exact consistent.target_mem leaves

theorem next_of_gateway (h : Route d start path done) {j : Nat} {e : Element}
    (at_j : path[j]? = some e) (kind : e.kind = .exclusiveGateway) :
    ∃ f ∈ d.outgoing e, path[j + 1]? = some f.target := by
  obtain ⟨f, leaves, target⟩ := h.next at_j
  refine ⟨f, leaves, ?_⟩
  by_cases below : j + 1 < path.length
  · rwa [List.getElem?_append_left below] at target
  · obtain ⟨within, _⟩ := List.getElem?_eq_some_iff.mp at_j
    obtain ⟨final, last, task⟩ := h.last
    have end_at : path.length - 1 = j := by omega
    rw [List.getLast?_eq_getElem?, end_at, at_j, Option.some.injEq] at last
    rw [← last, kind] at task
    cases task

theorem eq_of_id (consistent : d.Consistent) (h : Route d start path done) {i j : Nat}
    {a b : Element} (at_i : path[i]? = some a) (at_j : path[j]? = some b) (same : a.id = b.id) :
    i = j := by
  have one := consistent.eq_of_id (h.mem_nodes consistent (List.mem_of_getElem? at_i))
    (h.mem_nodes consistent (List.mem_of_getElem? at_j)) same
  subst one
  obtain ⟨below, at_i⟩ := List.getElem?_eq_some_iff.mp at_i
  obtain ⟨below', at_j⟩ := List.getElem?_eq_some_iff.mp at_j
  exact (List.Nodup.getElem_inj_iff h.distinct).mp (at_i.trans at_j.symm)

theorem id_ne (consistent : d.Consistent) (h : Route d start path done) {e b : Element}
    (inside : e ∈ path) (known : b = d.root ∨ b ∈ d.nodes)
    (kind : b.kind ≠ .task ∧ b.kind ≠ .exclusiveGateway) : b.id ≠ e.id := by
  intro same
  have node := h.mem_nodes consistent inside
  rcases known with rfl | known
  · exact consistent.root_id_ne node same
  · rw [consistent.eq_of_id known node same] at kind
    rcases h.kinds e inside with task | gateway
    · exact kind.1 task.1
    · exact kind.2 gateway.1

theorem not_subProcess (h : Route d start path done) {e : Element} (inside : e ∈ path) :
    e.kind ≠ .subProcess := by
  rcases h.kinds e inside with ⟨kind, _⟩ | ⟨kind, _⟩
  · rw [kind]
    decide
  · rw [kind]
    decide

theorem container_id_ne (consistent : d.Consistent) (h : Route d start path done) {e root : Element}
    (inside : e ∈ path) (known : root = d.root ∨ root ∈ d.nodes)
    (kind : root.kind = .process ∨ root.kind = .participant) : root.id ≠ e.id := by
  apply h.id_ne consistent inside known
  rcases kind with kind | kind
  · rw [kind]
    decide
  · rw [kind]
    decide

theorem nodup_ids (consistent : d.Consistent) (h : Route d start path done) :
    (path.map (·.id)).Nodup := by
  apply h.distinct.map_on
  intro a ha b hb same
  exact consistent.eq_of_id (h.mem_nodes consistent ha) (h.mem_nodes consistent hb) same

end Route

/-! ## Statuses -/

/-- How far an element of the path is when the token has come to a place of it. -/
def stage (reached j : Nat) : Status :=
  if j < reached then .completed else if j = reached then .active else .absent

theorem stage_eq_completed {n j : Nat} : stage n j = .completed ↔ j < n := by
  rw [stage]
  split
  next before => exact ⟨fun _ => before, fun _ => rfl⟩
  next before => split <;> simp [before]

theorem stage_eq_active {n j : Nat} : stage n j = .active ↔ j = n := by
  rw [stage]
  split
  next before => exact ⟨nofun, fun here => by omega⟩
  next => split <;> simp [*]

theorem stage_eq_absent {n j : Nat} : stage n j = .absent ↔ n < j := by
  rw [stage]
  split
  next before => exact ⟨nofun, fun ahead => by omega⟩
  next before =>
      split
      next here => exact ⟨nofun, fun ahead => by omega⟩
      next here => exact ⟨fun _ => by omega, fun _ => rfl⟩

/-- When the token goes on, only the element that it leaves and the next one change. -/
theorem stage_changes {n j : Nat} :
    stage (n + 1) j ≠ .absent ∧ stage (n + 1) j ≠ stage n j ↔ j = n ∨ j = n + 1 := by
  grind [stage]

theorem mem_marks {id : String} {status : Status} {n : Nat} : (id, status) ∈ marks path n ↔
    ∃ (j : Nat) (e : Element), path[j]? = some e ∧ j ≤ n ∧ e.id = id ∧ stage n j = status := by
  simp only [marks, List.mem_append, List.mem_map, Prod.mk.injEq, Option.mem_toList]
  constructor
  · intro h
    rcases h with ⟨e, inside, own, completed⟩ | ⟨e, here, own, active⟩
    · obtain ⟨j, at_j⟩ := List.mem_iff_getElem?.mp inside
      rw [List.getElem?_take, ite_eq_iff] at at_j
      obtain ⟨before, at_j⟩ : j < n ∧ path[j]? = some e := by simpa using at_j
      exact ⟨j, e, at_j, Nat.le_of_lt before, own, (stage_eq_completed.mpr before).trans completed⟩
    · refine ⟨n, e, here, Nat.le_refl n, own, ?_⟩
      rw [stage, if_neg (Nat.lt_irrefl n), if_pos rfl, active]
  · intro h
    obtain ⟨j, e, at_j, within, own, status⟩ := h
    by_cases before : j < n
    · left
      refine ⟨e, List.mem_iff_getElem?.mpr ⟨j, ?_⟩, own, ?_⟩
      · rw [List.getElem?_take, if_pos before, at_j]
      · rw [← status, stage_eq_completed.mpr before]
    · right
      obtain rfl : j = n := by omega
      exact ⟨e, at_j, own, (stage_eq_active.mpr rfl).symm.trans status⟩

theorem keys_marks (path : List Element) (n : Nat) :
    (marks path n).map Prod.fst = (path.take (n + 1)).map (·.id) := by
  rw [marks, List.take_add_one, List.map_append, List.map_append, List.map_map, List.map_map]
  rfl

namespace Recorded

theorem status_zero (h : Recorded path reached t) (id : String) : t.status 0 id = .absent := by
  obtain ⟨s, first, empty⟩ := h.empty
  rw [Trace.status, first, Option.map_some, Option.getD_some, Snapshot.status, empty]
  rfl

theorem status_of_mem (consistent : d.Consistent) (route : Route d start path done)
    (h : Recorded path reached t) {i : Nat} (one : 1 ≤ i) (within : i < t.size) {id : String}
    {status : Status} (inside : (id, status) ∈ marks path (reached i)) : t.status i id = status := by
  obtain ⟨s, at_i, same⟩ := h.marked i one within
  have distinct : (s.states.map Prod.fst).Nodup := by
    rw [(same.map Prod.fst).nodup_iff, keys_marks]
    exact ((route.nodup_ids consistent).sublist ((List.take_sublist _ _).map _))
  rw [Trace.status, at_i, Option.map_some, Option.getD_some, Snapshot.status,
    lookup_of_mem distinct (same.mem_iff.mpr inside), Option.getD_some]

theorem status_of_not_mem (h : Recorded path reached t) {i : Nat} (one : 1 ≤ i) (within : i < t.size)
    {id : String} (outside : ∀ status, (id, status) ∉ marks path (reached i)) :
    t.status i id = .absent := by
  obtain ⟨s, at_i, same⟩ := h.marked i one within
  have none : s.states.lookup id = none := by
    rw [List.lookup_eq_none_iff]
    intro entry inside
    rw [bne_iff_ne]
    intro own
    obtain ⟨id', status⟩ := entry
    subst own
    exact outside status (same.mem_iff.mp inside)
  rw [Trace.status, at_i, Option.map_some, Option.getD_some, Snapshot.status, none]
  rfl

theorem status_of_path (consistent : d.Consistent) (route : Route d start path done)
    (h : Recorded path reached t) {i : Nat} (one : 1 ≤ i) (within : i < t.size) {j : Nat}
    {e : Element} (at_j : path[j]? = some e) : t.status i e.id = stage (reached i) j := by
  by_cases near : j ≤ reached i
  · exact h.status_of_mem consistent route one within (mem_marks.mpr ⟨j, e, at_j, near, rfl, rfl⟩)
  · rw [stage_eq_absent.mpr (by omega)]
    apply h.status_of_not_mem one within
    intro status inside
    obtain ⟨k, b, at_k, near', same, _⟩ := mem_marks.mp inside
    have one := route.eq_of_id consistent at_k at_j same
    omega

theorem status_of_other (h : Recorded path reached t) {i : Nat} (within : i < t.size) {id : String}
    (other : ∀ e ∈ path, e.id ≠ id) : t.status i id = .absent := by
  by_cases first : i = 0
  · rw [first]
    exact h.status_zero id
  · apply h.status_of_not_mem (by omega) within
    intro status inside
    obtain ⟨j, e, at_j, _, own, _⟩ := mem_marks.mp inside
    exact other e (List.mem_of_getElem? at_j) own

theorem at_of_active (consistent : d.Consistent) (route : Route d start path done)
    (h : Recorded path reached t) {i : Nat} (one : 1 ≤ i) (within : i < t.size) {id : String}
    (active : t.status i id = .active) : ∃ e, path[reached i]? = some e ∧ e.id = id := by
  by_cases inside : ∃ e ∈ path, e.id = id
  · obtain ⟨e, inside, rfl⟩ := inside
    obtain ⟨j, at_j⟩ := List.mem_iff_getElem?.mp inside
    rw [h.status_of_path consistent route one within at_j, stage_eq_active] at active
    exact ⟨e, active ▸ at_j, rfl⟩
  · rw [h.status_of_other within fun e he own => inside ⟨e, he, own⟩] at active
    cases active

theorem reached_le (h : Recorded path reached t) {i k : Nat} (one : 1 ≤ i) (le : i ≤ k)
    (within : k < t.size) : reached i ≤ reached k := by
  obtain ⟨n, rfl⟩ := Nat.exists_eq_add_of_le le
  induction n with
  | zero => exact Nat.le_refl _
  | succ n ih =>
      have before := ih (Nat.le_add_right i n) (by omega)
      have step := h.step (i + n) (by omega) (by omega)
      rw [← Nat.add_assoc]
      omega

theorem exists_passed (h : Recorded path reached t) {i k j : Nat} (one : 1 ≤ i) (le : i ≤ k)
    (within : k < t.size) (from_i : reached i ≤ j) (to_k : j < reached k) :
    ∃ l, i ≤ l ∧ l < k ∧ reached l = j ∧ reached (l + 1) = j + 1 := by
  obtain ⟨n, rfl⟩ := Nat.exists_eq_add_of_le le
  induction n with
  | zero => exact absurd to_k (Nat.not_lt.mpr from_i)
  | succ n ih =>
      have step := h.step (i + n) (by omega) (by omega)
      rw [← Nat.add_assoc] at to_k
      by_cases before : j < reached (i + n)
      · obtain ⟨l, lower, upper, passed⟩ := ih (Nat.le_add_right i n) (by omega) before
        exact ⟨l, lower, by omega, passed⟩
      · exact ⟨i + n, Nat.le_add_right i n, by omega, by omega, by omega⟩

/-! ## Branches -/

/-- An element is left where the token goes on from it, and it was held there before. -/
theorem reached_of_exit (consistent : d.Consistent) (route : Route d start path done)
    (h : Recorded path reached t) {i j : Nat} {e : Element} (at_j : path[j]? = some e)
    (within : i + 1 < t.size) (left : (t.releases e.id i || t.passes e.id i) = true) :
    1 ≤ i ∧ reached i = j ∧ reached (i + 1) = j + 1 := by
  have later := h.status_of_path consistent route (by omega) within at_j
  simp only [Trace.releases, Trace.passes, Bool.or_eq_true, Bool.and_eq_true, beq_iff_eq,
    bne_iff_ne, later, ne_eq, stage_eq_active, stage_eq_completed] at left
  by_cases first : i = 0
  · subst first
    rw [h.status_zero, Nat.zero_add, h.first] at left
    rcases left with left | left
    · cases left.1
    · omega
  · have now := h.status_of_path consistent route (by omega) (by omega : i < t.size) at_j
    have step := h.step i (by omega) within
    simp only [now, stage_eq_active, stage_eq_absent] at left
    omega

theorem exit_of_reached (consistent : d.Consistent) (route : Route d start path done)
    (h : Recorded path reached t) {i j : Nat} {e : Element} (at_j : path[j]? = some e) (one : 1 ≤ i)
    (within : i + 1 < t.size) (here : reached i = j) (gone : reached (i + 1) = j + 1) :
    t.releases e.id i = true := by
  have now := h.status_of_path consistent route one (by omega : i < t.size) at_j
  have later := h.status_of_path consistent route (by omega) within at_j
  simp only [Trace.releases, now, later, Bool.and_eq_true, beq_iff_eq, bne_iff_ne, ne_eq,
    stage_eq_active]
  omega

theorem appears_iff (consistent : d.Consistent) (route : Route d start path done)
    (h : Recorded path reached t) {i j : Nat} {e : Element} (at_j : path[j]? = some e)
    (kind : e.kind = .exclusiveGateway) (one : 1 ≤ i) (within : i + 1 < t.size)
    (here : reached i = j) (gone : reached (i + 1) = j + 1) {f : Flow} (leaves : f ∈ d.outgoing e) :
    t.appears i f.target.id (i + 1) = true ↔ path[j + 1]? = some f.target := by
  have onPath : ∀ k, path[k]? = some f.target →
      (t.appears i f.target.id (i + 1) = true ↔ k = j ∨ k = j + 1) := by
    intro k at_k
    have now := h.status_of_path consistent route one (by omega : i < t.size) at_k
    have later := h.status_of_path consistent route (by omega) within at_k
    rw [here] at now
    rw [gone] at later
    simp only [Trace.appears, now, later, Bool.and_eq_true, bne_iff_ne]
    exact stage_changes
  have apart : ∀ k, path[k]? = some f.target → k ≠ j := by
    intro k at_k same
    rw [same, at_j, Option.some.injEq] at at_k
    rcases route.kinds e (List.mem_of_getElem? at_j) with task | gateway
    · rw [kind] at task
      cases task.1
    · exact gateway.2 f leaves at_k.symm
  constructor
  · intro appears
    by_cases inside : f.target ∈ path
    · obtain ⟨k, at_k⟩ := List.mem_iff_getElem?.mp inside
      have changed := (onPath k at_k).mp appears
      rw [← changed.resolve_left (apart k at_k)]
      exact at_k
    · have absent : t.status (i + 1) f.target.id = .absent := h.status_of_other within (by
        intro b hb same
        have one := consistent.eq_of_id (route.mem_nodes consistent hb)
          (consistent.target_mem leaves) same
        exact inside (one ▸ hb))
      simp only [Trace.appears, absent, Bool.and_eq_true, bne_iff_ne] at appears
      exact absurd rfl appears.1
  · intro at_next
    exact (onPath (j + 1) at_next).mpr (.inr rfl)

/-- A gateway that the token has yet to leave is set for the way along the path, and waits. -/
theorem branch_of_path (consistent : d.Consistent) (route : Route d start path done)
    (h : Recorded path reached t) {i j : Nat} {e : Element} (at_j : path[j]? = some e)
    (kind : e.kind = .exclusiveGateway) (ahead : i = 0 ∨ reached i ≤ j)
    (met : ∃ k, i ≤ k ∧ k < t.size ∧ 1 ≤ k ∧ j < reached k) :
    ∃ f ∈ d.outgoing e, t.branch? d e i = some ⟨f, true⟩ ∧ path[j + 1]? = some f.target := by
  -- The gateway is left at some place behind `i`, so the search for its next exit finds one.
  obtain ⟨l, from_i, within, exits⟩ : ∃ l, i ≤ l ∧ l + 1 < t.size ∧
      (t.releases e.id l || t.passes e.id l) = true := by
    obtain ⟨k, le, size, one, beyond⟩ := met
    obtain ⟨l, lower, upper, here, gone⟩ := h.exists_passed (i := max 1 i) (k := k) (j := j)
      (Nat.le_max_left ..) (by omega) size (by
        rcases ahead with first | ahead
        · rw [first, Nat.max_eq_left (Nat.zero_le 1), h.first]
          exact Nat.zero_le j
        · by_cases first : i = 0
          · rw [first, Nat.max_eq_left (Nat.zero_le 1), h.first]
            exact Nat.zero_le j
          · rwa [Nat.max_eq_right (by omega)]) beyond
    refine ⟨l, by omega, by omega, ?_⟩
    rw [h.exit_of_reached consistent route at_j (by omega) (by omega) here gone, Bool.true_or]
  have found : ∃ l, t.nextExit? e.id i = some l := by
    rw [Trace.nextExit?, ← Option.isSome_iff_exists, List.find?_isSome]
    exact ⟨l, by rw [List.mem_range'_1]; omega, exits⟩
  obtain ⟨l, found⟩ := found
  have inside := List.mem_of_find?_eq_some found
  have left := List.find?_some found
  rw [List.mem_range'_1] at inside
  have within : l + 1 < t.size := by omega
  obtain ⟨one, here, gone⟩ := h.reached_of_exit consistent route at_j within left
  obtain ⟨f, taken⟩ : ∃ f, (d.outgoing e).find? (fun f => t.appears l f.target.id (l + 1))
      = some f := by
    obtain ⟨f, leaves, at_next⟩ := route.next_of_gateway at_j kind
    rw [← Option.isSome_iff_exists, List.find?_isSome]
    exact ⟨f, leaves,
      (h.appears_iff consistent route at_j kind one within here gone leaves).mpr at_next⟩
  have leaves := List.mem_of_find?_eq_some taken
  have appears := List.find?_some taken
  refine ⟨f, leaves, ?_,
    (h.appears_iff consistent route at_j kind one within here gone leaves).mp appears⟩
  have first : t.firstTaken? l (d.outgoing e) = some f := by
    obtain ⟨more, size⟩ : ∃ more, t.size - (l + 1) = more + 1 := ⟨t.size - (l + 1) - 1, by omega⟩
    rw [Trace.firstTaken?, size, List.range'_succ, List.findSome?_cons, taken]
  have held := h.exit_of_reached consistent route at_j one within here gone
  simp only [Trace.branch?, found, first, held, Option.bind_eq_bind, Option.bind_some]
  rfl

theorem reached_le_length (h : Recorded path reached t) {i : Nat} (one : 1 ≤ i) (within : i < t.size) :
    reached i ≤ path.length :=
  Nat.le_trans (h.reached_le one (by omega : i ≤ t.size - 1) (by omega))
    (h.last (t.size - 1) (by omega) (by omega)).1

theorem gateway_left (h : Recorded path reached t) {i : Nat} {e : Element} (one : 1 ≤ i)
    (within : i < t.size) (here : path[reached i]? = some e) (kind : e.kind = .exclusiveGateway) :
    ∃ k, i ≤ k ∧ k < t.size ∧ reached i < reached k := by
  refine ⟨t.size - 1, by omega, by omega, Nat.lt_of_le_of_ne ?_ ?_⟩
  · exact h.reached_le one (by omega) (by omega)
  · intro same
    exact (h.last (t.size - 1) (by omega) (by omega)).2 e (same ▸ here) kind

/-! ## Elements and triggers -/

theorem mem_elementIds (h : Recorded path reached t) {i j : Nat} {e : Element} (one : 1 ≤ i)
    (within : i < t.size) (at_j : path[j]? = some e) (near : j ≤ reached i) :
    e.id ∈ t.elementIds := by
  obtain ⟨s, at_i, same⟩ := h.marked i one within
  rw [Trace.mem_elementIds]
  exact ⟨s, List.mem_of_getElem? at_i, stage (reached i) j,
    same.mem_iff.mpr (mem_marks.mpr ⟨j, e, at_j, near, rfl, rfl⟩)⟩

theorem contains_of_mem_elementIds (consistent : d.Consistent) (route : Route d start path done)
    (h : Recorded path reached t) {id : String} (named : id ∈ t.elementIds) :
    d.contains id = true := by
  obtain ⟨s, inside, status, marked⟩ := Trace.mem_elementIds.mp named
  obtain ⟨i, at_i⟩ := List.mem_iff_getElem?.mp inside
  by_cases first : i = 0
  · subst first
    obtain ⟨s', at_0, empty⟩ := h.empty
    rw [Option.some.inj (at_i.symm.trans at_0), empty] at marked
    cases marked
  · have within : i < t.size := (List.getElem?_eq_some_iff.mp at_i).1
    obtain ⟨s', at_i', same⟩ := h.marked i (by omega) within
    rw [Option.some.inj (at_i.symm.trans at_i')] at marked
    obtain ⟨j, e, at_j, _, rfl, _⟩ := mem_marks.mp (same.mem_iff.mp marked)
    rw [Diagram.contains,
      consistent.find?_node (route.mem_nodes consistent (List.mem_of_getElem? at_j))]
    rfl

end Recorded

theorem Trigger.action?_eq {kind : ElementKind} (plain : kind = .task ∨ kind = .exclusiveGateway)
    (before after : Status) : Trigger.action? kind before after
      = if before = .active ∧ after = .completed then some .complete else none := by
  rcases plain with rfl | rfl
  · cases before <;> cases after <;> rfl
  · cases before <;> cases after <;> rfl

namespace Recorded

/-- What a mark of a snapshot triggers, given how far the token had come before. -/
def trigger? (d : Diagram) (before : Snapshot) (mark : String × Status) : Option Trigger := do
  let e ← d.find? mark.1
  let action ← Trigger.action? e.kind (before.status mark.1) mark.2
  return ⟨e, action⟩

theorem trigger?_eq (consistent : d.Consistent) (route : Route d start path done) {before : Snapshot}
    {j : Nat} {e : Element} (at_j : path[j]? = some e) (status : Status) :
    trigger? d before (e.id, status)
      = if before.status e.id = .active ∧ status = .completed then some ⟨e, .complete⟩ else none := by
  have inside := List.mem_of_getElem? at_j
  have plain : e.kind = .task ∨ e.kind = .exclusiveGateway :=
    (route.kinds e inside).imp (·.1) (·.1)
  simp only [trigger?, consistent.find?_node (route.mem_nodes consistent inside),
    Trigger.action?_eq plain, Option.bind_eq_bind, Option.bind_some]
  split <;> rfl

theorem ofStep_perm (h : Recorded path reached t) {i : Nat} {before : Snapshot}
    (at_i : t.snapshots[i]? = some before) (within : i + 1 < t.size) :
    (Trigger.ofStep d t i).Perm ((marks path (reached (i + 1))).filterMap (trigger? d before)) := by
  obtain ⟨after, at_next, same⟩ := h.marked (i + 1) (by omega) within
  simp only [Trigger.ofStep, at_i, at_next]
  exact (Sorting.sort_perm _ _).trans (same.filterMap _)

theorem ofStep_of_stays (consistent : d.Consistent) (route : Route d start path done)
    (h : Recorded path reached t) {i : Nat} (within : i + 1 < t.size)
    (stays : i = 0 ∨ reached (i + 1) = reached i) : Trigger.ofStep d t i = [] := by
  obtain ⟨before, at_i⟩ : ∃ before, t.snapshots[i]? = some before :=
    ⟨_, List.getElem?_eq_getElem (Nat.lt_of_succ_lt within)⟩
  rw [← List.perm_nil]
  refine (h.ofStep_perm at_i within).trans (.of_eq ?_)
  rw [List.filterMap_eq_nil_iff]
  intro mark inside
  obtain ⟨id, status⟩ := mark
  obtain ⟨j, e, at_j, near, rfl, rfl⟩ := mem_marks.mp inside
  rw [trigger?_eq consistent route at_j, if_neg]
  intro both
  have now : t.status i e.id = .active := by
    rw [Trace.status, at_i]
    exact both.1
  rw [stage_eq_completed] at both
  by_cases first : i = 0
  · subst first
    rw [h.status_zero] at now
    cases now
  · rw [h.status_of_path consistent route (by omega) (by omega) at_j, stage_eq_active] at now
    omega

theorem ofStep_of_goes (consistent : d.Consistent) (route : Route d start path done)
    (h : Recorded path reached t) {i : Nat} (one : 1 ≤ i) (within : i + 1 < t.size)
    (goes : reached (i + 1) = reached i + 1) {e : Element} (here : path[reached i]? = some e) :
    Trigger.ofStep d t i = [⟨e, .complete⟩] := by
  obtain ⟨before, at_i⟩ : ∃ before, t.snapshots[i]? = some before :=
    ⟨_, List.getElem?_eq_getElem (Nat.lt_of_succ_lt within)⟩
  have status : ∀ (j : Nat) (b : Element), path[j]? = some b →
      before.status b.id = stage (reached i) j := by
    intro j b at_j
    rw [← h.status_of_path consistent route one (by omega) at_j, Trace.status, at_i]
    rfl
  rw [← List.perm_singleton]
  refine (h.ofStep_perm at_i within).trans (.of_eq ?_)
  have parts : marks path (reached (i + 1)) = (path.take (reached i)).map (fun b => (b.id, .completed))
      ++ (e.id, .completed) :: (path[reached i + 1]?).toList.map fun b => (b.id, .active) := by
    rw [marks, goes, List.take_add_one, here, List.map_append, List.append_assoc]
    rfl
  have passed : ((path.take (reached i)).map fun b => (b.id, Status.completed)).filterMap
      (trigger? d before) = [] := by
    rw [List.filterMap_eq_nil_iff]
    intro mark inside
    obtain ⟨b, taken, rfl⟩ := List.mem_map.mp inside
    obtain ⟨j, at_j⟩ := List.mem_iff_getElem?.mp taken
    rw [List.getElem?_take] at at_j
    split at at_j
    next earlier =>
        rw [trigger?_eq consistent route at_j, status j b at_j, if_neg]
        rw [stage_eq_active]
        omega
    next => cases at_j
  have ahead : ((path[reached i + 1]?).toList.map fun b => (b.id, Status.active)).filterMap
      (trigger? d before) = [] := by
    rw [List.filterMap_eq_nil_iff]
    intro mark inside
    obtain ⟨b, next, rfl⟩ := List.mem_map.mp inside
    rw [trigger?_eq consistent route (Option.mem_toList.mp next), if_neg]
    exact fun both => Status.noConfusion both.2
  have own : trigger? d before (e.id, .completed) = some ⟨e, .complete⟩ := by
    rw [trigger?_eq consistent route here, status _ e here, if_pos]
    exact ⟨stage_eq_active.mpr rfl, rfl⟩
  rw [parts, List.filterMap_append, passed, List.nil_append, List.filterMap_cons_some own, ahead]

end Recorded
end ProcessDiagram
