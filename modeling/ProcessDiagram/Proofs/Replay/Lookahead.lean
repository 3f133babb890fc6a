import ProcessDiagram.Replay.Call
import ProcessDiagram.Proofs.Diagram.Built
import ProcessDiagram.Proofs.Replay.Snapshots
import Mathlib.Data.Nat.Init

/-!
How a replay sets the elements of its diagram. The look-ahead finds where a gateway is left next, and
until then its branch stays the same. A reset lets the activities of the trace wait; the look-ahead of
a step then sets the gateways for which the trace has a branch, and no other element.
-/
namespace ProcessDiagram

namespace Trace

variable {t : Trace} {d : Diagram} {id : String} {i : Nat}

/-- The element is left in the step from a place to the next. -/
def leaves (t : Trace) (id : String) (i : Nat) : Bool :=
  t.releases id i || t.passes id i

theorem nextExit?_succ (stays : t.leaves id i = false) :
    t.nextExit? id (i + 1) = t.nextExit? id i := by
  rw [nextExit?, nextExit?]
  cases left : t.size - 1 - i with
  | zero =>
      have none : t.size - 1 - (i + 1) = 0 := by omega
      rw [none]
      rfl
  | succ n =>
      have fewer : t.size - 1 - (i + 1) = n := by omega
      rw [leaves] at stays
      rw [fewer, List.range'_succ, List.find?_cons, stays]

/-- Until a gateway is left, its branch stays the same. -/
theorem branch?_of_stays {gateway : Element} {j : Nat} (later : i ≤ j)
    (stays : ∀ k, i ≤ k → k < j → t.leaves gateway.id k = false) :
    t.branch? d gateway j = t.branch? d gateway i := by
  induction j, later using Nat.le_induction with
  | base => rfl
  | succ j later ih =>
      rw [← ih fun k from_ before => stays k from_ (Nat.lt_succ_of_lt before), branch?, branch?,
        nextExit?_succ (stays j later (Nat.lt_succ_self j))]

theorem nextExit?_eq_some_iff {k : Nat} : t.nextExit? id i = some k ↔
    t.leaves id k = true ∧ (i ≤ k ∧ k + 1 < t.size) ∧
      ∀ j, i ≤ j → j < k → t.leaves id j = false := by
  have within : k ∈ List.range' i (t.size - 1 - i) ↔ i ≤ k ∧ k + 1 < t.size := by
    rw [List.mem_range'_1]
    omega
  rw [nextExit?, List.find?_range'_eq_some, within]
  simp only [leaves, Bool.not_eq_true']

theorem status_of_stays {j : Nat} (later : i ≤ j) (active : t.status i id = .active)
    (stays : ∀ k, i ≤ k → k < j → t.leaves id k = false) : t.status j id = .active := by
  induction j, later using Nat.le_induction with
  | base => exact active
  | succ j later ih =>
      have here := ih fun k from_ before => stays k from_ (Nat.lt_succ_of_lt before)
      have stay := stays j later (Nat.lt_succ_self j)
      simpa [leaves, releases, here] using (Bool.or_eq_false_iff.mp stay).1

theorem releases_of_nextExit? {k : Nat} (marked : t.status (i + 1) id = .active)
    (exit : t.nextExit? id i = some k) : t.releases id k = true := by
  obtain ⟨left, ⟨from_, _⟩, stays⟩ := nextExit?_eq_some_iff.mp exit
  have later : i + 1 ≤ k := by
    rcases Nat.eq_or_lt_of_le from_ with here | later
    · subst here
      simp [leaves, releases, passes, marked] at left
    · exact later
  have active := status_of_stays later marked fun j after before =>
    stays j (Nat.le_of_succ_le after) before
  simpa [leaves, releases, passes, active] using left

/-- The branch is read at the next exit, and waits where a token is held until then. -/
theorem branch?_eq_some_iff {gateway : Element} {branch : Branch} :
    t.branch? d gateway i = some branch ↔ ∃ k, t.nextExit? gateway.id i = some k ∧
      t.firstTaken? k (d.outgoing gateway) = some branch.flow ∧
        branch.wait = t.releases gateway.id k := by
  simp only [branch?, bind, Option.bind_eq_some_iff, pure, Option.some.injEq]
  constructor
  · intro ⟨k, exit, flow, first, same⟩
    subst same
    exact ⟨k, exit, first, rfl⟩
  · intro ⟨k, exit, first, wait⟩
    exact ⟨k, exit, branch.flow, first, by rw [← wait]⟩

theorem wait_of_branch? {gateway : Element} {branch : Branch}
    (marked : t.status (i + 1) gateway.id = .active)
    (taken : t.branch? d gateway i = some branch) : branch.wait = true := by
  obtain ⟨k, exit, _, wait⟩ := branch?_eq_some_iff.mp taken
  exact wait.trans (releases_of_nextExit? marked exit)

end Trace

namespace ConfigStore

theorem get_setWait (c : ConfigStore) (e other : Element) :
    (c.setWait e).get other
      = { c.get other with wait := (c.get other).wait || e.id == other.id } := by
  rw [setWait, get_set]
  by_cases same : other.id = e.id
  · have one : c.get e = c.get other := by rw [get, get, same]
    simp [same, one]
  · rw [if_neg same, beq_eq_false_iff_ne.mpr (Ne.symm same), Bool.or_false]

theorem get_foldl_setWait (elements : List Element) (c : ConfigStore) (e : Element) :
    (elements.foldl setWait c).get e
      = { c.get e with wait := (c.get e).wait || elements.any (·.id == e.id) } := by
  induction elements generalizing c with
  | nil => simp
  | cons first rest ih =>
      rw [List.foldl_cons, ih, get_setWait]
      simp [Bool.or_assoc]

end ConfigStore

namespace ReplayPlan

variable (p : ReplayPlan)

theorem locked_startConfig (e : Element) : (p.startConfig.get e).locked = false := by
  rw [startConfig, ConfigStore.get_foldl_setWait]
  rfl

theorem wait_startConfig {e : Element} (found : p.diagram.find? e.id = some e)
    (named : e.id ∈ p.trace.elementIds) (activity : e.kind.isActivity = true) :
    (p.startConfig.get e).wait = true := by
  have chosen : e ∈ (p.trace.elementIds.filterMap p.diagram.find?).filter (·.kind.isActivity) :=
    List.mem_filter.mpr ⟨List.mem_filterMap.mpr ⟨e.id, named, found⟩, activity⟩
  rw [startConfig, ConfigStore.get_foldl_setWait]
  simp only [Bool.or_eq_true, List.any_eq_true, beq_iff_eq]
  exact .inr ⟨e, chosen, rfl⟩

/-- Just the activities of the trace hold their tokens. -/
theorem wait_startConfig_iff (consistent : p.diagram.Consistent) {e : Element}
    (known : e ∈ p.diagram.root :: p.diagram.nodes) : (p.startConfig.get e).wait = true ↔
      e.kind.isActivity = true ∧ e.id ∈ p.trace.elementIds := by
  constructor
  · intro wait
    rw [startConfig, ConfigStore.get_foldl_setWait] at wait
    simp only [Bool.or_eq_true, List.any_eq_true, beq_iff_eq] at wait
    obtain unset | ⟨x, chosen, same⟩ := wait
    · cases unset
    · obtain ⟨found, activity⟩ := List.mem_filter.mp chosen
      obtain ⟨id, named, found⟩ := List.mem_filterMap.mp found
      have own := Diagram.id_of_find? found
      have there := List.mem_cons.mpr (Diagram.Consistent.of_find? found)
      obtain rfl := consistent.eq_of_id_of_known there known same
      exact ⟨activity, own ▸ named⟩
  · intro ⟨activity, named⟩
    refine p.wait_startConfig ?_ named activity
    cases List.mem_cons.mp known with
    | inl root => exact root ▸ Diagram.Consistent.find?_root p.diagram
    | inr node => exact consistent.find?_node node

theorem startConfig_gateway (consistent : p.diagram.Consistent) {g : Element}
    (node : g ∈ p.diagram.nodes) (kind : g.kind = .exclusiveGateway) :
    p.startConfig.get g = .default := by
  have waitless : (p.startConfig.get g).wait = false := by
    rw [← Bool.not_eq_true, p.wait_startConfig_iff consistent (List.mem_cons_of_mem _ node), kind]
    exact fun activity => absurd activity.1 (by decide)
  have only : p.startConfig.get g = ⟨(p.startConfig.get g).wait, false, none⟩ := by
    rw [startConfig, ConfigStore.get_foldl_setWait]
    rfl
  rw [only, waitless]
  rfl

end ReplayPlan

namespace Replay

variable {p : ReplayPlan} {start : Nat} {c : ConfigStore}

theorem get_configureGateway_of_ne {gateway e : Element} (other : e.id ≠ gateway.id) :
    (configureGateway p start c gateway).get e = c.get e := by
  rw [configureGateway]
  split
  · rw [ConfigStore.get_set, if_neg other]
  · split
    · rw [ConfigStore.unlock, ConfigStore.get_set, if_neg other]
    · rfl

/-- What the look-ahead makes of a gateway's configuration. -/
def tuned (p : ReplayPlan) (start : Nat) (gateway : Element) (old : ElementConfig) :
    ElementConfig :=
  match p.trace.branch? p.diagram gateway start with
  | some branch => ⟨branch.wait, true, some branch.flow⟩
  | none => if old.locked then .default else old

theorem get_configureGateway_self (gateway : Element) :
    (configureGateway p start c gateway).get gateway = tuned p start gateway (c.get gateway) := by
  rw [configureGateway, tuned]
  cases p.trace.branch? p.diagram gateway start with
  | some branch => exact (ConfigStore.get_set ..).trans (if_pos rfl)
  | none =>
      simp only
      split
      · exact (ConfigStore.get_set ..).trans (if_pos rfl)
      · rfl

theorem configureGateway_of_none {gateway : Element} (unlocked : (c.get gateway).locked = false)
    (none : p.trace.branch? p.diagram gateway start = none) :
    configureGateway p start c gateway = c := by
  rw [configureGateway, none]
  simp only [unlocked, Bool.false_eq_true, if_false]

theorem get_foldl_configureGateway_of_unmet (gateways : List Element) {e : Element}
    (unlocked : (c.get e).locked = false)
    (unmet : ∀ g ∈ gateways, g.id = e.id → p.trace.branch? p.diagram g start = none) :
    (gateways.foldl (configureGateway p start) c).get e = c.get e := by
  induction gateways generalizing c with
  | nil => rfl
  | cons g rest ih =>
      have later := fun g' hg' => unmet g' (List.mem_cons_of_mem g hg')
      rw [List.foldl_cons]
      by_cases same : g.id = e.id
      · have one : c.get g = c.get e := by rw [ConfigStore.get, ConfigStore.get, same]
        rw [configureGateway_of_none (one ▸ unlocked) (unmet g List.mem_cons_self same)]
        exact ih unlocked later
      · have kept : (configureGateway p start c g).get e = c.get e :=
          get_configureGateway_of_ne (Ne.symm same)
        rw [ih (kept ▸ unlocked) later, kept]

theorem get_foldl_configureGateway_of_ne (gateways : List Element) {e : Element}
    (other : ∀ g ∈ gateways, e.id ≠ g.id) :
    (gateways.foldl (configureGateway p start) c).get e = c.get e := by
  induction gateways generalizing c with
  | nil => rfl
  | cons g rest ih =>
      rw [List.foldl_cons, ih fun g' hg' => other g' (List.mem_cons_of_mem g hg'),
        get_configureGateway_of_ne (other g List.mem_cons_self)]

theorem get_foldl_configureGateway (gateways : List Element) {gateway : Element}
    (distinct : gateways.Nodup) (alone : ∀ g ∈ gateways, g.id = gateway.id → g = gateway)
    (inside : gateway ∈ gateways) :
    (gateways.foldl (configureGateway p start) c).get gateway
      = tuned p start gateway (c.get gateway) := by
  induction gateways generalizing c with
  | nil => cases inside
  | cons g rest ih =>
      obtain ⟨first, distinct⟩ := List.nodup_cons.mp distinct
      have later := fun g' hg' => alone g' (List.mem_cons_of_mem g hg')
      rw [List.foldl_cons]
      cases List.mem_cons.mp inside with
      | inl here =>
          subst here
          have others : ∀ g' ∈ rest, gateway.id ≠ g'.id := by
            intro g' hg' same
            exact first (later g' hg' same.symm ▸ hg')
          rw [get_foldl_configureGateway_of_ne rest others, get_configureGateway_self]
      | inr inside =>
          have other : gateway.id ≠ g.id := by
            intro same
            exact first (alone g List.mem_cons_self same.symm ▸ inside)
          rw [ih distinct later inside, get_configureGateway_of_ne other]

variable (p) (r : Replay)

theorem get_configureGateways (consistent : p.diagram.Consistent) {gateway : Element}
    (node : gateway ∈ p.diagram.nodes) (kind : gateway.kind = .exclusiveGateway) :
    (r.configureGateways p start).session.config.get gateway
      = tuned p start gateway (r.session.config.get gateway) := by
  apply get_foldl_configureGateway _ (consistent.nodes_nodup.filter _)
  · intro g hg same
    exact consistent.eq_of_id (List.mem_filter.mp hg).1 node same
  · exact List.mem_filter.mpr ⟨node, by simp [kind]⟩

/-- The look-ahead sets a gateway for the branch that the trace takes there. -/
theorem get_configureGateways_of_branch (consistent : p.diagram.Consistent) {gateway : Element}
    (node : gateway ∈ p.diagram.nodes) (kind : gateway.kind = .exclusiveGateway) {branch : Branch}
    (taken : p.trace.branch? p.diagram gateway start = some branch) :
    (r.configureGateways p start).session.config.get gateway
      = ⟨branch.wait, true, some branch.flow⟩ := by
  rw [get_configureGateways p r consistent node kind, tuned, taken]

theorem get_configureGateways_of_known (consistent : p.diagram.Consistent) {e : Element}
    (known : e ∈ p.diagram.root :: p.diagram.nodes) (kind : e.kind ≠ .exclusiveGateway) :
    (r.configureGateways p start).session.config.get e = r.session.config.get e := by
  apply get_foldl_configureGateway_of_ne
  intro g hg same
  obtain ⟨inside, gateway⟩ := List.mem_filter.mp hg
  rw [consistent.eq_of_id_of_known known (List.mem_cons_of_mem _ inside) same] at kind
  exact kind (by simpa using gateway)

theorem get_configureGateways_of_kind (consistent : p.diagram.Consistent) {e : Element}
    (node : e ∈ p.diagram.nodes) (kind : e.kind ≠ .exclusiveGateway) :
    (r.configureGateways p start).session.config.get e = r.session.config.get e :=
  get_configureGateways_of_known p r consistent (List.mem_cons_of_mem _ node) kind

end Replay

namespace Diagram

/-- A process with a task before a choice between two. -/
def review : Diagram :=
  let start := forkNode "s" .startEvent
  let first := forkNode "t" .task
  let split := forkNode "g" .exclusiveGateway
  let left := forkNode "a" .task
  let right := forkNode "b" .task
  let done := forkNode "e" .endEvent
  ⟨⟨"p", .process, "", none, .zero⟩, [start, first, split, left, right, done],
    [⟨"Flow_1", start, first⟩, ⟨"Flow_2", first, split⟩, ⟨"Flow_3", split, left⟩,
      ⟨"Flow_4", split, right⟩, ⟨"Flow_5", left, done⟩, ⟨"Flow_6", right, done⟩]⟩

theorem built_review : review.Built :=
  built_of_grow rfl (by decide +kernel)

end Diagram
end ProcessDiagram
