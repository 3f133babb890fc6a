import ProcessDiagram.Diagram.Structure
import ProcessDiagram.Proofs.Diagram.Nearest

/-!
Where the branches of a split converge, on diagrams with and without cycles. The search for the join
is decided by which common gateways lead to which; the order in which the diagram was put together
plays no part in it, apart from the order of candidates. Main statement: `Built.joining`.
-/
namespace ProcessDiagram

/-- The elements that a flow connects, whatever its id is. -/
def Flow.ends (f : Flow) : Element × Element :=
  (f.source, f.target)

namespace Diagram

variable {d d' : Diagram} {split e : Element}

/-- A gateway that every branch of a split leads to. -/
def Common (d : Diagram) (split e : Element) : Prop :=
  e ∈ d.nodes ∧ (e.kind = .exclusiveGateway ∨ e.kind = .parallelGateway) ∧
    ∀ f ∈ d.flows, f.source.id = split.id → d.Leads f.target.id e.id

/-- A common gateway that leads to every common gateway. -/
def First (d : Diagram) (split e : Element) : Prop :=
  d.Common split e ∧ ∀ c, d.Common split c → d.Leads e.id c.id

/-- A split closes at the only common gateway that leads to all of them. -/
def ClosesAt (d : Diagram) (split join : Element) : Prop :=
  d.First split join ∧ ∀ e, d.First split e → e = join

/-- Some flow leaves the element. -/
def Branches (d : Diagram) (split : Element) : Prop :=
  ∃ f ∈ d.flows, f.source.id = split.id

/-- Flows that are followed one after another. -/
inductive Walk (d : Diagram) : String → List Flow → String → Prop
  | nil (a : String) : Walk d a [] a
  | cons {f : Flow} {rest : List Flow} {b : String} :
      f ∈ d.flows → Walk d f.target.id rest b → Walk d f.source.id (f :: rest) b

/-- One cycle goes through all the elements. -/
def OnCycle (d : Diagram) (elements : List Element) : Prop :=
  ∃ a cycle, d.Walk a cycle a ∧ cycle ≠ [] ∧ ∀ e ∈ elements, ∃ f ∈ cycle, f.source.id = e.id

/-- The same elements and flows, added in another order; the ids of the flows may differ. -/
structure Rearranged (d d' : Diagram) : Prop where
  nodes : d.nodes.Perm d'.nodes
  flows : (d.flows.map Flow.ends).Perm (d'.flows.map Flow.ends)

/-- The candidates of an ambiguous join may be listed in another order. -/
inductive AlikeJoins :
    Except StructuralError (Option Element) → Except StructuralError (Option Element) → Prop
  | found (join : Option Element) : AlikeJoins (.ok join) (.ok join)
  | ambiguous {split : String} {candidates others : List String} : candidates.Perm others →
      AlikeJoins (.error (.ambiguousJoin split candidates)) (.error (.ambiguousJoin split others))

/-- What the search for the join of a split comes to. -/
structure Joining (d : Diagram) (split : Element) : Prop where
  none_iff : (d.resolveJoin split).value = .ok none ↔
    ¬ d.Branches split ∨ ∀ e, ¬ d.Common split e
  some_iff : ∀ join, (d.resolveJoin split).value = .ok (some join) ↔
    d.Branches split ∧ d.ClosesAt split join
  /-- In every other case the candidates are shown, in the order of the diagram. -/
  ambiguous : d.Branches split → (∃ e, d.Common split e) → (∀ join, ¬ d.ClosesAt split join) →
    ∃ candidates : List Element, candidates.Sublist d.nodes ∧
      (d.resolveJoin split).value
        = .error (.ambiguousJoin split.id (candidates.map (·.id))) ∧
      ((∃ e, d.First split e) →
        (∀ e, e ∈ candidates ↔ d.First split e) ∧ d.OnCycle candidates) ∧
      ((¬ ∃ e, d.First split e) → ∀ e, e ∈ candidates ↔ d.Common split e)

/-! ## Cycles -/

theorem Walk.append {a b c : String} {way onward : List Flow} (h : d.Walk a way b)
    (k : d.Walk b onward c) : d.Walk a (way ++ onward) c := by
  induction h with
  | nil => exact k
  | cons hf _ ih => exact .cons hf (ih k)

theorem Walk.exists_first {a b : String} {way : List Flow} (h : d.Walk a way b) :
    way = [] ∧ a = b ∨ ∃ f ∈ way, f.source.id = a := by
  cases h with
  | nil => exact .inl ⟨rfl, rfl⟩
  | cons => exact .inr ⟨_, List.mem_cons_self, rfl⟩

theorem Leads.exists_walk {a b : String} (h : d.Leads a b) : ∃ way, d.Walk a way b := by
  induction h with
  | refl => exact ⟨[], .nil a⟩
  | step f _ hf source ih =>
      obtain ⟨way, walk⟩ := ih
      subst source
      exact ⟨way ++ [f], walk.append (.cons hf (.nil _))⟩

/-- From one element there and back, to each of the others in turn. -/
theorem exists_round {a : String} (elements : List Element)
    (onward : ∀ e ∈ elements, d.Leads a e.id) (back : ∀ e ∈ elements, d.Leads e.id a) :
    ∃ cycle, d.Walk a cycle a ∧
      ∀ e ∈ elements, e.id ≠ a → ∃ f ∈ cycle, f.source.id = e.id := by
  induction elements with
  | nil => exact ⟨[], .nil a, fun e he => absurd he List.not_mem_nil⟩
  | cons e rest ih =>
      obtain ⟨cycle, closed, through⟩ := ih (fun c hc => onward c (List.mem_cons_of_mem _ hc))
        fun c hc => back c (List.mem_cons_of_mem _ hc)
      obtain ⟨there, outward⟩ := (onward e List.mem_cons_self).exists_walk
      obtain ⟨home, homeward⟩ := (back e List.mem_cons_self).exists_walk
      refine ⟨there ++ (home ++ cycle), outward.append (homeward.append closed), ?_⟩
      intro c hc other
      cases List.mem_cons.mp hc with
      | inl here =>
          subst here
          obtain ⟨_, same⟩ | ⟨f, hf, source⟩ := homeward.exists_first
          · exact absurd same other
          · exact ⟨f, List.mem_append_right _ (List.mem_append_left _ hf), source⟩
      | inr later =>
          obtain ⟨f, hf, source⟩ := through c later other
          exact ⟨f, List.mem_append_right _ (List.mem_append_right _ hf), source⟩

/-- Several elements that lead to each other are on one cycle. -/
theorem onCycle_of_leads {elements : List Element} (distinct : (elements.map (·.id)).Nodup)
    (several : 2 ≤ elements.length)
    (each : ∀ a ∈ elements, ∀ b ∈ elements, d.Leads a.id b.id) : d.OnCycle elements := by
  match elements with
  | a :: b :: rest =>
      have first : a ∈ a :: b :: rest := List.mem_cons_self
      obtain ⟨cycle, closed, through⟩ := exists_round (a := a.id) (a :: b :: rest)
        (fun e he => each a first e he) fun e he => each e he a first
      have apart : b.id ≠ a.id := by
        simp only [List.map_cons, List.nodup_cons, List.mem_cons, not_or] at distinct
        exact Ne.symm distinct.1.1
      obtain ⟨f, hf, _⟩ := through b (List.mem_cons_of_mem _ List.mem_cons_self) apart
      have moves : cycle ≠ [] := List.ne_nil_of_mem hf
      refine ⟨a.id, cycle, closed, moves, ?_⟩
      intro e he
      by_cases same : e.id = a.id
      · rw [same]
        exact closed.exists_first.resolve_left fun none => moves none.1
      · exact through e he same

/-! ## The search -/

theorem branches_iff : d.Branches split ↔ d.outgoing split ≠ [] := by
  constructor
  · intro h
    obtain ⟨f, hf, source⟩ := h
    exact List.ne_nil_of_mem (mem_outgoing.mpr ⟨hf, source⟩)
  · intro h
    obtain ⟨f, hf⟩ := List.exists_mem_of_ne_nil _ h
    obtain ⟨hf, source⟩ := mem_outgoing.mp hf
    exact ⟨f, hf, source⟩

theorem isGateway_iff (kind : ElementKind) :
    kind.isGateway = true ↔ kind = .exclusiveGateway ∨ kind = .parallelGateway := by
  cases kind <;> decide

theorem mem_commonGateways_iff : e ∈ d.commonGateways split ↔ d.Common split e := by
  simp only [mem_commonGateways, Common, isGateway_iff, mem_outgoing, and_imp]

theorem mem_nearestOf_iff : e ∈ d.nearestOf (d.commonGateways split) ↔ d.First split e := by
  simp only [mem_nearestOf, mem_commonGateways_iff, First]

/-- The cases of the search, by the candidates and those of them that are nearest. -/
inductive Searched (d : Diagram) (split : Element) : JoinSearch → Prop
  | noBranch : ¬ d.Branches split → Searched d split .noBranch
  | noGateway : d.Branches split → d.commonGateways split = [] → Searched d split .noGateway
  | closesAt {join : Element} : d.Branches split →
      d.nearestOf (d.commonGateways split) = [join] → Searched d split (.closesAt join)
  | crossing : d.Branches split → d.commonGateways split ≠ [] →
      d.nearestOf (d.commonGateways split) = [] →
      Searched d split (.ambiguous (d.commonGateways split))
  | circling : d.Branches split → 2 ≤ (d.nearestOf (d.commonGateways split)).length →
      Searched d split (.ambiguous (d.nearestOf (d.commonGateways split)))

theorem searched_findJoin (d : Diagram) (split : Element) :
    d.Searched split (d.findJoin split) := by
  rw [findJoin]
  by_cases branches : d.Branches split
  · rw [if_neg (by simpa using branches_iff.mp branches)]
    by_cases none : d.commonGateways split = []
    · simp only [none, List.isEmpty_nil, if_true]
      exact .noGateway branches none
    · simp only [List.isEmpty_iff, none, if_false]
      split
      next join one => exact .closesAt branches one
      next crossed => exact .crossing branches none crossed
      next other empty =>
          refine .circling branches ?_
          cases nearest : d.nearestOf (d.commonGateways split) with
          | nil => exact absurd nearest empty
          | cons first rest =>
              cases rest with
              | nil => exact absurd nearest (other first)
              | cons _ _ => exact Nat.le_add_left ..
  · rw [if_pos (by simpa [branches_iff] using branches)]
    exact .noBranch branches

theorem nearestOf_eq_singleton_iff (distinct : d.nodes.Nodup) {join : Element} :
    d.nearestOf (d.commonGateways split) = [join] ↔ d.ClosesAt split join := by
  have nodup : (d.nearestOf (d.commonGateways split)).Nodup := (distinct.filter _).filter _
  rw [← List.perm_singleton, List.perm_ext_iff_of_nodup nodup (List.nodup_singleton join)]
  simp only [mem_nearestOf_iff, List.mem_singleton, ClosesAt]
  constructor
  · intro h
    exact ⟨(h join).mpr rfl, fun e => (h e).mp⟩
  · rintro ⟨first, unique⟩ e
    exact ⟨unique e, fun same => same ▸ first⟩

theorem commonGateways_eq_nil_iff : d.commonGateways split = [] ↔ ∀ e, ¬ d.Common split e := by
  simp only [List.eq_nil_iff_forall_not_mem, mem_commonGateways_iff]

theorem nearestOf_eq_nil_iff :
    d.nearestOf (d.commonGateways split) = [] ↔ ¬ ∃ e, d.First split e := by
  simp only [List.eq_nil_iff_forall_not_mem, mem_nearestOf_iff, not_exists]

theorem value_resolveJoin (d : Diagram) (split : Element) :
    (d.resolveJoin split).value = match d.findJoin split with
      | .closesAt join => .ok (some join)
      | .noBranch | .noGateway => .ok none
      | .ambiguous candidates => .error (.ambiguousJoin split.id (candidates.map (·.id))) := rfl

/-- The outcome rests on the ids being distinct. -/
theorem joining_of_distinct (distinct : (d.nodes.map (·.id)).Nodup) (split : Element) :
    d.Joining split := by
  have ordered : (d.commonGateways split).Sublist d.nodes := List.filter_sublist
  have closesAt : ∀ join, d.nearestOf (d.commonGateways split) = [join] ↔ d.ClosesAt split join :=
    fun _ => nearestOf_eq_singleton_iff (.of_map _ distinct)
  have some : d.commonGateways split ≠ [] ↔ ∃ e, d.Common split e := by
    rw [ne_eq, commonGateways_eq_nil_iff, not_forall_not]
  have within : ∀ e, d.First split e → d.Common split e := fun _ first => first.1
  have value := value_resolveJoin d split
  have searched := searched_findJoin d split
  generalize d.findJoin split = found at value searched
  cases searched with
  | noBranch leafless =>
      refine ⟨by simp [value, leafless], by simp [value, leafless], ?_⟩
      exact fun branches => absurd branches leafless
  | noGateway branches none =>
      have never := commonGateways_eq_nil_iff.mp none
      refine ⟨by simp [value, never], ?_, fun _ ⟨e, common⟩ => absurd common (never e)⟩
      simp only [value, Except.ok.injEq, reduceCtorEq, false_iff, not_and]
      exact fun join _ closes => never join (within join closes.1)
  | @closesAt join branches one =>
      have closes := (closesAt join).mp one
      have common : ∃ e, d.Common split e := ⟨join, within join closes.1⟩
      refine ⟨?_, ?_, fun _ _ other => absurd closes (other join)⟩
      · simpa [value, branches] using common
      · intro other
        simp only [value, Except.ok.injEq, Option.some.injEq, branches, true_and]
        exact ⟨fun same => same ▸ closes, fun also => also.2 join closes.1⟩
  | crossing branches gateways crossed =>
      have none := nearestOf_eq_nil_iff.mp crossed
      have common := some.mp gateways
      refine ⟨?_, ?_, fun _ _ _ => ⟨_, ordered, value, fun first => absurd first none,
        fun _ e => mem_commonGateways_iff⟩⟩
      · simpa [value, branches] using common
      · simp only [value, reduceCtorEq, false_iff, not_and]
        exact fun join _ closes => none ⟨join, closes.1⟩
  | circling branches several =>
      have ⟨first, member⟩ := List.exists_mem_of_length_pos (Nat.lt_of_lt_of_le Nat.two_pos several)
      have there := mem_nearestOf_iff.mp member
      have common : ∃ e, d.Common split e := ⟨first, within first there⟩
      have cycle : d.OnCycle (d.nearestOf (d.commonGateways split)) := by
        have nearest : (d.nearestOf (d.commonGateways split)).Sublist d.nodes :=
          List.filter_sublist.trans ordered
        refine onCycle_of_leads (distinct.sublist (nearest.map _)) several ?_
        intro a ha b hb
        exact (mem_nearestOf_iff.mp ha).2 b (within b (mem_nearestOf_iff.mp hb))
      refine ⟨?_, ?_, fun _ _ _ => ⟨_, List.filter_sublist.trans ordered, value,
        fun _ => ⟨fun e => mem_nearestOf_iff, cycle⟩, fun none => absurd ⟨first, there⟩ none⟩⟩
      · simpa [value, branches] using common
      · simp only [value, reduceCtorEq, false_iff, not_and]
        intro join _ closes
        rw [(closesAt join).mpr closes] at several
        rw [List.length_singleton] at several
        omega

/-! ## Order -/

theorem Leads.of_ends (within : d.flows.map Flow.ends ⊆ d'.flows.map Flow.ends) {a b : String}
    (h : d.Leads a b) : d'.Leads a b := by
  induction h with
  | refl => exact .refl _
  | step f _ hf source ih =>
      obtain ⟨g, hg, same⟩ := List.mem_map.mp (within (List.mem_map_of_mem hf))
      obtain ⟨sources, targets⟩ := Prod.mk.inj same
      rw [← targets]
      exact .step g ih hg (sources ▸ source)

namespace Rearranged

theorem leads_iff (h : d.Rearranged d') {a b : String} : d.Leads a b ↔ d'.Leads a b :=
  ⟨.of_ends h.flows.subset, .of_ends h.flows.symm.subset⟩

theorem forall_flows (h : d.Rearranged d') (P : Element × Element → Prop) :
    (∀ f ∈ d.flows, P f.ends) ↔ ∀ f ∈ d'.flows, P f.ends := by
  rw [← List.forall_mem_map (f := Flow.ends), ← List.forall_mem_map (f := Flow.ends)]
  simp only [h.flows.mem_iff]

theorem branches_iff (h : d.Rearranged d') : d.Branches split ↔ d'.Branches split := by
  have same := h.forall_flows fun ends => ends.1.id ≠ split.id
  rw [← not_iff_not]
  simpa [Branches, Flow.ends] using same

theorem common_iff (h : d.Rearranged d') : d.Common split e ↔ d'.Common split e := by
  have same := h.forall_flows fun ends => ends.1.id = split.id → d.Leads ends.2.id e.id
  simp only [Common, h.nodes.mem_iff, ← h.leads_iff]
  exact and_congr_right fun _ => and_congr_right fun _ => same

theorem first_iff (h : d.Rearranged d') : d.First split e ↔ d'.First split e := by
  simp only [First, h.common_iff, h.leads_iff]

theorem closesAt_iff (h : d.Rearranged d') : d.ClosesAt split e ↔ d'.ClosesAt split e := by
  simp only [ClosesAt, h.first_iff]

end Rearranged

/-- On every diagram the join of a split is the nearest common gateway of its branches, however the
diagram was put together. -/
theorem Built.joining (built : d.Built) (split : Element) :
    d.Joining split ∧ ∀ d', d.Rearranged d' →
      AlikeJoins (d.resolveJoin split).value (d'.resolveJoin split).value := by
  have distinct : (d.nodes.map (·.id)).Nodup := by
    have ids := built.consistent.ids
    rw [List.map_cons, List.nodup_cons] at ids
    exact ids.2
  have here := joining_of_distinct distinct split
  refine ⟨here, ?_⟩
  intro d' same
  have there := joining_of_distinct ((same.nodes.map _).nodup_iff.mp distinct) split
  by_cases apart : ¬ d.Branches split ∨ ∀ e, ¬ d.Common split e
  · rw [here.none_iff.mpr apart, there.none_iff.mpr]
    · exact .found none
    · simpa only [same.branches_iff, same.common_iff] using apart
  rw [not_or, not_not, not_forall_not] at apart
  obtain ⟨branches, common⟩ := apart
  by_cases closes : ∃ join, d.ClosesAt split join
  · obtain ⟨join, closes⟩ := closes
    rw [(here.some_iff join).mpr ⟨branches, closes⟩, (there.some_iff join).mpr]
    · exact .found join
    · exact ⟨same.branches_iff.mp branches, same.closesAt_iff.mp closes⟩
  · rw [not_exists] at closes
    obtain ⟨candidates, ordered, shown, first, all⟩ := here.ambiguous branches common closes
    obtain ⟨others, ordered', shown', first', all'⟩ := there.ambiguous
      (same.branches_iff.mp branches) (by simpa only [same.common_iff] using common)
      (by simpa only [same.closesAt_iff] using closes)
    have nodup : d.nodes.Nodup := .of_map _ distinct
    have members : ∀ e, e ∈ candidates ↔ e ∈ others := by
      intro e
      by_cases nearest : ∃ e, d.First split e
      · rw [(first nearest).1 e, (first' (by simpa only [same.first_iff] using nearest)).1 e,
          same.first_iff]
      · rw [all nearest e, all' (by simpa only [same.first_iff] using nearest) e, same.common_iff]
    rw [shown, shown']
    refine .ambiguous (List.Perm.map _ ?_)
    exact (List.perm_ext_iff_of_nodup (nodup.sublist ordered)
      ((same.nodes.nodup_iff.mp nodup).sublist ordered')).mpr members

/-- A split whose branches meet at two gateways, which send a token to each other. -/
def roundabout : Diagram :=
  let start := forkNode "s" .startEvent
  let split := forkNode "g" .exclusiveGateway
  let left := forkNode "a" .task
  let right := forkNode "b" .task
  let entry := forkNode "x" .exclusiveGateway
  let leaving := forkNode "y" .exclusiveGateway
  let done := forkNode "e" .endEvent
  ⟨⟨"p", .process, "", none, .zero⟩, [start, split, left, right, entry, leaving, done],
    [⟨"Flow_1", start, split⟩, ⟨"Flow_2", split, left⟩, ⟨"Flow_3", split, right⟩,
      ⟨"Flow_4", left, entry⟩, ⟨"Flow_5", right, entry⟩, ⟨"Flow_6", entry, leaving⟩,
      ⟨"Flow_7", leaving, entry⟩, ⟨"Flow_8", leaving, done⟩]⟩

/-- The same diagram, put together from its end. -/
def roundabout.reversed : Diagram :=
  ⟨roundabout.root, roundabout.nodes.reverse,
    roundabout.flows.reverse.mapIdx fun i f => { f with id := "Flow_" ++ toString (i + 1) }⟩

theorem built_roundabout : roundabout.Built :=
  built_of_grow rfl (by decide +kernel)

theorem rearranged_roundabout : roundabout.Rearranged roundabout.reversed := by
  refine ⟨(List.reverse_perm _).symm, ?_⟩
  have ends : roundabout.reversed.flows.map Flow.ends
      = (roundabout.flows.map Flow.ends).reverse := by decide +kernel
  rw [ends]
  exact (List.reverse_perm _).symm

theorem joining_roundabout :
    roundabout.Joining (forkNode "g" .exclusiveGateway) ∧
      (roundabout.resolveJoin (forkNode "g" .exclusiveGateway)).value
        = .error (.ambiguousJoin "g" ["x", "y"]) ∧
      (roundabout.reversed.resolveJoin (forkNode "g" .exclusiveGateway)).value
        = .error (.ambiguousJoin "g" ["y", "x"]) ∧
      AlikeJoins (roundabout.resolveJoin (forkNode "g" .exclusiveGateway)).value
        (roundabout.reversed.resolveJoin (forkNode "g" .exclusiveGateway)).value := by
  obtain ⟨joining, alike⟩ := built_roundabout.joining (forkNode "g" .exclusiveGateway)
  exact ⟨joining, by decide +kernel, by decide +kernel, alike _ rearranged_roundabout⟩

end Diagram
end ProcessDiagram
