import ProcessDiagram.Proofs.Simulation.Inputs

/-!
Tokens are conserved. A count for every flow says how often a token went along it; what enters an
element has come along its incoming flows, and what goes along its outgoing flows has left it. Main
statement: `exists_accounts`.
-/
namespace ProcessDiagram

theorem sum_map_count {known : List Flow} (distinct : known.Nodup) (flows : List Flow) :
    (known.map fun f => flows.count f).sum = flows.countP fun f => known.contains f := by
  induction flows with
  | nil => simp
  | cons g rest ih =>
      have one : (known.map fun f => if g == f then 1 else 0).sum
          = if known.contains g then 1 else 0 := by
        by_cases there : g ∈ known
        · simpa [there] using sum_map_single there distinct fun _ => 1
        · rw [if_neg (by simpa using there)]
          apply List.sum_eq_zero
          intro n hn
          obtain ⟨f, hf, rfl⟩ := List.mem_map.mp hn
          exact if_neg fun same => there (by simpa using beq_iff_eq.mp same ▸ hf)
      simp only [List.count_cons, List.countP_cons, List.sum_map_add, ih, one]

/-- Every scope is of an element of the diagram. -/
def Scopes.Known (d : Diagram) (scopes : Scopes) : Prop :=
  ∀ x ∈ scopes, x.element ∈ d.root :: d.nodes

namespace Scopes.Known

variable {d : Diagram} {scopes : Scopes}

theorem modify (h : scopes.Known d) (i : Nat) {f : Scope → Scope}
    (same : ∀ x, (f x).element = x.element) : Known d (scopes.modify i f) := by
  intro y hy
  obtain ⟨j, hj⟩ := List.mem_iff_getElem?.mp hy
  rw [List.getElem?_modify] at hj
  obtain ⟨x, hx, rfl⟩ := Option.map_eq_some_iff.mp hj
  have before := h x (List.mem_of_getElem? hx)
  split
  · exact (same x).symm ▸ before
  · exact before

theorem destroyAll (h : scopes.Known d) (tokens : List Nat) : Known d (scopes.destroyAll tokens) := by
  induction tokens generalizing scopes with
  | nil => exact h
  | cons i rest ih => exact ih (h.modify i fun _ => rfl)

theorem enterAll (h : scopes.Known d) {elements : List Element}
    (inside : ∀ e ∈ elements, e ∈ d.root :: d.nodes) (parent : Option Nat) :
    (scopes.enterAll elements parent).Known d := by
  intro x hx
  rw [Scopes.enterAll, List.mem_append, List.mem_map] at hx
  cases hx with
  | inl old => exact h x old
  | inr new =>
      obtain ⟨e, he, rfl⟩ := new
      exact inside e he

end Scopes.Known

namespace Diagram

variable {d : Diagram} {c : ConfigStore} {e : Element} {flows : List Flow}

theorem nodup_outgoing (consistent : d.Consistent) (e : Element) : (d.outgoing e).Nodup :=
  (grouped_perm _ _).nodup_iff.mpr (consistent.flows_nodup.filter _)

theorem nodup_incoming (consistent : d.Consistent) (e : Element) : (d.incoming e).Nodup :=
  (grouped_perm _ _).nodup_iff.mpr (consistent.flows_nodup.filter _)

theorem sent_exclusive (kind : e.kind = .exclusiveGateway) (sent : d.sent c e = some flows) :
    ∃ f ∈ d.outgoing e, flows = [f] := by
  simp only [Diagram.sent, kind] at sent
  split at sent
  next f only =>
      cases sent
      exact ⟨f, only ▸ List.mem_singleton_self f, rfl⟩
  next =>
      obtain ⟨f, found, rfl⟩ := Option.map_eq_some_iff.mp sent
      exact ⟨f, List.mem_of_find?_eq_some found, rfl⟩

theorem sent_none (stalls : d.sent c e = none) : e.kind = .exclusiveGateway := by
  rw [Diagram.sent] at stalls
  split at stalls <;> first | assumption | cases stalls

theorem length_outgoing_of_sent_none (stalls : d.sent c e = none) : (d.outgoing e).length ≠ 1 := by
  intro single
  obtain ⟨f, only⟩ := List.length_eq_one_iff.mp single
  rw [Diagram.sent, sent_none stalls] at stalls
  simp only [only] at stalls
  cases stalls

theorem sent_ended (kind : e.kind = .endEvent ∨ e.kind = .process ∨ e.kind = .participant) :
    d.sent c e = some [] := by
  obtain kind | kind | kind := kind <;> rw [Diagram.sent, kind]

theorem sent_all (notEnd : e.kind ≠ .endEvent) (notProcess : e.kind ≠ .process)
    (notParticipant : e.kind ≠ .participant) (notGateway : e.kind ≠ .exclusiveGateway) :
    d.sent c e = some (d.outgoing e) := by
  rw [Diagram.sent]
  split <;> first | contradiction | rfl

theorem sent_subset (sent : d.sent c e = some flows) : flows ⊆ d.outgoing e := by
  by_cases gateway : e.kind = .exclusiveGateway
  · obtain ⟨f, leaves, rfl⟩ := sent_exclusive gateway sent
    exact List.cons_subset.mpr ⟨leaves, List.nil_subset _⟩
  · by_cases ended : e.kind = .endEvent ∨ e.kind = .process ∨ e.kind = .participant
    · rw [sent_ended ended] at sent
      cases sent
      exact List.nil_subset _
    · rw [not_or, not_or] at ended
      rw [sent_all ended.1 ended.2.1 ended.2.2 gateway] at sent
      cases sent
      exact List.Subset.refl _

section Count

variable {e' : Element} {f : Flow}

theorem count_sent_other (consistent : d.Consistent) (he : e ∈ d.root :: d.nodes)
    (he' : e' ∈ d.root :: d.nodes) (apart : e ≠ e') (sent : d.sent c e = some flows)
    (hf : f ∈ d.outgoing e') : flows.count f = 0 := by
  apply List.count_eq_zero.mpr
  intro taken
  have source := (mem_outgoing.mp (sent_subset sent taken)).2
  have source' := (mem_outgoing.mp hf).2
  exact apart (consistent.eq_of_id_of_known he he' (source.symm.trans source'))

theorem count_sent_ended (consistent : d.Consistent) (he : e ∈ d.root :: d.nodes)
    (he' : e' ∈ d.root :: d.nodes) (kind : e'.kind = .endEvent ∨ e'.kind = .process)
    (sent : d.sent c e = some flows) (hf : f ∈ d.outgoing e') : flows.count f = 0 := by
  by_cases same : e = e'
  · subst same
    rw [sent_ended (kind.imp_right .inl)] at sent
    cases sent
    rfl
  · exact count_sent_other consistent he he' same sent hf

theorem sum_count_sent_exclusive (consistent : d.Consistent) (he : e ∈ d.root :: d.nodes)
    (he' : e' ∈ d.root :: d.nodes) (kind : e'.kind = .exclusiveGateway)
    (sent : d.sent c e = some flows) :
    ((d.outgoing e').map fun f => flows.count f).sum = if e = e' then 1 else 0 := by
  by_cases same : e = e'
  · subst same
    obtain ⟨f, hf, rfl⟩ := sent_exclusive kind sent
    rw [sum_map_count (nodup_outgoing consistent _)]
    simp [hf]
  · rw [if_neg same]
    apply List.sum_eq_zero
    intro n hn
    obtain ⟨f, hf, rfl⟩ := List.mem_map.mp hn
    exact count_sent_other consistent he he' same sent hf

theorem count_sent_all (consistent : d.Consistent) (he : e ∈ d.root :: d.nodes)
    (he' : e' ∈ d.root :: d.nodes) (notEnd : e'.kind ≠ .endEvent) (notProcess : e'.kind ≠ .process)
    (notParticipant : e'.kind ≠ .participant) (notGateway : e'.kind ≠ .exclusiveGateway)
    (sent : d.sent c e = some flows) (hf : f ∈ d.outgoing e') :
    flows.count f = if e = e' then 1 else 0 := by
  by_cases same : e = e'
  · subst same
    rw [sent_all notEnd notProcess notParticipant notGateway] at sent
    cases sent
    rw [if_pos rfl, List.count_eq_one_of_mem (nodup_outgoing consistent _) hf]
  · rw [if_neg same, count_sent_other consistent he he' same sent hf]

end Count

end Diagram

namespace Simulation

variable {d : Diagram} {c : ConfigStore} {s s' : Simulation} {i : Nat} {x : Scope}
  {fired : Flow → Nat}

theorem Change.happened {scopes : Scopes} {added : List Task} {counts : List (String × Nat)}
    {told : List Event} (change : Change s s' scopes added counts told) (kind : EventKind)
    (id : String) : s'.happened kind id
      = s.happened kind id + told.countP fun ev => ev.kind == kind && ev.element == id := by
  rw [Simulation.happened, change.events, List.countP_append]
  rfl

theorem countP_entering (flows : List Flow) (first : Nat) (id : String) :
    (entering flows first).countP (fun ev => ev.kind == .enter && ev.element == id)
      = flows.countP fun f => f.target.id == id := by
  have values : (flows.zipIdx first).map (·.1) = flows := List.zipIdx_map_fst first flows
  rw [entering, List.countP_map, ← values, List.countP_map, values]
  rfl

theorem countP_entering_of_ne (flows : List Flow) (first : Nat) {kind : EventKind}
    (other : kind ≠ .enter) (id : String) :
    (entering flows first).countP (fun ev => ev.kind == kind && ev.element == id) = 0 := by
  rw [entering, List.countP_map, List.countP_eq_zero]
  intro entry _
  simp [Ne.symm other]

/-- Every token is accounted for; a scope that exits is still to send its tokens. -/
structure Accounts (d : Diagram) (fired : Flow → Nat) (s : Simulation) : Prop where
  known : s.scopes.Known d
  entered : ∀ e ∈ d.root :: d.nodes, e.kind ≠ .startEvent → e.kind ≠ .process →
    e.kind ≠ .participant → s.happened .enter e.id = ((d.incoming e).map fired).sum
  ended : ∀ e ∈ d.root :: d.nodes, e.kind = .endEvent ∨ e.kind = .process →
    ∀ f ∈ d.outgoing e, fired f = 0
  chosen : ∀ e ∈ d.root :: d.nodes, e.kind = .exclusiveGateway →
    ((d.outgoing e).map fired).sum + s.happened .stall e.id + s.scopes.exiting e
      = s.exitCount e.id
  sent : ∀ e ∈ d.root :: d.nodes, e.kind ≠ .endEvent → e.kind ≠ .process →
    e.kind ≠ .participant → e.kind ≠ .exclusiveGateway →
      ∀ f ∈ d.outgoing e, fired f + s.scopes.exiting e = s.exitCount e.id

namespace Accounts

/-- Exits are as many more as scopes that exit, and nothing went along a flow. -/
theorem transfer (h : Accounts d fired s) (known : s'.scopes.Known d)
    (entered : ∀ e ∈ d.root :: d.nodes, e.kind ≠ .startEvent → e.kind ≠ .process →
      e.kind ≠ .participant → s'.happened .enter e.id = s.happened .enter e.id)
    (stalled : ∀ id, s'.happened .stall id = s.happened .stall id)
    (left : ∀ e ∈ d.root :: d.nodes,
      s'.exitCount e.id + s.scopes.exiting e = s.exitCount e.id + s'.scopes.exiting e) :
    Accounts d fired s' := by
  refine ⟨known, ?_, h.ended, ?_, ?_⟩
  · intro e he notStart notProcess notParticipant
    rw [entered e he notStart notProcess notParticipant]
    exact h.entered e he notStart notProcess notParticipant
  · intro e he kind
    have before := h.chosen e he kind
    have more := left e he
    rw [stalled]
    omega
  · intro e he notEnd notProcess notParticipant notGateway f hf
    have before := h.sent e he notEnd notProcess notParticipant notGateway f hf
    have more := left e he
    omega

theorem exitCount_left (consistent : d.Consistent) (known : s.scopes.Known d)
    (ready : Ready s.scopes i x) (counts : s'.exitCounts = countUp x.element.id s.exitCounts)
    (scopes : s'.scopes = s.scopes.modify i Scope.leave) :
    ∀ e ∈ d.root :: d.nodes,
      s'.exitCount e.id + s.scopes.exiting e = s.exitCount e.id + s'.scopes.exiting e := by
  intro e he
  have own : x.element.id = e.id ↔ x.element = e :=
    ⟨consistent.eq_of_id_of_known (known x (List.mem_of_getElem? ready.found)) he,
      congrArg Element.id⟩
  have more := Scopes.exiting_modify ready.found (f := Scope.leave) rfl e
  simp only [ready.live, ready.entered, Scope.leave, and_true, and_false, if_false,
    reduceCtorEq] at more
  rw [exitCount, exitCount, counts, lookup_countUp, scopes]
  simp only [own]
  omega

/-- A token that goes on is accounted for, wherever it goes. -/
theorem proceeds (consistent : d.Consistent) (h : Accounts d fired s) (ready : Ready s.scopes i x)
    {o : Outcome} (starts : ∀ first, o = .starts first → first ∈ d.nodes ∧ first.kind = .startEvent)
    (proceeds : Proceeds s i x o s') : Accounts d fired s' := by
  cases proceeds with
  | waits change =>
      apply h.transfer
      · rw [change.scopes]
        exact h.known.modify i fun _ => rfl
      · intro e _ _ _ _
        simp [change.happened]
      · intro id
        simp [change.happened]
      · intro e _
        have same := Scopes.exiting_modify ready.found (f := Scope.suspend) rfl e
        simp [ready.entered, Scope.suspend] at same
        rw [exitCount, exitCount, change.exitCounts, change.scopes, same]
  | leaves change =>
      apply h.transfer
      · rw [change.scopes]
        exact h.known.modify i fun _ => rfl
      · intro e _ _ _ _
        simp [change.happened]
      · intro id
        simp [change.happened]
      · exact exitCount_left consistent h.known ready change.exitCounts change.scopes
  | @starts _ first change =>
      obtain ⟨node, kind⟩ := starts first rfl
      have inside : first ∈ d.root :: d.nodes := List.mem_cons_of_mem _ node
      apply h.transfer
      · rw [change.scopes]
        exact h.known.enterAll (List.forall_mem_singleton.mpr inside) (some i)
      · intro e he notStart _ _
        have other : first.id ≠ e.id := by
          intro same
          rw [consistent.eq_of_id_of_known inside he same] at kind
          exact notStart kind
        simp [change.happened, other]
      · intro id
        simp [change.happened]
      · intro e _
        have same : (s.scopes.enterAll [first] (some i)).exiting e = s.scopes.exiting e :=
          Scopes.exiting_enterAll [first] (some i) e
        rw [exitCount, exitCount, change.exitCounts, change.scopes]
        exact congrArg _ same.symm

/-- Merged tokens have not gone along a flow. -/
theorem gathers (h : Accounts d fired s) {p : Nat} {tokens : List Nat}
    (gathers : Gathers d s i x p tokens s') : Accounts d fired s' := by
  have quiet : ∀ (kind : EventKind) (id : String), kind ≠ .merge →
      s'.happened kind id = s.happened kind id := by
    intro kind id other
    rw [gathers.change.happened, List.countP_map, List.countP_eq_zero.mpr, Nat.add_zero]
    intro j _
    simp [Ne.symm other]
  apply h.transfer
  · rw [gathers.change.scopes]
    exact h.known.destroyAll tokens
  · intro e _ _ _ _
    exact quiet _ _ (by decide)
  · intro id
    exact quiet _ _ (by decide)
  · intro e _
    have same := (Scopes.counts_destroyAll tokens (List.nodup_cons.mp gathers.distinct).2 (by
      intro j hj
      obtain ⟨y, hy, own, live, entered, _⟩ := gathers.alike j hj
      exact ⟨y, hy, own, live, entered⟩) e).2.2
    rw [exitCount, exitCount, gathers.change.exitCounts, gathers.change.scopes, same]

theorem exiting_departs (exiting : Exiting s.scopes i x) (elements : List Element)
    (parent : Option Nat) (e : Element) : s.scopes.exiting e
      = Scopes.exiting ((s.scopes.enterAll elements parent).modify i Scope.destroy) e
        + if x.element = e then 1 else 0 := by
  have there : (s.scopes.enterAll elements parent)[i]? = some x := by
    rw [Scopes.enterAll,
      List.getElem?_append_left (List.getElem?_eq_some_iff.mp exiting.found).1]
    exact exiting.found
  have less := Scopes.exiting_modify there (f := Scope.destroy) rfl e
  rw [Scopes.exiting_enterAll] at less
  simpa [Scope.destroy, exiting.live, exiting.exited] using less.symm

theorem sends (consistent : d.Consistent) (h : Accounts d fired s)
    (exiting : Exiting s.scopes i x) {flows : List Flow} (sent : d.sent c x.element = some flows)
    (change : Change s s'
      ((s.scopes.enterAll (flows.map (·.target)) x.parent).modify i Scope.destroy)
      ((List.range' s.scopes.length flows.length).map .enter) s.exitCounts
      (entering flows s.scopes.length)) :
    Accounts d (fun f => fired f + flows.count f) s' := by
  have here : x.element ∈ d.root :: d.nodes := h.known x (List.mem_of_getElem? exiting.found)
  have leave := Diagram.sent_subset sent
  have fewer := exiting_departs exiting (flows.map (·.target)) x.parent
  rw [← change.scopes] at fewer
  have counts : ∀ id, s'.exitCount id = s.exitCount id := by
    intro id
    rw [exitCount, exitCount, change.exitCounts]
  refine ⟨?_, ?_, ?_, ?_, ?_⟩
  · rw [change.scopes]
    refine (h.known.enterAll ?_ x.parent).modify i fun _ => rfl
    intro e he
    obtain ⟨f, hf, rfl⟩ := List.mem_map.mp he
    exact List.mem_cons_of_mem _ (consistent.target f (Diagram.mem_outgoing.mp (leave hf)).1)
  · intro e he notStart notProcess notParticipant
    have arrived : (flows.countP fun f => (d.incoming e).contains f)
        = flows.countP fun f => f.target.id == e.id := by
      apply List.countP_congr
      intro f hf
      simp [Diagram.mem_incoming, (Diagram.mem_outgoing.mp (leave hf)).1]
    rw [change.happened, countP_entering, h.entered e he notStart notProcess notParticipant,
      List.sum_map_add, sum_map_count (Diagram.nodup_incoming consistent e), arrived]
  · intro e he kind f hf
    rw [h.ended e he kind f hf, Nat.zero_add]
    exact Diagram.count_sent_ended consistent here he kind sent hf
  · intro e he kind
    have before := h.chosen e he kind
    have less := fewer e
    have went := Diagram.sum_count_sent_exclusive consistent here he kind sent
    rw [List.sum_map_add, went, counts, change.happened,
      countP_entering_of_ne _ _ (by decide)]
    omega
  · intro e he notEnd notProcess notParticipant notGateway f hf
    have before := h.sent e he notEnd notProcess notParticipant notGateway f hf
    have less := fewer e
    have went := Diagram.count_sent_all consistent here he notEnd notProcess notParticipant
      notGateway sent hf
    rw [counts]
    omega

theorem stalls (consistent : d.Consistent) (h : Accounts d fired s)
    (exiting : Exiting s.scopes i x) (kind : x.element.kind = .exclusiveGateway)
    (change : Change s s' (s.scopes.modify i Scope.destroy) [] s.exitCounts
      [⟨.stall, x.element.id, i⟩]) : Accounts d fired s' := by
  have here : x.element ∈ d.root :: d.nodes := h.known x (List.mem_of_getElem? exiting.found)
  have fewer := exiting_departs exiting [] none
  rw [Scopes.enterAll, List.map_nil, List.append_nil, ← change.scopes] at fewer
  have counts : ∀ id, s'.exitCount id = s.exitCount id := by
    intro id
    rw [exitCount, exitCount, change.exitCounts]
  refine ⟨?_, ?_, h.ended, ?_, ?_⟩
  · rw [change.scopes]
    exact h.known.modify i fun _ => rfl
  · intro e he notStart notProcess notParticipant
    rw [← h.entered e he notStart notProcess notParticipant]
    simp [change.happened]
  · intro e he gateway
    have before := h.chosen e he gateway
    have less := fewer e
    have own : x.element.id = e.id ↔ x.element = e :=
      ⟨consistent.eq_of_id_of_known here he, congrArg Element.id⟩
    rw [counts, change.happened]
    simp [own]
    omega
  · intro e he notEnd notProcess notParticipant notGateway f hf
    have before := h.sent e he notEnd notProcess notParticipant notGateway f hf
    have less := fewer e
    have apart : x.element ≠ e := fun same => notGateway (same ▸ kind)
    rw [if_neg apart] at less
    rw [counts]
    omega

theorem departs (consistent : d.Consistent) (h : Accounts d fired s)
    (exiting : Exiting s.scopes i x) (departs : Departs d c s i x s') :
    ∃ fired', Accounts d fired' s' := by
  cases departs with
  | sends sent change => exact ⟨_, h.sends consistent exiting sent change⟩
  | stalls sent change => exact ⟨_, h.stalls consistent exiting (Diagram.sent_none sent) change⟩

theorem turn (consistent : d.Consistent) (h : Accounts d fired s) {t : Task}
    (turn : Turn d c s t s') : ∃ fired', Accounts d fired' s' := by
  cases turn with
  | rests change =>
      refine ⟨fired, h.transfer (change.scopes ▸ h.known) ?_ ?_ ?_⟩
      · intro e _ _ _ _
        rw [change.happened]
        rfl
      · intro id
        rw [change.happened]
        rfl
      · intro e _
        rw [exitCount, exitCount, change.exitCounts, change.scopes]
  | arrives _ _ _ _ gathers ready proceeds =>
      exact ⟨fired, (h.gathers gathers).proceeds consistent ready
        (fun _ starts => (Diagram.of_passed_starts (Diagram.passed_of_outcome starts)).2) proceeds⟩
  | departs exiting departs => exact h.departs consistent exiting departs
  | closes exiting departs _ _ _ ready proceeds =>
      obtain ⟨fired', left⟩ := h.departs consistent exiting departs
      refine ⟨fired', left.proceeds consistent ready ?_ proceeds⟩
      intro _ starts
      cases starts

theorem resumes (consistent : d.Consistent) (h : Accounts d fired s) {s₁ : Simulation}
    (resumes : Resumes d s i x s₁ s') (waiting : x.state = .waiting) : Accounts d fired s' := by
  have change := resumes.change
  have resumed : Accounts d fired s₁ := by
    apply h.transfer
    · rw [change.scopes]
      exact h.known.modify i fun _ => rfl
    · intro e _ _ _ _
      simp [change.happened]
    · intro id
      simp [change.happened]
    · intro e _
      have same := Scopes.exiting_modify resumes.found (f := Scope.resume) rfl e
      simp [waiting, Scope.resume] at same
      rw [exitCount, exitCount, change.exitCounts, change.scopes, same]
  exact resumed.proceeds consistent resumes.ready
    (fun _ starts => (Diagram.of_passed_starts starts).2) resumes.proceeds

theorem create (consistent : d.Consistent) (h : Accounts d fired s) {e : Element}
    (known : e ∈ d.root :: d.nodes)
    (kind : e.kind = .startEvent ∨ e.kind = .process ∨ e.kind = .participant) {parent : Option Nat}
    {added : List Task} (change : Change s s' (s.scopes ++ [Scope.enter e parent]) added
      s.exitCounts [⟨.enter, e.id, s.scopes.length⟩]) : Accounts d fired s' := by
  apply h.transfer
  · rw [change.scopes]
    exact h.known.enterAll (List.forall_mem_singleton.mpr known) parent
  · intro e' he' notStart notProcess notParticipant
    have other : e.id ≠ e'.id := by
      intro same
      rw [consistent.eq_of_id_of_known known he' same] at kind
      simp [notStart, notProcess, notParticipant] at kind
    simp [change.happened, other]
  · intro id
    simp [change.happened]
  · intro e' _
    have same : (s.scopes.enterAll [e] parent).exiting e' = s.scopes.exiting e' :=
      Scopes.exiting_enterAll [e] parent e'
    rw [exitCount, exitCount, change.exitCounts, change.scopes]
    exact congrArg _ same.symm

theorem opens (consistent : d.Consistent) (h : Accounts d fired s) {e : Element} (node : e ∈ d.nodes)
    (kind : e.kind = .startEvent) (opens : Opens d s e s') : Accounts d fired s' := by
  have known : e ∈ d.root :: d.nodes := List.mem_cons_of_mem _ node
  cases opens with
  | inside _ _ _ change => exact h.create consistent known (.inl kind) change
  | below inside top made change =>
      exact (h.create consistent inside (.inr top) made).create consistent known (.inl kind) change

theorem empty (d : Diagram) : Accounts d (fun _ => 0) .empty := by
  have none : ∀ flows : List Flow, (flows.map fun _ => 0).sum = 0 := by simp
  refine ⟨by simp [Scopes.Known, Simulation.empty], ?_, ?_, ?_, ?_⟩
  · intro e _ _ _ _
    rw [none]
    rfl
  · intro e _ _ f _
    rfl
  · intro e _ _
    rw [none]
    rfl
  · intro e _ _ _ _ _ f _
    rfl

end Accounts

theorem persists_accounts (consistent : d.Consistent) :
    Persists d fun s => ∃ fired, Accounts d fired s := by
  constructor
  case empty => exact ⟨_, .empty d⟩
  case agenda =>
    intro s tasks accounts
    obtain ⟨fired, h⟩ := accounts
    exact ⟨fired, h.known, h.entered, h.ended, h.chosen, h.sent⟩
  case turn =>
    intro c s t s' _ turn accounts
    obtain ⟨fired, h⟩ := accounts
    exact h.turn consistent turn
  case resumes =>
    intro s i x s₁ s' sound resumes accounts
    obtain ⟨fired, h⟩ := accounts
    have proper := sound.formed.proper i x resumes.found
    exact ⟨fired, h.resumes consistent resumes (proper.pending.mp resumes.pending)⟩
  case opens =>
    intro s e s' node kind opens accounts
    obtain ⟨fired, h⟩ := accounts
    exact ⟨fired, h.opens consistent node kind opens⟩

end Simulation
end ProcessDiagram
