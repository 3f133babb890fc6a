import Mathlib
import ProcessDiagram.Proofs.Compilation.Compiled
import ProcessDiagram.Proofs.Compilation.Growth
import ProcessDiagram.Proofs.Diagram.Paths

/-!
Compilation keeps the sequences of work: those that can be read off the region tree are those
met along the maximal paths. A branch of a split is a segment up to the join, and the join
stands no later than the stop of the walk around it.
-/
namespace ProcessDiagram

namespace Diagram

/-- The ids of the tasks and subprocesses on a path. -/
def works (path : List Element) : List String :=
  (path.filter (·.kind.isActivity)).map (·.id)

theorem works_append (first rest : List Element) :
    works (first ++ rest) = works first ++ works rest := by
  rw [works, List.filter_append, List.map_append]
  rfl

theorem works_cons_of_work {e : Element} (h : e.kind.isActivity = true) (path : List Element) :
    works (e :: path) = e.id :: works path := by
  simp [works, h]

theorem works_cons_of_not_work {e : Element} (h : ¬ e.kind.isActivity = true)
    (path : List Element) : works (e :: path) = works path := by
  simp [works, h]

/-- Elements other than gateways have at most one outgoing flow, and end events none. -/
structure SingleExits (d : Diagram) : Prop where
  single : ∀ e ∈ d.nodes, e.kind.isGateway = false → (d.outgoing e).length ≤ 1
  ends : ∀ e ∈ d.nodes, e.kind = .endEvent → d.outgoing e = []

/-- Whatever goes on from a split within reach of the start passes the join found for it. -/
def JoinsPassed (d : Diagram) (start : Element) : Prop :=
  ∀ split ∈ d.nodes, split.kind.isGateway = true → 1 < (d.outgoing split).length →
    d.Leads start.id split.id → ∀ join, d.findJoin split = .closesAt join → d.Passes split join

end Diagram

namespace Compilation

variable {d : Diagram}

theorem length_outgoing_le_one (exits : d.SingleExits) {e : Element} (he : e ∈ d.nodes)
    (role : roleOf d e ≠ .split) : (d.outgoing e).length ≤ 1 := by
  by_cases gateway : e.kind.isGateway = true
  · by_cases one : (d.outgoing e).length ≤ 1
    · exact one
    · exact absurd (role_of_gateway gateway (by omega)) role
  · exact exits.single e he (by simpa using gateway)

/-- The stop of a walk, where there is one, is a gateway that the walk has to pass. -/
def StopAhead (d : Diagram) (stop : Option String) (e : Element) : Prop :=
  ∀ id, stop = some id →
    ∃ j ∈ d.nodes, j.id = id ∧ j.kind.isGateway = true ∧ d.Passes e j

theorem StopAhead.step {stop : Option String} {e : Element} {f : Flow}
    (h : StopAhead d stop e) (going : some e.id ≠ stop) (hf : f ∈ d.outgoing e) :
    StopAhead d stop f.target := by
  intro id here
  obtain ⟨j, hj, rfl, gateway, passes⟩ := h id here
  refine ⟨j, hj, rfl, gateway, passes.step ?_ hf⟩
  intro same
  exact going (same ▸ here.symm)

/-- A walk can be read off the segments from an element. -/
def Reads (d : Diagram) (native? : Int → Option String) (stop : Option String)
    (current : Option Element) (items : List Region) : Prop :=
  ∀ seq, seq ∈ Region.rowSequences native? items ↔
    ∃ path, d.SegmentFrom stop current path ∧ Diagram.works path = seq

/-- Branches can be read off the segments from the flows into them. -/
def ReadsEach (d : Diagram) (native? : Int → Option String) (join : Element) (flows : List Flow)
    (children : List Region) : Prop :=
  ∀ seq, seq ∈ Region.anySequence native? children ↔ ∃ f ∈ flows,
    ∃ path, d.Segment (some join.id) f.target path ∧ Diagram.works path = seq

theorem Reads.finished {native? : Int → Option String} {stop : Option String} :
    Reads d native? stop none [] := by
  intro seq
  rw [Region.rowSequences, List.mem_singleton]
  constructor
  · intro same
    exact ⟨[], rfl, same.symm⟩
  · intro h
    obtain ⟨path, none, rfl⟩ := h
    rw [show path = [] from none]
    rfl

theorem ReadsEach.nil {native? : Int → Option String} {join : Element} :
    ReadsEach d native? join [] [] := by
  intro seq
  simp [Region.anySequence]

theorem ReadsEach.cons {native? : Int → Option String} {join : Element} {f : Flow}
    {rest : List Flow} {items others : List Region} {child : Region}
    (first : Reads d native? (some join.id) (some f.target) items)
    (folded : Region.sequences native? child = Region.rowSequences native? items)
    (later : ReadsEach d native? join rest others) :
    ReadsEach d native? join (f :: rest) (child :: others) := by
  intro seq
  rw [Region.anySequence, List.mem_append, folded, first seq, later seq]
  simp only [List.mem_cons, exists_eq_or_imp]
  rfl

theorem segment_works_iff_of_single {stop : Option String} {e : Element}
    (single : (d.outgoing e).length ≤ 1) (going : some e.id ≠ stop) (seq : List String) :
    (∃ path, d.Segment stop e path ∧ Diagram.works path = seq) ↔
      ∃ rest, d.SegmentFrom stop (d.successor? e) rest ∧ Diagram.works (e :: rest) = seq := by
  constructor
  · intro h
    obtain ⟨path, segment, reads⟩ := h
    obtain ⟨rest, rfl, onward⟩ := (Diagram.segment_iff_of_single single going).mp segment
    exact ⟨rest, onward, reads⟩
  · intro h
    obtain ⟨rest, onward, reads⟩ := h
    exact ⟨e :: rest, (Diagram.segment_iff_of_single single going).mpr ⟨rest, rfl, onward⟩, reads⟩

theorem Reads.pass {native? : Int → Option String} {stop : Option String} {e : Element}
    {items : List Region} (h : Reads d native? stop (d.successor? e) items)
    (single : (d.outgoing e).length ≤ 1) (going : some e.id ≠ stop)
    (idle : ¬ e.kind.isActivity = true) : Reads d native? stop (some e) items := by
  intro seq
  rw [h seq]
  apply Iff.symm
  apply (segment_works_iff_of_single single going seq).trans
  simp only [Diagram.works_cons_of_not_work idle]

theorem Reads.work {native? : Int → Option String} {stop : Option String} {e : Element}
    {items : List Region} {id : Int} (h : Reads d native? stop (d.successor? e) items)
    (single : (d.outgoing e).length ≤ 1) (going : some e.id ≠ stop)
    (busy : e.kind.isActivity = true) (named : native? id = some e.id) :
    Reads d native? stop (some e) (.unitTask id e.name :: items) := by
  intro seq
  apply Iff.symm
  apply (segment_works_iff_of_single single going seq).trans
  rw [Region.rowSequences, Region.unitTask, Region.sequences, named, Region.mem_joined]
  constructor
  · intro h'
    obtain ⟨rest, onward, reads⟩ := h'
    refine ⟨[e.id], List.mem_singleton_self _, _, (h _).mpr ⟨rest, onward, rfl⟩, ?_⟩
    rw [← reads, Diagram.works_cons_of_work busy]
    rfl
  · intro h'
    obtain ⟨s, hs, t, ht, rfl⟩ := h'
    obtain ⟨rest, onward, rfl⟩ := (h t).mp ht
    refine ⟨rest, onward, ?_⟩
    rw [Diagram.works_cons_of_work busy, List.mem_singleton.mp hs]
    rfl

theorem ne_join (acyclic : d.Acyclic) {e join : Element} (role : roleOf d e = .split)
    (closes : d.findJoin e = .closesAt join) : e ≠ join := by
  intro same
  obtain ⟨f, hf⟩ := List.exists_mem_of_ne_nil _ (outgoing_ne_nil_of_split role)
  obtain ⟨_, _, reached, _⟩ := Diagram.findJoin_spec closes
  exact acyclic.not_leads_back hf (same ▸ reached f hf)

/-- The stop is a gateway that all branches lead to, so the join stands in front of it. -/
theorem StopAhead.join_leads (c : d.Consistent) (acyclic : d.Acyclic) {stop : Option String}
    {e join : Element} (ahead : StopAhead d stop e) (going : some e.id ≠ stop)
    (closes : d.findJoin e = .closesAt join) (id : String) (here : stop = some id) :
    d.Leads join.id id := by
  obtain ⟨_, _, _, nearest⟩ := Diagram.findJoin_spec closes
  obtain ⟨j, hj, rfl, gateway, passes⟩ := ahead id here
  apply nearest j hj gateway
  intro f hf
  apply (passes.step _ hf).leads c acyclic
  intro same
  exact going (same ▸ here.symm)

/-- From the join on, whatever stood between the split and the stop is still ahead. -/
theorem StopAhead.at_join (c : d.Consistent) (acyclic : d.Acyclic) {stop : Option String}
    {e join : Element} (ahead : StopAhead d stop e) (going : some e.id ≠ stop)
    (he : e ∈ d.nodes) (role : roleOf d e = .split) (closes : d.findJoin e = .closesAt join) :
    StopAhead d stop join := by
  intro id here
  have onward := ahead.join_leads c acyclic going closes id here
  obtain ⟨j, hj, rfl, gateway, passes⟩ := ahead id here
  obtain ⟨node, _, reached, _⟩ := Diagram.findJoin_spec closes
  obtain ⟨f, hf⟩ := List.exists_mem_of_ne_nil _ (outgoing_ne_nil_of_split role)
  have first : d.Leads e.id join.id := Diagram.leads_iff.mpr (.inr ⟨f, hf, reached f hf⟩)
  exact ⟨j, hj, rfl, gateway, passes.of_between c acyclic he node first onward hj⟩

/-- A split contributes the segments of its branches up to the join. -/
theorem Reads.split (c : d.Consistent) (acyclic : d.Acyclic) {native? : Int → Option String}
    {stop : Option String} {e join : Element} {id : Int} {children items : List Region}
    (h : Reads d native? stop (some join) items) (going : some e.id ≠ stop)
    (role : roleOf d e = .split) (closes : d.findJoin e = .closesAt join)
    (ahead : StopAhead d stop e) (passes : d.Passes e join)
    (branches : ReadsEach d native? join (d.outgoing e) children) :
    Reads d native? stop (some e) (splitRegion e id children :: items) := by
  have other := ne_join acyclic role closes
  have before := ahead.join_leads c acyclic going closes
  obtain ⟨node, _, _, _⟩ := Diagram.findJoin_spec closes
  have idle := not_isActivity_of_gateway (gateway_of_split role).1
  have region : Region.sequences native? (splitRegion e id children)
      = Region.anySequence native? children := by
    rw [splitRegion]
    split <;> rw [Region.sequences]
  intro seq
  rw [Region.rowSequences, region, Region.mem_joined]
  constructor
  · intro h'
    obtain ⟨s, hs, t, ht, rfl⟩ := h'
    obtain ⟨f, hf, first, upTo, rfl⟩ := (branches s).mp hs
    obtain ⟨rest, fromJoin, rfl⟩ := (h t).mp ht
    refine ⟨e :: (first ++ rest), .step going hf ?_, ?_⟩
    · exact upTo.append c acyclic node before (c.target_mem hf) (passes.step other hf) fromJoin
    · rw [Diagram.works_cons_of_not_work idle, Diagram.works_append]
  · intro h'
    obtain ⟨path, segment, rfl⟩ := h'
    cases segment with
    | stopped here => exact absurd here going
    | last _ none => exact absurd none (outgoing_ne_nil_of_split role)
    | @step _ f path _ hf onward =>
        obtain ⟨first, rest, rfl, upTo, fromJoin⟩ :=
          onward.split c acyclic node before (c.target_mem hf) (passes.step other hf)
        refine ⟨_, (branches _).mpr ⟨f, hf, first, upTo, rfl⟩, _, (h _).mpr ⟨rest, fromJoin, rfl⟩, ?_⟩
        rw [Diagram.works_cons_of_not_work idle, Diagram.works_append]

/-- Behind the join a walk goes on as if it stood at the join. -/
theorem Reads.at_join {native? : Int → Option String} {stop : Option String} {join : Element}
    {items : List Region} (gateway : join.kind.isGateway = true)
    (h : Reads d native? stop (afterJoin? d join stop) items) :
    Reads d native? stop (some join) items := by
  rw [afterJoin?] at h
  split at h
  next => exact h
  next behind =>
      rw [not_or] at behind
      exact h.pass (by omega) behind.1 (not_isActivity_of_gateway gateway)

theorem Reads.ended {native? : Int → Option String} {stop : Option String} {e : Element}
    (ends : Ends stop e) (last : e.kind = .endEvent → d.outgoing e = []) :
    Reads d native? stop (some e) [] := by
  have only : ∃ path, Diagram.works path = [] ∧ ∀ p, d.Segment stop e p ↔ p = path := by
    by_cases here : some e.id = stop
    · refine ⟨[], rfl, ?_⟩
      intro p
      constructor
      · intro segment
        cases segment with
        | stopped _ => rfl
        | last other _ => exact absurd here other
        | step other _ _ => exact absurd here other
      · intro same
        exact same ▸ .stopped here
    · have kind : e.kind = .endEvent := ends.resolve_left here
      have idle : ¬ e.kind.isActivity = true := by
        rw [kind]
        decide
      refine ⟨[e], Diagram.works_cons_of_not_work idle [], ?_⟩
      intro p
      constructor
      · intro segment
        cases segment with
        | stopped same => exact absurd same here
        | last _ _ => rfl
        | step _ hf _ =>
            rw [last kind] at hf
            cases hf
      · intro same
        exact same ▸ .last here (last kind)
  obtain ⟨path, reads, only⟩ := only
  intro seq
  rw [Region.rowSequences, List.mem_singleton]
  constructor
  · intro same
    exact ⟨path, (only path).mpr rfl, reads.trans same.symm⟩
  · intro h
    obtain ⟨p, segment, rfl⟩ := h
    rw [(only p).mp segment, reads]

/-- Where a walk from the start can stand. -/
structure Underway (d : Diagram) (start : Element) (stop : Option String) (e : Element) :
    Prop where
  node : e ∈ d.nodes
  reached : d.Leads start.id e.id
  ahead : StopAhead d stop e

namespace Underway

variable {start : Element} {stop : Option String} {e : Element}

theorem step (c : d.Consistent) (h : Underway d start stop e) (going : some e.id ≠ stop)
    {f : Flow} (hf : f ∈ d.outgoing e) : Underway d start stop f.target := by
  obtain ⟨inFlows, source⟩ := Diagram.mem_outgoing.mp hf
  exact ⟨c.target_mem hf, .step f h.reached inFlows source, h.ahead.step going hf⟩

theorem successor (c : d.Consistent) (h : Underway d start stop e) (going : some e.id ≠ stop)
    (e' : Element) (next : d.successor? e = some e') : Underway d start stop e' := by
  obtain ⟨f, hf, rfl⟩ := successor?_eq_some next
  exact h.step c going hf

theorem at_join (c : d.Consistent) (acyclic : d.Acyclic) (h : Underway d start stop e)
    (going : some e.id ≠ stop) (role : roleOf d e = .split) {join : Element}
    (closes : d.findJoin e = .closesAt join) : Underway d start stop join := by
  obtain ⟨node, _, reached, _⟩ := Diagram.findJoin_spec closes
  obtain ⟨f, hf⟩ := List.exists_mem_of_ne_nil _ (outgoing_ne_nil_of_split role)
  obtain ⟨inFlows, source⟩ := Diagram.mem_outgoing.mp hf
  refine ⟨node, ?_, h.ahead.at_join c acyclic going h.node role closes⟩
  exact (Diagram.Leads.step f h.reached inFlows source).trans (reached f hf)

theorem afterJoin (c : d.Consistent) (h : Underway d start stop e) (e' : Element)
    (next : afterJoin? d e stop = some e') : Underway d start stop e' := by
  rw [afterJoin?] at next
  split at next
  next =>
      cases next
      exact h
  next behind =>
      rw [not_or] at behind
      exact h.successor c behind.1 e' next

/-- Inside the branches the join is the stop, and it is still ahead. -/
theorem into_branch (c : d.Consistent) (acyclic : d.Acyclic) (h : Underway d start stop e)
    (role : roleOf d e = .split) {join : Element} (closes : d.findJoin e = .closesAt join)
    (passes : d.Passes e join) :
    ∀ f ∈ d.outgoing e, Underway d start (some join.id) f.target := by
  obtain ⟨node, gateway, _, _⟩ := Diagram.findJoin_spec closes
  have inside : Underway d start (some join.id) e := by
    refine ⟨h.node, h.reached, ?_⟩
    intro id same
    exact ⟨join, node, Option.some.inj same, gateway, passes⟩
  intro f hf
  apply inside.step c _ hf
  intro same
  exact ne_join acyclic role closes (c.eq_of_id h.node node (Option.some.inj same))

end Underway

theorem Within.sequences_fold {final k : Numbers} (within : Within d final) (earlier : Within d k)
    (items : List Region) :
    Region.sequences final.numbering.native? (k.fold items).1
      = Region.rowSequences final.numbering.native? items := by
  apply Region.sequences_fold
  intro id above
  apply within.native?_eq_none
  have := earlier.above
  omega

/-- Walks can be read off the segments of the diagram, whatever is numbered after them. -/
theorem reads_of_walked (c : d.Consistent) (acyclic : d.Acyclic) (exits : d.SingleExits)
    {start : Element} (passed : d.JoinsPassed start) (final : Numbers) (within : Within d final) :
    (∀ stop current n items m, Walked d stop current n items m → Within d n → Grows m final →
      (∀ e, current = some e → Underway d start stop e) →
        Reads d final.numbering.native? stop current items) ∧
    (∀ join flows n children m, Branched d join flows n children m → Within d n → Grows m final →
      (∀ f ∈ flows, Underway d start (some join.id) f.target) →
        ReadsEach d final.numbering.native? join flows children) := by
  obtain ⟨grows, growsBranches⟩ := grows_of_walked c
  apply walked_induction
  case finished => exact fun _ _ _ _ _ => .finished
  case ended =>
    intro stop e n ends _ _ inside
    exact .ended ends (exits.ends e (inside e rfl).node)
  case work =>
    intro stop e n m items going role walked ih before after inside
    rw [Ends, not_or] at going
    have here := inside e rfl
    have behind := here.successor c going.1
    have before' := before.intern here.node
    have single := length_outgoing_le_one exits here.node (by rw [role]; simp)
    have later :=
      (grows _ _ _ _ _ walked (fun e' h => (behind e' h).node) before').1.trans after
    exact (ih before' after behind).work single going.1 (isActivity_of_work role)
      (Numbering.native?_intern later.ids)
  case pass =>
    intro stop e n m items going role _ ih before after inside
    rw [Ends, not_or] at going
    have here := inside e rfl
    have single := length_outgoing_le_one exits here.node (by
      intro split
      rw [split] at role
      simp at role)
    exact (ih before after (here.successor c going.1)).pass single going.1
      (not_isActivity_of_pass role)
  case split =>
    intro stop e join n k m children items going role closes branched walked ihBranches ihWalk
      before after inside
    rw [Ends, not_or] at going
    have here := inside e rfl
    obtain ⟨gateway, several⟩ := gateway_of_split role
    obtain ⟨_, joinGateway, _, _⟩ := Diagram.findJoin_spec closes
    have passes := passed e here.node gateway several here.reached join closes
    have out := here.into_branch c acyclic role closes passes
    have behind := (here.at_join c acyclic going.1 role closes).afterJoin c
    obtain ⟨_, beforeK⟩ := growsBranches _ _ _ _ _ branched (fun f hf => (out f hf).node) before
    have beforeRest := beforeK.intern here.node
    have growsM := (grows _ _ _ _ _ walked (fun e' h => (behind e' h).node) beforeRest).1
    have inner := ihBranches before (((Grows.intern k e.id).trans growsM).trans after) out
    exact ((ihWalk beforeRest after behind).at_join joinGateway).split c acyclic going.1 role closes
      here.ahead passes inner
  case nil => exact fun _ _ _ _ _ => .nil
  case cons =>
    intro join f rest n k m items others walked branched ihWalk ihRest before after inside
    rw [List.forall_mem_cons] at inside
    obtain ⟨head, tail⟩ := inside
    have entered : ∀ e, some f.target = some e → Underway d start (some join.id) e :=
      fun e same => Option.some.inj same ▸ head
    obtain ⟨_, beforeK⟩ := grows _ _ _ _ _ walked (fun e h => (entered e h).node) before
    have beforeRest := beforeK.fold items
    obtain ⟨growsM, _⟩ :=
      growsBranches _ _ _ _ _ branched (fun g hg => (tail g hg).node) beforeRest
    have first := ihWalk before (((Grows.fold k items).trans growsM).trans after) entered
    exact .cons first (within.sequences_fold beforeK items) (ihRest beforeRest after tail)

end Compilation

namespace Diagram

variable {d : Diagram}

/-- The sequences of work in a compiled tree are those along the maximal paths of the diagram. -/
theorem mem_sequences_compile (built : d.Built) (acyclic : d.Acyclic) (exits : d.SingleExits)
    {scope : Option Element} {start : Element} (entry : d.entry scope = .ok start)
    (passed : d.JoinsPassed start) {validated : Bool} {compiled : CompiledScope}
    (success : (d.compile scope validated).value = .ok compiled) (seq : List String) :
    seq ∈ compiled.region.sequences compiled.numbering.native? ↔
      ∃ path, d.MaximalPath start path ∧ works path = seq := by
  have c := built.consistent
  obtain ⟨start', items, m, entry', walked, rfl⟩ := walked_of_compile success
  have same : start' = start := Except.ok.inj (entry'.symm.trans entry)
  subst same
  have underway : ∀ e, some start' = some e → Compilation.Underway d start' none e := by
    intro e here
    cases here
    exact ⟨start_mem entry, .refl _, by intro id none; cases none⟩
  have before := Compilation.Within.start d
  obtain ⟨_, within⟩ := (Compilation.grows_of_walked c).1 _ _ _ _ _ walked
    (fun e h => (underway e h).node) before
  have reads := (Compilation.reads_of_walked c acyclic exits passed m within).1 _ _ _ _ _ walked
    before (.refl m) underway seq
  rw [within.sequences_fold within, reads]
  simp only [SegmentFrom, segment_none_iff]

theorem acyclic_fork : fork.Acyclic := by
  apply acyclic_of_rank fun id => ["s", "g", "a", "b", "j", "e"].idxOf id
  decide

/-- A choice between the two tasks. -/
def forkCompiled : CompiledScope :=
  ⟨.choice 3 "choice" [.unitTask 1 "a", .unitTask 2 "b"] (some .zero), ⟨["a", "b", "g"]⟩⟩

theorem value_compile_fork : (fork.compile none true).value = .ok forkCompiled := by
  cbv

theorem singleExits_fork : fork.SingleExits := by
  constructor <;> decide

theorem joinsPassed_fork : fork.JoinsPassed (forkNode "s" .startEvent) := by
  have only : ∀ split ∈ fork.nodes, split.kind.isGateway = true →
      1 < (fork.outgoing split).length → split = forkNode "g" .exclusiveGateway := by
    decide
  have closes : fork.findJoin (forkNode "g" .exclusiveGateway)
      = .closesAt (forkNode "j" .exclusiveGateway) := by
    cbv
  have branch : ∀ e, fork.outgoing e ≠ [] →
      (∀ f ∈ fork.outgoing e, f.target = forkNode "j" .exclusiveGateway) →
        fork.Passes e (forkNode "j" .exclusiveGateway) := by
    intro e leaves targets
    apply Passes.of_step leaves
    intro f hf
    exact targets f hf ▸ .refl _
  intro split hs gateway several _ join found
  cases only split hs gateway several
  cases closes.symm.trans found
  apply Passes.of_step (by decide)
  intro f hf
  apply branch
  · revert f
    decide
  · revert f
    decide

theorem mem_sequences_compile_fork :
    (fork.compile none true).value = .ok forkCompiled ∧
      ∀ seq, seq ∈ forkCompiled.region.sequences forkCompiled.numbering.native? ↔
        ∃ path, fork.MaximalPath (forkNode "s" .startEvent) path ∧ works path = seq :=
  ⟨value_compile_fork, mem_sequences_compile built_fork acyclic_fork singleExits_fork (by decide)
    joinsPassed_fork value_compile_fork⟩

end Diagram
end ProcessDiagram
