import ProcessDiagram.Proofs.Diagram.Nearest

/-!
Paths along the flows. A maximal path goes on until no flow leaves its last element; a segment
may also end in front of a stop. On an acyclic diagram a segment that has to pass an element is
a segment up to that element and one from there on.
-/
namespace ProcessDiagram.Diagram

inductive MaximalPath (d : Diagram) : Element → List Element → Prop
  | last {e : Element} : d.outgoing e = [] → MaximalPath d e [e]
  | step {e : Element} {f : Flow} {path : List Element} :
      f ∈ d.outgoing e → MaximalPath d f.target path → MaximalPath d e (e :: path)

/-- A path that ends in front of the stop, or where no flow leaves. -/
inductive Segment (d : Diagram) (stop : Option String) : Element → List Element → Prop
  | stopped {e : Element} : some e.id = stop → Segment d stop e []
  | last {e : Element} : some e.id ≠ stop → d.outgoing e = [] → Segment d stop e [e]
  | step {e : Element} {f : Flow} {path : List Element} :
      some e.id ≠ stop → f ∈ d.outgoing e → Segment d stop f.target path →
        Segment d stop e (e :: path)

/-- A segment from the element that a walk has reached, if it has reached one. -/
def SegmentFrom (d : Diagram) (stop : Option String) : Option Element → List Element → Prop
  | none, path => path = []
  | some e, path => Segment d stop e path

/-- Every maximal path from one element goes through the other. -/
def Passes (d : Diagram) (e through : Element) : Prop :=
  ∀ path, d.MaximalPath e path → through ∈ path

variable {d : Diagram}

theorem segment_none_iff (e : Element) (path : List Element) :
    d.Segment none e path ↔ d.MaximalPath e path := by
  constructor
  · intro h
    induction h with
    | stopped h => cases h
    | last _ h => exact .last h
    | step _ hf _ ih => exact .step hf ih
  · intro h
    induction h with
    | last h => exact .last (by simp) h
    | step hf _ ih => exact .step (by simp) hf ih

theorem MaximalPath.leads {e x : Element} {path : List Element} (h : d.MaximalPath e path)
    (hx : x ∈ path) : d.Leads e.id x.id := by
  induction h with
  | last _ =>
      rw [List.mem_singleton] at hx
      exact hx ▸ .refl _
  | step hf _ ih =>
      cases List.mem_cons.mp hx with
      | inl same => exact same ▸ .refl _
      | inr later => exact leads_iff.mpr (.inr ⟨_, hf, ih later⟩)

/-- The flows that an element leads to; they get fewer along every flow of an acyclic diagram. -/
def flowsAhead (d : Diagram) (id : String) : List Flow :=
  d.flows.filter fun f => (d.reachable id).contains f.source.id

theorem mem_flowsAhead {id : String} {f : Flow} :
    f ∈ d.flowsAhead id ↔ f ∈ d.flows ∧ d.Leads id f.source.id := by
  simp only [flowsAhead, List.mem_filter, List.contains_iff_mem, mem_reachable]

theorem length_flowsAhead_lt (c : d.Consistent) (acyclic : d.Acyclic) {e : Element} {f : Flow}
    (h : f ∈ d.outgoing e) :
    (d.flowsAhead f.target.id).length < (d.flowsAhead e.id).length := by
  obtain ⟨hf, source⟩ := mem_outgoing.mp h
  have distinct : (f :: d.flowsAhead f.target.id).Nodup := by
    rw [List.nodup_cons]
    refine ⟨?_, c.flows_nodup.filter _⟩
    intro again
    exact acyclic f hf (mem_flowsAhead.mp again).2
  have inside : f :: d.flowsAhead f.target.id ⊆ d.flowsAhead e.id := by
    intro g hg
    rw [mem_flowsAhead]
    cases List.mem_cons.mp hg with
    | inl same => exact ⟨same ▸ hf, same ▸ source ▸ .refl _⟩
    | inr ahead =>
        obtain ⟨hg, leads⟩ := mem_flowsAhead.mp ahead
        exact ⟨hg, leads_iff.mpr (.inr ⟨f, h, leads⟩)⟩
  exact List.Nodup.length_le_of_subset distinct inside

theorem exists_maximalPath (c : d.Consistent) (acyclic : d.Acyclic) (e : Element) :
    ∃ path, d.MaximalPath e path := by
  induction h : (d.flowsAhead e.id).length using Nat.strongRecOn generalizing e with
  | _ n ih =>
      cases leaves : d.outgoing e with
      | nil => exact ⟨[e], .last leaves⟩
      | cons f rest =>
          have hf : f ∈ d.outgoing e := leaves ▸ List.mem_cons_self
          have fewer := length_flowsAhead_lt c acyclic hf
          obtain ⟨path, onward⟩ := ih _ (h ▸ fewer) f.target rfl
          exact ⟨e :: path, .step hf onward⟩

theorem Leads.exists_path (c : d.Consistent) {a b : String} (h : d.Leads a b) :
    ∀ e ∈ d.nodes, e.id = b → ∀ s ∈ d.nodes, s.id = a →
      ∃ before : List Element, (∀ x ∈ before, d.Leads x.id b) ∧
        ∀ path, d.MaximalPath e path → d.MaximalPath s (before ++ path) := by
  induction h with
  | refl =>
      intro e he same s hs start
      have one : s = e := c.eq_of_id hs he (start.trans same.symm)
      exact ⟨[], by simp, fun path h => one ▸ h⟩
  | step f _ hf source ih =>
      intro e he same s hs start
      obtain ⟨before, leads, onward⟩ := ih f.source (c.source f hf) source s hs start
      have one : f.target = e := c.eq_of_id (c.target f hf) he same.symm
      refine ⟨before ++ [f.source], ?_, ?_⟩
      · intro x hx
        cases List.mem_append.mp hx with
        | inl earlier => exact .step f (leads x earlier) hf source
        | inr last =>
            rw [List.mem_singleton] at last
            exact .step f (last ▸ .refl _) hf rfl
      · intro path h
        rw [List.append_assoc]
        exact onward _ (.step (mem_outgoing.mpr ⟨hf, rfl⟩) (one ▸ h))

namespace Passes

theorem refl (e : Element) : d.Passes e e := by
  intro path maximal
  cases maximal with
  | last _ => exact List.mem_singleton_self _
  | step _ _ => exact List.mem_cons_self

theorem of_step {e j : Element} (leaves : d.outgoing e ≠ [])
    (h : ∀ f ∈ d.outgoing e, d.Passes f.target j) : d.Passes e j := by
  intro path maximal
  cases maximal with
  | last none => exact absurd none leaves
  | step hf onward => exact List.mem_cons_of_mem _ (h _ hf _ onward)

theorem leads (c : d.Consistent) (acyclic : d.Acyclic) {e j : Element} (h : d.Passes e j) :
    d.Leads e.id j.id := by
  obtain ⟨path, maximal⟩ := exists_maximalPath c acyclic e
  exact maximal.leads (h path maximal)

theorem step {e j : Element} {f : Flow} (h : d.Passes e j) (other : e ≠ j)
    (hf : f ∈ d.outgoing e) : d.Passes f.target j := by
  intro path maximal
  cases List.mem_cons.mp (h _ (.step hf maximal)) with
  | inl same => exact absurd same.symm other
  | inr later => exact later

/-- What has to be passed later has to be passed from every element in between. -/
theorem of_between (c : d.Consistent) (acyclic : d.Acyclic) {e m j : Element}
    (he : e ∈ d.nodes) (hm : m ∈ d.nodes) (h : d.Passes e j) (first : d.Leads e.id m.id)
    (onward : d.Leads m.id j.id) (hj : j ∈ d.nodes) : d.Passes m j := by
  intro path maximal
  obtain ⟨before, leads, extended⟩ := first.exists_path c m hm rfl e he rfl
  cases List.mem_append.mp (h _ (extended path maximal)) with
  | inl earlier =>
      have same : j = m := c.eq_of_id hj hm (acyclic.antisymm (leads j earlier) onward)
      exact same ▸ refl j path (same ▸ maximal)
  | inr later => exact later

end Passes

/-- A segment goes through what it has to pass, when that stands no later than the stop. -/
theorem Segment.split (c : d.Consistent) (acyclic : d.Acyclic) {stop : Option String}
    {join : Element} (hj : join ∈ d.nodes) (before : ∀ id, stop = some id → d.Leads join.id id)
    {e : Element} {path : List Element} (he : e ∈ d.nodes) (h : d.Segment stop e path)
    (through : d.Passes e join) :
    ∃ first rest, path = first ++ rest ∧ d.Segment (some join.id) e first ∧
      d.Segment stop join rest := by
  induction h with
  | @stopped e here =>
      have same : e = join := by
        apply c.eq_of_id he hj
        exact acyclic.antisymm (through.leads c acyclic) (before e.id here.symm)
      exact ⟨[], [], rfl, .stopped (same ▸ rfl), same ▸ .stopped here⟩
  | @last e other none =>
      have same : join = e := List.mem_singleton.mp (through _ (.last none))
      subst same
      exact ⟨[], [join], rfl, .stopped rfl, .last other none⟩
  | @step e f path other hf onward ih =>
      by_cases same : e = join
      · exact ⟨[], e :: path, rfl, .stopped (same ▸ rfl), same ▸ .step other hf onward⟩
      · obtain ⟨first, rest, rfl, upTo, fromJoin⟩ :=
          ih (c.target_mem hf) (through.step same hf)
        refine ⟨e :: first, rest, rfl, .step ?_ hf upTo, fromJoin⟩
        intro here
        exact same (c.eq_of_id he hj (Option.some.inj here))

theorem Segment.append (c : d.Consistent) (acyclic : d.Acyclic) {stop : Option String}
    {join : Element} (hj : join ∈ d.nodes) (before : ∀ id, stop = some id → d.Leads join.id id)
    {e : Element} {first rest : List Element} (he : e ∈ d.nodes)
    (h : d.Segment (some join.id) e first) (through : d.Passes e join)
    (fromJoin : d.Segment stop join rest) : d.Segment stop e (first ++ rest) := by
  induction h with
  | @stopped e here =>
      have same : e = join := c.eq_of_id he hj (Option.some.inj here)
      exact same ▸ fromJoin
  | @last e other none =>
      have same : join = e := List.mem_singleton.mp (through _ (.last none))
      exact absurd (congrArg some (congrArg Element.id same.symm)) other
  | @step e f path other hf _ ih =>
      have distinct : e ≠ join := fun same => other (same ▸ rfl)
      refine .step ?_ hf (ih (c.target_mem hf) (through.step distinct hf))
      intro here
      have same := acyclic.antisymm (through.leads c acyclic) (before e.id here.symm)
      exact distinct (c.eq_of_id he hj same)

theorem segment_iff_of_single {stop : Option String} {e : Element} {path : List Element}
    (single : (d.outgoing e).length ≤ 1) (other : some e.id ≠ stop) :
    d.Segment stop e path ↔
      ∃ rest, path = e :: rest ∧ d.SegmentFrom stop ((d.outgoing e).head?.map (·.target)) rest := by
  cases leaves : d.outgoing e with
  | nil =>
      constructor
      · intro h
        cases h with
        | stopped here => exact absurd here other
        | last _ _ => exact ⟨[], rfl, rfl⟩
        | step _ hf _ =>
            rw [leaves] at hf
            cases hf
      · rintro ⟨rest, rfl, none⟩
        rw [show rest = [] from none]
        exact .last other leaves
  | cons f others =>
      have alone : others = [] := by
        rw [leaves, List.length_cons] at single
        exact List.length_eq_zero_iff.mp (by omega)
      subst alone
      constructor
      · intro h
        cases h with
        | stopped here => exact absurd here other
        | last _ none =>
            rw [leaves] at none
            cases none
        | @step e g path _ hf onward =>
            rw [leaves, List.mem_singleton] at hf
            exact ⟨path, rfl, hf ▸ onward⟩
      · rintro ⟨rest, rfl, onward⟩
        exact .step other (leaves ▸ List.mem_cons_self) onward

end ProcessDiagram.Diagram
