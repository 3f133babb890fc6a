import ProcessDiagram.Proofs.Compilation.Growth
import ProcessDiagram.Proofs.Compilation.Runs

/-!
Walks side by side. What a walk does never depends on the numbers that were given before, and of
the diagram it only asks for the flows and the joins ahead. So two walks from one element, in any
two states and on diagrams that look the same from there, fail in the same way or give regions
that differ in their ids only.
-/
namespace ProcessDiagram
namespace Compilation

open Region

mutual

/-- The same region but for the ids: a region of an element has the element's number in the one
numbering and in the other, and the ids of all other regions differ by `raise`. -/
inductive Alike (n n' : Numbering) (raise : Int) : Region → Region → Prop
  | task {id label : String} : id ∈ n.ids → id ∈ n'.ids →
      Alike n n' raise (unitTask (n.number id) label) (unitTask (n'.number id) label)
  | noOp (id : Int) : Alike n n' raise (noOp id) (noOp (id + raise))
  | sequential (id : Int) {first second first' second' : Region} :
      Alike n n' raise first first' → Alike n n' raise second second' →
        Alike n n' raise (.sequential id first second)
          (.sequential (id + raise) first' second')
  | choice {id label : String} {children children' : List Region} {maxDelay : Option Binary64} :
      id ∈ n.ids → id ∈ n'.ids → AllAlike n n' raise children children' →
        Alike n n' raise (.choice (n.number id) label children maxDelay)
          (.choice (n'.number id) label children' maxDelay)
  | parallel {id label : String} {children children' : List Region} :
      id ∈ n.ids → id ∈ n'.ids → AllAlike n n' raise children children' →
        Alike n n' raise (.parallel (n.number id) label children)
          (.parallel (n'.number id) label children')

inductive AllAlike (n n' : Numbering) (raise : Int) : List Region → List Region → Prop
  | nil : AllAlike n n' raise [] []
  | cons {r r' : Region} {rest rest' : List Region} :
      Alike n n' raise r r' → AllAlike n n' raise rest rest' →
        AllAlike n n' raise (r :: rest) (r' :: rest')

end

section Regions

variable {n n' m m' : Numbering} {raise : Int}

mutual

theorem Alike.mono (grown : n.ids <+: m.ids) (grown' : n'.ids <+: m'.ids) :
    ∀ {r r' : Region}, Alike n n' raise r r' → Alike m m' raise r r'
  | _, _, .task known known' => by
      rw [← Numbering.number_of_grown grown known, ← Numbering.number_of_grown grown' known']
      exact .task (grown.subset known) (grown'.subset known')
  | _, _, .noOp drawn => .noOp drawn
  | _, _, .sequential drawn first second =>
      .sequential drawn (first.mono grown grown') (second.mono grown grown')
  | _, _, .choice known known' children => by
      rw [← Numbering.number_of_grown grown known, ← Numbering.number_of_grown grown' known']
      exact .choice (grown.subset known) (grown'.subset known') (children.mono grown grown')
  | _, _, .parallel known known' children => by
      rw [← Numbering.number_of_grown grown known, ← Numbering.number_of_grown grown' known']
      exact .parallel (grown.subset known) (grown'.subset known') (children.mono grown grown')

theorem AllAlike.mono (grown : n.ids <+: m.ids) (grown' : n'.ids <+: m'.ids) :
    ∀ {rows rows' : List Region}, AllAlike n n' raise rows rows' → AllAlike m m' raise rows rows'
  | _, _, .nil => .nil
  | _, _, .cons first rest => .cons (first.mono grown grown') (rest.mono grown grown')

end

theorem AllAlike.fold {items items' : List Region} (h : AllAlike n n' raise items items')
    (next : Int) :
    Alike n n' raise (Region.fold items next).1 (Region.fold items' (next + raise)).1 ∧
      (Region.fold items' (next + raise)).2 = (Region.fold items next).2 + raise := by
  induction items generalizing items' next with
  | nil =>
      cases h
      exact ⟨.noOp next, by change next + raise + 1 = next + 1 + raise; omega⟩
  | cons item rest ih =>
      cases h with
      | cons first others =>
          cases others with
          | nil => exact ⟨first, rfl⟩
          | @cons r r' tail tail' second more =>
              obtain ⟨folded, drawn⟩ := ih (.cons second more) (next + 1)
              have shifted : next + 1 + raise = next + raise + 1 := by omega
              rw [shifted] at folded drawn
              exact ⟨.sequential next first folded, drawn⟩

theorem Alike.splitRegion (e : Element) {children children' : List Region}
    (known : e.id ∈ n.ids) (known' : e.id ∈ n'.ids)
    (h : AllAlike n n' raise children children') :
    Alike n n' raise (splitRegion e (n.number e.id) children)
      (splitRegion e (n'.number e.id) children') := by
  rw [Compilation.splitRegion, Compilation.splitRegion]
  split
  · exact .choice known known' h
  · exact .parallel known known' h

end Regions

/-- What two runs have done since they were in the first two states: numbered the same ids, drawn
equally many and made the same reports. -/
structure Abreast (s s' t t' : State) : Prop where
  ids : ∃ ids, t.numbering = s.numbering.internAll ids ∧ t'.numbering = s'.numbering.internAll ids
  drawn : t'.nextSynthetic - t.nextSynthetic = s'.nextSynthetic - s.nextSynthetic
  log : ∃ records, t.log = s.log ++ records ∧ t'.log = s'.log ++ records

namespace Abreast

variable {s s' t t' u u' : State}

theorem refl (s s' : State) : Abreast s s' s s' :=
  ⟨⟨[], rfl, rfl⟩, rfl, ⟨[], (List.append_nil _).symm, (List.append_nil _).symm⟩⟩

theorem trans (h : Abreast s s' t t') (g : Abreast t t' u u') : Abreast s s' u u' := by
  obtain ⟨⟨ids, first, first'⟩, drawn, records, log, log'⟩ := h
  obtain ⟨⟨more, second, second'⟩, drawn', further, logged, logged'⟩ := g
  refine ⟨⟨ids ++ more, ?_, ?_⟩, drawn'.trans drawn, records ++ further, ?_, ?_⟩
  · rw [second, first, Numbering.internAll_append]
  · rw [second', first', Numbering.internAll_append]
  · rw [logged, log, List.append_assoc]
  · rw [logged', log', List.append_assoc]

theorem intern (s s' : State) (id : String) :
    Abreast s s' { s with numbering := (s.numbering.intern id).2 }
      { s' with numbering := (s'.numbering.intern id).2 } :=
  ⟨⟨[id], rfl, rfl⟩, rfl, ⟨[], (List.append_nil _).symm, (List.append_nil _).symm⟩⟩

theorem report (s s' : State) (records : List Record) :
    Abreast s s' { s with log := s.log ++ records } { s' with log := s'.log ++ records } :=
  ⟨⟨[], rfl, rfl⟩, rfl, records, rfl, rfl⟩

theorem grown (h : Abreast s s' t t') :
    s.numbering.ids <+: t.numbering.ids ∧ s'.numbering.ids <+: t'.numbering.ids := by
  obtain ⟨ids, first, first'⟩ := h.ids
  rw [first, first']
  exact ⟨Numbering.prefix_internAll _ ids, Numbering.prefix_internAll _ ids⟩

end Abreast

/-- The same failure, or related values. -/
inductive Agree {α β : Type} (R : α → β → Prop) :
    Except StructuralError α → Except StructuralError β → Prop
  | ok {a : α} {b : β} : R a b → Agree R (.ok a) (.ok b)
  | error (err : StructuralError) : Agree R (.error err) (.error err)

/-- Two computations, carried out in two states, keep abreast and agree on what they give. -/
structure Paired {α β : Type} (R : State → State → α → β → Prop) (s s' : State)
    (x : Compilation α) (x' : Compilation β) : Prop where
  abreast : Abreast s s' (outcome x s).2 (outcome x' s').2
  result : Agree (R (outcome x s).2 (outcome x' s').2) (outcome x s).1 (outcome x' s').1

/-- Regions alike in the numbers of two states. -/
def RowsAlike (s s' : State) (rows rows' : List Region) : Prop :=
  AllAlike s.numbering s'.numbering (s'.nextSynthetic - s.nextSynthetic) rows rows'

theorem RowsAlike.mono {s s' t t' : State} {rows rows' : List Region}
    (h : RowsAlike s s' rows rows') (onward : Abreast s s' t t') : RowsAlike t t' rows rows' := by
  obtain ⟨grown, grown'⟩ := onward.grown
  rw [RowsAlike, onward.drawn]
  exact AllAlike.mono grown grown' h

theorem RowsAlike.cons {s s' : State} {r r' : Region} {rest rest' : List Region}
    (first : RowsAlike s s' [r] [r']) (others : RowsAlike s s' rest rest') :
    RowsAlike s s' (r :: rest) (r' :: rest') := by
  cases first with
  | cons alike _ => exact AllAlike.cons alike others

namespace Paired

variable {α β γ δ : Type} {R : State → State → α → β → Prop} {S : State → State → γ → δ → Prop}
  {s s' : State}

theorem pure {a : α} {b : β} (h : R s s' a b) : Paired R s s' (pure a) (pure b) :=
  ⟨.refl s s', .ok h⟩

theorem throw (err : StructuralError) : Paired R s s' (throw err) (throw err) :=
  ⟨.refl s s', .error err⟩

theorem bind {x : Compilation α} {x' : Compilation β} {f : α → Compilation γ}
    {f' : β → Compilation δ} (h : Paired R s s' x x')
    (next : ∀ a b t t', Abreast s s' t t' → R t t' a b → Paired S t t' (f a) (f' b)) :
    Paired S s s' (x >>= f) (x' >>= f') := by
  obtain ⟨abreast, result⟩ := h
  cases first : outcome x s with
  | mk r t =>
      cases first' : outcome x' s' with
      | mk r' t' =>
          rw [first, first'] at abreast result
          cases result with
          | ok related =>
              obtain ⟨onward, final⟩ := next _ _ t t' abreast related
              constructor
              · rw [outcome_bind_of_ok first, outcome_bind_of_ok first']
                exact abreast.trans onward
              · rw [outcome_bind_of_ok first, outcome_bind_of_ok first']
                exact final
          | error err =>
              constructor
              · rw [outcome_bind_of_error first, outcome_bind_of_error first']
                exact abreast
              · rw [outcome_bind_of_error first, outcome_bind_of_error first']
                exact .error err

theorem note (level : Level) (channel : Channel) (message : String) :
    Paired (fun _ _ _ _ => True) s s' (note level channel message) (note level channel message) :=
  ⟨.report s s' [⟨level, channel, message⟩], .ok trivial⟩

theorem intern (id : String) :
    Paired (fun t t' (a b : Int) => id ∈ t.numbering.ids ∧ id ∈ t'.numbering.ids ∧
      a = t.numbering.number id ∧ b = t'.numbering.number id) s s' (intern id) (intern id) := by
  refine ⟨.intern s s' id, .ok ⟨Numbering.mem_intern _ _, Numbering.mem_intern _ _, ?_, ?_⟩⟩
  · exact congrArg Nat.cast (Numbering.intern_fst s.numbering id)
  · exact congrArg Nat.cast (Numbering.intern_fst s'.numbering id)

theorem fold {items items' : List Region} (h : RowsAlike s s' items items') :
    Paired (fun t t' a b => RowsAlike t t' [a] [b]) s s' (fold items) (fold items') := by
  obtain ⟨folded, drawn⟩ := AllAlike.fold h s.nextSynthetic
  have shifted : s.nextSynthetic + (s'.nextSynthetic - s.nextSynthetic) = s'.nextSynthetic := by
    omega
  rw [shifted] at folded drawn
  have abreast : Abreast s s' (outcome (Compilation.fold items) s).2
      (outcome (Compilation.fold items') s').2 := by
    refine ⟨⟨[], rfl, rfl⟩, ?_, [], (List.append_nil _).symm, (List.append_nil _).symm⟩
    change (Region.fold items' s'.nextSynthetic).2 - (Region.fold items s.nextSynthetic).2 = _
    omega
  refine ⟨abreast, .ok ?_⟩
  rw [RowsAlike, abreast.drawn]
  exact .cons folded .nil

end Paired

/-- At the element the second diagram has the same ways out as the first, and the same join. -/
structure Matches (d d' : Diagram) (e : Element) : Prop where
  outgoing : d'.outgoing e = d.outgoing e
  findJoin : d'.findJoin e = d.findJoin e

namespace Matches

variable {d d' : Diagram} {e : Element} {s s' : State}

theorem successor? (h : Matches d d' e) : d'.successor? e = d.successor? e := by
  rw [Diagram.successor?, Diagram.successor?, h.outgoing]

theorem roleOf (h : Matches d d' e) : roleOf d' e = roleOf d e := by
  rw [Compilation.roleOf, Compilation.roleOf, h.outgoing]

theorem afterJoin? (h : Matches d d' e) (stop : Option String) :
    afterJoin? d' e stop = afterJoin? d e stop := by
  rw [Compilation.afterJoin?, Compilation.afterJoin?, h.outgoing, h.successor?]

theorem noteFirstOnly (h : Matches d d' e) :
    Paired (fun _ _ _ _ => True) s s' (noteFirstOnly d e) (noteFirstOnly d' e) := by
  simp only [Compilation.noteFirstOnly, h.outgoing]
  split
  · exact .note _ _ _
  · exact .pure trivial

theorem noteAfterJoin (h : Matches d d' e) (stop : Option String) :
    Paired (fun _ _ _ _ => True) s s' (noteAfterJoin d e stop) (noteAfterJoin d' e stop) := by
  simp only [Compilation.noteAfterJoin, h.outgoing]
  split
  · exact .pure trivial
  · exact h.noteFirstOnly

theorem joinOf (h : Matches d d' e) :
    Paired (fun _ _ join join' => join = join' ∧ d.findJoin e = .closesAt join) s s'
      (joinOf d e) (joinOf d' e) := by
  simp only [Compilation.joinOf, h.findJoin]
  refine Paired.bind (R := fun _ _ _ _ => True) ⟨.report s s' _, .ok trivial⟩ ?_
  intro _ _ t t' _ _
  cases found : d.findJoin e with
  | closesAt join => exact .pure ⟨rfl, rfl⟩
  | noBranch | noGateway => exact .throw _
  | ambiguous candidates => exact .throw _

variable {opened seen : List String} {stop : Option String}

theorem walk_work (here : Matches d d' e) (going : ¬ Ends stop e) (fresh : ¬ seen.contains e.id)
    (role : Compilation.roleOf d e = .work)
    (onward : ∀ t t', Paired RowsAlike t t' (walk d opened (e.id :: seen) stop (d.successor? e))
      (walk d' opened (e.id :: seen) stop (d.successor? e))) :
    Paired RowsAlike s s' (walk d opened seen stop (some e)) (walk d' opened seen stop (some e)) := by
  rw [walk_of_work going fresh role, walk_of_work going fresh (here.roleOf.trans role),
    here.successor?]
  refine (Paired.intern e.id).bind ?_
  rintro id id' t t' _ ⟨known, known', rfl, rfl⟩
  refine here.noteFirstOnly.bind ?_
  intro _ _ u u' noted _
  refine (onward u u').bind ?_
  intro rest rest' v v' walked alikeRest
  have first : RowsAlike t t' [unitTask (t.numbering.number e.id) e.name]
      [unitTask (t'.numbering.number e.id) e.name] := AllAlike.cons (.task known known') .nil
  exact .pure ((first.mono (noted.trans walked)).cons alikeRest)

theorem walk_pass (here : Matches d d' e) (going : ¬ Ends stop e) (fresh : ¬ seen.contains e.id)
    (role : Compilation.roleOf d e = .pass)
    (onward : ∀ t t', Paired RowsAlike t t' (walk d opened (e.id :: seen) stop (d.successor? e))
      (walk d' opened (e.id :: seen) stop (d.successor? e))) :
    Paired RowsAlike s s' (walk d opened seen stop (some e)) (walk d' opened seen stop (some e)) := by
  rw [walk_of_pass going fresh role, walk_of_pass going fresh (here.roleOf.trans role),
    here.successor?]
  exact here.noteFirstOnly.bind fun _ _ t t' _ _ => onward t t'

theorem walk_unsupported (here : Matches d d' e) (going : ¬ Ends stop e)
    (fresh : ¬ seen.contains e.id) (role : Compilation.roleOf d e = .unsupported)
    (onward : ∀ t t', Paired RowsAlike t t' (walk d opened (e.id :: seen) stop (d.successor? e))
      (walk d' opened (e.id :: seen) stop (d.successor? e))) :
    Paired RowsAlike s s' (walk d opened seen stop (some e)) (walk d' opened seen stop (some e)) := by
  rw [walk_of_unsupported going fresh role,
    walk_of_unsupported going fresh (here.roleOf.trans role), here.successor?]
  refine (Paired.note _ _ _).bind ?_
  intro _ _ t t' _ _
  exact here.noteFirstOnly.bind fun _ _ u u' _ _ => onward u u'

theorem walk_split (here : Matches d d' e) (going : ¬ Ends stop e) (fresh : ¬ seen.contains e.id)
    (role : Compilation.roleOf d e = .split) (unopened : ¬ opened.contains e.id)
    (atJoin : ∀ join, d.findJoin e = .closesAt join → Matches d d' join)
    (inside : ∀ join t t',
      Paired RowsAlike t t' (branches d (e.id :: opened) e join 0 (d.outgoing e))
        (branches d' (e.id :: opened) e join 0 (d.outgoing e)))
    (behind : ∀ join, d.findJoin e = .closesAt join → ∀ t t',
      Paired RowsAlike t t' (walk d opened (e.id :: seen) stop (Compilation.afterJoin? d join stop))
        (walk d' opened (e.id :: seen) stop (Compilation.afterJoin? d join stop))) :
    Paired RowsAlike s s' (walk d opened seen stop (some e)) (walk d' opened seen stop (some e)) := by
  rw [walk_of_split going fresh role unopened,
    walk_of_split going fresh (here.roleOf.trans role) unopened, here.outgoing]
  refine here.joinOf.bind ?_
  rintro join _ t t' _ ⟨rfl, closes⟩
  refine (inside join t t').bind ?_
  intro children children' u u' _ alike
  refine (Paired.intern e.id).bind ?_
  rintro id id' v v' interned ⟨known, known', rfl, rfl⟩
  rw [(atJoin join closes).afterJoin?]
  refine ((atJoin join closes).noteAfterJoin stop).bind ?_
  intro _ _ w w' noted _
  refine (behind join closes w w').bind ?_
  intro rest rest' x x' walked alikeRest
  have first : RowsAlike v v' [splitRegion e (v.numbering.number e.id) children]
      [splitRegion e (v'.numbering.number e.id) children'] :=
    AllAlike.cons (.splitRegion e known known' (alike.mono interned)) .nil
  exact .pure ((first.mono (noted.trans walked)).cons alikeRest)

end Matches

theorem paired_branches {d d' : Diagram} {opened : List String} {split join : Element} {index : Nat}
    {f : Flow} {rest : List Flow} {s s' : State}
    (first : ∀ t t', Paired RowsAlike t t' (walk d opened [] (some join.id) (some f.target))
      (walk d' opened [] (some join.id) (some f.target)))
    (later : ∀ t t', Paired RowsAlike t t' (branches d opened split join (index + 1) rest)
      (branches d' opened split join (index + 1) rest)) :
    Paired RowsAlike s s' (branches d opened split join index (f :: rest))
      (branches d' opened split join index (f :: rest)) := by
  rw [branches, branches]
  refine (Paired.note _ _ _).bind ?_
  intro _ _ t t' _ _
  refine (first t t').bind ?_
  intro items items' u u' _ alike
  refine (Paired.fold alike).bind ?_
  intro child child' v v' _ folded
  refine (later v v').bind ?_
  intro others others' w w' onward alikeRest
  exact .pure ((folded.mono onward).cons alikeRest)

/-- No flow leads from the ids to another. -/
def Closed (d : Diagram) (ids : String → Prop) : Prop :=
  ∀ f ∈ d.flows, ids f.source.id → ids f.target.id

namespace Closed

variable {d : Diagram} {ids : String → Prop} {e e' : Element}

theorem outgoing (closed : Closed d ids) (among : ids e.id) : ∀ f ∈ d.outgoing e, ids f.target.id := by
  intro f hf
  obtain ⟨mem, source⟩ := Diagram.mem_outgoing.mp hf
  exact closed f mem (source ▸ among)

theorem successor? (closed : Closed d ids) (among : ids e.id) (next : d.successor? e = some e') :
    ids e'.id := by
  obtain ⟨f, hf, rfl⟩ := successor?_eq_some next
  exact closed.outgoing among f hf

theorem leads (closed : Closed d ids) {a b : String} (way : d.Leads a b) (ha : ids a) : ids b := by
  induction way with
  | refl => exact ha
  | step f _ hf source ih => exact closed f hf (source ▸ ih)

theorem join (closed : Closed d ids) (among : ids e.id) (role : roleOf d e = .split)
    (closes : d.findJoin e = .closesAt e') : ids e'.id := by
  obtain ⟨f, hf⟩ := List.exists_mem_of_ne_nil _ (outgoing_ne_nil_of_split role)
  obtain ⟨_, _, reached, _⟩ := Diagram.findJoin_spec closes
  exact closed.leads (reached f hf) (closed.outgoing among f hf)

end Closed

/-- Walks keep abreast among elements at which the diagrams match. The elements only have to be
closed under the flows of the first diagram. -/
theorem paired_walk {d d' : Diagram} {ids : String → Prop} (closed : Closed d ids)
    (same : ∀ e, ids e.id → Matches d d' e) :
    (∀ (opened seen : List String) (stop : Option String) (current : Option Element),
      (∀ e, current = some e → ids e.id) → ∀ s s' : State,
        Paired RowsAlike s s' (walk d opened seen stop current)
          (walk d' opened seen stop current)) ∧
    (∀ (opened : List String) (split join : Element) (index : Nat) (flows : List Flow),
      (∀ f ∈ flows, ids f.target.id) → ∀ s s' : State,
        Paired RowsAlike s s' (branches d opened split join index flows)
          (branches d' opened split join index flows)) := by
  apply walk.mutual_induct d
  case case1 =>
    intro opened seen stop _ s s'
    rw [walk, walk]
    exact .pure .nil
  case case2 =>
    intro opened seen stop e ends _ s s'
    rw [walk_of_ends ends, walk_of_ends ends]
    exact .pure .nil
  case case3 =>
    intro opened seen stop e going again _ s s'
    rw [walk_of_seen going again, walk_of_seen going again]
    exact .throw _
  case case4 =>
    intro opened seen stop e going fresh role ih among s s'
    have here := among e rfl
    exact (same e here).walk_work going fresh role (ih fun _ => closed.successor? here)
  case case5 =>
    intro opened seen stop e going fresh role ih among s s'
    have here := among e rfl
    exact (same e here).walk_pass going fresh role (ih fun _ => closed.successor? here)
  case case6 =>
    intro opened seen stop e going fresh role ih among s s'
    have here := among e rfl
    exact (same e here).walk_unsupported going fresh role (ih fun _ => closed.successor? here)
  case case7 =>
    intro opened seen stop e going fresh role again among s s'
    rw [walk_of_opened going fresh role again,
      walk_of_opened going fresh ((same e (among e rfl)).roleOf.trans role) again]
    exact .throw _
  case case8 =>
    intro opened seen stop e going fresh role unopened ihBranches ihWalk among s s'
    have here := among e rfl
    apply (same e here).walk_split going fresh role unopened
    · exact fun join closes => same join (closed.join here role closes)
    · exact fun join => ihBranches join (closed.outgoing here)
    · intro join closes
      apply ihWalk join
      exact fun e' onward => closed.leads (afterJoin?_eq_some onward) (closed.join here role closes)
  case case9 =>
    intro opened split join index _ s s'
    rw [branches, branches]
    exact .pure .nil
  case case10 =>
    intro opened split join index f rest ihWalk ihRest among s s'
    apply paired_branches
    · apply ihWalk
      intro e here
      cases here
      exact among f List.mem_cons_self
    · exact ihRest fun g hg => among g (List.mem_cons_of_mem _ hg)

end Compilation
end ProcessDiagram
