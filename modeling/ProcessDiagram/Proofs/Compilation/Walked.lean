import ProcessDiagram.Proofs.Compilation.Outcome
import ProcessDiagram.Proofs.Diagram.Nearest

/-!
Walks that succeed, as derivations: which regions a walk gives from which numbers. Every
successful walk has a derivation. With no cycle ahead every derivation is a successful walk,
since nothing that was seen or opened can come up again.
-/
namespace ProcessDiagram.Compilation

def Numbers.intern (n : Numbers) (id : String) : Int × Numbers :=
  ((n.numbering.intern id).1, { n with numbering := (n.numbering.intern id).2 })

def Numbers.fold (n : Numbers) (items : List Region) : Region × Numbers :=
  ((Region.fold items n.nextSynthetic).1,
    { n with nextSynthetic := (Region.fold items n.nextSynthetic).2 })

theorem intern_of_numbers {s : State} {n : Numbers} (h : s.numbers = n) (id : String) :
    ∃ t, outcome (Compilation.intern id) s = (.ok (n.intern id).1, t) ∧
      t.numbers = (n.intern id).2 := by
  subst h
  exact ⟨_, outcome_intern id s, rfl⟩

theorem fold_of_numbers {s : State} {n : Numbers} (h : s.numbers = n) (items : List Region) :
    ∃ t, outcome (Compilation.fold items) s = (.ok (n.fold items).1, t) ∧
      t.numbers = (n.fold items).2 := by
  subst h
  exact ⟨_, outcome_fold items s, rfl⟩

theorem isActivity_of_work {d : Diagram} {e : Element} (role : roleOf d e = .work) :
    e.kind.isActivity = true := by
  rw [roleOf] at role
  repeat' split at role
  all_goals simp_all

theorem not_isActivity_of_gateway {e : Element} (h : e.kind.isGateway = true) :
    ¬ e.kind.isActivity = true := by
  cases kind : e.kind <;> simp [kind, ElementKind.isGateway, ElementKind.isActivity] at h ⊢

theorem gateway_of_split {d : Diagram} {e : Element} (role : roleOf d e = .split) :
    e.kind.isGateway = true ∧ 1 < (d.outgoing e).length := by
  rw [roleOf] at role
  repeat' split at role
  all_goals simp_all

theorem not_isActivity_of_pass {d : Diagram} {e : Element}
    (role : roleOf d e = .pass ∨ roleOf d e = .unsupported) : ¬ e.kind.isActivity = true := by
  intro work
  rw [roleOf, if_pos work] at role
  cases role with
  | inl h => cases h
  | inr h => cases h

theorem role_of_gateway {d : Diagram} {e : Element} (gateway : e.kind.isGateway = true)
    (several : 1 < (d.outgoing e).length) : roleOf d e = .split := by
  have other : e.kind ≠ .startEvent := by
    intro h
    rw [h] at gateway
    cases gateway
  rw [roleOf, if_neg (not_isActivity_of_gateway gateway), if_neg other, if_pos gateway,
    if_pos several]

/-- A walk ends at its stop and at an end event. -/
def Ends (stop : Option String) (e : Element) : Prop :=
  some e.id = stop ∨ e.kind = .endEvent

instance (stop : Option String) (e : Element) : Decidable (Ends stop e) :=
  inferInstanceAs (Decidable (some e.id = stop ∨ e.kind = .endEvent))

mutual

/-- A walk from an element up to the stop gives these regions. -/
inductive Walked (d : Diagram) :
    Option String → Option Element → Numbers → List Region → Numbers → Prop
  | finished {stop : Option String} {n : Numbers} : Walked d stop none n [] n
  | ended {stop : Option String} {e : Element} {n : Numbers} :
      Ends stop e → Walked d stop (some e) n [] n
  | work {stop : Option String} {e : Element} {n m : Numbers} {items : List Region} :
      ¬ Ends stop e → roleOf d e = .work →
        Walked d stop (d.successor? e) (n.intern e.id).2 items m →
          Walked d stop (some e) n (.unitTask (n.intern e.id).1 e.name :: items) m
  | pass {stop : Option String} {e : Element} {n m : Numbers} {items : List Region} :
      ¬ Ends stop e → roleOf d e = .pass ∨ roleOf d e = .unsupported →
        Walked d stop (d.successor? e) n items m → Walked d stop (some e) n items m
  | split {stop : Option String} {e join : Element} {n k m : Numbers}
      {children items : List Region} :
      ¬ Ends stop e → roleOf d e = .split → d.findJoin e = .closesAt join →
        Branched d join (d.outgoing e) n children k →
          Walked d stop (afterJoin? d join stop) (k.intern e.id).2 items m →
            Walked d stop (some e) n (splitRegion e (k.intern e.id).1 children :: items) m

/-- The walks along the flows out of a split give one folded region each. -/
inductive Branched (d : Diagram) :
    Element → List Flow → Numbers → List Region → Numbers → Prop
  | nil {join : Element} {n : Numbers} : Branched d join [] n [] n
  | cons {join : Element} {f : Flow} {rest : List Flow} {n k m : Numbers}
      {items others : List Region} :
      Walked d (some join.id) (some f.target) n items k →
        Branched d join rest (k.fold items).2 others m →
          Branched d join (f :: rest) n ((k.fold items).1 :: others) m

end

/-- Induction over walks and the walks of their branches together. -/
theorem walked_induction {d : Diagram}
    {P : Option String → Option Element → Numbers → List Region → Numbers → Prop}
    {Q : Element → List Flow → Numbers → List Region → Numbers → Prop}
    (finished : ∀ stop n, P stop none n [] n)
    (ended : ∀ stop e n, Ends stop e → P stop (some e) n [] n)
    (work : ∀ stop e n m items, ¬ Ends stop e → roleOf d e = .work →
      Walked d stop (d.successor? e) (n.intern e.id).2 items m →
      P stop (d.successor? e) (n.intern e.id).2 items m →
        P stop (some e) n (.unitTask (n.intern e.id).1 e.name :: items) m)
    (pass : ∀ stop e n m items, ¬ Ends stop e → roleOf d e = .pass ∨ roleOf d e = .unsupported →
      Walked d stop (d.successor? e) n items m →
      P stop (d.successor? e) n items m → P stop (some e) n items m)
    (split : ∀ stop e join n k m children items, ¬ Ends stop e → roleOf d e = .split →
      d.findJoin e = .closesAt join → Branched d join (d.outgoing e) n children k →
      Walked d stop (afterJoin? d join stop) (k.intern e.id).2 items m →
      Q join (d.outgoing e) n children k →
      P stop (afterJoin? d join stop) (k.intern e.id).2 items m →
        P stop (some e) n (splitRegion e (k.intern e.id).1 children :: items) m)
    (nil : ∀ join n, Q join [] n [] n)
    (cons : ∀ join f rest n k m items others, Walked d (some join.id) (some f.target) n items k →
      Branched d join rest (k.fold items).2 others m →
      P (some join.id) (some f.target) n items k → Q join rest (k.fold items).2 others m →
        Q join (f :: rest) n ((k.fold items).1 :: others) m) :
    (∀ stop current n items m, Walked d stop current n items m → P stop current n items m) ∧
      ∀ join flows n children m, Branched d join flows n children m → Q join flows n children m := by
  constructor
  · intro stop current n items m h
    exact @Walked.rec d (fun stop current n items m _ => P stop current n items m)
      (fun join flows n children m _ => Q join flows n children m)
      (finished _ _) (ended _ _ _) (fun going role h => work _ _ _ _ _ going role h)
      (fun going role h => pass _ _ _ _ _ going role h)
      (fun going role closes h h' => split _ _ _ _ _ _ _ _ going role closes h h')
      (nil _ _) (fun h h' => cons _ _ _ _ _ _ _ _ h h') _ _ _ _ _ h
  · intro join flows n children m h
    exact @Branched.rec d (fun stop current n items m _ => P stop current n items m)
      (fun join flows n children m _ => Q join flows n children m)
      (finished _ _) (ended _ _ _) (fun going role h => work _ _ _ _ _ going role h)
      (fun going role h => pass _ _ _ _ _ going role h)
      (fun going role closes h h' => split _ _ _ _ _ _ _ _ going role closes h h')
      (nil _ _) (fun h h' => cons _ _ _ _ _ _ _ _ h h') _ _ _ _ _ h

variable {d : Diagram} {opened seen : List String} {stop : Option String} {e : Element}

theorem walk_of_ends (h : Ends stop e) : walk d opened seen stop (some e) = pure [] := by
  rw [walk]
  exact if_pos h

theorem walk_of_seen (going : ¬ Ends stop e) (again : seen.contains e.id) :
    walk d opened seen stop (some e) = throw (.revisited e.id) := by
  rw [Ends] at going
  rw [walk.eq_def]
  simp only
  rw [if_neg going, dif_pos again]

/-- At an element that it has not seen, a walk goes by the role of the element. -/
theorem walk_of_fresh (going : ¬ Ends stop e) (fresh : ¬ seen.contains e.id) :
    walk d opened seen stop (some e) =
      match roleOf d e with
      | .work => do
        let id ← intern e.id
        noteFirstOnly d e
        let rest ← walk d opened (e.id :: seen) stop (d.successor? e)
        return .unitTask id e.name :: rest
      | .pass => do
        noteFirstOnly d e
        walk d opened (e.id :: seen) stop (d.successor? e)
      | .unsupported => do
        noteUnsupported e
        noteFirstOnly d e
        walk d opened (e.id :: seen) stop (d.successor? e)
      | .split =>
        if opened.contains e.id then throw (.reopened e.id)
        else do
          let join ← joinOf d e
          let children ← branches d (e.id :: opened) e join 0 (d.outgoing e)
          let id ← intern e.id
          noteAfterJoin d join stop
          let rest ← walk d opened (e.id :: seen) stop (afterJoin? d join stop)
          return splitRegion e id children :: rest := by
  rw [Ends] at going
  rw [walk.eq_def]
  simp only
  rw [if_neg going, dif_neg fresh]
  split
  next role => rw [role]
  next role => rw [role]
  next role => rw [role]
  next role => simp only [role, dite_eq_ite]

theorem walk_of_work (going : ¬ Ends stop e) (fresh : ¬ seen.contains e.id)
    (role : roleOf d e = .work) :
    walk d opened seen stop (some e) = (do
      let id ← intern e.id
      noteFirstOnly d e
      let rest ← walk d opened (e.id :: seen) stop (d.successor? e)
      return .unitTask id e.name :: rest) := by
  rw [walk_of_fresh going fresh, role]

theorem walk_of_pass (going : ¬ Ends stop e) (fresh : ¬ seen.contains e.id)
    (role : roleOf d e = .pass) :
    walk d opened seen stop (some e) = (do
      noteFirstOnly d e
      walk d opened (e.id :: seen) stop (d.successor? e)) := by
  rw [walk_of_fresh going fresh, role]

theorem walk_of_unsupported (going : ¬ Ends stop e) (fresh : ¬ seen.contains e.id)
    (role : roleOf d e = .unsupported) :
    walk d opened seen stop (some e) = (do
      noteUnsupported e
      noteFirstOnly d e
      walk d opened (e.id :: seen) stop (d.successor? e)) := by
  rw [walk_of_fresh going fresh, role]

theorem walk_of_split (going : ¬ Ends stop e) (fresh : ¬ seen.contains e.id)
    (role : roleOf d e = .split) (closed : ¬ opened.contains e.id) :
    walk d opened seen stop (some e) = (do
      let join ← joinOf d e
      let children ← branches d (e.id :: opened) e join 0 (d.outgoing e)
      let id ← intern e.id
      noteAfterJoin d join stop
      let rest ← walk d opened (e.id :: seen) stop (afterJoin? d join stop)
      return splitRegion e id children :: rest) := by
  rw [walk_of_fresh going fresh, role]
  exact if_neg closed

theorem walk_of_opened (going : ¬ Ends stop e) (fresh : ¬ seen.contains e.id)
    (role : roleOf d e = .split) (again : opened.contains e.id) :
    walk d opened seen stop (some e) = throw (.reopened e.id) := by
  rw [walk_of_fresh going fresh, role]
  exact if_pos again

theorem walked_split_of_ok {s t : State} {items : List Region} (going : ¬ Ends stop e)
    (fresh : ¬ seen.contains e.id) (role : roleOf d e = .split) (closed : ¬ opened.contains e.id)
    (inside : ∀ join s t children,
      outcome (branches d (e.id :: opened) e join 0 (d.outgoing e)) s = (.ok children, t) →
        Branched d join (d.outgoing e) s.numbers children t.numbers)
    (behind : ∀ join s t items,
      outcome (walk d opened (e.id :: seen) stop (afterJoin? d join stop)) s = (.ok items, t) →
        Walked d stop (afterJoin? d join stop) s.numbers items t.numbers)
    (h : outcome (walk d opened seen stop (some e)) s = (.ok items, t)) :
    Walked d stop (some e) s.numbers items t.numbers := by
  rw [walk_of_split going fresh role closed] at h
  obtain ⟨join, s₁, found, h⟩ := outcome_bind_eq_ok h
  obtain ⟨closes, same⟩ := joinOf_eq_ok found
  obtain ⟨children, s₂, branched, h⟩ := outcome_bind_eq_ok h
  rw [outcome_bind_of_ok (outcome_intern e.id s₂)] at h
  obtain ⟨_, s₃, noted, h⟩ := outcome_bind_eq_ok h
  obtain ⟨rest, s₄, walked, h⟩ := outcome_bind_eq_ok h
  cases h
  have inner := inside join _ _ _ branched
  rw [same] at inner
  have onward := behind join _ _ _ walked
  rw [(silent_noteAfterJoin d join stop).eq_ok noted] at onward
  exact .split going role closes inner onward

theorem branched_cons_of_ok {split join : Element} {index : Nat} {f : Flow} {rest : List Flow}
    {s t : State} {children : List Region}
    (first : ∀ s t items, outcome (walk d opened [] (some join.id) (some f.target)) s = (.ok items, t) →
      Walked d (some join.id) (some f.target) s.numbers items t.numbers)
    (later : ∀ s t children,
      outcome (branches d opened split join (index + 1) rest) s = (.ok children, t) →
        Branched d join rest s.numbers children t.numbers)
    (h : outcome (branches d opened split join index (f :: rest)) s = (.ok children, t)) :
    Branched d join (f :: rest) s.numbers children t.numbers := by
  rw [branches] at h
  obtain ⟨_, s₁, noted, h⟩ := outcome_bind_eq_ok h
  obtain ⟨items, s₂, walked, h⟩ := outcome_bind_eq_ok h
  rw [outcome_bind_of_ok (outcome_fold items s₂)] at h
  obtain ⟨others, s₃, branched, h⟩ := outcome_bind_eq_ok h
  cases h
  have inner := first _ _ _ walked
  rw [(silent_noteBranch split index f.target).eq_ok noted] at inner
  exact .cons inner (later _ _ _ branched)

theorem walked_of_ok (d : Diagram) :
    (∀ (opened seen : List String) (stop : Option String) (current : Option Element)
        (s t : State) (items : List Region),
      outcome (walk d opened seen stop current) s = (.ok items, t) →
        Walked d stop current s.numbers items t.numbers) ∧
    (∀ (opened : List String) (split join : Element) (index : Nat) (flows : List Flow)
        (s t : State) (children : List Region),
      outcome (branches d opened split join index flows) s = (.ok children, t) →
        Branched d join flows s.numbers children t.numbers) := by
  apply walk.mutual_induct d
  case case1 =>
    intro opened seen stop s t items h
    rw [walk] at h
    cases h
    exact .finished
  case case2 =>
    intro opened seen stop e ends s t items h
    rw [walk_of_ends ends] at h
    cases h
    exact .ended ends
  case case3 =>
    intro opened seen stop e going again s t items h
    rw [walk_of_seen going again] at h
    cases h
  case case4 =>
    intro opened seen stop e going fresh role ih s t items h
    rw [walk_of_work going fresh role, outcome_bind_of_ok (outcome_intern e.id s)] at h
    obtain ⟨_, s₁, noted, h⟩ := outcome_bind_eq_ok h
    obtain ⟨rest, s₂, walked, h⟩ := outcome_bind_eq_ok h
    cases h
    have onward := ih _ _ _ walked
    rw [(silent_noteFirstOnly d e).eq_ok noted] at onward
    exact .work going role onward
  case case5 =>
    intro opened seen stop e going fresh role ih s t items h
    rw [walk_of_pass going fresh role] at h
    obtain ⟨_, s₁, noted, h⟩ := outcome_bind_eq_ok h
    have onward := ih _ _ _ h
    rw [(silent_noteFirstOnly d e).eq_ok noted] at onward
    exact .pass going (.inl role) onward
  case case6 =>
    intro opened seen stop e going fresh role ih s t items h
    rw [walk_of_unsupported going fresh role] at h
    obtain ⟨_, s₁, noted, h⟩ := outcome_bind_eq_ok h
    obtain ⟨_, s₂, noted', h⟩ := outcome_bind_eq_ok h
    have onward := ih _ _ _ h
    rw [(silent_noteFirstOnly d e).eq_ok noted',
      (silent_noteUnsupported e).eq_ok noted] at onward
    exact .pass going (.inr role) onward
  case case7 =>
    intro opened seen stop e going fresh role again s t items h
    rw [walk_of_opened going fresh role again] at h
    cases h
  case case8 =>
    intro opened seen stop e going fresh role closed ihBranches ihWalk s t items h
    exact walked_split_of_ok going fresh role closed ihBranches ihWalk h
  case case9 =>
    intro opened split join index s t children h
    rw [branches] at h
    cases h
    exact .nil
  case case10 =>
    intro opened split join index f rest ihWalk ihRest s t children h
    exact branched_cons_of_ok ihWalk ihRest h

/-- A way of at least one flow leads from each of these ids to the element. -/
def Behind (d : Diagram) (ids : List String) (e : Element) : Prop :=
  ∀ id ∈ ids, ∃ f ∈ d.flows, f.source.id = id ∧ d.Leads f.target.id e.id

theorem Behind.mono {ids : List String} {a b : Element} (h : Behind d ids a)
    (leads : d.Leads a.id b.id) : Behind d ids b := by
  intro id hid
  obtain ⟨f, hf, source, onward⟩ := h id hid
  exact ⟨f, hf, source, onward.trans leads⟩

theorem Behind.cons {ids : List String} {a b : Element} (h : Behind d ids a) {f : Flow}
    (hf : f ∈ d.outgoing a) (leads : d.Leads f.target.id b.id) : Behind d (a.id :: ids) b := by
  have onward : d.Leads a.id b.id := Diagram.leads_iff.mpr (.inr ⟨f, hf, leads⟩)
  obtain ⟨hf, source⟩ := Diagram.mem_outgoing.mp hf
  intro id hid
  cases List.mem_cons.mp hid with
  | inl same => exact ⟨f, hf, source.trans same.symm, leads⟩
  | inr earlier => exact h.mono onward id earlier

theorem successor?_eq_some {d : Diagram} {e next : Element} (h : d.successor? e = some next) :
    ∃ f ∈ d.outgoing e, f.target = next := by
  obtain ⟨f, first, rfl⟩ := Option.map_eq_some_iff.mp h
  exact ⟨f, List.mem_of_head? first, rfl⟩

theorem afterJoin?_eq_some {d : Diagram} {join next : Element}
    (h : afterJoin? d join stop = some next) : d.Leads join.id next.id := by
  rw [afterJoin?] at h
  split at h
  · cases h
    exact .refl _
  · obtain ⟨f, hf, rfl⟩ := successor?_eq_some h
    exact Diagram.leads_iff.mpr (.inr ⟨f, hf, .refl _⟩)

/-- Where a walk can stand: within reach of the start, behind all that was opened and seen. -/
structure Ahead (d : Diagram) (start : String) (opened seen : List String) (e : Element) :
    Prop where
  reached : d.Leads start e.id
  opened : Behind d opened e
  seen : Behind d seen e

namespace Ahead

theorem start (e : Element) : Ahead d e.id [] [] e :=
  ⟨.refl _, by simp [Behind], by simp [Behind]⟩

variable {origin : String}

private theorem not_contains (acyclic : ¬ d.CycleFrom origin) (reached : d.Leads origin e.id)
    {ids : List String} (behind : Behind d ids e) : ¬ ids.contains e.id := by
  intro again
  obtain ⟨f, hf, source, leads⟩ := behind e.id (List.contains_iff_mem.mp again)
  exact acyclic ⟨f, hf, source ▸ reached, source ▸ leads⟩

theorem not_seen (h : Ahead d origin opened seen e) (acyclic : ¬ d.CycleFrom origin) :
    ¬ seen.contains e.id :=
  not_contains acyclic h.reached h.seen

theorem not_opened (h : Ahead d origin opened seen e) (acyclic : ¬ d.CycleFrom origin) :
    ¬ opened.contains e.id :=
  not_contains acyclic h.reached h.opened

theorem step (h : Ahead d origin opened seen e) {f : Flow} (hf : f ∈ d.outgoing e)
    {next : Element} (leads : d.Leads f.target.id next.id) :
    Ahead d origin opened (e.id :: seen) next := by
  have onward : d.Leads e.id next.id := Diagram.leads_iff.mpr (.inr ⟨f, hf, leads⟩)
  exact ⟨h.reached.trans onward, h.opened.mono onward, h.seen.cons hf leads⟩

theorem successor (h : Ahead d origin opened seen e) (next : Element)
    (same : d.successor? e = some next) : Ahead d origin opened (e.id :: seen) next := by
  obtain ⟨f, hf, rfl⟩ := successor?_eq_some same
  exact h.step hf (.refl _)

theorem branch (h : Ahead d origin opened seen e) {f : Flow} (hf : f ∈ d.outgoing e) :
    Ahead d origin (e.id :: opened) [] f.target :=
  ⟨(h.step hf (.refl _)).reached, h.opened.cons hf (.refl _), by simp [Behind]⟩

theorem afterJoin (h : Ahead d origin opened seen e) {join : Element}
    (role : roleOf d e = .split) (closes : d.findJoin e = .closesAt join) (next : Element)
    (same : afterJoin? d join stop = some next) : Ahead d origin opened (e.id :: seen) next := by
  obtain ⟨_, _, reached, _⟩ := Diagram.findJoin_spec closes
  obtain ⟨f, hf⟩ := List.exists_mem_of_ne_nil _ (outgoing_ne_nil_of_split role)
  exact h.step hf ((reached f hf).trans (afterJoin?_eq_some same))

end Ahead

/-- With what is opened and seen behind it, the walk is carried out so. -/
def Succeeds (d : Diagram) (start : String) (stop : Option String) (current : Option Element)
    (n : Numbers) (items : List Region) (m : Numbers) : Prop :=
  ∀ (opened seen : List String) (s : State), s.numbers = n →
    (∀ e, current = some e → Ahead d start opened seen e) →
      ∃ t, outcome (walk d opened seen stop current) s = (.ok items, t) ∧ t.numbers = m

def SucceedsEach (d : Diagram) (start : String) (join : Element) (flows : List Flow) (n : Numbers)
    (children : List Region) (m : Numbers) : Prop :=
  ∀ (opened : List String) (split : Element) (index : Nat) (s : State), s.numbers = n →
    (∀ f ∈ flows, Ahead d start opened [] f.target) →
      ∃ t, outcome (branches d opened split join index flows) s = (.ok children, t) ∧ t.numbers = m

section Succeeding

variable {start : String} {n k m : Numbers} {items children others : List Region}

theorem Succeeds.work (acyclic : ¬ d.CycleFrom start) (going : ¬ Ends stop e)
    (role : roleOf d e = .work)
    (h : Succeeds d start stop (d.successor? e) (n.intern e.id).2 items m) :
    Succeeds d start stop (some e) n (.unitTask (n.intern e.id).1 e.name :: items) m := by
  intro opened seen s numbers ahead
  have here := ahead e rfl
  obtain ⟨s₁, interned, same₁⟩ := intern_of_numbers numbers e.id
  obtain ⟨s₂, noted, same₂⟩ := silent_noteFirstOnly d e s₁
  obtain ⟨t, walked, final⟩ := h opened (e.id :: seen) s₂ (same₂.trans same₁) here.successor
  refine ⟨t, ?_, final⟩
  rw [walk_of_work going (here.not_seen acyclic) role, outcome_bind_of_ok interned,
    outcome_bind_of_ok noted, outcome_bind_of_ok walked]
  rfl

theorem Succeeds.pass (acyclic : ¬ d.CycleFrom start) (going : ¬ Ends stop e)
    (role : roleOf d e = .pass ∨ roleOf d e = .unsupported)
    (h : Succeeds d start stop (d.successor? e) n items m) :
    Succeeds d start stop (some e) n items m := by
  intro opened seen s numbers ahead
  have here := ahead e rfl
  cases role with
  | inl role =>
      obtain ⟨s₁, noted, same⟩ := silent_noteFirstOnly d e s
      obtain ⟨t, walked, final⟩ := h opened (e.id :: seen) s₁ (same.trans numbers) here.successor
      refine ⟨t, ?_, final⟩
      rw [walk_of_pass going (here.not_seen acyclic) role, outcome_bind_of_ok noted, walked]
  | inr role =>
      obtain ⟨s₁, noted, same⟩ := silent_noteUnsupported e s
      obtain ⟨s₂, noted', same'⟩ := silent_noteFirstOnly d e s₁
      obtain ⟨t, walked, final⟩ := h opened (e.id :: seen) s₂ (same'.trans (same.trans numbers))
        here.successor
      refine ⟨t, ?_, final⟩
      rw [walk_of_unsupported going (here.not_seen acyclic) role, outcome_bind_of_ok noted,
        outcome_bind_of_ok noted', walked]

theorem Succeeds.split {join : Element} (acyclic : ¬ d.CycleFrom start) (going : ¬ Ends stop e)
    (role : roleOf d e = .split) (closes : d.findJoin e = .closesAt join)
    (inside : SucceedsEach d start join (d.outgoing e) n children k)
    (behind : Succeeds d start stop (afterJoin? d join stop) (k.intern e.id).2 items m) :
    Succeeds d start stop (some e) n (splitRegion e (k.intern e.id).1 children :: items) m := by
  intro opened seen s numbers ahead
  have here := ahead e rfl
  obtain ⟨s₁, found, same₁⟩ := joinOf_of_closesAt closes s
  obtain ⟨s₂, branched, same₂⟩ := inside (e.id :: opened) e 0 s₁ (same₁.trans numbers)
    (fun f hf => here.branch hf)
  obtain ⟨s₃, interned, same₃⟩ := intern_of_numbers same₂ e.id
  obtain ⟨s₄, noted, same₄⟩ := silent_noteAfterJoin d join stop s₃
  obtain ⟨t, walked, final⟩ := behind opened (e.id :: seen) s₄ (same₄.trans same₃)
    (here.afterJoin role closes)
  refine ⟨t, ?_, final⟩
  rw [walk_of_split going (here.not_seen acyclic) role (here.not_opened acyclic),
    outcome_bind_of_ok found, outcome_bind_of_ok branched, outcome_bind_of_ok interned,
    outcome_bind_of_ok noted, outcome_bind_of_ok walked]
  rfl

theorem SucceedsEach.cons {join : Element} {f : Flow} {rest : List Flow}
    (first : Succeeds d start (some join.id) (some f.target) n items k)
    (later : SucceedsEach d start join rest (k.fold items).2 others m) :
    SucceedsEach d start join (f :: rest) n ((k.fold items).1 :: others) m := by
  intro opened split index s numbers ahead
  rw [List.forall_mem_cons] at ahead
  obtain ⟨s₁, noted, same₁⟩ := silent_noteBranch split index f.target s
  obtain ⟨s₂, walked, same₂⟩ := first opened [] s₁ (same₁.trans numbers)
    (fun e here => Option.some.inj here ▸ ahead.1)
  obtain ⟨s₃, folded, same₃⟩ := fold_of_numbers same₂ items
  obtain ⟨t, branched, final⟩ := later opened split (index + 1) s₃ same₃ ahead.2
  refine ⟨t, ?_, final⟩
  rw [branches, outcome_bind_of_ok noted, outcome_bind_of_ok walked,
    outcome_bind_of_ok folded, outcome_bind_of_ok branched]
  rfl

/-- With no cycle ahead a derived walk is carried out, whatever was seen or opened before. -/
theorem ok_of_walked (acyclic : ¬ d.CycleFrom start) :
    (∀ stop current n items m, Walked d stop current n items m →
      Succeeds d start stop current n items m) ∧
    (∀ join flows n children m, Branched d join flows n children m →
      SucceedsEach d start join flows n children m) := by
  apply walked_induction
  case finished =>
    intro stop n opened seen s numbers _
    rw [walk]
    exact ⟨s, rfl, numbers⟩
  case ended =>
    intro stop e n ends opened seen s numbers _
    rw [walk_of_ends ends]
    exact ⟨s, rfl, numbers⟩
  case work => exact fun _ _ _ _ _ going role _ ih => ih.work acyclic going role
  case pass => exact fun _ _ _ _ _ going role _ ih => ih.pass acyclic going role
  case split =>
    intro stop e join n k m children items going role closes _ _ inside behind
    exact .split acyclic going role closes inside behind
  case nil =>
    intro join n opened split index s numbers _
    rw [branches]
    exact ⟨s, rfl, numbers⟩
  case cons => exact fun _ _ _ _ _ _ _ _ _ _ first later => .cons first later

end Succeeding

end ProcessDiagram.Compilation
