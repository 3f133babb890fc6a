import ProcessDiagram.Proofs.Compilation.Runs
import ProcessDiagram.Proofs.Region.Synthetic

/-!
A compiler that is kept from one walk to the next. It has its own numbers and its own open splits:
a walk finds what earlier ones left behind, whether they came to an end or failed. A split is
opened before its branches are walked and closed whichever way they go.

Every region that is made goes on record at once, with the element that it stands for or as one
that folding added. So the record also holds what a failed walk had made before it failed.

Main statements: `Walks.runs` and `exists_walks`, by which such a compiler walks as `walk` does.
-/
namespace ProcessDiagram.Compilation

/-- What a compiler keeps; the regions on record play no part in what it does. -/
structure Compiler where
  state : State
  opened : List String
  named : List (Element × Region)
  joints : List Region

namespace Compiler

def start (d : Diagram) (given : Option Numbering) : Compiler :=
  ⟨State.start d given, [], [], []⟩

/-- The compiler in the state that a computation leaves. -/
def after {α : Type} (c : Compiler) (x : Compilation α) : Compiler :=
  { c with state := (outcome x c.state).2 }

def hold (c : Compiler) (id : String) : Compiler :=
  { c with opened := id :: c.opened }

def release (c : Compiler) (id : String) : Compiler :=
  { c with opened := c.opened.filter (· ≠ id) }

/-- The number that the element has or gets. -/
def number (c : Compiler) (e : Element) : Int :=
  (c.state.numbering.intern e.id).1

def make (c : Compiler) (e : Element) (r : Region) : Compiler :=
  { c.after (intern e.id) with named := c.named ++ [(e, r)] }

def folded (c : Compiler) (items : List Region) : Region :=
  (Region.fold items c.state.nextSynthetic).1

def fold (c : Compiler) (items : List Region) : Compiler :=
  { c.after (Compilation.fold items) with
    joints := c.joints ++ Region.joints items c.state.nextSynthetic }

end Compiler

abbrev Answer := Except StructuralError (List Region)

mutual

/-- A walk, begun by a compiler, comes to this answer and leaves the compiler so. -/
inductive Walks (d : Diagram) :
    List String → Option String → Option Element → Compiler → Answer → Compiler → Prop
  | finished {seen : List String} {stop : Option String} {c : Compiler} :
      Walks d seen stop none c (.ok []) c
  | ended {seen : List String} {stop : Option String} {e : Element} {c : Compiler} :
      Ends stop e → Walks d seen stop (some e) c (.ok []) c
  | again {seen : List String} {stop : Option String} {e : Element} {c : Compiler} :
      ¬ Ends stop e → seen.contains e.id →
        Walks d seen stop (some e) c (.error (.revisited e.id)) c
  | work {seen : List String} {stop : Option String} {e : Element} {c c' : Compiler} {r : Answer} :
      ¬ Ends stop e → ¬ seen.contains e.id → roleOf d e = .work →
        Walks d (e.id :: seen) stop (d.successor? e)
          ((c.make e (.unitTask (c.number e) e.name)).after (noteFirstOnly d e)) r c' →
            Walks d seen stop (some e) c (r.map (.unitTask (c.number e) e.name :: ·)) c'
  | pass {seen : List String} {stop : Option String} {e : Element} {c c' : Compiler} {r : Answer} :
      ¬ Ends stop e → ¬ seen.contains e.id → roleOf d e = .pass →
        Walks d (e.id :: seen) stop (d.successor? e) (c.after (noteFirstOnly d e)) r c' →
          Walks d seen stop (some e) c r c'
  | unsupported {seen : List String} {stop : Option String} {e : Element} {c c' : Compiler}
      {r : Answer} :
      ¬ Ends stop e → ¬ seen.contains e.id → roleOf d e = .unsupported →
        Walks d (e.id :: seen) stop (d.successor? e)
          ((c.after (noteUnsupported e)).after (noteFirstOnly d e)) r c' →
            Walks d seen stop (some e) c r c'
  | inside {seen : List String} {stop : Option String} {e : Element} {c : Compiler} :
      ¬ Ends stop e → ¬ seen.contains e.id → roleOf d e = .split → c.opened.contains e.id →
        Walks d seen stop (some e) c (.error (.reopened e.id)) c
  | unjoined {seen : List String} {stop : Option String} {e : Element} {c : Compiler}
      {err : StructuralError} :
      ¬ Ends stop e → ¬ seen.contains e.id → roleOf d e = .split → ¬ c.opened.contains e.id →
        (outcome (joinOf d e) c.state).1 = .error err →
          Walks d seen stop (some e) c (.error err) (c.after (joinOf d e))
  | fails {seen : List String} {stop : Option String} {e join : Element} {c c' : Compiler}
      {err : StructuralError} :
      ¬ Ends stop e → ¬ seen.contains e.id → roleOf d e = .split → ¬ c.opened.contains e.id →
        (outcome (joinOf d e) c.state).1 = .ok join →
          WalksAll d e join 0 (d.outgoing e) ((c.after (joinOf d e)).hold e.id) (.error err) c' →
            Walks d seen stop (some e) c (.error err) (c'.release e.id)
  | split {seen : List String} {stop : Option String} {e join : Element} {c c₁ c' : Compiler}
      {children : List Region} {r : Answer} :
      ¬ Ends stop e → ¬ seen.contains e.id → roleOf d e = .split → ¬ c.opened.contains e.id →
        (outcome (joinOf d e) c.state).1 = .ok join →
          WalksAll d e join 0 (d.outgoing e) ((c.after (joinOf d e)).hold e.id) (.ok children) c₁ →
            Walks d (e.id :: seen) stop (afterJoin? d join stop)
              (((c₁.release e.id).make e (splitRegion e (c₁.number e) children)).after
                (noteAfterJoin d join stop)) r c' →
                Walks d seen stop (some e) c
                  (r.map (splitRegion e (c₁.number e) children :: ·)) c'

/-- The same for the walks along the flows out of a split. -/
inductive WalksAll (d : Diagram) :
    Element → Element → Nat → List Flow → Compiler → Answer → Compiler → Prop
  | nil {split join : Element} {index : Nat} {c : Compiler} :
      WalksAll d split join index [] c (.ok []) c
  | fails {split join : Element} {index : Nat} {f : Flow} {rest : List Flow} {c c' : Compiler}
      {err : StructuralError} :
      Walks d [] (some join.id) (some f.target) (c.after (noteBranch split index f.target))
        (.error err) c' →
          WalksAll d split join index (f :: rest) c (.error err) c'
  | cons {split join : Element} {index : Nat} {f : Flow} {rest : List Flow} {c c₁ c' : Compiler}
      {items : List Region} {r : Answer} :
      Walks d [] (some join.id) (some f.target) (c.after (noteBranch split index f.target))
        (.ok items) c₁ →
          WalksAll d split join (index + 1) rest (c₁.fold items) r c' →
            WalksAll d split join index (f :: rest) c (r.map (c₁.folded items :: ·)) c'

end

variable {d : Diagram}

theorem Silent.ends {x : Compilation Unit} (h : Silent x) (s : State) :
    outcome x s = (.ok (), (outcome x s).2) := by
  obtain ⟨t, carried, _⟩ := h s
  rw [carried]

/-- Closing a split undoes its opening, since it was not open before. -/
theorem Compiler.opened_release {c c' : Compiler} {id : String} (closed : ¬ c.opened.contains id)
    (opened : c'.opened = id :: c.opened) : (c'.release id).opened = c.opened := by
  have absent : id ∉ c.opened := by simpa using closed
  change c'.opened.filter (· ≠ id) = c.opened
  rw [opened, List.filter_cons_of_neg (by simp), List.filter_eq_self]
  intro other hother
  simpa using fun same : other = id => absent (same ▸ hother)

theorem Walks.runs {seen : List String} {stop : Option String} {current : Option Element}
    {c c' : Compiler} {r : Answer} (h : Walks d seen stop current c r c') :
    Runs d c.opened seen stop current c.state (r, c'.state) ∧ c'.opened = c.opened := by
  refine @Walks.rec d
    (fun seen stop current c r c' _ =>
      Runs d c.opened seen stop current c.state (r, c'.state) ∧ c'.opened = c.opened)
    (fun split join index flows c r c' _ =>
      RunsAll d c.opened split join index flows c.state (r, c'.state) ∧ c'.opened = c.opened)
    ?finished ?ended ?again ?work ?pass ?unsupported ?inside ?unjoined ?fails ?split
    ?noFlow ?flowFails ?flow _ _ _ _ _ _ h
  case finished =>
    intro seen stop c
    exact ⟨.finished, rfl⟩
  case ended =>
    intro seen stop e c ends
    exact ⟨.ended ends, rfl⟩
  case again =>
    intro seen stop e c going again
    exact ⟨.again going again, rfl⟩
  case work =>
    intro seen stop e c c' r going fresh role _ ⟨rest, opened⟩
    exact ⟨.work going fresh role (outcome_intern e.id c.state)
      ((silent_noteFirstOnly d e).ends _) rest, opened⟩
  case pass =>
    intro seen stop e c c' r going fresh role _ ⟨rest, opened⟩
    exact ⟨.pass going fresh role ((silent_noteFirstOnly d e).ends _) rest, opened⟩
  case unsupported =>
    intro seen stop e c c' r going fresh role _ ⟨rest, opened⟩
    exact ⟨.unsupported going fresh role ((silent_noteUnsupported e).ends _)
      ((silent_noteFirstOnly d e).ends _) rest, opened⟩
  case inside =>
    intro seen stop e c going fresh role again
    exact ⟨.inside going fresh role again, rfl⟩
  case unjoined =>
    intro seen stop e c err going fresh role closed missing
    exact ⟨.unjoined going fresh role closed (Prod.ext missing rfl), rfl⟩
  case fails =>
    intro seen stop e join c c' err going fresh role closed found _ ⟨branches, opened⟩
    exact ⟨.fails going fresh role closed (Prod.ext found rfl) branches,
      Compiler.opened_release closed opened⟩
  case split =>
    intro seen stop e join c c₁ c' children r going fresh role closed found _ _
      ⟨branches, opened⟩ ⟨rest, opened'⟩
    -- The walk behind the join sets out with the splits that were open before the branches.
    have same := Compiler.opened_release closed opened
    have onward : Runs d c.opened (e.id :: seen) stop (afterJoin? d join stop) _ (r, c'.state) :=
      same ▸ rest
    exact ⟨.split going fresh role closed (Prod.ext found rfl) branches
      (outcome_intern e.id c₁.state) ((silent_noteAfterJoin d join stop).ends _) onward,
      opened'.trans same⟩
  case noFlow =>
    intro split join index c
    exact ⟨.nil, rfl⟩
  case flowFails =>
    intro split join index f rest c c' err _ ⟨walk, opened⟩
    exact ⟨.fails ((silent_noteBranch split index f.target).ends _) walk, opened⟩
  case flow =>
    intro split join index f rest c c₁ c' items r _ _ ⟨walk, opened⟩ ⟨others, opened'⟩
    have onward : RunsAll d c.opened split join (index + 1) rest _ (r, c'.state) := opened ▸ others
    exact ⟨.cons ((silent_noteBranch split index f.target).ends _) walk
      (outcome_fold items c₁.state) onward, opened'.trans opened⟩

theorem WalksAll.opened_eq {split join : Element} {index : Nat} {flows : List Flow}
    {c c' : Compiler} {r : Answer} (h : WalksAll d split join index flows c r c') :
    c'.opened = c.opened := by
  induction flows generalizing index c r with
  | nil =>
      cases h
      rfl
  | cons f rest ih =>
      cases h with
      | fails walk => exact walk.runs.2
      | cons walk others => exact (ih others).trans walk.runs.2

/-- Every compiler carries out every walk, to an answer or a failure. -/
theorem exists_walks (d : Diagram) :
    (∀ (opened seen : List String) (stop : Option String) (current : Option Element)
      (c : Compiler), c.opened = opened → ∃ r c', Walks d seen stop current c r c') ∧
    (∀ (opened : List String) (split join : Element) (index : Nat) (flows : List Flow)
      (c : Compiler), c.opened = opened → ∃ r c', WalksAll d split join index flows c r c') := by
  apply walk.mutual_induct d
  case case1 =>
    intro opened seen stop c _
    exact ⟨_, c, .finished⟩
  case case2 =>
    intro opened seen stop e ends c _
    exact ⟨_, c, .ended ends⟩
  case case3 =>
    intro opened seen stop e going again c _
    exact ⟨_, c, .again going again⟩
  case case4 =>
    intro opened seen stop e going fresh role ih c same
    obtain ⟨r, c', rest⟩ :=
      ih ((c.make e (.unitTask (c.number e) e.name)).after (noteFirstOnly d e)) same
    exact ⟨_, c', .work going fresh role rest⟩
  case case5 =>
    intro opened seen stop e going fresh role ih c same
    obtain ⟨r, c', rest⟩ := ih (c.after (noteFirstOnly d e)) same
    exact ⟨r, c', .pass going fresh role rest⟩
  case case6 =>
    intro opened seen stop e going fresh role ih c same
    obtain ⟨r, c', rest⟩ := ih ((c.after (noteUnsupported e)).after (noteFirstOnly d e)) same
    exact ⟨r, c', .unsupported going fresh role rest⟩
  case case7 =>
    intro opened seen stop e going fresh role again c same
    exact ⟨_, c, .inside going fresh role (same ▸ again)⟩
  case case8 =>
    intro opened seen stop e going fresh role closed ihBranches ihWalk c same
    have closed : ¬ c.opened.contains e.id := same ▸ closed
    cases found : (outcome (joinOf d e) c.state).1 with
    | error err => exact ⟨_, _, .unjoined going fresh role closed found⟩
    | ok join =>
        obtain ⟨r, c₁, branches⟩ :=
          ihBranches join ((c.after (joinOf d e)).hold e.id) (congrArg (e.id :: ·) same)
        cases r with
        | error err => exact ⟨_, _, .fails going fresh role closed found branches⟩
        | ok children =>
            obtain ⟨r, c', rest⟩ := ihWalk join
              (((c₁.release e.id).make e (splitRegion e (c₁.number e) children)).after
                (noteAfterJoin d join stop))
              ((Compiler.opened_release closed branches.opened_eq).trans same)
            exact ⟨_, c', .split going fresh role closed found branches rest⟩
  case case9 =>
    intro opened split join index c _
    exact ⟨_, c, .nil⟩
  case case10 =>
    intro opened split join index f rest ihWalk ihRest c same
    obtain ⟨r, c₁, walk⟩ := ihWalk (c.after (noteBranch split index f.target)) same
    cases r with
    | error err => exact ⟨_, c₁, .fails walk⟩
    | ok items =>
        obtain ⟨r, c', others⟩ := ihRest (c₁.fold items) (walk.runs.2.trans same)
        exact ⟨_, c', .cons walk others⟩

end ProcessDiagram.Compilation
