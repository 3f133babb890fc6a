import ProcessDiagram.Proofs.Compilation.Compiler
import ProcessDiagram.Proofs.Compilation.Named
import Mathlib.Logic.Relation

/-!
Series of calls to one compiler. On its way through a call a compiler only ever takes one of a few
steps, so what every step keeps holds after any series of calls, whatever calls failed in between.

Main statements: `Serves.steps`, `Served.accounts` and `Served.sound`.
-/
namespace ProcessDiagram.Compilation

open Region

namespace Compiler

/-- One thing done on a walk. A region of an element has the element's number. -/
inductive Step (d : Diagram) : Compiler → Compiler → Prop
  | report {c : Compiler} {s : State} :
      s.numbers = c.state.numbers → Step d c { c with state := s }
  | hold (c : Compiler) (id : String) : Step d c (c.hold id)
  | release (c : Compiler) (id : String) : Step d c (c.release id)
  | make {c : Compiler} {e : Element} {r : Region} :
      e ∈ d.nodes → Stands d e r → r.id = c.number e → Step d c (c.make e r)
  | fold (c : Compiler) (items : List Region) : Step d c (c.fold items)

abbrev Steps (d : Diagram) : Compiler → Compiler → Prop :=
  Relation.ReflTransGen (Step d)

/-- The region is on record. -/
def Made (c : Compiler) (r : Region) : Prop :=
  r ∈ c.joints ∨ ∃ e, (e, r) ∈ c.named

/-- Numbers and records grow at their end. -/
structure Onward (c c' : Compiler) : Prop where
  numbers : Grows c.state.numbers c'.state.numbers
  named : c.named <+: c'.named
  joints : c.joints <+: c'.joints

variable {d : Diagram} {c c₁ c' : Compiler}

theorem Step.onward (h : Step d c c') : Onward c c' := by
  cases h with
  | @report s same =>
      have numbers : Grows c.state.numbers s.numbers := same ▸ .refl _
      exact ⟨numbers, List.prefix_rfl, List.prefix_rfl⟩
  | hold | release => exact ⟨.refl _, List.prefix_rfl, List.prefix_rfl⟩
  | make => exact ⟨.intern _ _, List.prefix_append _ _, List.prefix_rfl⟩
  | fold => exact ⟨.fold _ _, List.prefix_rfl, List.prefix_append _ _⟩

theorem Steps.onward (h : Steps d c c') : Onward c c' := by
  induction h with
  | refl => exact ⟨.refl _, List.prefix_rfl, List.prefix_rfl⟩
  | tail _ step ih =>
      obtain ⟨numbers, named, joints⟩ := step.onward
      exact ⟨ih.numbers.trans numbers, ih.named.trans named, ih.joints.trans joints⟩

theorem Steps.made (h : Steps d c c') {r : Region} (made : c.Made r) : c'.Made r := by
  obtain ⟨_, named, joints⟩ := h.onward
  cases made with
  | inl joint => exact .inl (joints.subset joint)
  | inr stands =>
      obtain ⟨e, mem⟩ := stands
      exact .inr ⟨e, named.subset mem⟩

theorem Step.reports {x : Compilation Unit} (h : Silent x) (c : Compiler) :
    Step d c (c.after x) :=
  .report (h.eq_ok (h.ends c.state))

theorem Step.joins (d : Diagram) (c : Compiler) (e : Element) : Step d c (c.after (joinOf d e)) :=
  .report (numbers_joinOf d e c.state)

theorem made_make (c : Compiler) (e : Element) (r : Region) : (c.make e r).Made r :=
  .inr ⟨e, List.mem_append_right _ (List.mem_singleton_self _)⟩

theorem made_fold {items : List Region} (made : ∀ x ∈ preorderAll items, c.Made x) :
    ∀ x ∈ (c.folded items).preorder, (c.fold items).Made x := by
  intro x hx
  cases mem_preorder_fold.mp hx with
  | inl joint => exact .inl (List.mem_append_right _ joint)
  | inr old => exact (made x old).imp (List.mem_append_left _) id

/-- The compiler got from one state to the other by its steps, and all that it answers is on
record. -/
structure Carried (d : Diagram) (c : Compiler) (r : Answer) (c' : Compiler) : Prop where
  steps : Steps d c c'
  made : ∀ rows, r = .ok rows → ∀ x ∈ preorderAll rows, c'.Made x

namespace Carried

variable {r : Answer}

theorem none (c : Compiler) : Carried d c (.ok []) c := by
  refine ⟨.refl, ?_⟩
  intro rows same x hx
  cases same
  cases hx

theorem failed {err : StructuralError} (steps : Steps d c c') : Carried d c (.error err) c' :=
  ⟨steps, nofun⟩

theorem after (steps : Steps d c c₁) (h : Carried d c₁ r c') : Carried d c r c' :=
  ⟨steps.trans h.steps, h.made⟩

theorem cons {first : Region} (steps : Steps d c c₁) (made : ∀ x ∈ first.preorder, c₁.Made x)
    (h : Carried d c₁ r c') : Carried d c (r.map (first :: ·)) c' := by
  refine ⟨steps.trans h.steps, ?_⟩
  intro rows same x hx
  cases r with
  | error err => cases same
  | ok rest =>
      cases same
      rw [preorderAll_cons, List.mem_append] at hx
      cases hx with
      | inl here => exact h.steps.made (made x here)
      | inr later => exact h.made rest rfl x later

theorem work {e : Element} (node : e ∈ d.nodes) (role : roleOf d e = .work)
    (h : Carried d ((c.make e (.unitTask (c.number e) e.name)).after (noteFirstOnly d e)) r c') :
    Carried d c (r.map (.unitTask (c.number e) e.name :: ·)) c' := by
  have made : Step d c (c.make e (.unitTask (c.number e) e.name)) :=
    .make node (.work (isActivity_of_work role)) rfl
  refine .cons (.tail (.single made) (.reports (silent_noteFirstOnly d e) _)) ?_ h
  intro x hx
  cases List.mem_singleton.mp hx
  exact made_make c e _

end Carried

/-- The walks along the flows out of a split, of which each gives one region. -/
structure CarriedAll (d : Diagram) (flows : List Flow) (c : Compiler) (r : Answer) (c' : Compiler) :
    Prop where
  carried : Carried d c r c'
  each : ∀ rows, r = .ok rows → rows.length = flows.length

section Splits

variable {r : Answer} {children items : List Region} {e gateway join : Element} {index : Nat}
  {f : Flow} {rest : List Flow}

theorem CarriedAll.nil (c : Compiler) : CarriedAll d [] c (.ok []) c := by
  refine ⟨.none c, ?_⟩
  intro rows same
  cases same
  rfl

theorem CarriedAll.fails {err : StructuralError}
    (first : Carried d (c.after (noteBranch gateway index f.target)) (.error err) c') :
    CarriedAll d (f :: rest) c (.error err) c' :=
  ⟨.after (.single (.reports (silent_noteBranch gateway index f.target) c)) first, nofun⟩

theorem CarriedAll.cons
    (first : Carried d (c.after (noteBranch gateway index f.target)) (.ok items) c₁)
    (others : CarriedAll d rest (c₁.fold items) r c') :
    CarriedAll d (f :: rest) c (r.map (c₁.folded items :: ·)) c' := by
  have walked : Steps d c c₁ :=
    .head (.reports (silent_noteBranch gateway index f.target) c) first.steps
  refine ⟨.cons (walked.tail (.fold c₁ items)) (made_fold (first.made items rfl)) others.carried, ?_⟩
  intro rows same
  cases r with
  | error err => cases same
  | ok rest' =>
      cases same
      exact congrArg Nat.succ (others.each rest' rfl)

theorem Steps.opening (d : Diagram) (c : Compiler) (e : Element) :
    Steps d c ((c.after (joinOf d e)).hold e.id) :=
  .tail (.single (.joins d c e)) (.hold _ e.id)

/-- After the branches the split is closed again, and then its region is made. -/
theorem Carried.split (node : e ∈ d.nodes) (role : roleOf d e = .split) {stop : Option String}
    (inner : CarriedAll d (d.outgoing e) ((c.after (joinOf d e)).hold e.id) (.ok children) c₁)
    (h : Carried d (((c₁.release e.id).make e (splitRegion e (c₁.number e) children)).after
      (noteAfterJoin d join stop)) r c') :
    Carried d c (r.map (splitRegion e (c₁.number e) children :: ·)) c' := by
  have closed : Steps d c (c₁.release e.id) :=
    ((Steps.opening d c e).trans inner.carried.steps).tail (.release c₁ e.id)
  have made : Step d (c₁.release e.id)
      ((c₁.release e.id).make e (splitRegion e (c₁.number e) children)) :=
    .make node (stands_splitRegion role (inner.each children rfl)) (id_splitRegion ..)
  refine .cons ((closed.tail made).tail (.reports (silent_noteAfterJoin d join stop) _)) ?_ h
  intro x hx
  rw [preorder_eq, children_splitRegion, List.mem_cons] at hx
  obtain rfl | below := hx
  · exact made_make _ e _
  · exact Steps.made (.tail (.single (.release c₁ e.id)) made)
      (inner.carried.made children rfl x below)

end Splits

end Compiler

open Compiler

variable {d : Diagram}

theorem node_of_role (c : d.Consistent) {e : Element} (known : e ∈ d.root :: d.nodes)
    (busy : roleOf d e = .work ∨ roleOf d e = .split) : e ∈ d.nodes := by
  refine (List.mem_cons.mp known).resolve_left ?_
  rintro rfl
  rcases c.rootKind with kind | kind <;>
    simp [roleOf, kind, ElementKind.isActivity, ElementKind.isGateway] at busy

/-- A walk that sets out from an element of the diagram is made of such steps. -/
theorem Walks.carried (c₀ : d.Consistent) {seen : List String} {stop : Option String}
    {current : Option Element} {c c' : Compiler} {r : Answer}
    (h : Walks d seen stop current c r c') (known : ∀ e ∈ current, e ∈ d.root :: d.nodes) :
    Carried d c r c' := by
  have next : ∀ e, ∀ e' ∈ d.successor? e, e' ∈ d.root :: d.nodes :=
    fun e e' here => List.mem_cons_of_mem _ (successor?_mem c₀ here)
  have out : ∀ e, ∀ f ∈ d.outgoing e, f.target ∈ d.root :: d.nodes :=
    fun e f hf => List.mem_cons_of_mem _ (c₀.target_mem hf)
  refine @Walks.rec d
    (fun seen stop current c r c' _ => (∀ e ∈ current, e ∈ d.root :: d.nodes) → Carried d c r c')
    (fun split join index flows c r c' _ => (∀ f ∈ flows, f.target ∈ d.root :: d.nodes) →
      CarriedAll d flows c r c')
    ?finished ?ended ?again ?work ?pass ?unsupported ?inside ?unjoined ?fails ?split
    ?noFlow ?flowFails ?flow _ _ _ _ _ _ h known
  case finished =>
    intro seen stop c _
    exact .none c
  case ended =>
    intro seen stop e c _ _
    exact .none c
  case again =>
    intro seen stop e c _ _ _
    exact .failed .refl
  case work =>
    intro seen stop e c c' r _ _ role _ ih known
    exact .work (node_of_role c₀ (known e rfl) (.inl role)) role (ih (next e))
  case pass =>
    intro seen stop e c c' r _ _ _ _ ih _
    exact .after (.single (.reports (silent_noteFirstOnly d e) c)) (ih (next e))
  case unsupported =>
    intro seen stop e c c' r _ _ _ _ ih _
    have told := Step.reports (d := d) (silent_noteUnsupported e) c
    exact .after (.tail (.single told) (.reports (silent_noteFirstOnly d e) _)) (ih (next e))
  case inside =>
    intro seen stop e c _ _ _ _ _
    exact .failed .refl
  case unjoined =>
    intro seen stop e c err _ _ _ _ _ _
    exact .failed (.single (.joins d c e))
  case fails =>
    intro seen stop e join c c' err _ _ _ _ _ _ ih _
    have inner := (ih (out e)).carried.steps
    exact .failed (((Steps.opening d c e).trans inner).tail (.release c' e.id))
  case split =>
    intro seen stop e join c c₁ c' children r _ _ role _ found _ _ ihAll ih known
    have joinNode := (Diagram.findJoin_spec (joinOf_eq_ok (Prod.ext found rfl)).1).1
    have behind : ∀ x ∈ afterJoin? d join stop, x ∈ d.root :: d.nodes :=
      fun x here => List.mem_cons_of_mem _ (afterJoin?_mem c₀ joinNode here)
    exact .split (node_of_role c₀ (known e rfl) (.inr role)) role (ihAll (out e)) (ih behind)
  case noFlow =>
    intro split join index c _
    exact .nil c
  case flowFails =>
    intro split join index f rest c c' err _ ih known
    exact .fails (ih fun e here => Option.some.inj here ▸ known f List.mem_cons_self)
  case flow =>
    intro split join index f rest c c₁ c' items r _ _ ih ihRest known
    exact .cons (ih fun e here => Option.some.inj here ▸ known f List.mem_cons_self)
      (ihRest fun g hg => known g (List.mem_cons_of_mem _ hg))

/-- A call to a compiler: a walk between two elements, or the folding of a row of regions. -/
inductive Call
  | walk (start stop : Option Element)
  | fold (items : List Region)

namespace Call

/-- Walks are between elements of the diagram. -/
def Known (d : Diagram) : Call → Prop
  | walk start stop =>
    (∀ e ∈ start, e ∈ d.root :: d.nodes) ∧ ∀ e ∈ stop, e ∈ d.root :: d.nodes
  | fold _ => True

/-- The regions that the caller brings along. -/
def brought : Call → List Region
  | walk .. => []
  | fold items => preorderAll items

end Call

/-- A call is answered so, and leaves the compiler so. -/
inductive Serves (d : Diagram) : Compiler → Call → Answer → Compiler → Prop
  | walk {c c' : Compiler} {start stop : Option Element} {r : Answer} :
      (Call.walk start stop).Known d → Walks d [] (stop.map (·.id)) start c r c' →
        Serves d c (.walk start stop) r c'
  | fold (c : Compiler) (items : List Region) :
      Serves d c (.fold items) (.ok [c.folded items]) (c.fold items)

/-- The compiler has answered these calls since it was in the first state. -/
inductive Served (d : Diagram) (first : Compiler) : List (Call × Answer) → Compiler → Prop
  | nothing : Served d first [] first
  | call {record : List (Call × Answer)} {c c' : Compiler} {call : Call} {r : Answer} :
      Served d first record c → Serves d c call r c' → Served d first (record ++ [(call, r)]) c'

/-- What an answer is made of is on record, or the caller has brought it along. -/
def Accounts (made : Region → Prop) (answered : Call × Answer) : Prop :=
  ∀ rows, answered.2 = .ok rows → ∀ r ∈ preorderAll rows, made r ∨ r ∈ answered.1.brought

section Calls

variable {first c c' : Compiler} {call : Call} {r : Answer} {record : List (Call × Answer)}

theorem Serves.opened_eq (h : Serves d c call r c') : c'.opened = c.opened := by
  cases h with
  | walk _ walks => exact walks.runs.2
  | fold => rfl

theorem Serves.steps (c₀ : d.Consistent) (h : Serves d c call r c') : Steps d c c' := by
  cases h with
  | walk known walks => exact (walks.carried c₀ known.1).steps
  | fold items => exact .single (.fold c items)

theorem Serves.accounts (c₀ : d.Consistent) (h : Serves d c call r c') :
    Accounts c'.Made (call, r) := by
  intro rows same x hx
  cases h with
  | walk known walks => exact .inl ((walks.carried c₀ known.1).made rows same x hx)
  | fold items =>
      cases same
      rw [preorderAll_singleton] at hx
      exact (mem_preorder_fold.mp hx).imp_left fun joint => .inl (List.mem_append_right _ joint)

theorem Served.opened_eq (h : Served d first record c) : c.opened = first.opened := by
  induction h with
  | nothing => rfl
  | call _ served ih => exact served.opened_eq.trans ih

theorem Served.steps (c₀ : d.Consistent) (h : Served d first record c) : Steps d first c := by
  induction h with
  | nothing => exact .refl
  | call _ served ih => exact ih.trans (served.steps c₀)

theorem Served.accounts (c₀ : d.Consistent) (h : Served d first record c) :
    ∀ answered ∈ record, Accounts c.Made answered := by
  induction h with
  | nothing => exact fun _ mem => absurd mem List.not_mem_nil
  | call _ served ih =>
      intro answered mem
      cases List.mem_append.mp mem with
      | inl old =>
          intro rows same x hx
          exact (ih answered old rows same x hx).imp_left (served.steps c₀).made
      | inr new =>
          cases List.mem_singleton.mp new
          exact served.accounts c₀

end Calls

/-- The regions on record stand for elements of the diagram and have their numbers. -/
def Numbered (d : Diagram) (n : Numbering) (named : List (Element × Region)) : Prop :=
  ∀ p ∈ named, p.1 ∈ d.nodes ∧ Stands d p.1 p.2 ∧ p.1.id ∈ n.ids ∧ p.2.id = n.number p.1.id

theorem Numbered.mono {n m : Numbering} {named : List (Element × Region)}
    (h : Numbered d n named) (grown : n.ids <+: m.ids) : Numbered d m named := by
  intro p hp
  obtain ⟨node, stands, known, number⟩ := h p hp
  have kept := congrArg (Nat.cast (R := Int)) (Numbering.number_of_grown grown known)
  exact ⟨node, stands, grown.subset known, number.trans kept.symm⟩

/-- What holds of a compiler at all times. -/
structure Sound (d : Diagram) (c : Compiler) : Prop where
  numbered : Numbered d c.state.numbering c.named
  synthetic : ∀ r ∈ c.joints, Synthetic r
  above : (d.nodes.length : Int) < c.state.nextSynthetic
  supplied : Supplied (d.nodes.length + 1) c.state.nextSynthetic (c.joints.map (·.id))

theorem Sound.start (d : Diagram) (given : Option Numbering) : Sound d (.start d given) :=
  ⟨nofun, nofun, Int.lt_succ _, .none _⟩

theorem Compiler.Step.sound {c c' : Compiler} (h : Step d c c') (s : Sound d c) : Sound d c' := by
  cases h with
  | @report t same =>
      have numbering : t.numbering = c.state.numbering := congrArg Numbers.numbering same
      have next : t.nextSynthetic = c.state.nextSynthetic := congrArg Numbers.nextSynthetic same
      exact ⟨numbering ▸ s.numbered, s.synthetic, next ▸ s.above, next ▸ s.supplied⟩
  | hold | release => exact ⟨s.numbered, s.synthetic, s.above, s.supplied⟩
  | @make e r node stands here =>
      refine ⟨?_, s.synthetic, s.above, s.supplied⟩
      intro p hp
      cases List.mem_append.mp hp with
      | inl old => exact s.numbered.mono (Numbering.prefix_intern _ e.id) p old
      | inr new =>
          cases List.mem_singleton.mp new
          exact ⟨node, stands, Numbering.mem_intern _ _,
            here.trans (congrArg Nat.cast (Numbering.intern_fst _ e.id))⟩
  | fold items =>
      have up := le_fold items c.state.nextSynthetic
      have above := s.above
      refine ⟨s.numbered, ?_, Int.lt_of_lt_of_le above up, ?_⟩
      · intro r hr
        cases List.mem_append.mp hr with
        | inl old => exact s.synthetic r old
        | inr new => exact synthetic_joints items _ r new
      · change Supplied _ _ ((c.joints ++ Region.joints items _).map (·.id))
        rw [List.map_append]
        exact s.supplied.append (supplied_joints items _) (by omega) up

theorem Compiler.Steps.sound {c c' : Compiler} (h : Steps d c c') (s : Sound d c) :
    Sound d c' := by
  induction h with
  | refl => exact s
  | tail _ step ih => exact step.sound ih

theorem Served.sound (c₀ : d.Consistent) {given : Option Numbering}
    {record : List (Call × Answer)} {c : Compiler} (h : Served d (.start d given) record c) :
    Sound d c :=
  (h.steps c₀).sound (.start d given)

end ProcessDiagram.Compilation
