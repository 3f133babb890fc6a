import ProcessDiagram.Proofs.Compilation.Calls

/-!
Several compilers over one numbering. A compiler takes over a numbering that is in use and from then
on numbers elements in it, side by side with all others; an empty one it leaves to its owner, so
compilers that were given an empty numbering know nothing of each other.

Main statement: `keyed_iff_used`.
-/
namespace ProcessDiagram
namespace Compilation

open Region

variable {d : Diagram}

/-- A number is the number of one element, and the numbering knows of which. -/
structure Keyed (n : Numbering) (named : List (Element × Region)) : Prop where
  same_iff : ∀ p ∈ named, ∀ q ∈ named, p.2.id = q.2.id ↔ p.1 = q.1
  reverse : ∀ p ∈ named, n.native? p.2.id = some p.1.id

theorem Numbered.keyed (c : d.Consistent) {n : Numbering} {named : List (Element × Region)}
    (h : Numbered d n named) : Keyed n named := by
  have reverse : ∀ p ∈ named, n.native? p.2.id = some p.1.id := by
    intro p hp
    obtain ⟨_, _, known, number⟩ := h p hp
    rw [number]
    exact Numbering.native?_number known
  refine ⟨?_, reverse⟩
  intro p hp q hq
  constructor
  · intro same
    have ids := (reverse p hp).symm.trans ((congrArg n.native? same).trans (reverse q hq))
    exact c.eq_of_id (h p hp).1 (h q hq).1 (Option.some.inj ids)
  · intro same
    rw [(h p hp).2.2.2, (h q hq).2.2.2, same]

/-- A numbering and the compilers that were given it, with whether they took it over, and all
answers so far. -/
structure Bench where
  mapper : Numbering
  compilers : List (Bool × Compiler)
  answers : List (Call × Answer)

namespace Bench

/-- The compiler as it goes about a call: the numbering may have grown since the one before. -/
def facing (b : Bench) (p : Bool × Compiler) : Compiler :=
  if p.1 then { p.2 with state := { p.2.state with numbering := b.mapper } } else p.2

inductive Step (d : Diagram) : Bench → Bench → Prop
  | construct (b : Bench) : Step d b { b with
      compilers := b.compilers ++
        [(decide (b.mapper.size ≠ 0), Compiler.start d (some b.mapper))] }
  | call {b : Bench} {before after : List (Bool × Compiler)} {p : Bool × Compiler}
      {c : Compiler} {call : Call} {r : Answer} :
      b.compilers = before ++ p :: after → Serves d (b.facing p) call r c →
        Step d b ⟨if p.1 then c.state.numbering else b.mapper,
          before ++ (p.1, c) :: after, b.answers ++ [(call, r)]⟩

/-- Reached from a numbering that holds some ids already. -/
def Reached (d : Diagram) (held : List String) : Bench → Prop :=
  Relation.ReflTransGen (Step d) ⟨Numbering.empty.internAll held, [], []⟩

/-- The regions of elements that any of the compilers has made. -/
def named (b : Bench) : List (Element × Region) :=
  b.compilers.flatMap (·.2.named)

def Made (b : Bench) (r : Region) : Prop :=
  ∃ p ∈ b.compilers, p.2.Made r

/-- What holds at all times; `used` says whether any id was held at first. -/
structure Kept (d : Diagram) (used : Bool) (b : Bench) : Prop where
  mapper : used = decide (b.mapper.size ≠ 0)
  shares : ∀ p ∈ b.compilers, p.1 = used
  sound : ∀ p ∈ b.compilers, Sound d p.2
  grown : ∀ p ∈ b.compilers, p.1 = true → p.2.state.numbering.ids <+: b.mapper.ids
  accounts : ∀ answered ∈ b.answers, Accounts b.Made answered

variable {b b' : Bench} {used : Bool} {held : List String} {p : Bool × Compiler}

theorem Kept.facing (k : Kept d used b) (hp : p ∈ b.compilers) : Sound d (b.facing p) := by
  have sound := k.sound p hp
  rw [Bench.facing]
  split
  next shares =>
      exact ⟨sound.numbered.mono (k.grown p hp shares), sound.synthetic, sound.above,
        sound.supplied⟩
  next => exact sound

theorem made_facing {r : Region} : (b.facing p).Made r ↔ p.2.Made r := by
  rw [Bench.facing]
  split <;> rfl

theorem forall_put {α : Type} {P : α → Prop} {before after : List α} {old new : α}
    (all : ∀ x ∈ before ++ old :: after, P x) (here : P new) :
    ∀ x ∈ before ++ new :: after, P x := by
  rw [List.forall_mem_append, List.forall_mem_cons] at all ⊢
  exact ⟨all.1, here, all.2.2⟩

theorem Kept.construct (k : Kept d used b) : Kept d used { b with
    compilers := b.compilers ++
      [(decide (b.mapper.size ≠ 0), Compiler.start d (some b.mapper))] } := by
  refine ⟨k.mapper, List.forall_mem_append.mpr ⟨k.shares, ?_⟩,
    List.forall_mem_append.mpr ⟨k.sound, ?_⟩, List.forall_mem_append.mpr ⟨k.grown, ?_⟩, ?_⟩
  · exact List.forall_mem_singleton.mpr k.mapper.symm
  · exact List.forall_mem_singleton.mpr (.start d _)
  · exact List.forall_mem_singleton.mpr fun _ => List.prefix_rfl
  · intro answered mem rows same r hr
    refine (k.accounts answered mem rows same r hr).imp_left ?_
    intro ⟨p, hp, made⟩
    exact ⟨p, List.mem_append_left _ hp, made⟩

theorem Kept.call (c₀ : d.Consistent) (k : Kept d used b) {before after : List (Bool × Compiler)}
    {c : Compiler} {call : Call} {r : Answer} (here : b.compilers = before ++ p :: after)
    (serves : Serves d (b.facing p) call r c) :
    Kept d used ⟨if p.1 then c.state.numbering else b.mapper, before ++ (p.1, c) :: after,
      b.answers ++ [(call, r)]⟩ := by
  have hp : p ∈ b.compilers := by simp [here]
  have steps := serves.steps c₀
  have onward : b.mapper.ids <+: (if p.1 then c.state.numbering else b.mapper).ids := by
    have grown := steps.onward.numbers.ids
    rw [Bench.facing] at grown
    split
    next shares =>
        rw [if_pos shares] at grown
        exact grown
    next => exact List.prefix_rfl
  have mapper := k.mapper
  have shares := k.shares
  have sound := k.sound
  have grown := fun q hq up => (k.grown q hq up).trans onward
  rw [here] at shares sound grown
  refine ⟨?_, forall_put shares (k.shares p hp), forall_put sound (steps.sound (k.facing hp)),
    forall_put grown ?_, ?_⟩
  · cases up : p.1 with
    | false => exact mapper
    | true =>
        have held : b.mapper.size ≠ 0 := of_decide_eq_true (mapper ▸ k.shares p hp ▸ up)
        have longer := onward.length_le
        rw [up] at longer
        rw [mapper, decide_eq_decide]
        refine iff_of_true held fun none => held ?_
        exact Nat.le_zero.mp (none ▸ longer)
  · intro up
    rw [if_pos up]
  · intro answered mem rows same x hx
    cases List.mem_append.mp mem with
    | inl old =>
        refine (k.accounts answered old rows same x hx).imp_left ?_
        intro ⟨q, hq, made⟩
        rw [here, List.mem_append, List.mem_cons] at hq
        obtain early | rfl | late := hq
        · exact ⟨q, List.mem_append_left _ early, made⟩
        · exact ⟨(q.1, c), by simp, steps.made (made_facing.mpr made)⟩
        · exact ⟨q, List.mem_append_right _ (List.mem_cons_of_mem _ late), made⟩
    | inr new =>
        cases List.mem_singleton.mp new
        exact (serves.accounts c₀ rows same x hx).imp_left fun made => ⟨(p.1, c), by simp, made⟩

theorem Reached.kept (c₀ : d.Consistent) (h : Reached d held b) :
    Kept d (decide (held ≠ [])) b := by
  induction h with
  | refl =>
      refine ⟨?_, nofun, nofun, nofun, fun _ mem => absurd mem List.not_mem_nil⟩
      rw [decide_eq_decide, not_iff_not]
      exact Numbering.size_internAll_eq_zero.symm
  | tail _ step ih =>
      cases step with
      | construct => exact ih.construct
      | call here serves => exact ih.call c₀ here serves

/-- After a call the numbering is as the compiler hands it back. -/
theorem Kept.handBack (k : Kept d used b) (hp : p ∈ b.compilers) (c : Compiler) :
    (if p.1 then c.state.numbering else b.mapper) = c.state.handBack b.mapper := by
  rw [State.handBack, k.shares p hp, k.mapper]
  by_cases none : b.mapper.size = 0 <;> simp [none]

/-- Compilers that share a numbering number in it all that they name. -/
theorem Kept.numbered (k : Kept d true b) : Numbered d b.mapper b.named := by
  intro q hq
  obtain ⟨p, hp, here⟩ := List.mem_flatMap.mp hq
  exact (k.sound p hp).numbered.mono (k.grown p hp (k.shares p hp)) q here

/-- Regions of elements have numbers that tell them apart, also those of different compilers, and
the owner can look every number up. Only where the numbering was empty at first nothing ties the
compilers together, and the owner never learns of a number. -/
theorem Reached.keyed_iff_used (built : d.Built) (h : Reached d held b) :
    (∀ answered ∈ b.answers, ∀ rows, answered.2 = .ok rows → ∀ r ∈ preorderAll rows,
        ¬ Synthetic r → (∃ e, (e, r) ∈ b.named) ∨ r ∈ answered.1.brought) ∧
      (∀ p ∈ b.named, p.1 ∈ d.nodes ∧ Stands d p.1 p.2) ∧
      (∀ p ∈ b.compilers, Keyed p.2.state.numbering p.2.named) ∧
      (Keyed b.mapper b.named ↔ held ≠ [] ∨ b.named = []) := by
  have c₀ := built.consistent
  have k := h.kept c₀
  refine ⟨?_, ?_, fun p hp => (k.sound p hp).numbered.keyed c₀, ?_, ?_⟩
  · intro answered mem rows same r hr plain
    obtain ⟨p, hp, joint | ⟨e, stands⟩⟩ | brought := k.accounts answered mem rows same r hr
    · exact absurd ((k.sound p hp).synthetic r joint) plain
    · exact .inl ⟨e, List.mem_flatMap.mpr ⟨p, hp, stands⟩⟩
    · exact .inr brought
  · intro q hq
    obtain ⟨p, hp, here⟩ := List.mem_flatMap.mp hq
    obtain ⟨node, stands, _⟩ := (k.sound p hp).numbered q here
    exact ⟨node, stands⟩
  · intro keyed
    refine or_iff_not_imp_left.mpr fun unused => ?_
    have none := k.mapper
    rw [decide_eq_decide] at none
    have size := not_not.mp (mt none.mpr unused)
    refine List.eq_nil_iff_forall_not_mem.mpr fun p hp => ?_
    have known := Numbering.mem_of_native? (keyed.reverse p hp)
    rw [List.length_eq_zero_iff.mp size] at known
    cases known
  · rintro (used | none)
    · rw [decide_eq_true used] at k
      exact k.numbered.keyed c₀
    · rw [none]
      exact ⟨nofun, nofun⟩

end Bench

end Compilation

namespace Diagram

open Compilation Region

theorem serves_fork {task : Element} (h : task = forkNode "a" .task ∨ task = forkNode "b" .task)
    (c : Compiler) :
    Serves fork c (.walk (some task) (some (forkNode "j" .exclusiveGateway)))
      (.ok [.unitTask (c.number task) task.name])
      ((c.make task (.unitTask (c.number task) task.name)).after (noteFirstOnly fork task)) := by
  have known : task ∈ fork.root :: fork.nodes := by rcases h with rfl | rfl <;> decide
  have going : ¬ Ends (some "j") task := by rcases h with rfl | rfl <;> decide
  have role : roleOf fork task = .work := by rcases h with rfl | rfl <;> decide
  have next : fork.successor? task = some (forkNode "j" .exclusiveGateway) := by
    rcases h with rfl | rfl <;> decide
  have ends : Ends (some "j") (forkNode "j" .exclusiveGateway) := by decide
  refine .walk ⟨?_, ?_⟩ (.work (r := .ok []) going (by simp) role ?_)
  · intro e same
    cases same
    exact known
  · intro e same
    cases same
    decide
  · rw [next]
    exact .ended ends

theorem keyed_iff_used_fork :
    ∃ b, Bench.Reached fork ["x"] b ∧
      b.named.map (fun p => (p.1.id, p.2.id)) = [("a", 2), ("b", 3), ("a", 2)] ∧
      Keyed b.mapper b.named := by
  have two : Bench.Reached fork ["x"] _ := .tail (.single (.construct _)) (.construct _)
  have first := two.tail (.call (rfl : _ = [] ++ _) (serves_fork (.inl rfl) _))
  have second := first.tail (.call (rfl : _ = [_] ++ _) (serves_fork (.inr rfl) _))
  have third := second.tail (.call (rfl : _ = [_] ++ _) (serves_fork (.inl rfl) _))
  refine ⟨_, third, by decide, ?_⟩
  exact (Bench.Reached.keyed_iff_used built_fork third).2.2.2.mpr (.inl (by decide))

/-- Two compilers over an empty numbering give two tasks the same number, and the numbering has
neither. -/
theorem not_keyed_fork :
    ∃ b, Bench.Reached fork [] b ∧
      b.named.map (fun p => (p.1.id, p.2.id)) = [("a", 1), ("b", 1)] ∧ b.mapper.ids = [] := by
  have two : Bench.Reached fork [] _ := .tail (.single (.construct _)) (.construct _)
  have first := two.tail (.call (rfl : _ = [] ++ _) (serves_fork (.inl rfl) _))
  have second := first.tail (.call (rfl : _ = [_] ++ _) (serves_fork (.inr rfl) _))
  exact ⟨_, second, by decide, by decide⟩

end Diagram
end ProcessDiagram
