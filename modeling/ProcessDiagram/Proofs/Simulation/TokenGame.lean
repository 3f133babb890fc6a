import Mathlib.Algebra.Order.Group.Multiset
import Mathlib.Logic.Relation
import ProcessDiagram.Proofs.Simulation.Turns

/-!
The token game. Tokens stand at elements, in places that are told apart by how they came to be and
not by scope ids, and any token that can go may go next. Main statement: `Picture.eq_of_stuck`, in
whatever order the tokens go, the game ends with the same picture.
-/
namespace ProcessDiagram

/-- The inside of a scope: one that ran when the game began, or the next one that an element begins
at a place. -/
inductive Place
  | top
  | known (scope : Nat)
  | inner (around : Place) (element : Element) (n : Nat)
  deriving DecidableEq

inductive Phase
  | arrived
  | waiting
  | starting
  | running (inside : Place)
  | leaving
  deriving DecidableEq

/-- The state of a scope whose token is in a phase. -/
def Phase.state : Phase → ScopeState
  | .arrived | .starting | .running _ => .entered
  | .waiting => .waiting
  | .leaving => .exited

structure Token where
  place : Place
  element : Element
  phase : Phase
  deriving DecidableEq

/-- Tokens on a diagram, the signals to come, the scopes that were begun and what has happened. -/
structure Picture where
  tokens : Multiset Token
  requests : Multiset Token
  begun : Multiset (Place × Element)
  log : Multiset (EventKind × String)

namespace Outcome

def phase : Outcome → Phase
  | .waits => .waiting
  | .leaves => .leaving
  | .starts _ => .starting

def told (id : String) : Outcome → Multiset (EventKind × String)
  | .waits => {(.wait, id)}
  | .leaves => {(.exit, id)}
  | .starts _ => 0

end Outcome

namespace Token

variable (d : Diagram) (c : ConfigStore) (t : Token)

/-- How many tokens of its kind go with a token. -/
def uses : Nat :=
  match t.phase with
  | .arrived => d.share t.element
  | _ => 1

/-- What a token becomes when scopes were begun for its element before. -/
def yields (before : Nat) : Multiset Token :=
  match t.phase with
  | .arrived => {⟨t.place, t.element, (d.outcome c t.element).phase⟩}
  | .waiting => {⟨t.place, t.element, (d.passed t.element).phase⟩}
  | .starting =>
    match d.passed t.element with
    | .starts first =>
      {⟨t.place, t.element, .running (.inner t.place t.element before)⟩,
        ⟨.inner t.place t.element before, first, .arrived⟩}
    | _ => {t}
  | .running _ => {⟨t.place, t.element, .leaving⟩}
  | .leaving =>
    .ofList (((d.sent c t.element).getD []).map fun f => ⟨t.place, f.target, .arrived⟩)

/-- What happens when a token goes. -/
def tells : Multiset (EventKind × String) :=
  match t.phase with
  | .arrived =>
    .replicate (d.share t.element - 1) (.merge, t.element.id)
      + (d.outcome c t.element).told t.element.id
  | .waiting => {(.signal, t.element.id)} + (d.passed t.element).told t.element.id
  | .starting =>
    match d.passed t.element with
    | .starts first => {(.enter, first.id)}
    | _ => 0
  | .running _ => {(.exit, t.element.id)}
  | .leaving =>
    match d.sent c t.element with
    | some flows => .ofList (flows.map fun f => (.enter, f.target.id))
    | none => {(.stall, t.element.id)}

end Token

namespace Picture

/-- A token can go: a waiting one when it is signalled, a running one when nothing is left inside
it. -/
structure Allows (d : Diagram) (σ : Picture) (t : Token) : Prop where
  there : t.uses d ≤ σ.tokens.count t
  asked : t.phase = .waiting → t ∈ σ.requests
  quiet : ∀ p, t.phase = .running p → ∀ u ∈ σ.tokens, u.place ≠ p

def fire (d : Diagram) (c : ConfigStore) (σ : Picture) (t : Token) : Picture where
  tokens := σ.tokens - .replicate (t.uses d) t
    + t.yields d c (σ.begun.count (t.place, t.element))
  requests := if t.phase = .waiting then σ.requests.erase t else σ.requests
  begun := if t.phase = .starting then (t.place, t.element) ::ₘ σ.begun else σ.begun
  log := σ.log + t.tells d c

def Fires (d : Diagram) (c : ConfigStore) (σ σ' : Picture) : Prop :=
  ∃ t, σ.Allows d t ∧ σ' = σ.fire d c t

/-- Places that scopes will have are not taken yet. -/
def Fresh (σ : Picture) : Prop :=
  ∀ t ∈ σ.tokens, ∀ p e n, t.phase = .running (.inner p e n) → n < σ.begun.count (p, e)

variable {d : Diagram} {c : ConfigStore} {σ σ₁ σ₂ : Picture} {t u : Token}

theorem one_le_uses (d : Diagram) (t : Token) : 1 ≤ t.uses d := by
  rw [Token.uses]
  split
  · rw [Diagram.share]
    split
    next holds => exact Nat.le_of_lt holds.2
    next => exact Nat.le_refl 1
  · exact Nat.le_refl 1

theorem Allows.mem (h : σ.Allows d t) : t ∈ σ.tokens :=
  Multiset.count_pos.mp (Nat.lt_of_lt_of_le (one_le_uses d t) h.there)

theorem yields_congr {n m : Nat} (same : t.phase = .starting → n = m) :
    t.yields d c n = t.yields d c m := by
  rw [Token.yields, Token.yields]
  split
  · rfl
  · rfl
  next kind => rw [same kind]
  · rfl
  · rfl

theorem place_of_mem_yields {n : Nat} (h : u ∈ t.yields d c n) :
    u.place = t.place ∨ t.phase = .starting ∧ u.place = .inner t.place t.element n := by
  rw [Token.yields] at h
  split at h
  · exact .inl (Multiset.mem_singleton.mp h ▸ rfl)
  · exact .inl (Multiset.mem_singleton.mp h ▸ rfl)
  next kind =>
      split at h
      · rw [Multiset.insert_eq_cons, Multiset.mem_cons, Multiset.mem_singleton] at h
        cases h with
        | inl running => exact .inl (running ▸ rfl)
        | inr first => exact .inr ⟨kind, first ▸ rfl⟩
      · exact .inl (Multiset.mem_singleton.mp h ▸ rfl)
  · exact .inl (Multiset.mem_singleton.mp h ▸ rfl)
  · obtain ⟨f, _, rfl⟩ := List.mem_map.mp (Multiset.mem_coe.mp h)
    exact .inl rfl

theorem running_of_mem_yields {n m : Nat} {p : Place} {e : Element} (h : u ∈ t.yields d c n)
    (running : u.phase = .running (.inner p e m)) :
    t.phase = .starting ∧ p = t.place ∧ e = t.element ∧ m = n := by
  have moved : ∀ o : Outcome, u = ⟨t.place, t.element, o.phase⟩ → False := by
    intro o same
    rw [same] at running
    cases o <;> cases running
  rw [Token.yields] at h
  split at h
  · exact (moved _ (Multiset.mem_singleton.mp h)).elim
  · exact (moved _ (Multiset.mem_singleton.mp h)).elim
  next kind =>
      split at h
      · rw [Multiset.insert_eq_cons, Multiset.mem_cons, Multiset.mem_singleton] at h
        cases h with
        | inl begun =>
            rw [begun] at running
            cases running
            exact ⟨kind, rfl, rfl, rfl⟩
        | inr first =>
            rw [first] at running
            cases running
      · rw [Multiset.mem_singleton.mp h, kind] at running
        cases running
  · exact (moved .leaves (Multiset.mem_singleton.mp h)).elim
  · obtain ⟨f, _, rfl⟩ := List.mem_map.mp (Multiset.mem_coe.mp h)
    cases running

theorem tokens_fire (σ : Picture) (t : Token) : (σ.fire d c t).tokens
    = σ.tokens - .replicate (t.uses d) t + t.yields d c (σ.begun.count (t.place, t.element)) :=
  rfl

theorem fires_of_eq {rest : Multiset Token} (whole : σ.tokens = rest + .replicate (t.uses d) t)
    (asked : t.phase = .waiting → t ∈ σ.requests)
    (quiet : ∀ p, t.phase = .running p → ∀ u ∈ σ.tokens, u.place ≠ p) :
    Fires d c σ (σ.fire d c t) ∧ (σ.fire d c t).tokens
      = rest + t.yields d c (σ.begun.count (t.place, t.element)) := by
  constructor
  · refine ⟨t, ⟨?_, asked, quiet⟩, rfl⟩
    rw [whole, Multiset.count_add, Multiset.count_replicate_self]
    exact Nat.le_add_left _ _
  · rw [tokens_fire, whole, add_tsub_cancel_right]

theorem mem_fire (h : u ∈ (σ.fire d c t).tokens) :
    u ∈ σ.tokens ∨ u ∈ t.yields d c (σ.begun.count (t.place, t.element)) := by
  cases Multiset.mem_add.mp h with
  | inl old => exact .inl (Multiset.mem_of_le tsub_le_self old)
  | inr new => exact .inr new

theorem count_begun_le (t : Token) (key : Place × Element) :
    σ.begun.count key ≤ (σ.fire d c t).begun.count key := by
  rw [fire]
  simp only
  split
  · exact Multiset.count_le_count_cons _ _ _
  · exact Nat.le_refl _

theorem fresh_fire (fresh : σ.Fresh) (t : Token) : (σ.fire d c t).Fresh := by
  intro u hu p e n running
  cases mem_fire hu with
  | inl old => exact Nat.lt_of_lt_of_le (fresh u old p e n running) (count_begun_le t _)
  | inr new =>
      obtain ⟨kind, rfl, rfl, rfl⟩ := running_of_mem_yields new running
      rw [fire, if_pos kind]
      simp only [Multiset.count_cons_self]
      exact Nat.lt_succ_self _

theorem count_fire_of_ne (apart : t ≠ u) :
    σ.tokens.count u ≤ (σ.fire d c t).tokens.count u := by
  rw [fire]
  simp only [Multiset.count_add, Multiset.count_sub, Multiset.count_replicate, if_neg apart]
  omega

/-- Two tokens that can go do not get in each other's way. -/
theorem allows_fire (fresh : σ.Fresh) (ht : σ.Allows d t) (hu : σ.Allows d u) (apart : t ≠ u) :
    (σ.fire d c t).Allows d u := by
  refine ⟨Nat.le_trans hu.there (count_fire_of_ne apart), ?_, ?_⟩
  · intro kind
    rw [fire]
    simp only
    split
    · exact (Multiset.mem_erase_of_ne apart.symm).mpr (hu.asked kind)
    · exact hu.asked kind
  · intro p running v hv
    cases mem_fire hv with
    | inl old => exact hu.quiet p running v old
    | inr new =>
        cases place_of_mem_yields new with
        | inl same =>
            rw [same]
            exact hu.quiet p running t ht.mem
        | inr begun =>
            intro inside
            rw [begun.2] at inside
            have taken := fresh u hu.mem _ _ _ (running.trans (congrArg Phase.running inside.symm))
            exact Nat.lt_irrefl _ taken

theorem yields_fire (apart : t ≠ u) :
    u.yields d c ((σ.fire d c t).begun.count (u.place, u.element))
      = u.yields d c (σ.begun.count (u.place, u.element)) := by
  apply yields_congr
  intro kind
  rw [fire]
  simp only
  split
  next starting =>
      apply Multiset.count_cons_of_ne
      intro same
      apply apart
      obtain ⟨place, element⟩ := Prod.mk.inj same
      cases t
      cases u
      simp_all
  next => rfl

theorem fire_comm (ht : σ.Allows d t) (hu : σ.Allows d u) (apart : t ≠ u) :
    (σ.fire d c t).fire d c u = (σ.fire d c u).fire d c t := by
  have tokens : ∀ more more' : Multiset Token,
      σ.tokens - .replicate (t.uses d) t + more - .replicate (u.uses d) u + more'
        = σ.tokens - .replicate (u.uses d) u + more' - .replicate (t.uses d) t + more := by
    intro more more'
    ext v
    have some := ht.there
    have others := hu.there
    simp only [Multiset.count_add, Multiset.count_sub, Multiset.count_replicate]
    by_cases own : t = v
    · subst own
      rw [if_pos rfl, if_neg apart.symm]
      omega
    · rw [if_neg own]
      by_cases other : u = v
      · subst other
        rw [if_pos rfl]
        omega
      · rw [if_neg other]
        omega
  have requests : ((σ.fire d c t).fire d c u).requests = ((σ.fire d c u).fire d c t).requests := by
    by_cases ht : t.phase = .waiting <;> by_cases hu : u.phase = .waiting <;>
      simp only [fire, ht, hu, if_true, if_false]
    exact Multiset.erase_comm _ _ _
  have begun : ((σ.fire d c t).fire d c u).begun = ((σ.fire d c u).fire d c t).begun := by
    by_cases ht : t.phase = .starting <;> by_cases hu : u.phase = .starting <;>
      simp only [fire, ht, hu, if_true, if_false]
    exact Multiset.cons_swap _ _ _
  have log : ((σ.fire d c t).fire d c u).log = ((σ.fire d c u).fire d c t).log :=
    add_right_comm _ _ _
  rw [Picture.mk.injEq]
  refine ⟨?_, requests, begun, log⟩
  simp only [tokens_fire, yields_fire apart, yields_fire apart.symm]
  exact tokens _ _

/-- In whatever order the tokens go, the game ends with the same picture. -/
theorem eq_of_stuck (fresh : σ.Fresh) (first : Relation.ReflTransGen (Fires d c) σ σ₁)
    (second : Relation.ReflTransGen (Fires d c) σ σ₂) (stuck₁ : ∀ t, ¬ σ₁.Allows d t)
    (stuck₂ : ∀ t, ¬ σ₂.Allows d t) : σ₁ = σ₂ := by
  -- Two tokens are in each other's way only where places are taken, so steps are from fresh
  -- pictures.
  let step : Picture → Picture → Prop := fun a b => a.Fresh ∧ Fires d c a b
  have diamond : ∀ a b b', step a b → step a b' →
      ∃ e, Relation.ReflGen step b e ∧ Relation.ReflTransGen step b' e := by
    intro a b b' one other
    obtain ⟨fresh, t, ht, rfl⟩ := one
    obtain ⟨_, u, hu, rfl⟩ := other
    by_cases apart : t = u
    · exact ⟨_, .refl, apart ▸ .refl⟩
    · refine ⟨(a.fire d c t).fire d c u, .single ⟨fresh_fire fresh t, u, ?_, rfl⟩,
        .single ⟨fresh_fire fresh u, t, ?_, ?_⟩⟩
      · exact allows_fire fresh ht hu apart
      · exact allows_fire fresh hu ht (Ne.symm apart)
      · exact fire_comm ht hu apart
  have same : ∀ {b}, Relation.ReflTransGen (Fires d c) σ b → Relation.ReflTransGen step σ b := by
    intro b run
    have both : Relation.ReflTransGen step σ b ∧ b.Fresh := by
      induction run with
      | refl => exact ⟨.refl, fresh⟩
      | tail _ last ih =>
          obtain ⟨t, ht, rfl⟩ := last
          exact ⟨ih.1.tail ⟨ih.2, t, ht, rfl⟩, fresh_fire ih.2 t⟩
    exact both.1
  have still : ∀ {a b}, (∀ t, ¬ a.Allows d t) → Relation.ReflTransGen step a b → a = b := by
    intro a b stuck run
    cases run.cases_head with
    | inl same => exact same
    | inr moved =>
        obtain ⟨_, ⟨_, t, ht, _⟩, _⟩ := moved
        exact absurd ht (stuck t)
  obtain ⟨b, hb₁, hb₂⟩ := Relation.church_rosser diamond (same first) (same second)
  rw [still stuck₁ hb₁, still stuck₂ hb₂]

end Picture
end ProcessDiagram
