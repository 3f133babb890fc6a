import ProcessDiagram.Proofs.Simulation.Conserved

/-!
Tokens at joins. Below every parent, the scopes that were made for a join are those that got past it,
those that it used up and those that it holds; it uses up the same number for each that gets past.
Main statement: `Reached.conserved`.
-/
namespace ProcessDiagram

/-- The scopes that were made for an element below a parent. -/
def Scopes.tokensAt (scopes : Scopes) (e : Element) (p : ScopeId) : List ScopeId :=
  scopes.idsWhere fun x => x.element == e && x.parent == some p

namespace Scopes

variable {scopes scopes' : Scopes}

theorem mem_tokensAt {e : Element} {p i : Nat} : i ∈ scopes.tokensAt e p ↔
    ∃ x : Scope, scopes[i]? = some x ∧ x.element = e ∧ x.parent = some p := by
  simp [tokensAt, mem_idsWhere]

theorem length_marked (kept : scopes.Kept scopes') {mark mark' : Nat → Bool}
    (inside : ∀ j, mark j = true → j < scopes.length) {new : List Nat} (distinct : new.Nodup)
    (more : ∀ j, mark' j = true ↔ mark j = true ∨ j ∈ new) (fresh : ∀ j ∈ new, mark j = false)
    {e₀ : Element} {above : Option Nat}
    (alike : ∀ j ∈ new, ∃ y : Scope, scopes[j]? = some y ∧ y.element = e₀ ∧ y.parent = above)
    (e : Element) (p : Nat) : ((scopes'.tokensAt e p).filter mark').length
      = ((scopes.tokensAt e p).filter mark).length
        + if e₀ = e ∧ above = some p then new.length else 0 := by
  have marked : ∀ j, mark' j = true → (j ∈ scopes'.tokensAt e p ↔ j ∈ scopes.tokensAt e p) := by
    intro j hj
    have below : j < scopes.length := by
      cases (more j).mp hj with
      | inl old => exact inside j old
      | inr now =>
          obtain ⟨y, hy, _⟩ := alike j now
          exact (List.getElem?_eq_some_iff.mp hy).1
    obtain ⟨y, hy, own, under⟩ := kept j _ (List.getElem?_eq_getElem below)
    simp [mem_tokensAt, hy, own, under, List.getElem?_eq_getElem below]
  have whole : ((scopes'.tokensAt e p).filter mark').Perm
      ((scopes.tokensAt e p).filter mark ++ if e₀ = e ∧ above = some p then new else []) := by
    have there : ∀ j ∈ new, j ∈ scopes.tokensAt e p ↔ e₀ = e ∧ above = some p := by
      intro j hj
      obtain ⟨y, hy, rfl, rfl⟩ := alike j hj
      simp [mem_tokensAt, hy]
    apply (List.perm_ext_iff_of_nodup ((nodup_idsWhere _ _).filter _) ?_).mpr
    · intro j
      rw [List.mem_append, List.mem_filter, List.mem_filter]
      constructor
      · intro both
        have place := (marked j both.2).mp both.1
        cases (more j).mp both.2 with
        | inl old => exact .inl ⟨place, old⟩
        | inr now => exact .inr (by rwa [if_pos ((there j now).mp place)])
      · intro either
        cases either with
        | inl old =>
            have now := (more j).mpr (.inl old.2)
            exact ⟨(marked j now).mpr old.1, now⟩
        | inr now =>
            split at now
            next place =>
                have here := (more j).mpr (.inr now)
                exact ⟨(marked j here).mpr ((there j now).mpr place), here⟩
            next => cases now
    · rw [List.nodup_append]
      refine ⟨(nodup_idsWhere _ _).filter _, ?_, ?_⟩
      · split
        · exact distinct
        · exact List.nodup_nil
      · intro j hj k hk same
        subst same
        split at hk
        · rw [List.mem_filter, fresh j hk] at hj
          cases hj.2
        · cases hk
  rw [whole.length_eq, List.length_append]
  split <;> rfl

end Scopes

namespace Simulation

/-- A scope got past its element when it waited there or exited. -/
def gotPast (s : Simulation) (i : ScopeId) : Bool :=
  s.events.any fun ev => ev.scope == i && (ev.kind == .wait || ev.kind == .exit)

/-- A scope whose token was merged into another. -/
def usedUp (s : Simulation) (i : ScopeId) : Bool :=
  s.events.any fun ev => ev.scope == i && ev.kind == .merge

def passedAt (s : Simulation) (e : Element) (p : ScopeId) : List ScopeId :=
  (s.scopes.tokensAt e p).filter s.gotPast

def usedUpAt (s : Simulation) (e : Element) (p : ScopeId) : List ScopeId :=
  (s.scopes.tokensAt e p).filter s.usedUp

variable {d : Diagram} {c : ConfigStore} {s s' : Simulation} {i : Nat} {x : Scope}

namespace Change

variable {scopes : Scopes} {added : List Task} {counts : List (String × Nat)} {told : List Event}

theorem gotPast (change : Change s s' scopes added counts told) (j : Nat) :
    s'.gotPast j = true ↔ s.gotPast j = true ∨
      ∃ ev ∈ told, ev.scope = j ∧ (ev.kind = .wait ∨ ev.kind = .exit) := by
  rw [Simulation.gotPast, change.events, List.any_append, Bool.or_eq_true]
  simp [Simulation.gotPast]

theorem usedUp (change : Change s s' scopes added counts told) (j : Nat) :
    s'.usedUp j = true ↔ s.usedUp j = true ∨ ∃ ev ∈ told, ev.scope = j ∧ ev.kind = .merge := by
  rw [Simulation.usedUp, change.events, List.any_append, Bool.or_eq_true]
  simp [Simulation.usedUp]

end Change

/-- Of tokens that are merged into another, and that one, only the last gets past. -/
theorem told_gotPast (tokens : List Nat) {kind : EventKind} (goes : kind = .wait ∨ kind = .exit)
    (id : String) (i j : Nat) :
    (∃ ev ∈ tokens.map (fun k => (⟨.merge, id, k⟩ : Event)) ++ [⟨kind, id, i⟩],
      ev.scope = j ∧ (ev.kind = .wait ∨ ev.kind = .exit)) ↔ j = i := by
  constructor
  · intro some
    obtain ⟨ev, hev, rfl, passed⟩ := some
    cases List.mem_append.mp hev with
    | inl merged =>
        obtain ⟨k, _, rfl⟩ := List.mem_map.mp merged
        simp at passed
    | inr last => rw [List.mem_singleton.mp last]
  · intro same
    exact ⟨_, List.mem_append_right _ (List.mem_singleton_self _), same.symm, goes⟩

theorem told_usedUp (tokens : List Nat) {kind : EventKind} (goes : kind = .wait ∨ kind = .exit)
    (id : String) (i j : Nat) :
    (∃ ev ∈ tokens.map (fun k => (⟨.merge, id, k⟩ : Event)) ++ [⟨kind, id, i⟩],
      ev.scope = j ∧ ev.kind = .merge) ↔ j ∈ tokens := by
  constructor
  · intro some
    obtain ⟨ev, hev, rfl, merge⟩ := some
    cases List.mem_append.mp hev with
    | inl merged =>
        obtain ⟨k, hk, rfl⟩ := List.mem_map.mp merged
        exact hk
    | inr last =>
        rw [List.mem_singleton.mp last] at merge
        have same : kind = .merge := merge
        rw [same] at goes
        simp at goes
  · intro token
    exact ⟨_, List.mem_append_left _ (List.mem_map_of_mem token), rfl, rfl⟩

/-- A token at a join is held, or it got past, or it was used up. -/
inductive Stage (s : Simulation) (i : Nat) (x : Scope) : Prop
  | held : x.destroyed = false → x.state = .entered → s.gotPast i = false → s.usedUp i = false →
      Stage s i x
  | past : x.destroyed = true ∨ x.state ≠ .entered → s.gotPast i = true → s.usedUp i = false →
      Stage s i x
  | used : x.destroyed = true → s.gotPast i = false → s.usedUp i = true → Stage s i x

/-- What the events tell of the tokens at joins. -/
structure Tallied (d : Diagram) (s : Simulation) : Prop where
  bounded : ∀ ev ∈ s.events, ev.scope < s.scopes.length
  stage : ∀ (i : Nat) (x : Scope), s.scopes[i]? = some x → d.HoldsAt x.element → s.Stage i x
  balance : ∀ (e : Element) (p : Nat), d.HoldsAt e →
    (s.usedUpAt e p).length = (d.share e - 1) * (s.passedAt e p).length

theorem Stage.congr (h : s.Stage i x) (past : s'.gotPast i = s.gotPast i)
    (used : s'.usedUp i = s.usedUp i) : s'.Stage i x := by
  cases h with
  | held live entered p u => exact .held live entered (past.trans p) (used.trans u)
  | past gone p u => exact .past gone (past.trans p) (used.trans u)
  | used gone p u => exact .used gone (past.trans p) (used.trans u)

/-- A token that is there and has not gone on is held. -/
theorem Stage.untold (h : s.Stage i x) (live : x.destroyed = false) (entered : x.state = .entered) :
    s.gotPast i = false ∧ s.usedUp i = false := by
  cases h with
  | held _ _ p u => exact ⟨p, u⟩
  | past gone =>
      rw [live, entered] at gone
      simp at gone
  | used gone =>
      rw [live] at gone
      cases gone

namespace Tallied

theorem lt_of_gotPast (h : Tallied d s) {j : Nat} (past : s.gotPast j = true) :
    j < s.scopes.length := by
  rw [gotPast, List.any_eq_true] at past
  obtain ⟨ev, hev, both⟩ := past
  simp only [Bool.and_eq_true, beq_iff_eq] at both
  exact both.1 ▸ h.bounded ev hev

theorem lt_of_usedUp (h : Tallied d s) {j : Nat} (used : s.usedUp j = true) :
    j < s.scopes.length := by
  rw [usedUp, List.any_eq_true] at used
  obtain ⟨ev, hev, both⟩ := used
  simp only [Bool.and_eq_true, beq_iff_eq] at both
  exact both.1 ▸ h.bounded ev hev

theorem step (h : Tallied d s) (kept : s.scopes.Kept s'.scopes)
    (bounded : ∀ ev ∈ s'.events, ev.scope < s'.scopes.length)
    (stage : ∀ (i : Nat) (x : Scope), s'.scopes[i]? = some x → d.HoldsAt x.element → s'.Stage i x)
    {past used : List Nat} (distinct : past.Nodup ∧ used.Nodup)
    (morePast : ∀ j, s'.gotPast j = true ↔ s.gotPast j = true ∨ j ∈ past)
    (moreUsed : ∀ j, s'.usedUp j = true ↔ s.usedUp j = true ∨ j ∈ used)
    (fresh : (∀ j ∈ past, s.gotPast j = false) ∧ ∀ j ∈ used, s.usedUp j = false)
    {e₀ : Element} {above : Option Nat}
    (alike : ∀ j ∈ past ++ used, ∃ y : Scope, s.scopes[j]? = some y ∧ y.element = e₀ ∧
      y.parent = above)
    (share : d.HoldsAt e₀ → used.length = (d.share e₀ - 1) * past.length) : Tallied d s' := by
  refine ⟨bounded, stage, ?_⟩
  intro e p holds
  have before := h.balance e p holds
  rw [usedUpAt, passedAt] at before ⊢
  rw [Scopes.length_marked kept (fun _ => h.lt_of_usedUp) distinct.2 moreUsed fresh.2
      (fun j hj => alike j (List.mem_append_right _ hj)) e p,
    Scopes.length_marked kept (fun _ => h.lt_of_gotPast) distinct.1 morePast fresh.1
      (fun j hj => alike j (List.mem_append_left _ hj)) e p, before, Nat.mul_add]
  congr 1
  split
  next same => exact share (same.1 ▸ holds) |>.trans (by rw [same.1])
  next => exact (Nat.mul_zero _).symm

theorem still (h : Tallied d s) (kept : s.scopes.Kept s'.scopes)
    (bounded : ∀ ev ∈ s'.events, ev.scope < s'.scopes.length)
    (stage : ∀ (i : Nat) (x : Scope), s'.scopes[i]? = some x → d.HoldsAt x.element → s'.Stage i x)
    (past : ∀ j, s'.gotPast j = true ↔ s.gotPast j = true)
    (used : ∀ j, s'.usedUp j = true ↔ s.usedUp j = true) : Tallied d s' :=
  @step d s s' h kept bounded stage [] [] ⟨.nil, .nil⟩ (by simpa using past) (by simpa using used)
    ⟨by simp, by simp⟩ d.root none (by simp) (by simp)

theorem gotPast_of_ge (h : Tallied d s) {j : Nat} (above : s.scopes.length ≤ j) :
    s.gotPast j = false := by
  by_contra past
  exact absurd (h.lt_of_gotPast (by simpa using past)) (Nat.not_lt.mpr above)

theorem usedUp_of_ge (h : Tallied d s) {j : Nat} (above : s.scopes.length ≤ j) :
    s.usedUp j = false := by
  by_contra used
  exact absurd (h.lt_of_usedUp (by simpa using used)) (Nat.not_lt.mpr above)

section Changes

variable {scopes : Scopes} {added : List Task} {counts : List (String × Nat)} {told : List Event}

theorem bounded_of_change (h : Tallied d s) (change : Change s s' scopes added counts told)
    (kept : s.scopes.Kept scopes) (below : ∀ ev ∈ told, ev.scope < scopes.length) :
    ∀ ev ∈ s'.events, ev.scope < s'.scopes.length := by
  rw [change.events, change.scopes]
  intro ev hev
  cases List.mem_append.mp hev with
  | inl old => exact Nat.lt_of_lt_of_le (h.bounded ev old) kept.length_le
  | inr new => exact below ev new

/-- Nothing got past an element and nothing was used up: a scope is an old one, a new one, or one
that has exited and is destroyed. -/
theorem silent (h : Tallied d s) (change : Change s s' scopes added counts told)
    (kept : s.scopes.Kept scopes) (below : ∀ ev ∈ told, ev.scope < scopes.length)
    (quiet : ∀ ev ∈ told, ev.kind = .enter ∨ ev.kind = .stall ∨ ev.kind = .signal)
    (origin : ∀ (j : Nat) (y : Scope), scopes[j]? = some y → d.HoldsAt y.element →
      s.scopes[j]? = some y ∨
      s.scopes.length ≤ j ∧ y.destroyed = false ∧ y.state = .entered ∨
      y.destroyed = true ∧ ∃ x, Exiting s.scopes j x ∧ d.HoldsAt x.element) : Tallied d s' := by
  have past : ∀ j, s'.gotPast j = true ↔ s.gotPast j = true := by
    intro j
    rw [change.gotPast, or_iff_left]
    intro some
    obtain ⟨ev, hev, _, kind⟩ := some
    obtain enter | stall | signal := quiet ev hev <;> simp_all
  have used : ∀ j, s'.usedUp j = true ↔ s.usedUp j = true := by
    intro j
    rw [change.usedUp, or_iff_left]
    intro some
    obtain ⟨ev, hev, _, kind⟩ := some
    obtain enter | stall | signal := quiet ev hev <;> simp_all
  have samePast : ∀ j, s'.gotPast j = s.gotPast j := fun j => Bool.eq_iff_iff.mpr (past j)
  have sameUsed : ∀ j, s'.usedUp j = s.usedUp j := fun j => Bool.eq_iff_iff.mpr (used j)
  apply h.still (change.scopes ▸ kept) (h.bounded_of_change change kept below) _ past used
  intro j y hy holds
  rw [change.scopes] at hy
  obtain old | ⟨new, live, entered⟩ | ⟨gone, x, exiting, holds⟩ := origin j y hy holds
  · exact (h.stage j y old holds).congr (samePast j) (sameUsed j)
  · exact .held live entered ((samePast j).trans (h.gotPast_of_ge new))
      ((sameUsed j).trans (h.usedUp_of_ge new))
  · cases h.stage j x exiting.found holds with
    | held _ entered =>
        rw [exiting.exited] at entered
        cases entered
    | past _ p u => exact .past (.inl gone) ((samePast j).trans p) ((sameUsed j).trans u)
    | used used =>
        rw [exiting.live] at used
        cases used

theorem enters (h : Tallied d s) (e : Element) (parent : Option Nat)
    (change : Change s s' (s.scopes ++ [Scope.enter e parent]) added counts
      [⟨.enter, e.id, s.scopes.length⟩]) : Tallied d s' := by
  refine h.silent change ((Scopes.Kept.refl _).append _) (by simp) (by simp) ?_
  intro j y hy _
  have either : (s.scopes.enterAll [e] parent)[j]? = some y := hy
  exact (Scopes.getElem?_enterAll_cases either).imp_right .inl

theorem goes (h : Tallied d s) (hx : s.scopes[i]? = some x) (free : ¬ d.HoldsAt x.element)
    {f : Scope → Scope} (element : ∀ y, (f y).element = y.element)
    (parent : ∀ y, (f y).parent = y.parent) {kind : EventKind}
    (goes : kind = .wait ∨ kind = .exit)
    (change : Change s s' (s.scopes.modify i f) added counts [⟨kind, x.element.id, i⟩]) :
    Tallied d s' := by
  have kept : s.scopes.Kept (s.scopes.modify i f) := (Scopes.Kept.refl _).modify i element parent
  have below := (List.getElem?_eq_some_iff.mp hx).1
  have past : ∀ j, s'.gotPast j = true ↔ s.gotPast j = true ∨ j = i := by
    intro j
    rw [change.gotPast]
    exact or_congr_right (told_gotPast [] goes _ i j)
  have used : ∀ j, s'.usedUp j = true ↔ s.usedUp j = true := by
    intro j
    rw [change.usedUp]
    exact (or_congr_right (told_usedUp [] goes _ i j)).trans (by simp)
  obtain ⟨new, distinct, fresh, own, more⟩ : ∃ new : List Nat, new.Nodup ∧
      (∀ j ∈ new, s.gotPast j = false) ∧ (∀ j ∈ new, j = i) ∧
        ∀ j, s'.gotPast j = true ↔ s.gotPast j = true ∨ j ∈ new := by
    cases already : s.gotPast i with
    | true =>
        refine ⟨[], .nil, by simp, by simp, ?_⟩
        intro j
        rw [past, or_iff_left_of_imp fun same => same ▸ already]
        simp
    | false => exact ⟨[i], List.nodup_singleton i, by simpa using already, by simp, by simpa using past⟩
  have alike : ∀ j ∈ new ++ [], ∃ y : Scope, s.scopes[j]? = some y ∧ y.element = x.element ∧
      y.parent = x.parent := by
    intro j hj
    rw [List.append_nil] at hj
    exact own j hj ▸ ⟨x, hx, rfl, rfl⟩
  apply h.step (change.scopes ▸ kept) (h.bounded_of_change change kept (by simpa using below)) _
    ⟨distinct, .nil⟩ more (by simpa using used) ⟨fresh, by simp⟩ alike
  · exact fun holds => absurd holds free
  · intro j y hy holds
    rw [change.scopes] at hy
    cases Scopes.getElem?_modify_cases hx hy with
    | inl here =>
        rw [here.2, element] at holds
        exact absurd holds free
    | inr other =>
        apply (h.stage j y other.2 holds).congr
        · rw [Bool.eq_iff_iff, past, or_iff_left (Ne.symm other.1)]
        · rw [Bool.eq_iff_iff, used]

theorem held_of_gathers (h : Tallied d s) (ready : Ready s.scopes i x) {p : Nat}
    (parent : x.parent = some p) (holds : d.HoldsAt x.element) {tokens : List Nat}
    (gathers : Gathers d s i x p tokens s') : ∀ j ∈ i :: tokens,
      (∃ y : Scope, s.scopes[j]? = some y ∧ y.element = x.element ∧ y.parent = some p) ∧
        s.gotPast j = false ∧ s.usedUp j = false := by
  intro j hj
  have alike : ∃ y : Scope, s.scopes[j]? = some y ∧ y.element = x.element ∧
      y.destroyed = false ∧ y.state = .entered ∧ y.parent = some p := by
    cases List.mem_cons.mp hj with
    | inl own => exact own ▸ ⟨x, ready.found, rfl, ready.live, ready.entered, parent⟩
    | inr other => exact gathers.alike j other
  obtain ⟨y, hy, own, live, entered, under⟩ := alike
  exact ⟨⟨y, hy, own, under⟩, (h.stage j y hy (own ▸ holds)).untold live entered⟩

/-- A token gets past its join, which uses up the others that it holds with it. -/
theorem joins (h : Tallied d s) (ready : Ready s.scopes i x) {p : Nat} (parent : x.parent = some p)
    (holds : d.HoldsAt x.element) {tokens : List Nat} {s₁ : Simulation}
    (gathers : Gathers d s i x p tokens s₁) {f : Scope → Scope}
    (element : ∀ y, (f y).element = y.element) (under : ∀ y, (f y).parent = y.parent)
    (leaves : ∀ y, (f y).state ≠ .entered) {kind : EventKind} (goes : kind = .wait ∨ kind = .exit)
    (change : Change s₁ s' (s₁.scopes.modify i f) added counts [⟨kind, x.element.id, i⟩]) :
    Tallied d s' := by
  have both := gathers.change.trans change
  have held := h.held_of_gathers ready parent holds gathers
  obtain ⟨apart, distinct⟩ := List.nodup_cons.mp gathers.distinct
  have kept : s.scopes.Kept (s₁.scopes.modify i f) := by
    rw [gathers.change.scopes]
    exact ((Scopes.Kept.refl _).destroyAll tokens).modify i element under
  have past : ∀ j, s'.gotPast j = true ↔ s.gotPast j = true ∨ j ∈ [i] := by
    intro j
    rw [both.gotPast, told_gotPast tokens goes, List.mem_singleton]
  have used : ∀ j, s'.usedUp j = true ↔ s.usedUp j = true ∨ j ∈ tokens := by
    intro j
    rw [both.usedUp, told_usedUp tokens goes]
  have below : ∀ j ∈ i :: tokens, j < (s₁.scopes.modify i f).length := by
    intro j hj
    obtain ⟨⟨y, hy, _⟩, _⟩ := held j hj
    exact Nat.lt_of_lt_of_le (List.getElem?_eq_some_iff.mp hy).1 kept.length_le
  have fresh : (∀ j ∈ [i], s.gotPast j = false) ∧ ∀ j ∈ tokens, s.usedUp j = false :=
    ⟨fun j hj => (held j (List.mem_singleton.mp hj ▸ List.mem_cons_self)).2.1,
      fun j hj => (held j (List.mem_cons_of_mem _ hj)).2.2⟩
  apply h.step (change.scopes ▸ kept) (h.bounded_of_change both kept ?_) ?_
    ⟨List.nodup_singleton i, distinct⟩ past used fresh fun j hj => (held j hj).1
  · intro _
    rw [← gathers.count, List.length_singleton, Nat.mul_one, Nat.add_sub_cancel]
  · intro ev hev
    cases List.mem_append.mp hev with
    | inl merged =>
        obtain ⟨j, hj, rfl⟩ := List.mem_map.mp merged
        exact below j (List.mem_cons_of_mem _ hj)
    | inr last =>
        rw [List.mem_singleton.mp last]
        exact below i List.mem_cons_self
  · intro j y hy holds'
    rw [change.scopes, gathers.change.scopes] at hy
    have here := (Scopes.getElem?_destroyAll apart).trans ready.found
    cases Scopes.getElem?_modify_cases here hy with
    | inl own =>
        obtain ⟨rfl, rfl⟩ := own
        refine .past (.inr (leaves x)) ((past i).mpr (.inr (List.mem_singleton_self i))) ?_
        rw [← Bool.not_eq_true, used, not_or, Bool.not_eq_true]
        exact ⟨(held i List.mem_cons_self).2.2, apart⟩
    | inr other =>
        have rest : s'.gotPast j = s.gotPast j := by
          rw [Bool.eq_iff_iff, past, or_iff_left (by simpa using Ne.symm other.1)]
        by_cases token : j ∈ tokens
        · obtain ⟨z, hz, _⟩ := gathers.alike j token
          rw [Scopes.getElem?_destroyAll_of_mem token hz] at other
          cases other.2
          exact .used rfl (rest.trans (held j (List.mem_cons_of_mem _ token)).2.1)
            ((used j).mpr (.inr token))
        · rw [Scopes.getElem?_destroyAll token] at other
          apply (h.stage j y other.2 holds').congr rest
          rw [Bool.eq_iff_iff, used, or_iff_left token]

theorem leaves (h : Tallied d s) (hx : s.scopes[i]? = some x) (waiting : x.state = .waiting)
    (live : x.destroyed = false) {f : Scope → Scope}
    (element : ∀ y, (f y).element = y.element) (under : ∀ y, (f y).parent = y.parent)
    (leaves : ∀ y, (f y).state ≠ .entered)
    (change : Change s s' (s.scopes.modify i f) added counts
      [⟨.signal, x.element.id, i⟩, ⟨.exit, x.element.id, i⟩]) (holds : d.HoldsAt x.element) :
    Tallied d s' := by
  have kept : s.scopes.Kept (s.scopes.modify i f) := (Scopes.Kept.refl _).modify i element under
  have inside : i < (s.scopes.modify i f).length :=
    Nat.lt_of_lt_of_le (List.getElem?_eq_some_iff.mp hx).1 kept.length_le
  obtain ⟨already, unused⟩ : s.gotPast i = true ∧ s.usedUp i = false := by
    cases h.stage i x hx holds with
    | held _ entered =>
        rw [waiting] at entered
        cases entered
    | past _ p u => exact ⟨p, u⟩
    | used gone =>
        rw [live] at gone
        cases gone
  have past : ∀ j, s'.gotPast j = true ↔ s.gotPast j = true := by
    intro j
    rw [change.gotPast]
    apply or_iff_left_of_imp
    intro some
    obtain ⟨ev, hev, rfl, _⟩ := some
    have own : ev.scope = i := by
      simp only [List.mem_cons, List.not_mem_nil, or_false] at hev
      cases hev <;> (next same => rw [same])
    rw [own, already]
  have used : ∀ j, s'.usedUp j = true ↔ s.usedUp j = true := by
    intro j
    rw [change.usedUp]
    simp
  apply h.still (change.scopes ▸ kept) (h.bounded_of_change change kept (by simpa using inside)) _
    past used
  intro j y hy holds'
  rw [change.scopes] at hy
  have samePast : s'.gotPast j = s.gotPast j := Bool.eq_iff_iff.mpr (past j)
  have sameUsed : s'.usedUp j = s.usedUp j := Bool.eq_iff_iff.mpr (used j)
  cases Scopes.getElem?_modify_cases hx hy with
  | inl own =>
      obtain ⟨rfl, rfl⟩ := own
      exact .past (.inr (leaves x)) (samePast.trans already) (sameUsed.trans unused)
  | inr other => exact (h.stage j y other.2 holds').congr samePast sameUsed

end Changes

theorem proceeds (h : Tallied d s) (ready : Ready s.scopes i x) (free : ¬ d.HoldsAt x.element)
    {o : Outcome} (proceeds : Proceeds s i x o s') : Tallied d s' := by
  cases proceeds with
  | waits change =>
      exact h.goes (f := Scope.suspend) ready.found free (fun _ => rfl) (fun _ => rfl) (.inl rfl)
        change
  | leaves change =>
      exact h.goes (f := Scope.leave) ready.found free (fun _ => rfl) (fun _ => rfl) (.inr rfl)
        change
  | @starts _ first change => exact h.enters first (some i) change

theorem departs (h : Tallied d s) (exiting : Exiting s.scopes i x) (departs : Departs d c s i x s') :
    Tallied d s' := by
  have kept := Scopes.Kept.refl s.scopes
  have inside := (List.getElem?_eq_some_iff.mp exiting.found).1
  cases departs with
  | @sends flows _ _ change =>
      have there : (s.scopes.enterAll (flows.map (·.target)) x.parent)[i]? = some x := by
        rw [Scopes.enterAll, List.getElem?_append_left inside]
        exact exiting.found
      refine h.silent change ((kept.enterAll _ x.parent).modify i (fun _ => rfl) fun _ => rfl) ?_ ?_ ?_
      · intro ev hev
        obtain ⟨entry, hentry, rfl⟩ := List.mem_map.mp hev
        have position := (List.mem_zipIdx hentry).2.1
        rw [List.length_modify, Scopes.enterAll, List.length_append, List.length_map,
          List.length_map]
        omega
      · intro ev hev
        obtain ⟨entry, _, rfl⟩ := List.mem_map.mp hev
        exact .inl rfl
      · intro j y hy holds
        cases Scopes.getElem?_modify_cases there hy with
        | inl own =>
            obtain ⟨rfl, rfl⟩ := own
            exact .inr (.inr ⟨rfl, x, exiting, holds⟩)
        | inr other => exact (Scopes.getElem?_enterAll_cases other.2).imp_right .inl
  | stalls _ change =>
      refine h.silent change (kept.modify i (fun _ => rfl) fun _ => rfl) (by simpa using inside)
        (by simp) ?_
      intro j y hy holds
      cases Scopes.getElem?_modify_cases exiting.found hy with
      | inl own =>
          obtain ⟨rfl, rfl⟩ := own
          exact .inr (.inr ⟨rfl, x, exiting, holds⟩)
      | inr other => exact .inl other.2

theorem turn (h : Tallied d s) {t : Task} (sound : Sound d [] s.scopes (t :: s.agenda))
    (turn : Turn d c s t s') : Tallied d s' := by
  cases turn with
  | rests change => exact h.silent change (.refl _) (by simp) (by simp) fun _ _ hy _ => .inl hy
  | @arrives i p x tokens s₁ _ ready parent _ _ gathers ready₁ proceeds =>
      by_cases holds : d.HoldsAt x.element
      · generalize way : d.outcome c x.element = o at proceeds
        cases proceeds with
        | waits change =>
            exact h.joins (f := Scope.suspend) ready parent holds gathers (fun _ => rfl)
              (fun _ => rfl) (by simp [Scope.suspend]) (.inl rfl) change
        | leaves change =>
            exact h.joins (f := Scope.leave) ready parent holds gathers (fun _ => rfl)
              (fun _ => rfl) (by simp [Scope.leave]) (.inr rfl) change
        | starts change =>
            have kind := (Diagram.of_passed_starts (Diagram.passed_of_outcome way)).1
            cases holds.1.symm.trans kind
      · have alone : tokens = [] := by
          have count := gathers.count
          rw [share_of_not_holdsAt holds] at count
          exact List.length_eq_zero_iff.mp (by omega)
        subst alone
        have same : Tallied d s₁ :=
          h.silent gathers.change (.refl _) (by simp) (by simp) fun _ _ hy _ => .inl hy
        exact same.proceeds ready₁ holds proceeds
  | departs exiting departs => exact h.departs exiting departs
  | @closes i p x y s₁ _ exiting departs _ hy container ready proceeds =>
      refine (h.departs exiting departs).proceeds ready ?_ proceeds
      intro holds
      cases container with
      | inl subProcess => cases holds.1.symm.trans subProcess
      | inr root =>
          have kind := (sound.formed.proper p y hy).root root
          rw [holds.1] at kind
          simp at kind

theorem resumes (h : Tallied d s) {s₁ : Simulation} (resumes : Resumes d s i x s₁ s')
    (waiting : x.state = .waiting) : Tallied d s' := by
  have change := resumes.change
  have proceeds := resumes.proceeds
  by_cases holds : d.HoldsAt x.element
  · have way : d.passed x.element = .leaves := by
      rw [Diagram.passed, if_neg]
      rw [holds.1]
      decide
    rw [way] at proceeds
    cases proceeds with
    | leaves leave =>
        have both := change.trans leave
        rw [change.scopes, List.modify_modify_eq] at both
        exact h.leaves (f := Scope.leave ∘ Scope.resume) resumes.found waiting resumes.live
          (fun _ => rfl) (fun _ => rfl) (by simp [Scope.leave]) both holds
  · have resumed : Tallied d s₁ := by
      have inside := (List.getElem?_eq_some_iff.mp resumes.found).1
      refine h.silent change ((Scopes.Kept.refl _).modify i (fun _ => rfl) fun _ => rfl)
        (by simpa using inside) (by simp) ?_
      intro j y hy held
      cases Scopes.getElem?_modify_cases resumes.found hy with
      | inl own =>
          obtain ⟨rfl, rfl⟩ := own
          exact absurd held holds
      | inr other => exact .inl other.2
    exact resumed.proceeds resumes.ready holds proceeds

theorem opens (h : Tallied d s) {e : Element} (opens : Opens d s e s') : Tallied d s' := by
  cases opens with
  | inside _ _ _ change => exact h.enters e _ change
  | @below root _ _ _ _ made change => exact (h.enters root none made).enters e _ change

theorem empty (d : Diagram) : Tallied d .empty := by
  refine ⟨?_, ?_, fun e p _ => (Nat.mul_zero _).symm⟩
  · intro ev hev
    cases hev
  · intro i x hx
    cases hx

theorem persists (d : Diagram) : Persists d (Tallied d) := by
  constructor
  case empty => exact .empty d
  case agenda =>
    intro s tasks h
    exact ⟨h.bounded, fun i x hx holds => (h.stage i x hx holds).congr rfl rfl, h.balance⟩
  case turn => exact fun c s t s' sound turn h => h.turn sound turn
  case resumes =>
    intro s i x s₁ s' sound resumes h
    exact h.resumes resumes ((sound.formed.proper i x resumes.found).pending.mp resumes.pending)
  case opens => exact fun s e s' _ _ opens h => h.opens opens

/-- A token is held by its join while it has not got past it and is not used up. -/
theorem mem_arrived_iff (h : Tallied d s) (consistent : d.Consistent) (formed : Formed d s.scopes)
    {g : Element} (node : g ∈ d.nodes) (holds : d.HoldsAt g) {p j : Nat} :
    j ∈ s.arrived p g.id ↔
      j ∈ s.scopes.tokensAt g p ∧ s.gotPast j = false ∧ s.usedUp j = false := by
  rw [mem_arrived, Scopes.mem_tokensAt]
  constructor
  · intro here
    obtain ⟨y, hy, live, under, same, entered⟩ := here
    have inside := ((formed.proper j y hy).nested (by rw [under]; simp)).1
    have own := consistent.eq_of_id inside node same
    exact ⟨⟨y, hy, own, under⟩, (h.stage j y hy (own ▸ holds)).untold live entered⟩
  · intro here
    obtain ⟨⟨y, hy, rfl, under⟩, unpassed, unused⟩ := here
    cases h.stage j y hy holds with
    | held live entered => exact ⟨y, hy, live, under, rfl, entered⟩
    | past _ past =>
        rw [unpassed] at past
        cases past
    | used _ _ used =>
        rw [unused] at used
        cases used

theorem unused_of_gotPast (h : Tallied d s) {g : Element} (holds : d.HoldsAt g) {p j : Nat}
    (token : j ∈ s.scopes.tokensAt g p) (past : s.gotPast j = true) : s.usedUp j = false := by
  obtain ⟨y, hy, rfl, _⟩ := Scopes.mem_tokensAt.mp token
  cases h.stage j y hy holds with
  | held _ _ _ unused => exact unused
  | past _ _ unused => exact unused
  | used _ unpassed =>
      rw [unpassed] at past
      cases past

/-- Each token that came to a join got past it, was used up or is held. -/
theorem length_tokensAt (h : Tallied d s) (consistent : d.Consistent) (formed : Formed d s.scopes)
    {g : Element} (node : g ∈ d.nodes) (holds : d.HoldsAt g) (p : Nat) :
    (s.scopes.tokensAt g p).length
      = (s.passedAt g p).length + (s.usedUpAt g p).length + (s.arrived p g.id).length := by
  have distinct : (s.scopes.tokensAt g p).Nodup := Scopes.nodup_idsWhere _ _
  have first := (s.scopes.tokensAt g p).length_eq_length_filter_add s.gotPast
  have second := ((s.scopes.tokensAt g p).filter (!s.gotPast ·)).length_eq_length_filter_add s.usedUp
  have used : ((s.scopes.tokensAt g p).filter (!s.gotPast ·)).filter s.usedUp = s.usedUpAt g p := by
    rw [List.filter_filter, usedUpAt]
    apply List.filter_congr
    intro j hj
    cases past : s.gotPast j with
    | false => simp
    | true => simp [h.unused_of_gotPast holds hj past]
  have held : (((s.scopes.tokensAt g p).filter (!s.gotPast ·)).filter (!s.usedUp ·)).Perm
      (s.arrived p g.id) := by
    have alone : (s.arrived p g.id).Nodup := Scopes.nodup_idsWhere _ _
    apply (List.perm_ext_iff_of_nodup ((distinct.filter _).filter _) alone).mpr
    intro j
    simp [h.mem_arrived_iff consistent formed node holds, and_comm]
  rw [used, held.length_eq] at second
  rw [first, second, passedAt, Nat.add_assoc]

end Tallied

/-- The books of a simulation balance: every token that enters an element came along one of its
flows, what leaves it goes along its flows, and joins use up what they do not pass on or hold. -/
structure Conserved (d : Diagram) (fired : Flow → Nat) (s : Simulation) : Prop where
  entered : ∀ e ∈ d.root :: d.nodes, e.kind ≠ .startEvent → e.kind ≠ .process →
    e.kind ≠ .participant → s.happened .enter e.id = ((d.incoming e).map fired).sum
  ended : ∀ e ∈ d.root :: d.nodes, e.kind = .endEvent ∨ e.kind = .process →
    ∀ f ∈ d.outgoing e, fired f = 0
  chosen : ∀ e ∈ d.root :: d.nodes, e.kind = .exclusiveGateway →
    ((d.outgoing e).map fired).sum + s.happened .stall e.id = s.exitCount e.id
  sent : ∀ e ∈ d.root :: d.nodes, e.kind ≠ .endEvent → e.kind ≠ .process →
    e.kind ≠ .exclusiveGateway → ∀ f ∈ d.outgoing e, fired f = s.exitCount e.id
  joined : ∀ g ∈ d.nodes, g.kind = .parallelGateway → 1 < (d.incoming g).length →
    ∀ p : ScopeId,
      (s.scopes.tokensAt g p).length
        = (d.incoming g).length * (s.passedAt g p).length + (s.arrived p g.id).length ∧
      (s.arrived p g.id).length < (d.incoming g).length ∧
      (s.usedUpAt g p).length = ((d.incoming g).length - 1) * (s.passedAt g p).length

/-- Tokens are conserved in whatever order a simulation is operated. -/
theorem Reached.conserved (built : d.Built) (contained : d.StartsContained) (h : Reached d c s) :
    ∃ fired : Flow → Nat, Conserved d fired s := by
  have consistent := built.consistent
  obtain ⟨sound, drained⟩ := h.sound built contained
  obtain ⟨fired, accounts⟩ := (persists_accounts consistent).reached built contained h
  have tallied := (Tallied.persists d).reached built contained h
  have quiet : ∀ e, s.scopes.exiting e = 0 := by
    intro e
    rw [Scopes.exiting, List.countP_eq_zero]
    intro x hx
    obtain ⟨i, hi⟩ := List.mem_iff_getElem?.mp hx
    have settled := sound.settled i x hi List.not_mem_nil (by rw [drained]; exact List.not_mem_nil)
    obtain gone | waiting | ⟨entered, _⟩ := settled <;> simp [*]
  refine ⟨fired, accounts.entered, accounts.ended, ?_, ?_, ?_⟩
  · intro e he kind
    have whole := accounts.chosen e he kind
    rwa [quiet, Nat.add_zero] at whole
  · intro e he notEnd notProcess notGateway f hf
    have notParticipant : e.kind ≠ .participant := by
      obtain ⟨inside, source⟩ := Diagram.mem_outgoing.mp hf
      have own := consistent.eq_of_id_of_known (List.mem_cons_of_mem _ (consistent.source f inside))
        he source
      exact own ▸ built.sourceKind f inside
    have whole := accounts.sent e he notEnd notProcess notParticipant notGateway f hf
    rwa [quiet, Nat.add_zero] at whole
  · intro g node kind several p
    have holds : d.HoldsAt g := ⟨kind, several⟩
    have share : d.share g = (d.incoming g).length := by rw [Diagram.share, if_pos holds]
    have balance := tallied.balance g p holds
    have total := tallied.length_tokensAt consistent sound.formed node holds p
    rw [share] at balance
    refine ⟨?_, ?_, balance⟩
    · obtain ⟨k, more⟩ := Nat.exists_eq_add_of_lt several
      rw [total, balance, more, Nat.add_right_cancel_iff, Nat.add_sub_cancel, Nat.add_mul (m := 1)]
      omega
    · exact length_arrived_lt_incoming consistent sound drained node holds p

/-- One token is held at the join after a signal. -/
theorem conserved_twin :
    ∃ fired : Flow → Nat, Conserved .twin fired twinHeld :=
  reached_twinHeld.conserved Diagram.built_twin (by unfold Diagram.StartsContained; decide)

end Simulation
end ProcessDiagram
