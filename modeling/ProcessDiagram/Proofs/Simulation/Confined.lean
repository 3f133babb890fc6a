import ProcessDiagram.Proofs.Simulation.Inputs
import ProcessDiagram.Proofs.Simulation.Refused

/-!
Process instances are kept apart. A token only has to do with scopes below the same root: with its
siblings at a join, and with its parent when it is gone. So whatever is asked of a session, all of
the work for it is in the scopes of one root. Main statement: `Demand.touches_one_instance`.
-/
namespace ProcessDiagram

namespace Scopes

variable {d : Diagram} {scopes later : Scopes} {root i p : ScopeId} {x : Scope}

/-- The root that a scope is below, or is itself: its process instance. -/
inductive RootOf (scopes : Scopes) (root : ScopeId) : ScopeId → Prop
  | self {x : Scope} : scopes[root]? = some x → x.parent = none → RootOf scopes root root
  | above {i p : ScopeId} {x : Scope} : scopes[i]? = some x → x.parent = some p →
      RootOf scopes root p → RootOf scopes root i

namespace RootOf

theorem parent (h : scopes.RootOf root i) (hx : scopes[i]? = some x) (under : x.parent = some p) :
    scopes.RootOf root p := by
  cases h with
  | self hy top =>
      rw [Option.some.inj (hx.symm.trans hy), top] at under
      cases under
  | above hy under' h =>
      rw [Option.some.inj (hx.symm.trans hy), under'] at under
      cases under
      exact h

theorem kept (h : scopes.RootOf root i) (kept : scopes.Kept later) : later.RootOf root i := by
  induction h with
  | self hx top =>
      obtain ⟨y, hy, _, same⟩ := kept _ _ hx
      exact .self hy (same.trans top)
  | above hx under _ ih =>
      obtain ⟨y, hy, _, same⟩ := kept _ _ hx
      exact .above hy (same.trans under) ih

theorem old (formed : Formed d scopes) (kept : scopes.Kept later) (h : later.RootOf root i)
    (hx : scopes[i]? = some x) : scopes.RootOf root i := by
  -- A parent comes before its child, so above an old scope the way up only meets old ones.
  induction h generalizing x with
  | self hy top =>
      obtain ⟨z, hz, _, same⟩ := kept _ _ hx
      rw [Option.some.inj (hy.symm.trans hz), same] at top
      exact .self hx top
  | above hy under _ ih =>
      obtain ⟨z, hz, _, same⟩ := kept _ _ hx
      rw [Option.some.inj (hy.symm.trans hz), same] at under
      obtain ⟨_, y, there, _⟩ := formed.inside _ x _ hx under
      exact .above hx under (ih there)

end RootOf

theorem exists_rootOf (formed : Formed d scopes) (hx : scopes[i]? = some x) :
    ∃ root, scopes.RootOf root i := by
  induction i using Nat.strongRecOn generalizing x with
  | _ i ih =>
      cases parent : x.parent with
      | none => exact ⟨i, .self hx parent⟩
      | some p =>
          obtain ⟨earlier, y, hy, _⟩ := formed.inside i x p hx parent
          obtain ⟨root, below⟩ := ih p earlier hy
          exact ⟨root, .above hx parent below⟩

/-- The instance that something is for: that of the scope which receives it, or a new one. -/
def Serves (scopes : Scopes) (root : ScopeId) : Option ScopeId → Prop
  | some i => scopes.RootOf root i
  | none => root = scopes.length

/-! ## Changes to one instance -/

/-- Scopes of other instances are as they were, and what is new is in this one. -/
structure Spares (root : ScopeId) (scopes later : Scopes) : Prop where
  kept : scopes.Kept later
  others : ∀ (i : ScopeId) (x : Scope), scopes[i]? = some x → ¬ scopes.RootOf root i →
    later[i]? = some x
  created : ∀ i, scopes.length ≤ i → i < later.length → later.RootOf root i

theorem Kept.trans {last : Scopes} (first : scopes.Kept later) (second : later.Kept last) :
    scopes.Kept last := by
  intro i x hx
  obtain ⟨y, hy, own, under⟩ := first i x hx
  obtain ⟨z, hz, own', under'⟩ := second i y hy
  exact ⟨z, hz, own'.trans own, under'.trans under⟩

namespace Spares

theorem refl (root : ScopeId) (scopes : Scopes) : scopes.Spares root scopes :=
  ⟨.refl scopes, fun _ _ hx _ => hx, fun _ new below => absurd below (Nat.not_lt.mpr new)⟩

theorem trans {last : Scopes} (formed : Formed d scopes) (first : scopes.Spares root later)
    (second : later.Spares root last) : scopes.Spares root last := by
  refine ⟨first.kept.trans second.kept, ?_, ?_⟩
  · intro i x hx other
    exact second.others i x (first.others i x hx other)
      fun below => other (below.old formed first.kept hx)
  · intro i new below
    by_cases middle : i < later.length
    · exact (first.created i new middle).kept second.kept
    · exact second.created i (Nat.not_lt.mp middle) below

theorem modify (h : scopes.RootOf root i) {f : Scope → Scope}
    (element : ∀ x, (f x).element = x.element) (parent : ∀ x, (f x).parent = x.parent) :
    scopes.Spares root (scopes.modify i f) := by
  refine ⟨(Kept.refl scopes).modify i element parent, ?_, ?_⟩
  · intro j x hx other
    have apart : i ≠ j := by
      rintro rfl
      exact other h
    rw [getElem?_modify_other apart]
    exact hx
  · intro j new below
    rw [List.length_modify] at below
    exact absurd below (Nat.not_lt.mpr new)

theorem destroyAll {tokens : List Nat} (h : ∀ j ∈ tokens, scopes.RootOf root j) :
    scopes.Spares root (scopes.destroyAll tokens) := by
  refine ⟨(Kept.refl scopes).destroyAll tokens, ?_, ?_⟩
  · intro j x hx other
    rw [getElem?_destroyAll fun token => other (h j token)]
    exact hx
  · intro j new below
    rw [Simulation.length_destroyAll] at below
    exact absurd below (Nat.not_lt.mpr new)

theorem enterAll (elements : List Element) (h : scopes.RootOf root p) :
    scopes.Spares root (scopes.enterAll elements (some p)) := by
  have kept := (Kept.refl scopes).enterAll elements (some p)
  refine ⟨kept, ?_, ?_⟩
  · intro j x hx _
    rw [Scopes.enterAll, List.getElem?_append_left (List.getElem?_eq_some_iff.mp hx).1]
    exact hx
  · intro j new below
    obtain ⟨y, hy⟩ : ∃ y, (scopes.enterAll elements (some p))[j]? = some y :=
      ⟨_, List.getElem?_eq_getElem below⟩
    refine .above hy ?_ (h.kept kept)
    rw [Scopes.enterAll, List.getElem?_append_right new, List.getElem?_map] at hy
    obtain ⟨e, _, rfl⟩ := Option.map_eq_some_iff.mp hy
    rfl

theorem addRoot (scopes : Scopes) (e : Element) :
    scopes.Spares scopes.length (scopes ++ [Scope.enter e none]) := by
  refine ⟨(Kept.refl scopes).append _, fun j x hx _ => getElem?_append_old hx _, ?_⟩
  intro j new below
  rw [List.length_append, List.length_singleton] at below
  have here : j = scopes.length := by omega
  rw [here]
  exact .self (getElem?_append_new scopes _) rfl

theorem children (formed : Formed d scopes) (h : scopes.Spares root later)
    (hx : scopes[i]? = some x) (other : ¬ scopes.RootOf root i) :
    later.children i = scopes.children i := by
  apply List.Perm.eq_of_pairwise' (pairwise_idsWhere _ _) (pairwise_idsWhere _ _)
  rw [List.perm_ext_iff_of_nodup (nodup_idsWhere _ _) (nodup_idsWhere _ _)]
  intro j
  simp only [mem_idsWhere, beq_iff_eq]
  constructor
  · intro ⟨y, hy, under⟩
    by_cases old : j < scopes.length
    · obtain ⟨z, hz, _, same⟩ := h.kept j _ (List.getElem?_eq_getElem old)
      rw [Option.some.inj (hy.symm.trans hz), same] at under
      exact ⟨_, List.getElem?_eq_getElem old, under⟩
    · have new := h.created j (Nat.not_lt.mp old) (List.getElem?_eq_some_iff.mp hy).1
      exact absurd ((new.parent hy under).old formed h.kept hx) other
  · intro ⟨y, hy, under⟩
    obtain ⟨z, hz, _, same⟩ := h.kept j y hy
    exact ⟨z, hz, same.trans under⟩

end Spares
end Scopes

namespace Simulation

variable {d : Diagram} {c : ConfigStore} {s s' s'' : Simulation} {root i : ScopeId} {x : Scope}

/-- Work for the scopes of one instance: they are all that is changed, told of and scheduled. -/
structure Confined (root : ScopeId) (s s' : Simulation) : Prop where
  spares : s.scopes.Spares root s'.scopes
  tasks : ∀ t ∈ s'.agenda, t ∈ s.agenda ∨ s'.scopes.RootOf root t.scope
  told : ∃ told, s'.events = s.events ++ told ∧ ∀ ev ∈ told, s'.scopes.RootOf root ev.scope

namespace Confined

theorem refl (root : ScopeId) (s : Simulation) : Confined root s s :=
  ⟨.refl root s.scopes, fun _ => .inl, [], (List.append_nil _).symm, List.forall_mem_nil _⟩

theorem trans (formed : Formed d s.scopes) (first : Confined root s s')
    (second : Confined root s' s'') : Confined root s s'' := by
  refine ⟨first.spares.trans formed second.spares, ?_, ?_⟩
  · intro t later
    cases second.tasks t later with
    | inl before => exact (first.tasks t before).imp_right fun own => own.kept second.spares.kept
    | inr own => exact .inr own
  · obtain ⟨told, events, own⟩ := first.told
    obtain ⟨more, events', own'⟩ := second.told
    refine ⟨told ++ more, by rw [events', events, List.append_assoc], ?_⟩
    intro ev mem
    cases List.mem_append.mp mem with
    | inl early => exact (own ev early).kept second.spares.kept
    | inr late => exact own' ev late

end Confined

theorem Change.confined {scopes : Scopes} {added : List Task} {counts : List (String × Nat)}
    {told : List Event} (change : Change s s' scopes added counts told)
    (spares : s.scopes.Spares root scopes) (scheduled : ∀ t ∈ added, scopes.RootOf root t.scope)
    (about : ∀ ev ∈ told, scopes.RootOf root ev.scope) : Confined root s s' := by
  obtain ⟨rfl, agenda, _, events⟩ := change
  refine ⟨spares, ?_, told, events, about⟩
  intro t later
  rw [agenda] at later
  exact (List.mem_append.mp later).imp_right (scheduled t)

theorem Change.confined_modify {f : Scope → Scope} {added : List Task}
    {counts : List (String × Nat)} {told : List Event}
    (change : Change s s' (s.scopes.modify i f) added counts told) (h : s.scopes.RootOf root i)
    (element : ∀ x, (f x).element = x.element) (parent : ∀ x, (f x).parent = x.parent)
    (scheduled : ∀ t ∈ added, t.scope = i) (about : ∀ ev ∈ told, ev.scope = i) :
    Confined root s s' := by
  have spares := Scopes.Spares.modify h element parent
  have own := h.kept spares.kept
  exact change.confined spares (fun t mem => scheduled t mem ▸ own) fun ev mem => about ev mem ▸ own

theorem Change.confined_created {scopes : Scopes} {added : List Task}
    {counts : List (String × Nat)} {told : List Event}
    (change : Change s s' scopes added counts told) (spares : s.scopes.Spares root scopes)
    (scheduled : ∀ t ∈ added, s.scopes.length ≤ t.scope ∧ t.scope < scopes.length)
    (about : ∀ ev ∈ told, s.scopes.length ≤ ev.scope ∧ ev.scope < scopes.length) :
    Confined root s s' := by
  apply change.confined spares
  · intro t mem
    exact spares.created t.scope (scheduled t mem).1 (scheduled t mem).2
  · intro ev mem
    exact spares.created ev.scope (about ev mem).1 (about ev mem).2

/-! ## Turns -/

theorem Change.confined_enter {e : Element} {counts : List (String × Nat)} {p : ScopeId}
    (change : Change s s' (s.scopes ++ [Scope.enter e (some p)]) [.enter s.scopes.length] counts
      [⟨.enter, e.id, s.scopes.length⟩]) (h : s.scopes.RootOf root p) : Confined root s s' := by
  apply change.confined_created (.enterAll [e] h)
  · simp [Task.scope]
  · simp

theorem Proceeds.confined {o : Outcome} (proceeds : Proceeds s i x o s')
    (h : s.scopes.RootOf root i) : Confined root s s' := by
  cases proceeds with
  | waits change =>
      exact change.confined_modify h (fun _ => rfl) (fun _ => rfl) (by simp) (by simp)
  | leaves change =>
      exact change.confined_modify h (fun _ => rfl) (fun _ => rfl) (by simp [Task.scope]) (by simp)
  | starts change => exact change.confined_enter h

/-- A join only takes tokens that have the same parent. -/
theorem Gathers.confined {p : ScopeId} {tokens : List ScopeId}
    (gathers : Gathers d s i x p tokens s') (h : s.scopes.RootOf root p) : Confined root s s' := by
  have siblings : ∀ j ∈ tokens, s.scopes.RootOf root j := by
    intro j token
    obtain ⟨y, hy, _, _, _, under⟩ := gathers.alike j token
    exact .above hy under h
  have spares := Scopes.Spares.destroyAll siblings
  apply gathers.change.confined spares
  · exact List.forall_mem_nil _
  · intro ev mem
    obtain ⟨j, token, rfl⟩ := List.mem_map.mp mem
    exact (siblings j token).kept spares.kept

theorem spares_sent (formed : Formed d s.scopes) (hx : s.scopes[i]? = some x) {flows : List Flow}
    (sent : d.sent c x.element = some flows) (h : s.scopes.RootOf root i) :
    s.scopes.Spares root (s.scopes.enterAll (flows.map (·.target)) x.parent) := by
  cases parent : x.parent with
  | some p => exact .enterAll _ (h.parent hx parent)
  | none =>
      have none : d.sent c x.element = some [] := by
        cases (formed.proper i x hx).root parent with
        | inl process => rw [Diagram.sent, process]
        | inr participant => rw [Diagram.sent, participant]
      rw [none] at sent
      cases sent
      rw [List.map_nil, Scopes.enterAll, List.map_nil, List.append_nil]
      exact .refl root s.scopes

theorem Departs.confined (formed : Formed d s.scopes) (departs : Departs d c s i x s')
    (hx : s.scopes[i]? = some x) (h : s.scopes.RootOf root i) : Confined root s s' := by
  cases departs with
  | stalls _ change =>
      exact change.confined_modify h (fun _ => rfl) (fun _ => rfl) (by simp) (by simp)
  | @sends flows _ sent change =>
      have along := spares_sent formed hx sent h
      have spares := along.trans formed
        (.modify (f := Scope.destroy) (h.kept along.kept) (fun _ => rfl) fun _ => rfl)
      have size : ((s.scopes.enterAll (flows.map (·.target)) x.parent).modify i
          Scope.destroy).length = s.scopes.length + flows.length := by
        rw [List.length_modify, Scopes.enterAll, List.length_append, List.length_map,
          List.length_map]
      apply change.confined_created spares
      · intro t mem
        obtain ⟨j, fresh, rfl⟩ := List.mem_map.mp mem
        rw [size]
        exact List.mem_range'_1.mp fresh
      · intro ev mem
        obtain ⟨⟨f, j⟩, fresh, rfl⟩ := List.mem_map.mp mem
        obtain ⟨low, high, _⟩ := List.mem_zipIdx fresh
        rw [size]
        exact ⟨low, high⟩

theorem Turn.confined (formed : Formed d s.scopes) {t : Task} (turn : Turn d c s t s')
    (h : s.scopes.RootOf root t.scope) : Confined root s s' := by
  cases turn with
  | rests change =>
      exact change.confined (.refl root s.scopes) (List.forall_mem_nil _) (List.forall_mem_nil _)
  | arrives ready parent _ _ gathers _ proceeds =>
      have gathered := gathers.confined (h.parent ready.found parent)
      exact gathered.trans formed (proceeds.confined (h.kept gathered.spares.kept))
  | departs exiting departs => exact departs.confined formed exiting.found h
  | closes exiting departs parent _ _ _ proceeds =>
      have departed := departs.confined formed exiting.found h
      have above := h.parent exiting.found parent
      exact departed.trans formed (proceeds.confined (above.kept departed.spares.kept))

/-- A run that begins with work for one instance stays with it. -/
theorem Confined.drain (consistent : d.Consistent) {s₀ : Simulation}
    (formed : Formed d s₀.scopes) (drained : s₀.agenda = []) (bound : Nat)
    (sound : Sound d [] s.scopes s.agenda) (queued : Queued s.scopes s.agenda)
    (h : Confined root s₀ s) : Confined root s₀ (drain d c bound s).1 := by
  apply turns_drain consistent _ bound sound queued h
  intro s t s' sound _ turn h
  have own : s.scopes.RootOf root t.scope := by
    refine (h.tasks t List.mem_cons_self).resolve_left ?_
    rw [drained]
    exact List.not_mem_nil
  have turned := turn.confined sound.formed own
  refine h.trans formed ⟨turned.spares, ?_, turned.told⟩
  exact fun t' later => (turned.tasks t' later).imp_left (List.mem_cons_of_mem t)

/-! ## Demands -/

theorem confined_signalAndRun (consistent : d.Consistent) (bound : Nat)
    (sound : Sound d [] s.scopes s.agenda) (drained : s.agenda = []) (h : s.scopes.RootOf root i) :
    Confined root s (signalAndRun d c bound s i).1 := by
  by_cases waits : ∃ x, s.scopes[i]? = some x ∧ x.destroyed = false ∧ x.pending = true
  · obtain ⟨x, hx, live, pending⟩ := waits
    cases bound with
    | zero =>
        obtain ⟨s', signalled, change⟩ := Change.signal hx live pending
        rw [signalAndRun, signalled]
        simp only [fst_settle]
        have still : (Simulation.drain d c 0 s').1 = s' := by
          rw [Simulation.drain]
          split <;> rfl
        rw [still]
        exact change.confined_modify h (fun _ => rfl) (fun _ => rfl) (by simp [Task.scope])
          (by simp)
    | succ bound =>
        obtain ⟨s₁, s', resumes, sound', queued, _, run⟩ :=
          resumes_signalAndRun sound drained hx live pending
        have resumed : Confined root s s₁ :=
          resumes.change.confined_modify h (fun _ => rfl) (fun _ => rfl) (by simp) (by simp)
        have proceeded := resumes.proceeds.confined (h.kept resumed.spares.kept)
        rw [run c bound, fst_settle]
        exact (resumed.trans sound.formed proceeded).drain consistent sound.formed drained bound
          sound' queued
  · rw [signalAndRun_of_refused bound drained waits]
    exact .refl root s

theorem Opens.confined {e : Element} (opens : Opens d s e s') (formed : Formed d s.scopes)
    {host : Option ScopeId}
    (first : s'.scopes[s.scopes.length]?.map (·.parent) = some host)
    (h : s.scopes.Serves root host) : Confined root s s' := by
  cases opens with
  | @inside p y _ hy _ _ change =>
      rw [change.scopes, Scopes.getElem?_append_new] at first
      cases first
      exact change.confined_enter h
  | @below container s₁ _ _ _ made change =>
      have there := Scopes.getElem?_append_new s.scopes (Scope.enter container none)
      rw [change.scopes, made.scopes, Scopes.getElem?_append_old there] at first
      cases first
      cases h
      have rooted : Confined s.scopes.length s s₁ := by
        apply made.confined_created (.addRoot s.scopes container) <;> simp
      have above : s₁.scopes.RootOf s.scopes.length s.scopes.length := by
        rw [made.scopes]
        exact .self there rfl
      exact rooted.trans formed (change.confined_enter above)

theorem confined_start (consistent : d.Consistent) {e : Option Element}
    (contained : d.ContainsStart e) (bound : Nat) (sound : Sound d [] s.scopes s.agenda)
    (drained : s.agenda = []) (named : ∀ x, e = some x → x ∈ d.nodes ∧ x.kind = .startEvent)
    (h : s.scopes.Serves root (((e.map Except.ok).getD (rootStart d)).toOption.bind (s.host? d))) :
    Confined root s (s.start d c bound e).1 := by
  obtain refused | ⟨first, s', chosen, opens, below, sound', run⟩ :=
    opens_in_host (c := c) consistent contained bound sound drained named
  · rw [refused]
    exact .refl root s
  · rw [chosen] at h
    rw [run]
    exact (opens.confined sound.formed below h).drain consistent sound.formed drained bound sound'
      (opens.queued drained)

theorem confined_trigger (consistent : d.Consistent) (contained : d.StartsContained) (bound : Nat)
    (sound : Sound d [] s.scopes s.agenda) (drained : s.agenda = []) {id : String}
    (h : s.scopes.Serves root ((s.waitingScope? id).or
      (((d.find? id).filter (·.kind == .startEvent)).bind (s.host? d)))) :
    Confined root s (s.trigger d c bound id).1 := by
  rw [trigger]
  split
  next => exact .refl root s
  next e found =>
      rw [found] at h
      split
      next i waiting =>
          rw [waiting] at h
          have signalled := confined_signalAndRun (c := c) consistent bound sound drained h
          split <;> (next run => rw [run] at signalled; exact signalled)
      next idle =>
          split
          next kind =>
              have node := consistent.mem_of_find? found (by rw [kind]; decide)
              have named : ∀ x, some e = some x → x ∈ d.nodes ∧ x.kind = .startEvent := by
                intro x same
                cases same
                exact ⟨node, kind⟩
              rw [idle, Option.none_or, Option.filter_some, kind] at h
              exact confined_start consistent (containsStart_of_named contained named) bound sound
                drained named h
          next => exact .refl root s

end Simulation

/-! ## Sessions -/

/-- The scope in which the work for a demand begins, unless it begins with a new root or there is
none. -/
def Demand.receiver? (d : Diagram) (s : Simulation) : Demand → Option ScopeId
  | start e => ((e.map Except.ok).getD (Simulation.rootStart d)).toOption.bind (s.host? d)
  | trigger id =>
    (s.waitingScope? id).or (((d.find? id).filter (·.kind == .startEvent)).bind (s.host? d))
  | signal i => if i < s.scopes.length then some i else none
  | choose _ _ => none

/-- Only one process instance is touched: the scopes of the others are as they were and have the
same children, and everything that is made, told of and still to be done is for this one. -/
structure Simulation.Touches (root : ScopeId) (s s' : Simulation) : Prop where
  kept : s.scopes.Kept s'.scopes
  others : ∀ (i : ScopeId) (x : Scope), s.scopes[i]? = some x → ¬ s.scopes.RootOf root i →
    s'.scopes[i]? = some x ∧ s'.scopes.children i = s.scopes.children i
  created : ∀ i, s.scopes.length ≤ i → i < s'.scopes.length → s'.scopes.RootOf root i
  told : ∃ told, s'.events = s.events ++ told ∧ ∀ ev ∈ told, s'.scopes.RootOf root ev.scope
  tasks : ∀ t ∈ s'.agenda, s'.scopes.RootOf root t.scope

theorem Simulation.Confined.touches {d : Diagram} {s s' : Simulation} {root : ScopeId}
    (h : Confined root s s') (formed : Formed d s.scopes) (drained : s.agenda = []) :
    Touches root s s' := by
  refine ⟨h.spares.kept, ?_, h.spares.created, h.told, ?_⟩
  · intro i x hx other
    exact ⟨h.spares.others i x hx other, h.spares.children formed hx other⟩
  · intro t later
    refine (h.tasks t later).resolve_left ?_
    rw [drained]
    exact List.not_mem_nil

namespace Demand

theorem exists_of_receiver? {d : Diagram} {s : Simulation} {demand : Demand} {i : ScopeId}
    (receives : demand.receiver? d s = some i) : ∃ x, s.scopes[i]? = some x := by
  have hosted : ∀ e, s.host? d e = some i → ∃ x, s.scopes[i]? = some x := by
    intro e host
    obtain ⟨container, _, chosen⟩ := Option.bind_eq_some_iff.mp host
    split at chosen
    next =>
        obtain ⟨x, hx, _⟩ := Scopes.mem_idsWhere.mp (List.mem_of_head? chosen)
        exact ⟨x, hx⟩
    next => cases chosen
  cases demand with
  | start e =>
      obtain ⟨first, _, host⟩ := Option.bind_eq_some_iff.mp receives
      exact hosted first host
  | trigger id =>
      cases Option.or_eq_some_iff.mp receives with
      | inl waiting =>
          obtain ⟨x, hx, _⟩ := Scopes.mem_idsWhere.mp (List.mem_of_head? waiting)
          exact ⟨x, hx⟩
      | inr host =>
          obtain ⟨e, _, host⟩ := Option.bind_eq_some_iff.mp host.2
          exact hosted e host
  | signal j =>
      rw [receiver?] at receives
      split at receives
      next there =>
          cases receives
          exact ⟨_, List.getElem?_eq_getElem there⟩
      next => cases receives
  | choose gateway flow => cases receives

/-- Whatever is asked of a session at rest, and however long the work for it goes on, it only
touches the process instance of the scope that receives it, or a new one. -/
theorem touches_one_instance {d : Diagram} (built : d.Built) (contained : d.StartsContained)
    {s : Session} (reached : Simulation.Reached d s.config s.simulation) (bound : Nat)
    (demand : Demand) (named : ∀ e, demand = .start (some e) → e ∈ d.nodes ∧ e.kind = .startEvent) :
    ∃ root, s.simulation.scopes.Serves root (demand.receiver? d s.simulation) ∧
      s.simulation.Touches root (demand.perform d bound s).value.1.simulation := by
  have consistent := built.consistent
  obtain ⟨sound, drained⟩ := reached.sound built contained
  obtain ⟨root, serves⟩ :
      ∃ root, s.simulation.scopes.Serves root (demand.receiver? d s.simulation) := by
    cases receives : demand.receiver? d s.simulation with
    | none => exact ⟨_, rfl⟩
    | some i =>
        obtain ⟨x, hx⟩ := exists_of_receiver? receives
        exact Scopes.exists_rootOf sound.formed hx
  refine ⟨root, serves, Simulation.Confined.touches ?_ sound.formed drained⟩
  cases demand with
  | start e =>
      have named : ∀ x, e = some x → x ∈ d.nodes ∧ x.kind = .startEvent :=
        fun x same => named x (same ▸ rfl)
      exact Simulation.confined_start consistent (Simulation.containsStart_of_named contained named)
        bound sound drained named serves
  | trigger id => exact Simulation.confined_trigger consistent contained bound sound drained serves
  | signal i =>
      rw [receiver?] at serves
      split at serves
      next => exact Simulation.confined_signalAndRun consistent bound sound drained serves
      next absent =>
          have idle : ¬ ∃ x, s.simulation.scopes[i]? = some x ∧ x.destroyed = false ∧
              x.pending = true :=
            fun ⟨_, hx, _⟩ => absent (List.getElem?_eq_some_iff.mp hx).1
          have same :=
            Simulation.signalAndRun_of_refused (d := d) (c := s.config) bound drained idle
          exact same.symm ▸ .refl root s.simulation
  | choose gateway flow =>
      have same : (perform d bound s (.choose gateway flow)).value.1.simulation = s.simulation := by
        rw [perform]
        simp only [Logged.value_bind]
        split <;> rfl
      rw [same]
      exact .refl root s.simulation

/-- Two instances of one process; in each of them both tasks wait. -/
def twinTwice : Session :=
  ⟨Simulation.twinConfig, (Simulation.twinStarted.start .twin Simulation.twinConfig 20 none).1⟩

/-- A task that waits in both of them is triggered in the first. -/
theorem touches_twinTwice : ∃ root, twinTwice.simulation.scopes.RootOf root 3 ∧
    twinTwice.simulation.Touches root
      (perform .twin 20 twinTwice (.trigger "a")).value.1.simulation := by
  have receives : receiver? .twin twinTwice.simulation (.trigger "a") = some 3 := by decide +kernel
  have touched := touches_one_instance Diagram.built_twin
    (by unfold Diagram.StartsContained; decide) (s := twinTwice)
    (.start Simulation.reached_twin (by simp) (by decide +kernel)) 20 (.trigger "a") nofun
  rw [receives] at touched
  exact touched

end Demand
end ProcessDiagram
