import ProcessDiagram.Proofs.Simulation.Effect
import ProcessDiagram.Proofs.Simulation.Ledger

/-!
What every operation on a scope keeps, whole runs keep. Two uses: scopes stay in their places with
their elements and parents, and the exit counts agree with the events.
-/
namespace ProcessDiagram

namespace Simulation

/-- Every operation on a scope keeps the property, and the agenda is of no account to it. -/
structure Lasting (P : Simulation → Prop) : Prop where
  agenda : ∀ (s : Simulation) (tasks : List Task), P s → P { s with agenda := tasks }
  note : ∀ (s : Simulation) (n : Notice), n.event? = none → P s → P (s.note n)
  create : ∀ (s : Simulation) (e : Element) (parent : Option Nat), P s → P (s.create e parent)
  suspend : ∀ (s : Simulation) (i : Nat), P s → P (s.suspend i)
  signal : ∀ (s s' : Simulation) (i : Nat), s.signal i = .ok s' → P s → P s'
  exit : ∀ (s : Simulation) (i : Nat), P s → P (s.exit i)
  stall : ∀ (s : Simulation) (i : Nat), P s → P (s.stall i)
  merge : ∀ (s : Simulation) (i : Nat), P s → P (s.merge i)
  destroy : ∀ (s : Simulation) (i : Nat), P s → P (s.destroy i)

namespace Lasting

variable {P : Simulation → Prop} {d : Diagram} {c : ConfigStore} {s s' : Simulation}

/-- The operations are made of a few parts. Only entering makes a scope, and only an exit is counted,
so an exit and its count are one part. -/
theorem of_parts
    (agenda : ∀ (s : Simulation) (tasks : List Task), P s → P { s with agenda := tasks })
    (note : ∀ (s : Simulation) (n : Notice), n.event? = none → P s → P (s.note n))
    (create : ∀ (s : Simulation) (e : Element) (parent : Option Nat), P s → P (s.create e parent))
    (modify : ∀ (s : Simulation) (i : Nat) (f : Scope → Scope), (∀ x, (f x).element = x.element) →
      (∀ x, (f x).parent = x.parent) → P s → P (s.modifyScope i f))
    (record : ∀ (s : Simulation) (i : Nat) (x : Scope) (kind : EventKind), s.scopes[i]? = some x →
      kind ≠ .enter → kind ≠ .exit → P s → P (s.record kind x.element.id i))
    (leave : ∀ (s : Simulation) (i : Nat) (x : Scope), s.scopes[i]? = some x → P s →
      P ({ s with exitCounts := countUp x.element.id s.exitCounts }.record .exit x.element.id i)) :
    Lasting P := by
  have changed : ∀ (s : Simulation) (i : Nat) (x : Scope) (f : Scope → Scope) (kind : EventKind),
      s.scopes[i]? = some x → (∀ y, (f y).element = y.element) → (∀ y, (f y).parent = y.parent) →
        kind ≠ .enter → kind ≠ .exit → P s → P ((s.modifyScope i f).record kind x.element.id i) := by
    intro s i x f kind hx element parent old uncounted h
    have recorded := record _ i _ kind (Scopes.getElem?_modify_self hx f) old uncounted
      (modify s i f element parent h)
    rwa [element] at recorded
  constructor
  case agenda => exact agenda
  case note => exact note
  case create => exact create
  case suspend =>
    intro s i h
    rw [Simulation.suspend]
    split
    · exact h
    next x hx =>
        exact changed s i x Scope.suspend .wait hx (fun _ => rfl) (fun _ => rfl) (by decide)
          (by decide) h
  case signal =>
    intro s s' i result h
    rw [Simulation.signal] at result
    split at result
    · cases result
      exact h
    next x hx =>
        split at result
        · cases result
        · cases result
          exact agenda _ _ (changed s i x _ .signal hx (fun _ => rfl) (fun _ => rfl) (by decide)
            (by decide) h)
  case exit =>
    intro s i h
    rw [Simulation.exit]
    split
    · exact h
    next x hx =>
        split
        · exact h
        · exact agenda _ _ (leave _ i x.leave (Scopes.getElem?_modify_self hx Scope.leave)
            (modify s i Scope.leave (fun _ => rfl) (fun _ => rfl) h))
  case stall =>
    intro s i h
    rw [Simulation.stall]
    split
    · exact h
    next x hx => exact note _ _ rfl (record s i x .stall hx (by decide) (by decide) h)
  case merge =>
    intro s i h
    rw [Simulation.merge]
    split
    · exact h
    next x hx =>
        exact modify _ i _ (fun _ => rfl) (fun _ => rfl)
          (record s i x .merge hx (by decide) (by decide) h)
  case destroy => exact fun s i h => modify s i _ (fun _ => rfl) (fun _ => rfl) h

theorem enter (h : Lasting P) (hs : P s) (e : Element) (parent : Option Nat) :
    P (s.enter e parent) :=
  h.agenda _ _ (h.create s e parent hs)

theorem enterAll (h : Lasting P) (hs : P s) (flows : List Flow) (parent : Option Nat) :
    P (s.enterAll flows parent) := by
  induction flows generalizing s with
  | nil => exact hs
  | cons f rest ih => exact ih (h.enter hs f.target parent)

theorem merges (h : Lasting P) (hs : P s) (tokens : List Nat) : P (tokens.foldl Simulation.merge s) := by
  induction tokens generalizing s with
  | nil => exact hs
  | cons i rest ih => exact ih (h.merge s i hs)

theorem waitOrExit (h : Lasting P) (hs : P s) (i : Nat) (e : Element) :
    P (waitOrExit c s i e) := by
  rw [Simulation.waitOrExit]
  split
  · exact h.suspend s i hs
  · exact h.exit s i hs

theorem startInner (h : Lasting P) (hs : P s) (i : Nat) (e : Element) :
    P (startInner d s i e) := by
  rw [Simulation.startInner]
  split
  · exact h.exit _ i (h.note s _ rfl hs)
  · exact h.enter hs _ _

theorem enterParallel (h : Lasting P) (hs : P s) {i : Nat} {x : Scope}
    (result : enterParallel d c s i x = .ok s') : P s' := by
  rw [Simulation.enterParallel] at result
  simp only at result
  split at result
  · cases result
    exact hs
  · split at result
    · cases result
      exact h.waitOrExit hs i x.element
    · split at result
      · cases result
      · split at result
        · cases result
          exact h.note s _ rfl hs
        · cases result
          exact h.waitOrExit (h.merges hs _) i x.element

theorem onEnter (h : Lasting P) (hs : P s) {i : Nat} {x : Scope}
    (result : onEnter d c s i x = .ok s') : P s' := by
  rw [Simulation.onEnter] at result
  cases kind : x.element.kind with
  | startEvent | endEvent =>
      rw [kind] at result
      cases result
      exact h.exit s i hs
  | intermediateCatchEvent =>
      rw [kind] at result
      cases result
      exact h.suspend s i hs
  | parallelGateway =>
      rw [kind] at result
      exact h.enterParallel hs result
  | subProcess =>
      rw [kind] at result
      cases result
      split
      · exact h.suspend s i hs
      · exact h.startInner hs i x.element
  | process | participant =>
      rw [kind] at result
      cases result
      exact hs
  | task | exclusiveGateway | collaboration | unknown =>
      rw [kind] at result
      cases result
      exact h.waitOrExit hs i x.element

theorem onSignal (h : Lasting P) (hs : P s) (i : Nat) (x : Scope) : P (onSignal d s i x) := by
  rw [Simulation.onSignal]
  split
  · exact h.startInner hs i x.element
  · exact h.exit s i hs

theorem leaveExclusive (h : Lasting P) (hs : P s) (i : Nat) (x : Scope) :
    P (leaveExclusive d c s i x) := by
  rw [Simulation.leaveExclusive]
  split
  · exact h.enterAll hs _ _
  · split
    · exact h.enterAll hs _ _
    · exact h.stall s i hs

theorem onExit (h : Lasting P) (hs : P s) (i : Nat) (x : Scope) : P (onExit d c s i x) := by
  rw [Simulation.onExit]
  split
  · exact h.note s _ rfl hs
  · exact h.note s _ rfl hs
  · exact h.note s _ rfl hs
  · exact h.leaveExclusive hs i x
  · exact h.enterAll hs _ _

theorem tryExit (h : Lasting P) (hs : P s) (i : Nat) : P (s.tryExit i) := by
  rw [Simulation.tryExit]
  split
  · exact hs
  · split
    · exact hs
    · exact h.exit s i hs

theorem finishExit (h : Lasting P) (hs : P s) (i : Nat) (x : Scope) :
    P (finishExit d c s i x) := by
  have left := h.destroy _ i (h.onExit (d := d) (c := c) hs i x)
  rw [Simulation.finishExit]
  split
  · exact h.tryExit left _
  · exact left

theorem runTask (h : Lasting P) (hs : P s) {t : Task} (result : runTask d c s t = .ok s') :
    P s' := by
  cases t with
  | enter i =>
      rw [Simulation.runTask] at result
      split at result
      · exact h.onEnter hs result
      · cases result
        exact hs
  | signal i =>
      rw [Simulation.runTask] at result
      split at result
      · cases result
        exact h.onSignal hs i _
      · cases result
        exact hs
  | finishExit i =>
      rw [Simulation.runTask] at result
      split at result
      · cases result
        exact h.finishExit hs i _
      · cases result
        exact hs

theorem drain (h : Lasting P) (bound : Nat) (hs : P s) : P (drain d c bound s).1 := by
  induction bound generalizing s with
  | zero =>
      rw [Simulation.drain]
      split <;> exact hs
  | succ bound ih =>
      rw [Simulation.drain]
      split
      · exact hs
      next t rest _ =>
          split
          next s' result => exact ih (h.runTask (h.agenda s rest hs) result)
          next => exact h.agenda s [] hs

theorem settle {α : Type} (h : Lasting P) (bound : Nat) (hs : P s) (value : α) :
    P (settle d c bound s value).1 := by
  have drained := h.drain (d := d) (c := c) bound hs
  rw [Simulation.settle]
  split
  next result =>
      rw [result] at drained
      exact drained
  next result =>
      rw [result] at drained
      exact drained

theorem openContainer (h : Lasting P) (hs : P s) {container e : Element} {p : Nat}
    (result : s.openContainer container e = .ok (s', p)) : P s' := by
  rw [Simulation.openContainer] at result
  split at result
  · split at result
    · cases result
      exact hs
    · cases result
  · cases result
    exact h.create s container none hs

theorem start (h : Lasting P) (bound : Nat) (hs : P s) (e : Option Element) :
    P (start d c bound s e).1 := by
  rw [Simulation.start]
  split
  · exact hs
  · split
    · exact hs
    · split
      · exact hs
      next opened =>
          refine h.settle bound (h.enter ?_ _ _) _
          exact h.note _ _ rfl (h.openContainer hs opened)

theorem signalAndRun (h : Lasting P) (bound : Nat) (hs : P s) (i : Nat) :
    P (signalAndRun d c bound s i).1 := by
  rw [Simulation.signalAndRun]
  split
  · exact hs
  next s' result => exact h.settle bound (h.signal s s' i result hs) ()

theorem trigger (h : Lasting P) (bound : Nat) (hs : P s) (id : String) :
    P (trigger d c bound s id).1 := by
  rw [Simulation.trigger]
  split
  · exact hs
  · split
    next i _ =>
        have signalled := h.signalAndRun (d := d) (c := c) bound hs i
        split
        next result =>
            rw [result] at signalled
            exact signalled
        next result =>
            rw [result] at signalled
            exact signalled
    next =>
        split
        · exact h.start bound hs _
        · exact hs

/-- What lasts and holds at first holds in whatever order a simulation is operated. -/
theorem reached (h : Lasting P) (empty : P .empty) (reached : Reached d c s) : P s := by
  induction reached with
  | empty c => exact empty
  | configure _ _ ih => exact ih
  | start _ _ _ ih => exact h.start _ ih _
  | trigger _ _ ih => exact h.trigger _ ih _
  | signal _ _ _ ih => exact h.signalAndRun _ ih _
  | reset _ _ => exact empty

end Lasting
end Simulation

/-! ## Scopes stay where they are -/

/-- Every scope is still there later, with its element and its parent. -/
def Scopes.Kept (scopes later : Scopes) : Prop :=
  ∀ (i : Nat) (x : Scope), scopes[i]? = some x →
    ∃ y : Scope, later[i]? = some y ∧ y.element = x.element ∧ y.parent = x.parent

namespace Scopes.Kept

variable {scopes later : Scopes}

theorem refl (scopes : Scopes) : scopes.Kept scopes :=
  fun _ x hx => ⟨x, hx, rfl, rfl⟩

theorem append (h : scopes.Kept later) (new : Scope) : scopes.Kept (later ++ [new]) := by
  intro i x hx
  obtain ⟨y, hy, same⟩ := h i x hx
  exact ⟨y, getElem?_append_old hy new, same⟩

theorem modify (h : scopes.Kept later) (i : Nat) {f : Scope → Scope}
    (element : ∀ x, (f x).element = x.element) (parent : ∀ x, (f x).parent = x.parent) :
    scopes.Kept (later.modify i f) := by
  intro j x hx
  obtain ⟨y, hy, own, under⟩ := h j x hx
  by_cases here : i = j
  · subst here
    exact ⟨f y, getElem?_modify_self hy f, (element y).trans own, (parent y).trans under⟩
  · exact ⟨y, (getElem?_modify_other here f).trans hy, own, under⟩

theorem length_le (h : scopes.Kept later) : scopes.length ≤ later.length := by
  cases size : scopes.length with
  | zero => exact Nat.zero_le _
  | succ n =>
      obtain ⟨y, hy, _⟩ := h n _ (List.getElem?_eq_getElem (by omega))
      exact (List.getElem?_eq_some_iff.mp hy).1

theorem destroyAll (h : scopes.Kept later) (tokens : List Nat) :
    scopes.Kept (later.destroyAll tokens) := by
  induction tokens generalizing later with
  | nil => exact h
  | cons i rest ih => exact ih (h.modify i (fun _ => rfl) fun _ => rfl)

theorem enterAll (h : scopes.Kept later) (elements : List Element) (parent : Option Nat) :
    scopes.Kept (later.enterAll elements parent) := by
  intro i x hx
  obtain ⟨y, hy, same⟩ := h i x hx
  refine ⟨y, ?_, same⟩
  rw [Scopes.enterAll, List.getElem?_append_left (List.getElem?_eq_some_iff.mp hy).1]
  exact hy

theorem lasting (scopes : Scopes) : Simulation.Lasting fun s => scopes.Kept s.scopes := by
  apply Simulation.Lasting.of_parts
  case agenda => exact fun _ _ h => h
  case note => exact fun _ _ _ h => h
  case create => exact fun _ _ _ h => h.append _
  case modify => exact fun _ i _ element parent h => h.modify i element parent
  case record => exact fun _ _ _ _ _ _ _ h => h
  case leave => exact fun _ _ _ _ h => h

end Scopes.Kept

/-! ## Exit counts -/

namespace Simulation

/-- How many events of a kind an element has. -/
def happened (s : Simulation) (kind : EventKind) (id : String) : Nat :=
  s.events.countP fun ev => ev.kind == kind && ev.element == id

theorem events_note {s : Simulation} {n : Notice} (silent : n.event? = none) :
    (s.note n).events = s.events := by
  rw [events, Simulation.note, List.filterMap_append, List.filterMap_cons_none silent]
  exact List.append_nil _

theorem events_record (s : Simulation) (kind : EventKind) (id : String) (i : Nat) :
    (s.record kind id i).events = s.events ++ [⟨kind, id, i⟩] := by
  rw [events, Simulation.record, Simulation.note, List.filterMap_append]
  rfl

theorem happened_note {s : Simulation} {n : Notice} (silent : n.event? = none) (kind : EventKind)
    (id : String) : (s.note n).happened kind id = s.happened kind id := by
  rw [happened, events_note silent]
  rfl

theorem happened_record (s : Simulation) (kind : EventKind) (id : String) (i : Nat)
    (kind' : EventKind) (id' : String) : (s.record kind id i).happened kind' id'
      = s.happened kind' id' + if kind = kind' ∧ id = id' then 1 else 0 := by
  rw [happened, events_record, List.countP_append, List.countP_singleton]
  simp only [Bool.and_eq_true, beq_iff_eq]
  rfl

/-- The exit count of an element is the number of its exit events. -/
theorem lasting_exitCount :
    Lasting fun s => ∀ id : String, s.exitCount id = s.happened .exit id := by
  have recorded : ∀ (s : Simulation) (kind : EventKind) (id : String) (i : Nat), kind ≠ .exit →
      (∀ id : String, s.exitCount id = s.happened .exit id) →
        ∀ id' : String, s.exitCount id' = (s.record kind id i).happened .exit id' := by
    intro s kind id i other h id'
    rw [happened_record, if_neg fun both => other both.1]
    exact h id'
  apply Lasting.of_parts
  case agenda => exact fun _ _ h => h
  case note =>
    intro s n silent h id
    rw [happened_note silent]
    exact h id
  case create => exact fun s e _ h => recorded { s with scopes := _ } .enter e.id _ (by decide) h
  case modify => exact fun _ _ _ _ _ h => h
  case record => exact fun s i x kind _ _ other h => recorded s kind _ i other h
  case leave =>
    intro s i x _ h id
    have counted : ((countUp x.element.id s.exitCounts).lookup id).getD 0
        = s.exitCount id + if x.element.id = id then 1 else 0 := lookup_countUp _ _ _
    have told := happened_record { s with exitCounts := countUp x.element.id s.exitCounts } .exit
      x.element.id i .exit id
    simp only [true_and] at told
    calc ((countUp x.element.id s.exitCounts).lookup id).getD 0
      _ = s.happened .exit id + if x.element.id = id then 1 else 0 := by rw [counted, h id]
      _ = _ := told.symm

/-- The exit counts agree with the events in whatever order a simulation is operated. -/
theorem Reached.exitCount_eq {d : Diagram} {c : ConfigStore} {s : Simulation}
    (h : Reached d c s) (id : String) : s.exitCount id = s.happened .exit id :=
  lasting_exitCount.reached (fun _ => rfl) h id

end Simulation
end ProcessDiagram
