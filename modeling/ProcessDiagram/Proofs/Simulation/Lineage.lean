import ProcessDiagram.Proofs.Diagram.Leads
import ProcessDiagram.Proofs.Simulation.Sound

/-!
Which scopes come of which. An operation adds scopes and never changes the element or the parent of
one. A task puts a token inside its own scope or, along flows, beside it; so what a token without a
parent can come to is told by where the first one was put.

Main statements: `Simulation.begets_runTask` and `Simulation.Rooted.runTask`.
-/
namespace ProcessDiagram

/-- The elements and the parents of the scopes, in the order in which they were made. -/
def Scopes.lineage (scopes : Scopes) : List (Element × Option ScopeId) :=
  scopes.map fun x => (x.element, x.parent)

theorem Scopes.lineage_modify (scopes : Scopes) (i : Nat) {f : Scope → Scope}
    (element : ∀ x, (f x).element = x.element) (parent : ∀ x, (f x).parent = x.parent) :
    lineage (scopes.modify i f) = scopes.lineage :=
  map_modify scopes i fun x => Prod.ext (element x) (parent x)

namespace Simulation

variable {d : Diagram} {c : ConfigStore} {s s' : Simulation} {i : Nat} {x : Scope} {e : Element}

/-- The elements and the parents of all scopes so far. -/
def lineage (s : Simulation) : List (Element × Option ScopeId) :=
  s.scopes.lineage

@[simp] theorem lineage_note (n : Notice) : (s.note n).lineage = s.lineage :=
  rfl

@[simp] theorem lineage_suspend (i : Nat) : (s.suspend i).lineage = s.lineage := by
  rw [suspend]
  split
  · rfl
  · exact Scopes.lineage_modify _ i (fun _ => rfl) fun _ => rfl

@[simp] theorem lineage_exit (i : Nat) : (s.exit i).lineage = s.lineage := by
  rw [exit]
  split
  · rfl
  · split
    · rfl
    · exact Scopes.lineage_modify _ i (fun _ => rfl) fun _ => rfl

@[simp] theorem lineage_destroy (i : Nat) : (s.destroy i).lineage = s.lineage :=
  Scopes.lineage_modify _ i (fun _ => rfl) fun _ => rfl

@[simp] theorem lineage_merge (i : Nat) : (s.merge i).lineage = s.lineage := by
  rw [merge]
  split
  · rfl
  · exact lineage_destroy i

@[simp] theorem lineage_stall (i : Nat) : (s.stall i).lineage = s.lineage := by
  rw [stall]
  split <;> rfl

@[simp] theorem lineage_tryExit (i : Nat) : (s.tryExit i).lineage = s.lineage := by
  rw [tryExit]
  split
  · rfl
  · split
    · rfl
    · exact lineage_exit i

@[simp] theorem lineage_merges (tokens : List Nat) :
    (tokens.foldl merge s).lineage = s.lineage := by
  induction tokens generalizing s with
  | nil => rfl
  | cons i rest ih => exact ih.trans (lineage_merge i)

@[simp] theorem lineage_waitOrExit (i : Nat) (e : Element) :
    (waitOrExit c s i e).lineage = s.lineage := by
  rw [waitOrExit]
  split
  · exact lineage_suspend i
  · exact lineage_exit i

theorem lineage_signal (resumed : s.signal i = .ok s') : s'.lineage = s.lineage := by
  rw [signal] at resumed
  split at resumed
  · cases resumed
    rfl
  · split at resumed
    · cases resumed
    · cases resumed
      exact Scopes.lineage_modify _ i (fun _ => rfl) fun _ => rfl

@[simp] theorem lineage_create (e : Element) (parent : Option ScopeId) :
    (s.create e parent).lineage = s.lineage ++ [(e, parent)] :=
  List.map_append

@[simp] theorem lineage_enter (e : Element) (parent : Option ScopeId) :
    (s.enter e parent).lineage = s.lineage ++ [(e, parent)] :=
  List.map_append

@[simp] theorem lineage_enterAll (flows : List Flow) (parent : Option ScopeId) :
    (s.enterAll flows parent).lineage = s.lineage ++ flows.map fun f => (f.target, parent) := by
  induction flows generalizing s with
  | nil => exact (List.append_nil _).symm
  | cons f rest ih =>
      have later : (s.enterAll (f :: rest) parent).lineage
          = (s.enter f.target parent).lineage ++ rest.map fun f => (f.target, parent) := ih
      simp [later]

/-! ## Tasks -/

/-- What a task on a scope can put there: nothing, a token inside the scope, or tokens beside it
along the flows by which it is left. -/
inductive Bears (d : Diagram) (s : Simulation) (i : ScopeId) :
    List (Element × Option ScopeId) → Prop
  | none : Bears d s i []
  | inside (start : Element) : Bears d s i [(start, some i)]
  | beside {x : Scope} {flows : List Flow} : s.scopes[i]? = some x →
      flows ⊆ d.outgoing x.element → x.element.kind ≠ .process → x.element.kind ≠ .participant →
      Bears d s i (flows.map fun f => (f.target, x.parent))

/-- The second simulation comes of the first by a task on the scope. -/
def Begets (d : Diagram) (i : ScopeId) (s s' : Simulation) : Prop :=
  ∃ new, Bears d s i new ∧ s'.lineage = s.lineage ++ new

theorem Begets.of_eq (same : s'.lineage = s.lineage) : Begets d i s s' :=
  ⟨[], .none, by simp [same]⟩

theorem begets_startInner (i : Nat) (e : Element) : Begets d i s (startInner d s i e) := by
  rw [startInner]
  split
  · exact .of_eq (by simp)
  next start _ _ => exact ⟨_, .inside start, lineage_enter start (some i)⟩

theorem lineage_enterParallel (result : enterParallel d c s i x = .ok s') :
    s'.lineage = s.lineage := by
  rw [enterParallel] at result
  simp only at result
  split at result
  · cases result
    rfl
  · split at result
    · cases result
      exact lineage_waitOrExit i x.element
    · split at result
      · cases result
      · split at result
        · cases result
          rfl
        · cases result
          simp

theorem begets_onEnter (result : onEnter d c s i x = .ok s') : Begets d i s s' := by
  cases kind : x.element.kind with
  | parallelGateway =>
      rw [onEnter, kind] at result
      exact .of_eq (lineage_enterParallel result)
  | subProcess =>
      rw [onEnter, kind] at result
      cases result
      split
      · exact .of_eq (by simp)
      · exact begets_startInner i x.element
  | _ =>
      rw [onEnter, kind] at result
      cases result
      exact .of_eq (by simp)

theorem begets_onSignal (i : Nat) (x : Scope) : Begets d i s (onSignal d s i x) := by
  rw [onSignal]
  split
  · exact begets_startInner i x.element
  · exact .of_eq (by simp)

theorem begets_onExit (hx : s.scopes[i]? = some x) : Begets d i s (onExit d c s i x) := by
  have along {flows : List Flow} (own : flows ⊆ d.outgoing x.element)
      (kind : x.element.kind ≠ .process ∧ x.element.kind ≠ .participant) :
      Begets d i s (s.enterAll flows x.parent) :=
    ⟨_, .beside hx own kind.1 kind.2, lineage_enterAll flows x.parent⟩
  rw [onExit]
  split
  · exact .of_eq rfl
  · exact .of_eq rfl
  · exact .of_eq rfl
  next kind =>
      have other : x.element.kind ≠ .process ∧ x.element.kind ≠ .participant := by simp [kind]
      rw [leaveExclusive]
      split
      next flow only => exact along (only ▸ List.Subset.refl _) other
      next =>
          split
          next flow chosen =>
              exact along (by simpa using List.mem_of_find?_eq_some chosen) other
          next => exact .of_eq (by simp)
  next other process participant _ => exact along (List.Subset.refl _) ⟨process, participant⟩

theorem begets_finishExit (hx : s.scopes[i]? = some x) : Begets d i s (finishExit d c s i x) := by
  obtain ⟨new, bears, same⟩ := begets_onExit (d := d) (c := c) hx
  refine ⟨new, bears, ?_⟩
  rw [finishExit]
  split
  · simp [same]
  · simp [same]

/-- What a task adds to the scopes. -/
theorem begets_runTask {t : Task} (run : runTask d c s t = .ok s') : Begets d t.scope s s' := by
  cases t with
  | enter i =>
      rw [runTask] at run
      split at run
      · exact begets_onEnter run
      · cases run
        exact .of_eq rfl
  | signal i =>
      rw [runTask] at run
      split at run
      · cases run
        exact begets_onSignal i _
      · cases run
        exact .of_eq rfl
  | finishExit i =>
      rw [runTask] at run
      split at run
      next hx =>
          cases run
          exact begets_finishExit hx
      · cases run
        exact .of_eq rfl

end Simulation

/-! ## Parentless scopes -/

namespace Diagram

variable {d : Diagram}

/-- Tokens that leave the element come to no gateway that holds them. -/
def Harmless (d : Diagram) (e : Element) : Prop :=
  e.kind = .process ∨ e.kind = .participant ∨
    e ∈ d.nodes ∧ ∀ g ∈ d.nodes, d.Leads e.id g.id → ¬ d.HoldsAt g

theorem Harmless.not_holdsAt {e : Element} (h : d.Harmless e) : ¬ d.HoldsAt e := by
  obtain process | participant | ⟨known, free⟩ := h
  · exact fun holds => by cases process.symm.trans holds.1
  · exact fun holds => by cases participant.symm.trans holds.1
  · exact free e known (.refl _)

theorem Harmless.target (consistent : d.Consistent) {e : Element} (h : d.Harmless e)
    (other : e.kind ≠ .process ∧ e.kind ≠ .participant) {f : Flow} (hf : f ∈ d.outgoing e) :
    d.Harmless f.target := by
  obtain process | participant | ⟨_, free⟩ := h
  · exact absurd process other.1
  · exact absurd participant other.2
  · refine .inr (.inr ⟨consistent.target_mem hf, fun g hg leads => free g hg ?_⟩)
    obtain ⟨known, source⟩ := mem_outgoing.mp hf
    exact source ▸ leads.head known

end Diagram

namespace Simulation

variable {d : Diagram} {c : ConfigStore} {s s' : Simulation}

/-- No parentless scope can bring a token to a gateway that holds it. -/
def Rooted (d : Diagram) (s : Simulation) : Prop :=
  ∀ r ∈ s.lineage, r.2 = none → d.Harmless r.1

theorem Rooted.append (h : Rooted d s) {new : List (Element × Option ScopeId)}
    (same : s'.lineage = s.lineage ++ new) (harmless : ∀ r ∈ new, r.2 = none → d.Harmless r.1) :
    Rooted d s' := by
  rw [Rooted, same, List.forall_mem_append]
  exact ⟨h, harmless⟩

theorem Rooted.get {i : Nat} {x : Scope} (h : Rooted d s) (hx : s.scopes[i]? = some x)
    (root : x.parent = none) : d.Harmless x.element :=
  h (x.element, x.parent) (List.mem_map_of_mem (List.mem_of_getElem? hx)) root

theorem Rooted.runTask (consistent : d.Consistent) {t : Task} (h : Rooted d s)
    (run : runTask d c s t = .ok s') : Rooted d s' := by
  obtain ⟨new, bears, same⟩ := begets_runTask run
  apply h.append same
  cases bears with
  | none => exact List.forall_mem_nil _
  | inside start => simp
  | beside hx own process participant =>
      intro r hr root
      obtain ⟨f, hf, rfl⟩ := List.mem_map.mp hr
      exact (h.get hx root).target consistent ⟨process, participant⟩ (own hf)

end Simulation
end ProcessDiagram
