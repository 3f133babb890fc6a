import ProcessDiagram.Simulation.Basic

/-!
What each kind of element does when a token enters it, when its scope is signalled and when
its scope has exited. The configuration is read and never written.
-/
namespace ProcessDiagram.Simulation

/-- The token waits where the configuration says so, and leaves at once elsewhere. -/
def waitOrExit (c : ConfigStore) (s : Simulation) (i : ScopeId) (e : Element) : Simulation :=
  if (c.get e).wait then s.suspend i else s.exit i

/-- A subprocess runs its first start event inside its scope; without one it is over. -/
def startInner (d : Diagram) (s : Simulation) (i : ScopeId) (e : Element) : Simulation :=
  match d.startEvents e with
  | [] => (s.note (.noInnerStart e.id)).exit i
  | start :: _ => s.enter start (some i)

/-- Tokens at a join, in the order of their arrival. -/
def arrived (s : Simulation) (parent : ScopeId) (gateway : String) : List ScopeId :=
  s.scopes.idsWhere fun x =>
    !x.destroyed && x.parent == some parent && x.element.id == gateway && x.state == .entered

/-- A parallel gateway with several incoming flows holds its tokens until one has come for
each flow; then the first of them become a single one. -/
def enterParallel (d : Diagram) (c : ConfigStore) (s : Simulation) (i : ScopeId) (x : Scope) :
    Except SimulationError Simulation :=
  let required := (d.incoming x.element).length
  if x.destroyed then .ok s
  else if required ≤ 1 then .ok (waitOrExit c s i x.element)
  else match x.parent with
    | none => .error (.orphanJoin x.element.id)
    | some parent =>
      let tokens := s.arrived parent x.element.id
      if tokens.length < required then
        .ok (s.note (.joinWaiting x.element.id tokens.length required))
      else
        let merged := (tokens.take required).filter (· != i)
        .ok (waitOrExit c (merged.foldl merge s) i x.element)

def onEnter (d : Diagram) (c : ConfigStore) (s : Simulation) (i : ScopeId) (x : Scope) :
    Except SimulationError Simulation :=
  match x.element.kind with
  | .startEvent | .endEvent => .ok (s.exit i)
  | .intermediateCatchEvent => .ok (s.suspend i)
  | .parallelGateway => enterParallel d c s i x
  | .subProcess =>
    .ok (if (c.get x.element).wait then s.suspend i else startInner d s i x.element)
  | .process | .participant => .ok s
  | .task | .exclusiveGateway | .collaboration | .unknown => .ok (waitOrExit c s i x.element)

def onSignal (d : Diagram) (s : Simulation) (i : ScopeId) (x : Scope) : Simulation :=
  if x.element.kind = .subProcess then startInner d s i x.element else s.exit i

/-- An exclusive gateway takes its only flow, or the one that is configured. -/
def leaveExclusive (d : Diagram) (c : ConfigStore) (s : Simulation) (i : ScopeId) (x : Scope) :
    Simulation :=
  match d.outgoing x.element with
  | [flow] => s.enterAll [flow] x.parent
  | flows =>
    match flows.find? fun f => (c.get x.element).activeOutgoing == some f with
    | some flow => s.enterAll [flow] x.parent
    | none => s.stall i

def onExit (d : Diagram) (c : ConfigStore) (s : Simulation) (i : ScopeId) (x : Scope) :
    Simulation :=
  match x.element.kind with
  | .endEvent => s.note (.consumed x.element.id)
  | .process | .participant => s.note (.finished x.element.id)
  | .exclusiveGateway => leaveExclusive d c s i x
  | _ => s.enterAll (d.outgoing x.element) x.parent

/-- After its exit a scope is destroyed, which may let its parent exit. -/
def finishExit (d : Diagram) (c : ConfigStore) (s : Simulation) (i : ScopeId) (x : Scope) :
    Simulation :=
  let s := (onExit d c s i x).destroy i
  match x.parent with
  | some parent => s.tryExit parent
  | none => s

/-- Carries out one task of the agenda. -/
def runTask (d : Diagram) (c : ConfigStore) (s : Simulation) (t : Task) :
    Except SimulationError Simulation :=
  match t with
  | .enter i => match s.scopes[i]? with
    | some x => onEnter d c s i x
    | none => .ok s
  | .signal i => match s.scopes[i]? with
    | some x => .ok (onSignal d s i x)
    | none => .ok s
  | .finishExit i => match s.scopes[i]? with
    | some x => .ok (finishExit d c s i x)
    | none => .ok s

end ProcessDiagram.Simulation
