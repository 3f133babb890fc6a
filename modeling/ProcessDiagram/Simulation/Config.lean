import ProcessDiagram.Element
import ProcessDiagram.Journal

/-!
How elements behave at run time: whether a token waits at an element, and which outgoing flow
a gateway takes. A locked gateway refuses to have its flow chosen by hand.
-/
namespace ProcessDiagram

structure ElementConfig where
  wait : Bool
  locked : Bool
  activeOutgoing : Option Flow
  deriving DecidableEq

def ElementConfig.default : ElementConfig := ⟨false, false, none⟩

inductive ConfigError
  | locked (gateway : String)
  | foreignFlow (flow gateway : String)
  deriving DecidableEq

def ConfigError.message : ConfigError → String
  | locked gateway => "Sequence flow of '" ++ gateway ++ "' is locked (automatic)"
  | foreignFlow flow gateway => "Flow '" ++ flow ++ "' does not leave '" ++ gateway ++ "'"

/-- The elements that were ever configured, in the order in which they first were. -/
structure ConfigStore where
  entries : List (String × ElementConfig)
  deriving DecidableEq

namespace ConfigStore

def empty : ConfigStore := ⟨[]⟩

def size (c : ConfigStore) : Nat :=
  c.entries.length

def get (c : ConfigStore) (e : Element) : ElementConfig :=
  (c.entries.lookup e.id).getD .default

def put (id : String) (config : ElementConfig) :
    List (String × ElementConfig) → List (String × ElementConfig)
  | [] => [(id, config)]
  | (i, old) :: rest => if i = id then (i, config) :: rest else (i, old) :: put id config rest

def set (c : ConfigStore) (e : Element) (config : ElementConfig) : ConfigStore :=
  ⟨put e.id config c.entries⟩

def setWait (c : ConfigStore) (e : Element) : ConfigStore :=
  c.set e { c.get e with wait := true }

/-- A locked gateway waits for its token. -/
def lock (c : ConfigStore) (gateway : Element) (flow : Flow) : ConfigStore :=
  c.set gateway ⟨true, true, some flow⟩

def unlock (c : ConfigStore) (gateway : Element) : ConfigStore :=
  c.set gateway ⟨false, false, none⟩

def chooseFlow (c : ConfigStore) (gateway : Element) (flow : Flow) :
    Logged (Except ConfigError ConfigStore) :=
  if (c.get gateway).locked then return .error (.locked gateway.id)
  else if flow.source.id ≠ gateway.id then return .error (.foreignFlow flow.id gateway.id)
  else do
    Logged.note .debug .config ("[config] " ++ gateway.id ++ " -> " ++ flow.id)
    return .ok (c.set gateway { c.get gateway with activeOutgoing := some flow })

theorem lookup_put (id : String) (config : ElementConfig) (other : String)
    (entries : List (String × ElementConfig)) :
    (put id config entries).lookup other
      = if other = id then some config else entries.lookup other := by
  induction entries with
  | nil => by_cases h : other = id <;> simp [put, List.lookup_cons, h, beq_eq_false_iff_ne.2]
  | cons entry rest ih =>
    obtain ⟨i, old⟩ := entry
    by_cases hi : i = id
    · subst hi
      by_cases h : other = i <;> simp [put, List.lookup_cons, h, beq_eq_false_iff_ne.2]
    · by_cases h : other = i
      · subst h
        simp [put, hi]
      · simp [put, List.lookup_cons, hi, beq_eq_false_iff_ne.2 h, ih]

theorem get_set (c : ConfigStore) (e other : Element) (config : ElementConfig) :
    (c.set e config).get other = if other.id = e.id then config else c.get other := by
  simp only [get, set, lookup_put]
  split <;> rfl

end ConfigStore
end ProcessDiagram
