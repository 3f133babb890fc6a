import ProcessDiagram.Text.UpperCase

/-!
Log records. A record has a level, the channel it is written to and a message; a journal
keeps the records at or above its threshold. `Logged` is a value together with the records
that came up while it was found.
-/
namespace ProcessDiagram

inductive Level
  | trace
  | debug
  | info
  | success
  | warning
  | error
  | critical
  deriving DecidableEq

namespace Level

def all : List Level :=
  [trace, debug, info, success, warning, error, critical]

def name : Level → String
  | trace => "TRACE"
  | debug => "DEBUG"
  | info => "INFO"
  | success => "SUCCESS"
  | warning => "WARNING"
  | error => "ERROR"
  | critical => "CRITICAL"

def severity : Level → Nat
  | trace => 5
  | debug => 10
  | info => 20
  | success => 25
  | warning => 30
  | error => 40
  | critical => 50

structure Unknown where
  name : String
  deriving DecidableEq

def Unknown.message (u : Unknown) : String :=
  "Level '" ++ u.name ++ "' does not exist"

def ofName (s : String) : Except Unknown Level :=
  match all.find? (·.name == s) with
  | some level => .ok level
  | none => .error ⟨s⟩

theorem ofName_name (level : Level) : ofName level.name = .ok level := by
  cases level <;> rfl

end Level

inductive Channel
  | joins
  | singleEntry
  | compiler
  | client
  | trace
  | replay
  | engine
  | behaviors
  | config
  | other (name : String)
  deriving DecidableEq

def Channel.name : Channel → String
  | joins => "tokenflow.joins"
  | singleEntry => "tokenflow.sese"
  | compiler => "tokenflow.compiler"
  | client => "tokenflow.client"
  | trace => "tokenflow.trace"
  | replay => "tokenflow.replay"
  | engine => "tokenflow.simulator.engine"
  | behaviors => "tokenflow.simulator.behaviors"
  | config => "tokenflow.simulator.config"
  | other name => name

structure Record where
  level : Level
  channel : Channel
  message : String
  deriving DecidableEq

/-- The level stands in a column of eight characters. -/
def Record.line (r : Record) : String :=
  let level := r.level.name
  level ++ String.ofList (List.replicate (8 - level.length) ' ') ++ " | " ++ r.channel.name
    ++ " | " ++ r.message

structure Journal where
  threshold : Level

namespace Journal

/-- Opens a journal at the level of that name in any case; an empty name takes the default. -/
def open? (name default : String) : Except Level.Unknown Journal := do
  let level ← Level.ofName (Text.toUpper (if name.isEmpty then default else name))
  return ⟨level⟩

def keeps (j : Journal) (r : Record) : Bool :=
  decide (j.threshold.severity ≤ r.level.severity)

def lines (j : Journal) (records : List Record) : List String :=
  (records.filter j.keeps).map (·.line)

end Journal

@[ext] structure Logged (α : Type) where
  value : α
  log : List Record

namespace Logged

instance : Monad Logged where
  pure a := ⟨a, []⟩
  bind x f :=
    let y := f x.value
    ⟨y.value, x.log ++ y.log⟩

instance : LawfulMonad Logged := LawfulMonad.mk' Logged
  (by intro α x; simp [Functor.map])
  (by intro α β a f; simp [bind, pure])
  (by intro α β γ x f g; simp [bind])

def note (level : Level) (channel : Channel) (message : String) : Logged Unit :=
  ⟨(), [⟨level, channel, message⟩]⟩

@[simp] theorem value_pure {α : Type} (a : α) : (pure a : Logged α).value = a := rfl

@[simp] theorem log_pure {α : Type} (a : α) : (pure a : Logged α).log = [] := rfl

@[simp] theorem value_map {α β : Type} (f : α → β) (x : Logged α) :
    (f <$> x).value = f x.value := rfl

@[simp] theorem log_map {α β : Type} (f : α → β) (x : Logged α) : (f <$> x).log = x.log :=
  List.append_nil _

@[simp] theorem value_bind {α β : Type} (x : Logged α) (f : α → Logged β) :
    (x >>= f).value = (f x.value).value := rfl

@[simp] theorem log_bind {α β : Type} (x : Logged α) (f : α → Logged β) :
    (x >>= f).log = x.log ++ (f x.value).log := rfl

end Logged
end ProcessDiagram
