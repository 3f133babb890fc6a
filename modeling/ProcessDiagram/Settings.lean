import ProcessDiagram.Text.Numeral
import ProcessDiagram.Text.UpperCase

/-!
Settings of the stepping service and of replays. Each can be given as a text; a text that
writes no number leaves the number at its default.
-/
namespace ProcessDiagram

/-- The texts that were given. -/
structure Environment where
  backendUrl : Option String
  timeout : Option String
  triggerAttempts : Option String
  triggerDelay : Option String
  stepDelay : Option String
  logLevel : Option String

/-- Delays and the timeout are in seconds. -/
structure Settings where
  backendUrl : String
  timeout : Binary64
  triggerAttempts : Int
  triggerDelay : Binary64
  stepDelay : Binary64
  logLevel : String
  deriving DecidableEq

namespace Settings

def default : Settings where
  backendUrl := "http://localhost:8001/execute"
  timeout := .ofInt 30
  triggerAttempts := 3
  triggerDelay := .ofDecimal false 1 (-1)
  stepDelay := .zero
  logLevel := "INFO"

def decimalOr (fallback : Binary64) (text : Option String) : Binary64 :=
  (text.bind Text.NumeralStyle.settings.decimal?).getD fallback

def intOr (fallback : Int) (text : Option String) : Int :=
  (text.bind Text.NumeralStyle.settings.int?).getD fallback

/-- At least one attempt is always made. -/
def ofEnvironment (env : Environment) : Settings where
  backendUrl := env.backendUrl.getD default.backendUrl
  timeout := decimalOr default.timeout env.timeout
  triggerAttempts := max 1 (intOr default.triggerAttempts env.triggerAttempts)
  triggerDelay := decimalOr default.triggerDelay env.triggerDelay
  stepDelay := decimalOr default.stepDelay env.stepDelay
  logLevel := Text.toUpper (env.logLevel.getD default.logLevel)

theorem one_le_triggerAttempts (env : Environment) :
    1 ≤ (ofEnvironment env).triggerAttempts := by
  simp only [ofEnvironment]
  omega

end Settings
end ProcessDiagram
