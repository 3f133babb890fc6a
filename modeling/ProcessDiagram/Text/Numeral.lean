import ProcessDiagram.Binary64.Basic
import ProcessDiagram.Text.Blank
import ProcessDiagram.Text.Digit

/-!
Numbers written in a text. Blanks around the number are dropped, a sign may lead, and single
underscores may stand between two digits. A style fixes which characters are digits and
whether an integer may end in a fraction of zeros.
-/
namespace ProcessDiagram.Text

structure NumeralStyle where
  digit? : Char → Option Nat
  zeroFraction : Bool

namespace NumeralStyle

/-- Numbers inside data: ASCII digits only. -/
def data : NumeralStyle := ⟨asciiDigitValue?, true⟩

/-- Numbers typed by a person: digits of any script. -/
def settings : NumeralStyle := ⟨digitValue?, false⟩

/-- The longest run of digits at the front, single underscores between digits dropped. -/
def digitRun (style : NumeralStyle) : List Char → List Nat × List Char
  | [] => ([], [])
  | c :: '_' :: after =>
    match style.digit? c with
    | none => ([], c :: '_' :: after)
    | some d =>
      match style.digitRun after with
      | ([], _) => ([d], '_' :: after)
      | (ds, tail) => (d :: ds, tail)
  | c :: rest =>
    match style.digit? c with
    | none => ([], c :: rest)
    | some d =>
      let (ds, tail) := style.digitRun rest
      (d :: ds, tail)

end NumeralStyle

/-- Whether the text starts with a minus, and what follows its sign. -/
def takeSign : List Char → Bool × List Char
  | '-' :: rest => (true, rest)
  | '+' :: rest => (false, rest)
  | rest => (false, rest)

def isZeroFraction : List Char → Bool
  | '.' :: zeros => !zeros.isEmpty && zeros.all (· == '0')
  | _ => false

namespace NumeralStyle

def int? (style : NumeralStyle) (s : String) : Option Int :=
  let (negative, body) := takeSign (trim s.toList)
  let (digits, rest) := style.digitRun body
  if digits.isEmpty then none
  else if rest.isEmpty || (style.zeroFraction && isZeroFraction rest) then
    some (if negative then -(ofDigits digits : Int) else ofDigits digits)
  else none

/-- The exponent at the end of a decimal, zero when there is none. -/
def exponent? (style : NumeralStyle) : List Char → Option Int
  | [] => some 0
  | c :: rest =>
    if c = 'e' ∨ c = 'E' then
      let (negative, body) := takeSign rest
      match style.digitRun body with
      | ([], _) => none
      | (digits, []) => some (if negative then -(ofDigits digits : Int) else ofDigits digits)
      | _ => none
    else none

def unsignedDecimal? (style : NumeralStyle) (negative : Bool) (s : List Char) : Option Binary64 :=
  let (whole, afterWhole) := style.digitRun s
  let (fraction, tail) := match afterWhole with
    | '.' :: rest => style.digitRun rest
    | rest => ([], rest)
  if whole.isEmpty && fraction.isEmpty then none
  else (style.exponent? tail).map fun e =>
    Binary64.ofDecimal negative (ofDigits (whole ++ fraction)) (e - fraction.length)

def decimal? (style : NumeralStyle) (s : String) : Option Binary64 :=
  let (negative, body) := takeSign (trim s.toList)
  let word := String.ofList (body.map Char.toLower)
  if word = "inf" ∨ word = "infinity" then some (.infinity negative)
  else if word = "nan" then some .notANumber
  else style.unsignedDecimal? negative body

end NumeralStyle
end ProcessDiagram.Text
