import ProcessDiagram.Text.Digit

/-!
Step indices of trace files. The index is the run of digits at the end of the file's stem; a
line break may follow it. Digits are read in any number: a limit of some thousand digits to a
numeral is beyond the names that a folder can list.
-/
namespace ProcessDiagram.Trace

/-- The parts of a path between slashes. -/
def pathPieces : List Char → List (List Char)
  | [] => [[]]
  | c :: rest =>
    if c = '/' then [] :: pathPieces rest
    else match pathPieces rest with
      | piece :: others => (c :: piece) :: others
      | [] => [[c]]

/-- The pieces that lead somewhere: neither empty nor a single point. -/
def pathSteps (path : String) : List String :=
  ((pathPieces path.toList).filter fun p => p != [] && p != ['.']).map String.ofList

def fileName (path : String) : String :=
  (pathSteps path).getLast?.getD ""

/-- The name without its extension. A point at either end of the name starts none. -/
def stemChars (name : List Char) : List Char :=
  let extension := name.reverse.takeWhile (· != '.')
  let stem := name.take (name.length - extension.length - 1)
  if extension.isEmpty || stem.isEmpty then name else stem

def stem (name : String) : String :=
  String.ofList (stemChars name.toList)

def dropLineBreak (s : List Char) : List Char :=
  match s.reverse with
  | '\n' :: rest => rest.reverse
  | _ => s

def trailingDigits (s : List Char) : List Nat :=
  ((dropLineBreak s).reverse.takeWhile fun c => (Text.digitValue? c).isSome).reverse.filterMap
    Text.digitValue?

/-- The index at the end of a stem. -/
def stemIndex? (s : String) : Option Nat :=
  let digits := trailingDigits s.toList
  if digits.isEmpty then none else some (Text.ofDigits digits)

end ProcessDiagram.Trace
