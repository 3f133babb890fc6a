import ProcessDiagram.Json.Basic
import ProcessDiagram.Text.Numeral

/-!
Reading JSON. Blanks are space, tab, line feed and carriage return only; texts hold no raw
control characters; of two fields with one name the later value counts; and the words `NaN`,
`Infinity` and `-Infinity` are numbers.
-/
namespace ProcessDiagram.Json

def isBlank (c : Char) : Bool :=
  c == ' ' || c == '\t' || c == '\n' || c == '\r'

def skipBlank (s : List Char) : List Char :=
  s.dropWhile isBlank

def hexValue? (c : Char) : Option Nat :=
  if '0' ≤ c ∧ c ≤ '9' then some (c.toNat - 0x30)
  else if 'a' ≤ c ∧ c ≤ 'f' then some (c.toNat - 0x57)
  else if 'A' ≤ c ∧ c ≤ 'F' then some (c.toNat - 0x37)
  else none

def hexCode? (a b c d : Char) : Option Nat := do
  let a ← hexValue? a
  let b ← hexValue? b
  let c ← hexValue? c
  let d ← hexValue? d
  some (a * 4096 + b * 256 + c * 16 + d)

def escapedCode? : Char → Option Nat
  | '"' => some 0x22
  | '\\' => some 0x5c
  | '/' => some 0x2f
  | 'b' => some 0x08
  | 'f' => some 0x0c
  | 'n' => some 0x0a
  | 'r' => some 0x0d
  | 't' => some 0x09
  | _ => none

/-- The codes up to the closing quote, and what follows it. A surrogate stands by itself. -/
def textCodes : List Char → Option (List Nat × List Char)
  | [] => none
  | '"' :: rest => some ([], rest)
  | '\\' :: 'u' :: a :: b :: c :: d :: rest => do
    let code ← hexCode? a b c d
    let (codes, tail) ← textCodes rest
    some (code :: codes, tail)
  | '\\' :: c :: rest => do
    let code ← escapedCode? c
    let (codes, tail) ← textCodes rest
    some (code :: codes, tail)
  | c :: rest =>
    if c.toNat < 0x20 then none
    else do
      let (codes, tail) ← textCodes rest
      some (c.toNat :: codes, tail)

/-- A surrogate that stands alone becomes U+FFFD. -/
def codeChar (n : Nat) : Char :=
  if 0xd800 ≤ n ∧ n < 0xe000 then Char.ofNat 0xfffd else Char.ofNat n

/-- A high surrogate followed by a low one is one character. -/
def joinSurrogates : List Nat → List Char
  | high :: low :: after =>
    if 0xd800 ≤ high ∧ high < 0xdc00 ∧ 0xdc00 ≤ low ∧ low < 0xe000 then
      Char.ofNat (0x10000 + (high - 0xd800) * 0x400 + (low - 0xdc00)) :: joinSurrogates after
    else codeChar high :: joinSurrogates (low :: after)
  | [code] => [codeChar code]
  | [] => []

def text? (s : List Char) : Option (String × List Char) :=
  (textCodes s).map fun (codes, rest) => (String.ofList (joinSurrogates codes), rest)

def digitSpan (s : List Char) : List Nat × List Char :=
  let isDigit := fun c => (Text.asciiDigitValue? c).isSome
  ((s.takeWhile isDigit).filterMap Text.asciiDigitValue?, s.dropWhile isDigit)

/-- The digits after a point, when there are any; otherwise the point is left alone. -/
def fractionSpan (s : List Char) : List Nat × List Char :=
  match s with
  | '.' :: rest =>
    match digitSpan rest with
    | ([], _) => ([], s)
    | found => found
  | _ => ([], s)

def exponentSpan? (s : List Char) : Option Int × List Char :=
  match s with
  | mark :: rest =>
    if mark = 'e' ∨ mark = 'E' then
      let (negative, body) := Text.takeSign rest
      match digitSpan body with
      | ([], _) => (none, s)
      | (digits, tail) =>
        (some (if negative then -(Text.ofDigits digits : Int) else Text.ofDigits digits), tail)
    else (none, s)
  | [] => (none, s)

/-- A whole part is `0` or starts with another digit, so `01` is the number `0` and a rest. -/
def wholeSpan (s : List Char) : List Nat × List Char :=
  match s with
  | '0' :: rest => ([0], rest)
  | _ => digitSpan s

def number? (negative : Bool) (s : List Char) : Option (Json × List Char) :=
  match wholeSpan s with
  | ([], _) => none
  | (whole, afterWhole) =>
    let (fraction, afterFraction) := fractionSpan afterWhole
    let (e, rest) := exponentSpan? afterFraction
    if fraction.isEmpty && e.isNone then
      let n : Int := Text.ofDigits whole
      some (int (if negative then -n else n), rest)
    else
      some (float (.ofDecimal negative (Text.ofDigits (whole ++ fraction))
        (e.getD 0 - fraction.length)), rest)

def word? (word : String) (value : Json) (s : List Char) : Option (Json × List Char) :=
  if word.toList.isPrefixOf s then some (value, s.drop word.length) else none

def scalar? (s : List Char) : Option (Json × List Char) :=
  match s with
  | '"' :: rest => (text? rest).map fun (t, tail) => (str t, tail)
  | 'n' :: _ => word? "null" null s
  | 't' :: _ => word? "true" (bool true) s
  | 'f' :: _ => word? "false" (bool false) s
  | 'N' :: _ => word? "NaN" (float .notANumber) s
  | 'I' :: _ => word? "Infinity" (float (.infinity false)) s
  | '-' :: 'I' :: _ => word? "-Infinity" (float (.infinity true)) s
  | '-' :: rest => number? true rest
  | _ => number? false s

mutual

/-- A value at the front of the text. Every call uses up a character, so a bound above the
length of the text is never reached. -/
def value? : Nat → List Char → Option (Json × List Char)
  | 0, _ => none
  | bound + 1, s =>
    match s with
    | '{' :: rest =>
      match skipBlank rest with
      | '}' :: tail => some (obj [], tail)
      | tail => (fields? bound [] tail).map fun (fields, after) => (obj fields, after)
    | '[' :: rest =>
      match skipBlank rest with
      | ']' :: tail => some (arr [], tail)
      | tail => (items? bound tail).map fun (items, after) => (arr items, after)
    | _ => scalar? s

def items? : Nat → List Char → Option (List Json × List Char)
  | 0, _ => none
  | bound + 1, s => do
    let (first, rest) ← value? bound s
    match skipBlank rest with
    | ']' :: tail => some ([first], tail)
    | ',' :: tail =>
      let (others, after) ← items? bound (skipBlank tail)
      some (first :: others, after)
    | _ => none

def fields? : Nat → Fields → List Char → Option (Fields × List Char)
  | 0, _, _ => none
  | bound + 1, known, s =>
    match s with
    | '"' :: quoted => do
      let (name, rest) ← text? quoted
      match skipBlank rest with
      | ':' :: afterColon =>
        let (value, afterValue) ← value? bound (skipBlank afterColon)
        let known := setField name value known
        match skipBlank afterValue with
        | '}' :: tail => some (known, tail)
        | ',' :: tail => fields? bound known (skipBlank tail)
        | _ => none
      | _ => none
    | _ => none

end

/-- The value that the whole text writes, blanks around it dropped. -/
def parse? (s : String) : Option Json :=
  let chars := skipBlank s.toList
  match value? (chars.length + 1) chars with
  | some (value, rest) => if (skipBlank rest).isEmpty then some value else none
  | none => none

end ProcessDiagram.Json
