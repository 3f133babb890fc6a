import ProcessDiagram.Binary64.Shortest
import ProcessDiagram.Json.Basic

/-!
Writing JSON without blanks. A text either keeps its characters outside ASCII or escapes
them as UTF-16 units.
-/
namespace ProcessDiagram.Json

def unitEscape (n : Nat) : List Char :=
  ['\\', 'u', Nat.digitChar (n / 4096 % 16), Nat.digitChar (n / 256 % 16),
    Nat.digitChar (n / 16 % 16), Nat.digitChar (n % 16)]

def codeEscape (n : Nat) : List Char :=
  if n < 0x10000 then unitEscape n
  else unitEscape (0xd800 + (n - 0x10000) / 0x400) ++ unitEscape (0xdc00 + (n - 0x10000) % 0x400)

def escapeChar (ascii : Bool) (c : Char) : List Char :=
  if c = '"' ∨ c = '\\' then ['\\', c]
  else if c = '\n' then ['\\', 'n']
  else if c = '\r' then ['\\', 'r']
  else if c = '\t' then ['\\', 't']
  else if c.toNat = 0x08 then ['\\', 'b']
  else if c.toNat = 0x0c then ['\\', 'f']
  else if c.toNat < 0x20 ∨ (ascii ∧ 0x7f ≤ c.toNat) then codeEscape c.toNat
  else [c]

def textLiteral (ascii : Bool) (s : String) : String :=
  String.ofList ('"' :: s.toList.flatMap (escapeChar ascii) ++ ['"'])

def numberText (x : Binary64) : String :=
  if x.isFinite then Binary64.jsonLayout.text x
  else if x.isNaN then "NaN"
  else if x.isNegative then "-Infinity"
  else "Infinity"

mutual

def render : Json → String
  | null => "null"
  | bool b => if b then "true" else "false"
  | int n => toString n
  | float x => numberText x
  | str s => textLiteral false s
  | arr items => "[" ++ ",".intercalate (renderItems items) ++ "]"
  | obj fields => "\x7b" ++ ",".intercalate (renderFields fields) ++ "\x7d"

def renderItems : List Json → List String
  | [] => []
  | item :: rest => item.render :: renderItems rest

def renderFields : List (String × Json) → List String
  | [] => []
  | (name, value) :: rest => (textLiteral false name ++ ":" ++ value.render) :: renderFields rest

end

end ProcessDiagram.Json
