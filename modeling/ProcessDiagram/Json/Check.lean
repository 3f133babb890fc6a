import ProcessDiagram.Json.Printer
import ProcessDiagram.Sorting
import ProcessDiagram.Text.Numeral

/-!
Checking that a JSON value has a certain shape. Values of a near type are converted: a text
that writes a number counts as one, and so do the truth values. Every field is checked, and
an issue says at which place of the document which rule is broken.
-/
namespace ProcessDiagram

inductive PathStep
  | field (name : String)
  | item (index : Nat)
  deriving DecidableEq

inductive IssueKind
  | missing
  | stringType
  | intType
  | intParsing
  | intSize
  | intFromFloat
  | finiteNumber
  | floatType
  | floatParsing
  | boolType
  | boolParsing
  | listType
  | objectType
  | tooLong
  | tooShort
  | regionType
  | tagNotFound
  | tagInvalid
  | recursionLoop
  | unknownStatus
  | valueError
  deriving DecidableEq

def IssueKind.name : IssueKind → String
  | missing => "missing"
  | stringType => "string_type"
  | intType => "int_type"
  | intParsing => "int_parsing"
  | intSize => "int_parsing_size"
  | intFromFloat => "int_from_float"
  | finiteNumber => "finite_number"
  | floatType => "float_type"
  | floatParsing => "float_parsing"
  | boolType => "bool_type"
  | boolParsing => "bool_parsing"
  | listType => "list_type"
  | objectType => "dict_type"
  | tooLong => "too_long"
  | tooShort => "too_short"
  | regionType => "model_attributes_type"
  | tagNotFound => "union_tag_not_found"
  | tagInvalid => "union_tag_invalid"
  | recursionLoop => "recursion_loop"
  | unknownStatus => "enum"
  | valueError => "value_error"

structure Issue where
  path : List PathStep
  kind : IssueKind
  deriving DecidableEq

namespace Issue

def stepText : PathStep → String
  | .field name => Json.textLiteral true name
  | .item index => toString index

/-- Issues are listed in the order of this text. -/
def pathText (issue : Issue) : String :=
  "[" ++ ", ".intercalate (issue.path.map stepText) ++ "]"

def le (a b : Issue) : Bool :=
  if a.pathText = b.pathText then decide (a.kind.name ≤ b.kind.name)
  else decide (a.pathText ≤ b.pathText)

def sorted (issues : List Issue) : List Issue :=
  Sorting.sort le issues

end Issue

abbrev Checked (α : Type) := Except (List Issue) α

namespace Checked

variable {α β : Type}

def fail (kind : IssueKind) : Checked α :=
  .error [⟨[], kind⟩]

/-- Places the issues below a step. -/
def under (step : PathStep) : Checked α → Checked α
  | .ok a => .ok a
  | .error issues => .error (issues.map fun i => { i with path := step :: i.path })

/-- The issues of both parts. -/
def both : Checked α → Checked β → Checked (α × β)
  | .ok a, .ok b => .ok (a, b)
  | .error e, .ok _ => .error e
  | .ok _, .error f => .error f
  | .error e, .error f => .error (e ++ f)

theorem both_eq_ok {x : Checked α} {y : Checked β} {a : α} {b : β} :
    both x y = .ok (a, b) ↔ x = .ok a ∧ y = .ok b := by
  cases x <;> cases y <;> simp [both]

theorem under_eq_ok {step : PathStep} {x : Checked α} {a : α} :
    under step x = .ok a ↔ x = .ok a := by
  cases x <;> simp [under]

theorem map_eq_ok {x : Checked α} {f : α → β} {b : β} :
    x.map f = .ok b ↔ ∃ a, x = .ok a ∧ f a = b := by
  cases x <;> simp [Except.map]

theorem bind_eq_ok {x : Checked α} {f : α → Checked β} {b : β} :
    x.bind f = .ok b ↔ ∃ a, x = .ok a ∧ f a = .ok b := by
  cases x <;> simp [Except.bind]

end Checked

namespace Json

open Checked

def toInt : Json → Checked Int
  | .int n => .ok n
  | .bool b => .ok (if b then 1 else 0)
  | .float x =>
    if !x.isFinite then fail .finiteNumber
    else match x.toInt? with
      | none => fail .intFromFloat
      | some n =>
        if -0x8000000000000000 ≤ n ∧ n < 0x8000000000000000 then .ok n else fail .intSize
  | .str s =>
    match Text.NumeralStyle.data.int? s with
    | some n => .ok n
    | none => fail .intParsing
  | _ => fail .intType

def toFloat : Json → Checked Binary64
  | .int n =>
    let x := Binary64.ofInt n
    if x.isFinite then .ok x else fail .floatType
  | .bool b => .ok (if b then .one else .zero)
  | .float x => .ok x
  | .str s =>
    match Text.NumeralStyle.data.decimal? s with
    | some x => .ok x
    | none => fail .floatParsing
  | _ => fail .floatType

def falseWords : List String := ["0", "off", "f", "false", "n", "no"]

def trueWords : List String := ["1", "on", "t", "true", "y", "yes"]

def toBool : Json → Checked Bool
  | .bool b => .ok b
  | .int n => if n = 0 then .ok false else if n = 1 then .ok true else fail .boolParsing
  | .float x =>
    if x.isZero then .ok false else if x = .one then .ok true else fail .boolType
  | .str s =>
    let word := String.ofList (s.toList.map Char.toLower)
    if falseWords.contains word then .ok false
    else if trueWords.contains word then .ok true
    else fail .boolParsing
  | _ => fail .boolType

def toText : Json → Checked String
  | .str s => .ok s
  | _ => fail .stringType

def toFields : Json → Checked Fields
  | .obj fields => .ok fields
  | _ => fail .objectType

def itemsOf {α : Type} (check : Json → Checked α) (index : Nat) : List Json → Checked (List α)
  | [] => .ok []
  | item :: rest =>
    (both (under (.item index) (check item)) (itemsOf check (index + 1) rest)).map
      fun (a, others) => a :: others

/-- A list that is too short is an issue only when all its items are sound. -/
def atLeast {α : Type} (least : Nat) (items : List α) : Checked (List α) :=
  if items.length < least then fail .tooShort else .ok items

def toList {α : Type} (least : Nat) (check : Json → Checked α) : Json → Checked (List α)
  | .arr items => (itemsOf check 0 items).bind (atLeast least)
  | _ => fail .listType

def required {α : Type} (name : String) (check : Json → Checked α) (fields : Fields) : Checked α :=
  under (.field name) <|
    match fields.lookup name with
    | some value => check value
    | none => fail .missing

def optional {α : Type} (name : String) (default : α) (check : Json → Checked α)
    (fields : Fields) : Checked α :=
  under (.field name) <|
    match fields.lookup name with
    | some value => check value
    | none => .ok default

end Json
end ProcessDiagram
