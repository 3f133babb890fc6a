import ProcessDiagram.Region.Library

/-!
A library of data models that runs. An object names its variant in the field `type`; the issues of a
document stand below the variant's name. Every field is written, and every amount as a binary64
number. Regions that are nested too deep are refused, and so are requests whose values are.
-/
namespace ProcessDiagram
namespace Region

open Checked

/-- So many regions or values can be nested. -/
def nestingLimit : Nat := 255

def typeField (name : String) : String × Json := ("type", .str name)

def labelField (label : String) : String × Json := ("label", .str label)

/-- A region inside so many others can still be written. -/
def shallow (level : Nat) : Option Unit :=
  if level < nestingLimit then some () else none

mutual

def toJson (level : Nat) : Region → Option Json
  | task id label duration impacts => do
    shallow level
    return .obj [("id", .int id), typeField "task", labelField label,
      ("duration", .float (duration.getD (.ofInt usualDuration))),
      ("impacts", .arr (impacts.map .float))]
  | sequential id first second => do
    shallow level
    let first ← toJson (level + 1) first
    let second ← toJson (level + 1) second
    return .obj [("id", .int id), typeField "sequential", ("children", .arr [first, second])]
  | choice id label children maxDelay => do
    shallow level
    let children ← toJsonAll (level + 1) children
    return .obj [("id", .int id), typeField "choice", labelField label,
      ("children", .arr children),
      ("max_delay", .float (maxDelay.getD (.ofInt usualMaxDelay)))]
  | parallel id label children => do
    shallow level
    let children ← toJsonAll (level + 1) children
    return .obj [("id", .int id), typeField "parallel", labelField label,
      ("children", .arr children)]

def toJsonAll (level : Nat) : List Region → Option (List Json)
  | [] => some []
  | r :: rest => do
    let document ← toJson level r
    let others ← toJsonAll level rest
    return document :: others

end

inductive Variant
  | task
  | sequential
  | choice
  | parallel
  deriving DecidableEq

def Variant.name : Variant → String
  | task => "task"
  | sequential => "sequential"
  | choice => "choice"
  | parallel => "parallel"

def variantOf (fields : Json.Fields) : Checked Variant :=
  match fields.lookup "type" with
  | none => fail .tagNotFound
  | some (.str name) =>
    match [Variant.task, .sequential, .choice, .parallel].find? (·.name == name) with
    | some v => .ok v
    | none => fail .tagInvalid
  | some _ => fail .tagInvalid

def idOf : Json.Fields → Checked Int :=
  Json.required "id" Json.toInt

def labelOf : Json.Fields → Checked String :=
  Json.required "label" Json.toText

def amount (j : Json) : Checked (Option Binary64) :=
  j.toFloat.map some

def taskOf (fields : Json.Fields) : Checked Region :=
  (both (both (idOf fields) (labelOf fields))
    (both (Json.optional "duration" none amount fields)
      (Json.optional "impacts" [.one] (Json.toList 1 Json.toFloat) fields))).map
    fun ((id, label), (duration, impacts)) => task id label duration impacts

def sequentialOf (fields : Json.Fields) (children : Checked (List Region)) : Checked Region :=
  (both (idOf fields) children).bind fun (id, children) =>
    match children with
    | [first, second] => .ok (sequential id first second)
    | _ => under (.field "children") (fail .tooShort)

def choiceOf (fields : Json.Fields) (children : Checked (List Region)) : Checked Region :=
  (both (both (idOf fields) (labelOf fields))
    (both children (Json.optional "max_delay" none amount fields))).map
    fun ((id, label), (children, maxDelay)) => choice id label children maxDelay

def parallelOf (fields : Json.Fields) (children : Checked (List Region)) : Checked Region :=
  (both (both (idOf fields) (labelOf fields)) children).map
    fun ((id, label), children) => parallel id label children

/-- What is said of a region is looked at if it is not nested too deep. -/
def unlessTooDeep (level : Nat) (v : Variant) (region : Checked Region) : Checked Region :=
  under (.field v.name) (if level < nestingLimit then region else fail .recursionLoop)

mutual

/-- The region that a document describes. -/
def ofJson (level : Nat) : Json → Checked Region
  | .obj fields =>
    match variantOf fields with
    | .error issues => .error issues
    | .ok .task => unlessTooDeep level .task (taskOf fields)
    | .ok .sequential =>
      unlessTooDeep level .sequential
        (sequentialOf fields (childrenOf (level + 1) 2 (some 2) fields))
    | .ok .choice =>
      unlessTooDeep level .choice (choiceOf fields (childrenOf (level + 1) 1 none fields))
    | .ok .parallel =>
      unlessTooDeep level .parallel (parallelOf fields (childrenOf (level + 1) 1 none fields))
  | _ => fail .regionType

/-- The children among the fields. A list with too many is refused unread. -/
def childrenOf (level least : Nat) (most : Option Nat) : Json.Fields → Checked (List Region)
  | [] => under (.field "children") (fail .missing)
  | (name, .arr items) :: rest =>
    if name = "children" then
      under (.field "children") <|
        if most.any (· < items.length) then fail .tooLong
        else (ofItems level 0 items).bind (Json.atLeast least)
    else childrenOf level least most rest
  | (name, _) :: rest =>
    if name = "children" then under (.field "children") (fail .listType)
    else childrenOf level least most rest

def ofItems (level index : Nat) : List Json → Checked (List Region)
  | [] => .ok []
  | item :: rest =>
    (both (under (.item index) (ofJson level item)) (ofItems level (index + 1) rest)).map
      fun (child, others) => child :: others

end

end Region

/-- A request is written unless its values are nested too deep. -/
def StepRequest.toJson? (r : StepRequest) : Option Json :=
  if r.depth ≤ Region.nestingLimit then some r.toJson else none

/-- The library that runs. -/
def Library.standard : Library where
  nesting := Region.nestingLimit
  depth := Region.nestingLimit
  write := Region.toJson
  read := Region.ofJson
  writeRequest := StepRequest.toJson?
  toInt := Json.toInt
  toFloat := Json.toFloat
  toText := Json.toText

end ProcessDiagram
