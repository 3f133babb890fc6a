import ProcessDiagram.Region.Codec
import Mathlib.Data.List.Forall2

/-!
How a library of data models is documented, as far as regions rely on it: by the declarations of its
fields a region is written and checked. What counts as a number or a text is left open, but for
values that have the type of their field. The library that runs is such a library.
-/
namespace ProcessDiagram

/-- The numbers that a region itself states. -/
def Region.amounts : Region → List Binary64
  | task _ _ duration impacts => duration.toList ++ impacts
  | choice _ _ _ maxDelay => maxDelay.toList
  | sequential .. | parallel .. => []

namespace Library

variable (lib : Library)

/-- The value that is written for a field. -/
def writeAttribute (level : Nat) : Region.Attribute → Option Json
  | .integer n => some (.int n)
  | .literal s | .text s => some (.str s)
  | .number usual x => some (.float (x.getD (.ofInt usual)))
  | .numbers _ _ xs => some (.arr (xs.map .float))
  | .regions _ _ children => (children.mapM (lib.write level)).map .arr

def writeField (level : Nat) (field : String × Region.Attribute) : Option (String × Json) :=
  (lib.writeAttribute level field.2).map fun value => (field.1, value)

/-- What a document says of a field, which may be nothing, is a value for it. -/
def Admits (level : Nat) (value : Option Json) : Region.Attribute → Prop
  | .integer n => ∃ j, value = some j ∧ lib.toInt j = .ok n
  | .literal s => value = some (.str s)
  | .text s => ∃ j, value = some j ∧ lib.toText j = .ok s
  | .number _ x =>
    match value with
    | some j => ∃ y, lib.toFloat j = .ok y ∧ x = some y
    | none => x = none
  | .numbers least usual xs =>
    match value with
    | some j => ∃ items, j = .arr items ∧ least ≤ items.length ∧
        List.Forall₂ (fun item x => lib.toFloat item = .ok x) items xs
    | none => xs = usual
  | .regions least most children =>
    ∃ items, value = some (.arr items) ∧ least ≤ items.length ∧ (∀ n ∈ most, items.length ≤ n) ∧
      List.Forall₂ (fun item child => lib.read level item = .ok child) items children

/-- The document is an object whose declared fields are those of the region. -/
def Describes (level : Nat) (document : Json) (r : Region) : Prop :=
  ∃ fields, document = .obj fields ∧
    ∀ field ∈ r.attributes, lib.Admits (level + 1) (fields.lookup field.1) field.2

structure Documented : Prop where
  int (n : Int) : lib.toInt (.int n) = .ok n
  float (x : Binary64) : x.isFinite = true → lib.toFloat (.float x) = .ok x
  text (s : String) : lib.toText (.str s) = .ok s
  /-- A region is written as the object of its fields. -/
  write {level : Nat} (r : Region) : level < lib.nesting → (∀ x ∈ r.amounts, x.isFinite = true) →
    lib.write level r = (r.attributes.mapM (lib.writeField (level + 1))).map .obj
  /-- A document that describes a region is accepted as that region. -/
  read {level : Nat} {document : Json} {r : Region} : level < lib.nesting →
    lib.Describes level document r → lib.read level document = .ok r
  /-- No other document is. -/
  sound {level : Nat} {document : Json} {r : Region} :
    lib.read level document = .ok r → lib.Describes level document r
  /-- A request is written with its graph as it is. -/
  request (r : StepRequest) : r.depth ≤ lib.depth → Json.FiniteFields r.graph →
    ∃ body, lib.writeRequest r = some (.obj body) ∧ body.lookup "graph" = some (.obj r.graph)

end Library

namespace Json

open Checked

variable {α : Type}

@[simp] theorem required_eq_ok {name : String} {check : Json → Checked α} {fields : Fields} {a : α} :
    required name check fields = .ok a ↔ ∃ j, fields.lookup name = some j ∧ check j = .ok a := by
  rw [required, under_eq_ok]
  cases fields.lookup name <;> simp [fail]

@[simp] theorem optional_eq_ok {name : String} {default : α} {check : Json → Checked α} {fields : Fields}
    {a : α} :
    optional name default check fields = .ok a ↔
      match fields.lookup name with
      | some j => check j = .ok a
      | none => a = default := by
  rw [optional, under_eq_ok]
  cases fields.lookup name <;> simp [eq_comm]

theorem atLeast_eq_ok {least : Nat} {items found : List α} :
    atLeast least items = .ok found ↔ items = found ∧ least ≤ items.length := by
  rw [atLeast]
  split
  next few =>
      constructor
      · intro failed
        cases failed
      · intro ⟨_, enough⟩
        omega
  next enough =>
      constructor
      · intro same
        cases same
        exact ⟨rfl, Nat.not_lt.mp enough⟩
      · intro ⟨same, _⟩
        rw [same]

theorem itemsOf_eq_ok {check : Json → Checked α} {items : List Json} {found : List α}
    (index : Nat) :
    itemsOf check index items = .ok found ↔
      List.Forall₂ (fun item a => check item = .ok a) items found := by
  induction items generalizing index found with
  | nil => cases found <;> simp [itemsOf]
  | cons item rest ih =>
      cases found <;>
        simp [itemsOf, map_eq_ok, both_eq_ok, under_eq_ok, ih (index + 1), and_assoc]

@[simp] theorem toList_eq_ok {least : Nat} {check : Json → Checked α} {j : Json} {found : List α} :
    toList least check j = .ok found ↔
      ∃ items, j = .arr items ∧ least ≤ items.length ∧
        List.Forall₂ (fun item a => check item = .ok a) items found := by
  cases j with
  | arr items =>
      rw [toList, bind_eq_ok]
      constructor
      · rintro ⟨all, read, checked⟩
        obtain ⟨rfl, enough⟩ := atLeast_eq_ok.mp checked
        have each := (itemsOf_eq_ok 0).mp read
        exact ⟨items, rfl, each.length_eq ▸ enough, each⟩
      · rintro ⟨_, ⟨⟩, enough, each⟩
        exact ⟨found, (itemsOf_eq_ok 0).mpr each,
          atLeast_eq_ok.mpr ⟨rfl, each.length_eq ▸ enough⟩⟩
  | _ => simp [toList, fail]

end Json

namespace Region

open Checked

/-! ## The library that runs -/

@[simp] theorem variantOf_eq_ok {fields : Json.Fields} {v : Variant} :
    variantOf fields = .ok v ↔ fields.lookup "type" = some (.str v.name) := by
  rw [variantOf]
  split
  next missing => simp [missing, fail]
  next name found =>
      rw [found, Option.some_inj, Json.str.injEq]
      split
      next w chosen =>
          have named : w.name = name := by simpa using List.find?_some chosen
          subst named
          cases v <;> cases w <;> simp [Variant.name]
      next unknown =>
          constructor
          · intro failed
            cases failed
          · rintro rfl
            cases v <;> cases unknown
  next other found =>
      constructor
      · intro failed
        cases failed
      · intro named
        cases found.symm.trans named
        exact absurd rfl (other _)

theorem ofItems_eq_ok {level : Nat} {items : List Json} {children : List Region} (index : Nat) :
    ofItems level index items = .ok children ↔
      List.Forall₂ (fun item child => ofJson level item = .ok child) items children := by
  induction items generalizing index children with
  | nil => cases children <;> simp [ofItems]
  | cons item rest ih =>
      cases children <;>
        simp [ofItems, map_eq_ok, both_eq_ok, under_eq_ok, ih (index + 1), and_assoc]

theorem childrenOf_skip {name : String} (other : name ≠ "children") (value : Json)
    {level least : Nat} {most : Option Nat} {rest : Json.Fields} :
    childrenOf level least most ((name, value) :: rest) = childrenOf level least most rest := by
  cases value <;> simp [childrenOf, other]

@[simp] theorem childrenOf_eq_ok {level least : Nat} {most : Option Nat} {fields : Json.Fields}
    {children : List Region} :
    childrenOf level least most fields = .ok children ↔
      ∃ items, fields.lookup "children" = some (.arr items) ∧ least ≤ items.length ∧
        (∀ n ∈ most, items.length ≤ n) ∧
        List.Forall₂ (fun item child => ofJson level item = .ok child) items children := by
  induction fields with
  | nil => simp [childrenOf, under, fail]
  | cons field rest ih =>
      obtain ⟨name, value⟩ := field
      by_cases here : name = "children"
      · subst here
        cases value with
        | arr items =>
            have few : most.any (· < items.length) = false ↔ ∀ n ∈ most, items.length ≤ n := by
              cases most <;> simp
            rw [childrenOf, if_pos rfl, under_eq_ok]
            constructor
            · intro read
              split at read
              · cases read
              next short =>
                  obtain ⟨all, listed, checked⟩ := bind_eq_ok.mp read
                  obtain ⟨rfl, enough⟩ := Json.atLeast_eq_ok.mp checked
                  have each := (ofItems_eq_ok 0).mp listed
                  exact ⟨items, rfl, each.length_eq ▸ enough,
                    few.mp (Bool.eq_false_iff.mpr short), each⟩
            · rintro ⟨_, ⟨⟩, enough, short, each⟩
              rw [few.mpr short, (ofItems_eq_ok 0).mpr each]
              exact Json.atLeast_eq_ok.mpr ⟨rfl, each.length_eq ▸ enough⟩
        | _ => simp [childrenOf, under, fail]
      · rw [childrenOf_skip here, ih, List.lookup_cons, beq_false_of_ne (Ne.symm here)]

@[simp] theorem amount_eq_ok {j : Json} {x : Option Binary64} :
    amount j = .ok x ↔ ∃ y, j.toFloat = .ok y ∧ x = some y := by
  rw [amount, map_eq_ok]
  simp [eq_comm]

/-! ## One variant at a time -/

variable {fields : Json.Fields} {children : Checked (List Region)} {r : Region}

@[simp] theorem taskOf_eq_ok : taskOf fields = .ok r ↔
    ∃ id label duration impacts, r = task id label duration impacts ∧ idOf fields = .ok id ∧
      labelOf fields = .ok label ∧
      Json.optional "duration" none amount fields = .ok duration ∧
      Json.optional "impacts" [.one] (Json.toList 1 Json.toFloat) fields = .ok impacts := by
  rw [taskOf, map_eq_ok]
  constructor
  · rintro ⟨⟨⟨id, label⟩, duration, impacts⟩, parts, rfl⟩
    obtain ⟨named, measured⟩ := both_eq_ok.mp parts
    exact ⟨id, label, duration, impacts, rfl, (both_eq_ok.mp named).1, (both_eq_ok.mp named).2,
      both_eq_ok.mp measured⟩
  · rintro ⟨id, label, duration, impacts, rfl, hid, hlabel, measured⟩
    exact ⟨⟨⟨id, label⟩, duration, impacts⟩,
      both_eq_ok.mpr ⟨both_eq_ok.mpr ⟨hid, hlabel⟩, both_eq_ok.mpr measured⟩, rfl⟩

@[simp] theorem sequentialOf_eq_ok : sequentialOf fields children = .ok r ↔
    ∃ id first second, r = sequential id first second ∧ idOf fields = .ok id ∧
      children = .ok [first, second] := by
  rw [sequentialOf, bind_eq_ok]
  constructor
  · rintro ⟨⟨id, regions⟩, parts, paired⟩
    obtain ⟨hid, listed⟩ := both_eq_ok.mp parts
    match regions, paired with
    | [first, second], paired =>
      cases paired
      exact ⟨id, first, second, rfl, hid, listed⟩
  · rintro ⟨id, first, second, rfl, parts⟩
    exact ⟨⟨id, [first, second]⟩, both_eq_ok.mpr parts, rfl⟩

@[simp] theorem choiceOf_eq_ok : choiceOf fields children = .ok r ↔
    ∃ id label regions maxDelay, r = choice id label regions maxDelay ∧ idOf fields = .ok id ∧
      labelOf fields = .ok label ∧ children = .ok regions ∧
      Json.optional "max_delay" none amount fields = .ok maxDelay := by
  rw [choiceOf, map_eq_ok]
  constructor
  · rintro ⟨⟨⟨id, label⟩, regions, maxDelay⟩, parts, rfl⟩
    obtain ⟨named, rest⟩ := both_eq_ok.mp parts
    exact ⟨id, label, regions, maxDelay, rfl, (both_eq_ok.mp named).1, (both_eq_ok.mp named).2,
      both_eq_ok.mp rest⟩
  · rintro ⟨id, label, regions, maxDelay, rfl, hid, hlabel, rest⟩
    exact ⟨⟨⟨id, label⟩, regions, maxDelay⟩,
      both_eq_ok.mpr ⟨both_eq_ok.mpr ⟨hid, hlabel⟩, both_eq_ok.mpr rest⟩, rfl⟩

@[simp] theorem parallelOf_eq_ok : parallelOf fields children = .ok r ↔
    ∃ id label regions, r = parallel id label regions ∧ idOf fields = .ok id ∧
      labelOf fields = .ok label ∧ children = .ok regions := by
  rw [parallelOf, map_eq_ok]
  constructor
  · rintro ⟨⟨⟨id, label⟩, regions⟩, parts, rfl⟩
    obtain ⟨named, listed⟩ := both_eq_ok.mp parts
    exact ⟨id, label, regions, rfl, (both_eq_ok.mp named).1, (both_eq_ok.mp named).2, listed⟩
  · rintro ⟨id, label, regions, rfl, hid, hlabel, listed⟩
    exact ⟨⟨⟨id, label⟩, regions⟩, both_eq_ok.mpr ⟨both_eq_ok.mpr ⟨hid, hlabel⟩, listed⟩, rfl⟩

/-- What the fields describe once the variant is known. -/
def ofFields (level : Nat) (fields : Json.Fields) : Variant → Checked Region
  | .task => taskOf fields
  | .sequential => sequentialOf fields (childrenOf (level + 1) 2 (some 2) fields)
  | .choice => choiceOf fields (childrenOf (level + 1) 1 none fields)
  | .parallel => parallelOf fields (childrenOf (level + 1) 1 none fields)

theorem ofJson_eq_ok {level : Nat} : ofJson level (.obj fields) = .ok r ↔
    level < nestingLimit ∧ ∃ v, variantOf fields = .ok v ∧ ofFields level fields v = .ok r := by
  have deep (v : Variant) (region : Checked Region) :
      unlessTooDeep level v region = .ok r ↔ level < nestingLimit ∧ region = .ok r := by
    rw [unlessTooDeep, under_eq_ok]
    split <;> simp [*, fail]
  rw [ofJson]
  cases variantOf fields with
  | error issues => simp
  | ok v => cases v <;> simp [deep, ofFields]

theorem exists_variant {p : Variant → Prop} :
    (∃ v, p v) ↔ p .task ∨ p .sequential ∨ p .choice ∨ p .parallel := by
  constructor
  · rintro ⟨v, h⟩
    cases v <;> simp [h]
  · rintro (h | h | h | h) <;> exact ⟨_, h⟩

/-- The fields that a region is described by are those that are looked at. -/
theorem describes_iff {level : Nat} : Library.standard.Describes level (.obj fields) r ↔
    ∃ v, variantOf fields = .ok v ∧ ofFields level fields v = .ok r := by
  rw [exists_variant]
  cases r <;>
    simp [Library.Describes, attributes, Library.Admits, Library.standard, ofFields, idOf, labelOf,
      Variant.name] <;>
    exact and_left_comm

end Region

end ProcessDiagram
