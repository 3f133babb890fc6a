import ProcessDiagram.Proofs.Region.Documented

/-!
What is written of a region tree is read back as that tree, also out of a request; and what is read
at all is a tree of the right form, which is written and read again without a change. This is so with
every library that behaves as documented, as far as it carries the depth of the tree. Main statement:
`Region.reads_back`.
-/
namespace ProcessDiagram

/-- The value of a field of an object. -/
def Json.field? (name : String) : Json → Option Json
  | .obj fields => fields.lookup name
  | _ => none

theorem Json.finiteItems_floats {xs : List Binary64} (finite : ∀ x ∈ xs, x.isFinite = true) :
    Json.FiniteItems (xs.map .float) := by
  induction xs with
  | nil => trivial
  | cons x rest ih =>
      rw [List.forall_mem_cons] at finite
      exact ⟨finite.1, ih finite.2⟩

namespace Region

/-! ## Amounts -/

mutual

/-- The tree with every amount stated, the usual one where there is none. -/
def stated : Region → Region
  | task id label duration impacts =>
    task id label (some (duration.getD (.ofInt usualDuration))) impacts
  | sequential id first second => sequential id first.stated second.stated
  | choice id label children maxDelay =>
    choice id label (statedAll children) (some (maxDelay.getD (.ofInt usualMaxDelay)))
  | parallel id label children => parallel id label (statedAll children)

def statedAll : List Region → List Region
  | [] => []
  | r :: rest => r.stated :: statedAll rest

end

/-- The amount of a task or of a choice; the other regions have none. -/
def amount? : Region → Option (Option Binary64)
  | task _ _ amount _ | choice _ _ _ amount => some amount
  | sequential .. | parallel .. => none

theorem length_statedAll (regions : List Region) : (statedAll regions).length = regions.length := by
  induction regions with
  | nil => rfl
  | cons r rest ih => rw [statedAll, List.length_cons, List.length_cons, ih]

mutual

theorem stated_stated : ∀ r : Region, r.stated.stated = r.stated
  | task .. => rfl
  | sequential id first second => by rw [stated, stated, stated_stated first, stated_stated second]
  | choice id label children maxDelay => by rw [stated, stated, statedAll_statedAll children]; rfl
  | parallel id label children => by rw [stated, stated, statedAll_statedAll children]

theorem statedAll_statedAll : ∀ regions : List Region,
    statedAll (statedAll regions) = statedAll regions
  | [] => rfl
  | r :: rest => by rw [statedAll, statedAll, stated_stated r, statedAll_statedAll rest]

end

mutual

theorem stated_of_amounts : ∀ r : Region, (∀ t ∈ r.preorder, t.amount? ≠ some none) → r.stated = r
  | task id label duration impacts, h => by
      cases duration with
      | none => exact absurd rfl (h _ List.mem_cons_self)
      | some duration => rfl
  | sequential id first second, h => by
      rw [preorder, List.cons_append, List.forall_mem_cons, List.forall_mem_append] at h
      rw [stated, stated_of_amounts first h.2.1, stated_of_amounts second h.2.2]
  | choice id label children maxDelay, h => by
      rw [preorder, List.forall_mem_cons] at h
      rw [stated, statedAll_of_amounts children h.2]
      cases maxDelay with
      | none => exact absurd rfl h.1
      | some maxDelay => rfl
  | parallel id label children, h => by
      rw [preorder, List.forall_mem_cons] at h
      rw [stated, statedAll_of_amounts children h.2]

theorem statedAll_of_amounts : ∀ regions : List Region,
    (∀ t ∈ preorderAll regions, t.amount? ≠ some none) → statedAll regions = regions
  | [], _ => rfl
  | r :: rest, h => by
      rw [preorderAll, List.forall_mem_append] at h
      rw [statedAll, stated_of_amounts r h.1, statedAll_of_amounts rest h.2]

end

/-- Every number in the tree is finite. -/
def Finite (r : Region) : Prop :=
  ∀ t ∈ r.preorder, ∀ x ∈ t.amounts, x.isFinite = true

def FiniteAll (regions : List Region) : Prop :=
  ∀ t ∈ preorderAll regions, ∀ x ∈ t.amounts, x.isFinite = true

theorem finiteAll_cons {r : Region} {rest : List Region} :
    FiniteAll (r :: rest) ↔ r.Finite ∧ FiniteAll rest := by
  rw [FiniteAll, preorderAll, List.forall_mem_append]
  rfl

theorem finite_iff {r : Region} :
    r.Finite ↔ (∀ x ∈ r.amounts, x.isFinite = true) ∧ FiniteAll r.children := by
  cases r with
  | task id label duration impacts =>
      rw [Finite, preorder, List.forall_mem_singleton]
      exact (and_iff_left (List.forall_mem_nil _)).symm
  | sequential id first second =>
      rw [Finite, preorder, List.cons_append, List.forall_mem_cons, List.forall_mem_append,
        children, finiteAll_cons, finiteAll_cons]
      exact and_congr_right' (and_congr_right' (and_iff_left (List.forall_mem_nil _)).symm)
  | choice | parallel =>
      rw [Finite, preorder, List.forall_mem_cons]
      rfl

theorem finite_amounts_stated : ∀ r : Region, (∀ x ∈ r.amounts, x.isFinite = true) →
    ∀ x ∈ r.stated.amounts, x.isFinite = true
  | task id label duration impacts, own => by
      cases duration with
      | none => exact List.forall_mem_cons.mpr ⟨by decide, own⟩
      | some duration => exact own
  | choice id label children maxDelay, own => by
      cases maxDelay with
      | none => exact List.forall_mem_singleton.mpr (by decide)
      | some maxDelay => exact own
  | sequential .., own | parallel .., own => own

mutual

/-- So many regions are nested in each other. -/
def height : Region → Nat
  | task .. => 1
  | sequential _ first second => max first.height second.height + 1
  | choice _ _ children _ | parallel _ _ children => heightAll children + 1

def heightAll : List Region → Nat
  | [] => 0
  | r :: rest => max r.height (heightAll rest)

end

end Region

namespace Library

variable {lib : Library}

open Region

/-! ## Reading what was written -/

/-- What is written for the value `a` of a field is a value `b` for it, of which the same is
written. -/
def Kept (lib : Library) (level : Nat) (a b : Attribute) : Prop :=
  ∃ value, lib.writeAttribute level a = some value ∧ lib.writeAttribute level b = some value ∧
    lib.Admits level (some value) b ∧ value.Finite

/-- A region is kept if its fields are. -/
theorem fields_of_kept {level : Nat} {before after : List (String × Attribute)}
    (kept : List.Forall₂ (fun a b => a.1 = b.1 ∧ lib.Kept level a.2 b.2) before after)
    (distinct : (after.map (·.1)).Nodup) :
    ∃ fields : Json.Fields, before.mapM (lib.writeField level) = some fields ∧
      after.mapM (lib.writeField level) = some fields ∧
      (∀ field ∈ after, lib.Admits level (fields.lookup field.1) field.2) ∧
      Json.FiniteFields fields := by
  induction kept with
  | nil => exact ⟨[], rfl, rfl, List.forall_mem_nil _, trivial⟩
  | @cons a b before after first _ ih =>
      obtain ⟨same, value, written, written', admitted, finite⟩ := first
      rw [List.map_cons, List.nodup_cons] at distinct
      obtain ⟨fields, earlier, later, all, finite'⟩ := ih distinct.2
      refine ⟨(b.1, value) :: fields, ?_, ?_, ?_, finite, finite'⟩
      · simp [writeField, written, earlier, same]
      · simp [writeField, written', later]
      · rw [List.forall_mem_cons]
        constructor
        · rw [List.lookup_cons_self]
          exact admitted
        · intro field mem
          have other : field.1 ≠ b.1 := fun clash =>
            distinct.1 (clash ▸ List.mem_map_of_mem mem)
          rw [List.lookup_cons, beq_false_of_ne other]
          exact all field mem

theorem nodup_attributes (r : Region) : (r.attributes.map (·.1)).Nodup := by
  cases r <;> simp [attributes]

/-- The region is written as the document, with its amounts stated or not, and the document is read
as the region with its amounts stated. -/
structure Written (lib : Library) (level : Nat) (r : Region) (document : Json) : Prop where
  once : lib.write level r = some document
  again : lib.write level r.stated = some document
  read : lib.read level document = .ok r.stated
  finite : document.Finite

structure AllWritten (lib : Library) (level : Nat) (regions : List Region) (documents : List Json) :
    Prop where
  once : regions.mapM (lib.write level) = some documents
  again : (statedAll regions).mapM (lib.write level) = some documents
  read : List.Forall₂ (fun item child => lib.read level item = .ok child) documents
    (statedAll regions)
  finite : Json.FiniteItems documents

theorem AllWritten.nil {level : Nat} : lib.AllWritten level [] [] :=
  ⟨rfl, rfl, .nil, trivial⟩

theorem AllWritten.cons {level : Nat} {r : Region} {rest : List Region} {document : Json}
    {documents : List Json} (first : lib.Written level r document)
    (others : lib.AllWritten level rest documents) :
    lib.AllWritten level (r :: rest) (document :: documents) where
  once := by rw [List.mapM_cons, first.once, others.once]; rfl
  again := by rw [statedAll, List.mapM_cons, first.again, others.again]; rfl
  read := .cons first.read others.read
  finite := ⟨first.finite, others.finite⟩

namespace Documented

variable (documented : lib.Documented) {level : Nat}

include documented

theorem kept_integer (n : Int) : lib.Kept level (.integer n) (.integer n) :=
  ⟨.int n, rfl, rfl, ⟨_, rfl, documented.int n⟩, trivial⟩

omit documented in
theorem kept_literal (s : String) : lib.Kept level (.literal s) (.literal s) :=
  ⟨.str s, rfl, rfl, rfl, trivial⟩

theorem kept_text (s : String) : lib.Kept level (.text s) (.text s) :=
  ⟨.str s, rfl, rfl, ⟨_, rfl, documented.text s⟩, trivial⟩

theorem kept_number {usual : Int} {x : Option Binary64}
    (finite : (x.getD (.ofInt usual)).isFinite = true) :
    lib.Kept level (.number usual x) (.number usual (some (x.getD (.ofInt usual)))) :=
  ⟨.float (x.getD (.ofInt usual)), rfl, rfl, ⟨_, documented.float _ finite, rfl⟩, finite⟩

theorem kept_numbers {least : Nat} {usual xs : List Binary64} (enough : least ≤ xs.length)
    (finite : ∀ x ∈ xs, x.isFinite = true) :
    lib.Kept level (.numbers least usual xs) (.numbers least usual xs) := by
  refine ⟨.arr (xs.map .float), rfl, rfl, ⟨_, rfl, by rwa [List.length_map], ?_⟩,
    Json.finiteItems_floats finite⟩
  rw [List.forall₂_map_left_iff, List.forall₂_same]
  intro x mem
  exact documented.float x (finite x mem)

omit documented in
theorem kept_regions {least : Nat} {most : Option Nat} {children : List Region}
    {documents : List Json} (written : lib.AllWritten level children documents)
    (enough : least ≤ children.length) (few : ∀ n ∈ most, children.length ≤ n) :
    lib.Kept level (.regions least most children) (.regions least most (statedAll children)) := by
  have same : documents.length = children.length :=
    written.read.length_eq.trans (length_statedAll children)
  refine ⟨.arr documents, ?_, ?_, ⟨documents, rfl, by rwa [same], by rwa [same], written.read⟩,
    written.finite⟩
  · rw [writeAttribute, written.once]
    rfl
  · rw [writeAttribute, written.again]
    rfl

theorem written_of_kept {r : Region} (shallow : level < lib.nesting)
    (own : ∀ x ∈ r.amounts, x.isFinite = true)
    (kept : List.Forall₂ (fun a b => a.1 = b.1 ∧ lib.Kept (level + 1) a.2 b.2) r.attributes
      r.stated.attributes) :
    ∃ document, lib.Written level r document := by
  obtain ⟨fields, once, again, all, finite⟩ := fields_of_kept kept (nodup_attributes r.stated)
  refine ⟨.obj fields, ?_, ?_, documented.read shallow ⟨fields, rfl, all⟩, finite⟩
  · rw [documented.write r shallow own, once]
    rfl
  · rw [documented.write r.stated shallow (finite_amounts_stated r own), again]
    rfl

end Documented

end Library

namespace Region

open Library Documented

variable {lib : Library}

mutual

/-- A tree is written and read back if it is not nested too deep. -/
theorem written (documented : lib.Documented) : ∀ (r : Region) {level : Nat}, r.WellFormed →
    r.Finite → level + r.height ≤ lib.nesting → ∃ document, lib.Written level r document
  | task id label duration impacts, level, formed, finite, shallow => by
      rw [height] at shallow
      have own := (finite_iff.mp finite).1
      have usual := finite_amounts_stated _ own
      rw [stated, amounts, Option.toList_some, List.singleton_append, List.forall_mem_cons] at usual
      refine documented.written_of_kept (by omega) own ?_
      exact .cons ⟨rfl, documented.kept_integer id⟩ <| .cons ⟨rfl, kept_literal "task"⟩ <|
        .cons ⟨rfl, documented.kept_text label⟩ <|
        .cons ⟨rfl, documented.kept_number usual.1⟩ <|
        .cons ⟨rfl, documented.kept_numbers (List.length_pos_of_ne_nil formed) usual.2⟩ .nil
  | sequential id first second, level, formed, finite, shallow => by
      rw [height] at shallow
      obtain ⟨own, parts⟩ := finite_iff.mp finite
      rw [children, finiteAll_cons, finiteAll_cons] at parts
      have below : level + 1 + first.height ≤ lib.nesting := by omega
      have below' : level + 1 + second.height ≤ lib.nesting := by omega
      obtain ⟨_, first'⟩ := written documented first formed.1 parts.1 below
      obtain ⟨_, second'⟩ := written documented second formed.2 parts.2.1 below'
      refine documented.written_of_kept (by omega) own ?_
      exact .cons ⟨rfl, documented.kept_integer id⟩ <| .cons ⟨rfl, kept_literal "sequential"⟩ <|
        .cons ⟨rfl, kept_regions (.cons first' (.cons second' .nil)) (Nat.le_refl 2) (by simp)⟩ .nil
  | choice id label children maxDelay, level, formed, finite, shallow => by
      rw [height] at shallow
      obtain ⟨own, parts⟩ := finite_iff.mp finite
      have below : level + 1 + heightAll children ≤ lib.nesting := by omega
      obtain ⟨_, all⟩ := writtenAll documented children formed.2 parts below
      have usual := finite_amounts_stated _ own
      rw [stated, amounts, Option.toList_some, List.forall_mem_singleton] at usual
      refine documented.written_of_kept (by omega) own ?_
      exact .cons ⟨rfl, documented.kept_integer id⟩ <| .cons ⟨rfl, kept_literal "choice"⟩ <|
        .cons ⟨rfl, documented.kept_text label⟩ <|
        .cons ⟨rfl, kept_regions all (List.length_pos_of_ne_nil formed.1) (by simp)⟩ <|
        .cons ⟨rfl, documented.kept_number usual⟩ .nil
  | parallel id label children, level, formed, finite, shallow => by
      rw [height] at shallow
      obtain ⟨own, parts⟩ := finite_iff.mp finite
      have below : level + 1 + heightAll children ≤ lib.nesting := by omega
      obtain ⟨_, all⟩ := writtenAll documented children formed.2 parts below
      refine documented.written_of_kept (by omega) own ?_
      exact .cons ⟨rfl, documented.kept_integer id⟩ <| .cons ⟨rfl, kept_literal "parallel"⟩ <|
        .cons ⟨rfl, documented.kept_text label⟩ <|
        .cons ⟨rfl, kept_regions all (List.length_pos_of_ne_nil formed.1) (by simp)⟩ .nil

theorem writtenAll (documented : lib.Documented) : ∀ (regions : List Region) {level : Nat},
    AllWellFormed regions → FiniteAll regions → level + heightAll regions ≤ lib.nesting →
      ∃ documents, lib.AllWritten level regions documents
  | [], _, _, _, _ => ⟨[], .nil⟩
  | r :: rest, level, formed, finite, shallow => by
      rw [heightAll] at shallow
      rw [finiteAll_cons] at finite
      have below : level + r.height ≤ lib.nesting := by omega
      have below' : level + heightAll rest ≤ lib.nesting := by omega
      obtain ⟨_, first⟩ := written documented r formed.1 finite.1 below
      obtain ⟨_, others⟩ := writtenAll documented rest formed.2 finite.2 below'
      exact ⟨_, .cons first others⟩

end

/-! ## What is read at all -/

/-- The form of a region by itself. -/
def Sized (r : Region) : Prop :=
  match r with
  | task _ _ _ impacts => impacts ≠ []
  | sequential .. => r.children.length = 2
  | choice .. | parallel .. => 1 ≤ r.children.length

theorem nonempty_of_admits {level : Nat} {value : Option Json} {impacts : List Binary64}
    (admitted : lib.Admits level value (.numbers 1 [.one] impacts)) : impacts ≠ [] := by
  cases value with
  | none =>
      rw [show impacts = [.one] from admitted]
      exact List.cons_ne_nil _ _
  | some j =>
      obtain ⟨items, _, enough, each⟩ := admitted
      exact List.ne_nil_of_length_pos (each.length_eq ▸ enough)

mutual

theorem wellFormed_of_read (documented : lib.Documented) : ∀ (r : Region) {level : Nat}
    {document : Json}, lib.read level document = .ok r → r.WellFormed
  | task id label duration impacts, level, document, accepted => by
      obtain ⟨fields, _, all⟩ := documented.sound accepted
      exact nonempty_of_admits (all ("impacts", .numbers 1 [.one] impacts) (by simp [attributes]))
  | sequential id first second, level, document, accepted => by
      obtain ⟨fields, _, all⟩ := documented.sound accepted
      obtain ⟨items, _, _, _, each⟩ :=
        all ("children", .regions 2 (some 2) [first, second]) (by simp [attributes])
      cases each with
      | cons first' others =>
          cases others with
          | cons second' _ =>
              exact ⟨wellFormed_of_read documented first first',
                wellFormed_of_read documented second second'⟩
  | choice id label children _, level, document, accepted
  | parallel id label children, level, document, accepted => by
      obtain ⟨fields, _, all⟩ := documented.sound accepted
      obtain ⟨items, _, enough, _, each⟩ :=
        all ("children", .regions 1 none children) (by simp [attributes])
      exact ⟨List.ne_nil_of_length_pos (each.length_eq ▸ enough),
        allWellFormed_of_read documented children each⟩

theorem allWellFormed_of_read (documented : lib.Documented) : ∀ (regions : List Region)
    {level : Nat} {items : List Json},
    List.Forall₂ (fun item child => lib.read level item = .ok child) items regions →
      AllWellFormed regions
  | [], _, _, _ => trivial
  | r :: rest, _, _, .cons accepted others =>
      ⟨wellFormed_of_read documented r accepted, allWellFormed_of_read documented rest others⟩

end

mutual

theorem sized_of_wellFormed : ∀ r : Region, r.WellFormed → ∀ t ∈ r.preorder, t.Sized
  | task id label duration impacts, h => List.forall_mem_singleton.mpr h
  | sequential id first second, h => by
      rw [preorder, List.cons_append, List.forall_mem_cons, List.forall_mem_append]
      exact ⟨rfl, sized_of_wellFormed first h.1, sized_of_wellFormed second h.2⟩
  | choice id label children maxDelay, h | parallel id label children, h => by
      rw [preorder, List.forall_mem_cons]
      exact ⟨List.length_pos_of_ne_nil h.1, sized_of_allWellFormed children h.2⟩

theorem sized_of_allWellFormed : ∀ regions : List Region, AllWellFormed regions →
    ∀ t ∈ preorderAll regions, t.Sized
  | [], _ => List.forall_mem_nil _
  | r :: rest, h => by
      rw [preorderAll, List.forall_mem_append]
      exact ⟨sized_of_wellFormed r h.1, sized_of_allWellFormed rest h.2⟩

end

/-- A previous answer with a state in it. -/
def answer : Json.Fields :=
  [("derived_state", .obj [("marking", .arr [.int 1, .int 0])]), ("decisions", .int 2)]

/-- The tasks of a sequence, so many and one more. -/
def chain : Nat → Region
  | 0 => unitTask 0 "a"
  | n + 1 => sequential (n + 1) (unitTask 0 "a") (chain n)

end Region
end ProcessDiagram
