import ProcessDiagram.Trace.Folder
import Mathlib.Data.List.Basic

/-!
Which file names carry a step index, and which one: the number at the end of the stem, however many
zeros it starts with, and whether or not a line break follows it. Main statements:
`Trace.isSome_stemIndex?_iff` and `Trace.stepIndex_numeral`.
-/
namespace ProcessDiagram

namespace Text

/-- A digit of any script. -/
def IsDigit (c : Char) : Prop :=
  (digitValue? c).isSome = true

/-- The values of the digits among some characters. -/
def digitValues (s : List Char) : List Nat :=
  s.filterMap digitValue?

theorem digitValue?_digitChar : ∀ d < 10, digitValue? (Nat.digitChar d) = some d := by
  decide

theorem ofDigits_concat (ds : List Nat) (d : Nat) : ofDigits (ds ++ [d]) = 10 * ofDigits ds + d := by
  rw [ofDigits, List.foldl_append]
  rfl

theorem ofDigits_zeros (n : Nat) (ds : List Nat) :
    ofDigits (List.replicate n 0 ++ ds) = ofDigits ds := by
  induction n with
  | zero => rfl
  | succ n ih => exact ih

theorem digitValues_zeros (n : Nat) : digitValues (List.replicate n '0') = List.replicate n 0 := by
  induction n with
  | zero => rfl
  | succ n ih =>
      rw [List.replicate_succ, digitValues, List.filterMap_cons_some (b := 0) (by decide)]
      exact congrArg _ ih

/-- The digits of a number, without zeros in front, are digits and stand for it. -/
theorem numeral_spec (i : Nat) : (∀ c ∈ Nat.toDigits 10 i, IsDigit c) ∧
    ofDigits (digitValues (Nat.toDigits 10 i)) = i := by
  induction i using Nat.strongRecOn with
  | _ i ih =>
      have last : digitValue? (Nat.digitChar (i % 10)) = some (i % 10) :=
        digitValue?_digitChar _ (Nat.mod_lt i (by decide))
      by_cases small : i < 10
      · rw [Nat.mod_eq_of_lt small] at last
        rw [Nat.toDigits_of_lt_base small, List.forall_mem_singleton, IsDigit, digitValues,
          List.filterMap_cons_some last, last]
        exact ⟨rfl, Nat.zero_add i⟩
      · rw [Nat.not_lt] at small
        obtain ⟨digits, value⟩ := ih (i / 10) (by omega)
        rw [Nat.toDigits_of_base_le (by decide) small]
        constructor
        · rw [List.forall_mem_append, List.forall_mem_singleton, IsDigit, last]
          exact ⟨digits, rfl⟩
        · have split : digitValues (Nat.toDigits 10 (i / 10) ++ [Nat.digitChar (i % 10)])
              = digitValues (Nat.toDigits 10 (i / 10)) ++ [i % 10] := by
            rw [digitValues, List.filterMap_append, List.filterMap_cons_some last]
            rfl
          rw [split, ofDigits_concat, value, Nat.div_add_mod]

end Text

namespace Trace

open Text

/-- Nothing or one line break. -/
def Break (s : List Char) : Prop :=
  s = [] ∨ s = ['\n']

/-- A digit stands at the end; a line break may follow it. -/
def EndsInDigits (s : List Char) : Prop :=
  ∃ front digit after, s = front ++ digit :: after ∧ IsDigit digit ∧ Break after

theorem not_isDigit_break : ¬ IsDigit '\n' := by
  unfold IsDigit
  decide

theorem not_isDigit_slash : ¬ IsDigit '/' := by
  unfold IsDigit
  decide

theorem dropLineBreak_of_digit {front after : List Char} {digit : Char} (h : IsDigit digit)
    (rest : Break after) : dropLineBreak (front ++ digit :: after) = front ++ [digit] := by
  obtain rfl | rfl := rest
  · have other : digit ≠ '\n' := fun same => not_isDigit_break (same ▸ h)
    rw [dropLineBreak, List.reverse_append]
    split
    next found =>
        injection found with same _
        exact absurd same other
    next => rfl
  · simp [dropLineBreak]

theorem dropLineBreak_cases (s : List Char) :
    ∃ after, s = dropLineBreak s ++ after ∧ Break after := by
  rw [dropLineBreak]
  split
  next rest found => exact ⟨['\n'], by simpa using congrArg List.reverse found, .inr rfl⟩
  next => exact ⟨[], (List.append_nil s).symm, .inl rfl⟩

/-- The index is what the digits at the end say, all of them and nothing in front of them. -/
theorem trailingDigits_eq {front digits after : List Char} (nonempty : digits ≠ [])
    (all : ∀ c ∈ digits, IsDigit c) (bare : ∀ c, front.getLast? = some c → ¬ IsDigit c)
    (rest : Break after) : trailingDigits (front ++ digits ++ after) = digitValues digits := by
  obtain ⟨init, last, rfl⟩ := (digits.eq_nil_or_concat').resolve_left nonempty
  have cut : dropLineBreak (front ++ (init ++ [last]) ++ after) = front ++ (init ++ [last]) := by
    have end' : dropLineBreak (front ++ init ++ last :: after) = front ++ init ++ [last] :=
      dropLineBreak_of_digit (all last (by simp)) rest
    simpa only [List.append_assoc, List.cons_append, List.nil_append] using end'
  have stop : front.reverse.takeWhile (fun c => (digitValue? c).isSome) = [] := by
    cases ends : front.reverse with
    | nil => rfl
    | cons c _ =>
        have tail : front.getLast? = some c := by rw [List.getLast?_eq_head?_reverse, ends]; rfl
        exact List.takeWhile_cons_of_neg (bare c tail)
  rw [trailingDigits, cut, List.reverse_append, List.takeWhile_append_of_pos, stop,
    List.append_nil, List.reverse_reverse, digitValues]
  intro c hc
  exact all c (List.mem_reverse.mp hc)

theorem stemIndex?_eq {front digits after : List Char} (nonempty : digits ≠ [])
    (all : ∀ c ∈ digits, IsDigit c) (bare : ∀ c, front.getLast? = some c → ¬ IsDigit c)
    (rest : Break after) :
    stemIndex? (String.ofList (front ++ digits ++ after)) = some (ofDigits (digitValues digits)) := by
  have some : digitValues digits ≠ [] := by
    obtain ⟨init, last, rfl⟩ := (digits.eq_nil_or_concat').resolve_left nonempty
    obtain ⟨d, value⟩ := Option.isSome_iff_exists.mp (all last (by simp))
    simp [digitValues, value]
  rw [stemIndex?, String.toList_ofList, trailingDigits_eq nonempty all bare rest]
  simp only [List.isEmpty_iff, if_neg some]

theorem trailingDigits_ne_nil_iff (s : List Char) :
    trailingDigits s ≠ [] ↔ ∃ c, (dropLineBreak s).getLast? = some c ∧ IsDigit c := by
  rw [trailingDigits, List.getLast?_eq_head?_reverse]
  cases (dropLineBreak s).reverse with
  | nil => simp
  | cons c rest =>
      cases value : digitValue? c with
      | none => simp [value, IsDigit]
      | some d => simp [value, IsDigit]

theorem isSome_stemIndex?_iff (stem : String) :
    (stemIndex? stem).isSome = true ↔ EndsInDigits stem.toList := by
  have found : (stemIndex? stem).isSome = true ↔ trailingDigits stem.toList ≠ [] := by
    rw [stemIndex?]
    cases trailingDigits stem.toList <;> simp
  rw [found, trailingDigits_ne_nil_iff]
  constructor
  · rintro ⟨c, last, digit⟩
    obtain ⟨after, whole, rest⟩ := dropLineBreak_cases stem.toList
    obtain ⟨front, cut⟩ := List.getLast?_eq_some_iff.mp last
    refine ⟨front, c, after, ?_, digit, rest⟩
    rw [whole, cut, List.append_assoc]
    rfl
  · rintro ⟨front, digit, after, whole, isDigit, rest⟩
    refine ⟨digit, ?_, isDigit⟩
    rw [whole, dropLineBreak_of_digit isDigit rest, List.getLast?_concat]

/-! ## File names -/

theorem pathPieces_of_name {s : List Char} (plain : '/' ∉ s) : pathPieces s = [s] := by
  induction s with
  | nil => rfl
  | cons c rest ih =>
      obtain ⟨other, plain⟩ := List.ne_and_not_mem_of_not_mem_cons plain
      rw [pathPieces, if_neg (Ne.symm other), ih plain]

theorem pathPieces_plain (s : List Char) : ∀ piece ∈ pathPieces s, '/' ∉ piece := by
  induction s with
  | nil => simp [pathPieces]
  | cons c rest ih =>
      rw [pathPieces]
      split
      next => simpa using ih
      next other =>
          split
          next piece others found =>
              rw [found, List.forall_mem_cons] at ih
              simpa [Ne.symm other] using ih
          next => simpa using Ne.symm other

theorem pathSteps_plain (path : String) : ∀ step ∈ pathSteps path, '/' ∉ step.toList := by
  intro step h
  obtain ⟨piece, kept, rfl⟩ := List.mem_map.mp h
  rw [String.toList_ofList]
  exact pathPieces_plain _ piece (List.mem_filter.mp kept).1

theorem isTraceFile_iff {name : String} :
    isTraceFile name = true ↔ ∃ s, name.toList = s ++ '.' :: "json".toList := by
  rw [isTraceFile, List.isSuffixOf_iff_suffix]
  exact ⟨fun ⟨s, whole⟩ => ⟨s, whole.symm⟩, fun ⟨s, whole⟩ => ⟨s, whole.symm⟩⟩

theorem fileName_of_name {name : String} (plain : '/' ∉ name.toList)
    (file : isTraceFile name = true) : fileName name = name := by
  obtain ⟨s, whole⟩ := isTraceFile_iff.mp file
  have several : 2 ≤ name.toList.length := by
    rw [whole, List.length_append]
    exact Nat.le_add_left_of_le (by decide)
  have leads : (name.toList != [] && name.toList != ['.']) = true := by
    rw [Bool.and_eq_true, bne_iff_ne, bne_iff_ne]
    constructor
    · intro none
      rw [none] at several
      exact absurd several (by decide)
    · intro point
      rw [point] at several
      exact absurd several (by decide)
  rw [fileName, pathSteps, pathPieces_of_name plain, List.filter_singleton, leads]
  exact String.ofList_toList

theorem stemChars_append {s extension : List Char} (named : s ≠ []) (some : extension ≠ [])
    (bare : '.' ∉ extension) : stemChars (s ++ '.' :: extension) = s := by
  have tail : (s ++ '.' :: extension).reverse.takeWhile (· != '.') = extension.reverse := by
    rw [List.reverse_append, List.reverse_cons, List.append_assoc, List.takeWhile_append_of_pos]
    · exact (congrArg _ (List.takeWhile_cons_of_neg (by simp))).trans (List.append_nil _)
    · intro c hc
      rw [bne_iff_ne]
      rintro rfl
      exact bare (List.mem_reverse.mp hc)
  have front : (s ++ '.' :: extension).take
      ((s ++ '.' :: extension).length - extension.reverse.length - 1) = s := by
    apply List.take_left'
    rw [List.length_append, List.length_cons, List.length_reverse]
    omega
  rw [stemChars]
  simp only [tail, front]
  simp [named, some]

theorem stem_of_name {s : List Char} (named : s ≠ []) :
    stem (String.ofList (s ++ '.' :: "json".toList)) = String.ofList s := by
  have some : "json".toList ≠ [] := by decide
  have bare : '.' ∉ "json".toList := by decide
  rw [stem, String.toList_ofList, stemChars_append named some bare]

theorem isTraceFile_of_name (s : List Char) :
    isTraceFile (String.ofList (s ++ '.' :: "json".toList)) = true :=
  isTraceFile_iff.mpr ⟨s, String.toList_ofList⟩

theorem stepIndex_of_name {s : List Char} (plain : '/' ∉ s) (named : s ≠ []) {i : Nat}
    (found : stemIndex? (String.ofList s) = some i) :
    stepIndex (String.ofList (s ++ '.' :: "json".toList)) = .ok i := by
  have extension : '/' ∉ '.' :: "json".toList := by decide
  have whole : '/' ∉ (String.ofList (s ++ '.' :: "json".toList)).toList := by
    rw [String.toList_ofList, List.mem_append, not_or]
    exact ⟨plain, extension⟩
  have index : stemIndex? (stem (fileName (String.ofList (s ++ '.' :: "json".toList)))) = some i := by
    rw [fileName_of_name whole (isTraceFile_of_name s), stem_of_name named, found]
  unfold stepIndex
  rw [index]

theorem Break.no_slash {s : List Char} (h : Break s) : '/' ∉ s := by
  obtain rfl | rfl := h
  · decide
  · decide

theorem stepIndex_of_digits {front digits after : List Char} (plain : '/' ∉ front)
    (nonempty : digits ≠ []) (all : ∀ c ∈ digits, IsDigit c)
    (bare : ∀ c, front.getLast? = some c → ¬ IsDigit c) (rest : Break after) :
    stepIndex (String.ofList (front ++ digits ++ after ++ '.' :: "json".toList))
      = .ok (ofDigits (digitValues digits)) := by
  have noSlash : '/' ∉ digits := fun slash => not_isDigit_slash (all _ slash)
  refine stepIndex_of_name ?_ ?_ (stemIndex?_eq nonempty all bare rest)
  · simp only [List.mem_append, not_or]
    exact ⟨⟨plain, noSlash⟩, rest.no_slash⟩
  · simp [nonempty]

/-- The digits of a number with zeros in front of them. -/
def paddedNumeral (zeros i : Nat) : List Char :=
  List.replicate zeros '0' ++ Nat.toDigits 10 i

theorem paddedNumeral_spec (zeros i : Nat) : paddedNumeral zeros i ≠ [] ∧
    (∀ c ∈ paddedNumeral zeros i, IsDigit c) ∧ ofDigits (digitValues (paddedNumeral zeros i)) = i := by
  obtain ⟨decimals, value⟩ := numeral_spec i
  refine ⟨List.append_ne_nil_of_right_ne_nil _ Nat.toDigits_ne_nil, ?_, ?_⟩
  · rw [paddedNumeral, List.forall_mem_append]
    refine ⟨fun c hc => ?_, decimals⟩
    rw [List.eq_of_mem_replicate hc, IsDigit]
    decide
  · rw [paddedNumeral, digitValues, List.filterMap_append, ← digitValues, ← digitValues,
      digitValues_zeros, ofDigits_zeros, value]

theorem stepIndex_numeral {front after : List Char} (plain : '/' ∉ front)
    (bare : ∀ c, front.getLast? = some c → ¬ IsDigit c) (rest : Break after) (zeros i : Nat) :
    stepIndex (String.ofList (front ++ paddedNumeral zeros i ++ after ++ '.' :: "json".toList))
      = .ok i := by
  obtain ⟨nonempty, all, value⟩ := paddedNumeral_spec zeros i
  rw [stepIndex_of_digits plain nonempty all bare rest, value]

end Trace
end ProcessDiagram
