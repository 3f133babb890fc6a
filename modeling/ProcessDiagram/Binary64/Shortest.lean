import ProcessDiagram.Binary64.Basic

/-!
The fewest decimal digits that read back as the same binary64 number, the nearest of these
when several do, and the written form made from them.
-/
namespace ProcessDiagram.Binary64

/-- A positive value `value / unit` together with the distances, in the same unit, within
which a decimal still rounds to it; a decimal at such a distance does when `closed`. -/
structure RoundingRange where
  value : Nat
  below : Nat
  above : Nat
  unit : Nat
  closed : Bool

/-- The gap below a power of two is half the gap above it. -/
def roundingRange (x : Binary64) : RoundingRange :=
  let scale := Nat.pow 2 (x.exponent - 2).toNat
  { value := 4 * x.significand * scale
    below := (if x.significand = hiddenBit ∧ -1074 < x.exponent then 1 else 2) * scale
    above := 2 * scale
    unit := Nat.pow 2 (2 - x.exponent).toNat
    closed := x.significand % 2 == 0 }

namespace RoundingRange

/-- The greatest power of ten that does not exceed the value. -/
def decimalOrder (r : RoundingRange) : Int :=
  if r.unit ≤ r.value then ((Nat.toDigits 10 (r.value / r.unit)).length : Int) - 1
  else -(((List.range 330).find? fun j => r.unit ≤ r.value * Nat.pow 10 j).getD 0 : Nat)

def rescale (r : RoundingRange) (k : Int) : RoundingRange :=
  let up := Nat.pow 10 (-k).toNat
  { r with
    value := r.value * up
    below := r.below * up
    above := r.above * up
    unit := r.unit * Nat.pow 10 k.toNat }

def within (r : RoundingRange) (distance limit : Nat) : Bool :=
  decide (distance < limit) || (distance == limit && r.closed)

/-- The multiple of the unit that rounds to the value, if there is one; the nearer of two,
the even one of two equally near. -/
def nearestMultiple? (r : RoundingRange) : Option Nat :=
  let floor := r.value / r.unit
  let rest := r.value % r.unit
  let down := r.within rest r.below
  let up := r.within (r.unit - rest) r.above
  if down && up then
    if 2 * rest < r.unit ∨ (2 * rest = r.unit ∧ floor % 2 = 0) then some floor
    else some (floor + 1)
  else if down then some floor
  else if up then some (floor + 1)
  else none

end RoundingRange

/-- The digits of a finite number other than zero, first and last not `0`, and the place of
the decimal point counted from before the first digit. -/
def shortestDigits (x : Binary64) : List Char × Int :=
  let r := x.roundingRange
  let order := r.decimalOrder
  let found := (List.range 17).findSome? fun (n : Nat) =>
    (r.rescale (order - n)).nearestMultiple?.map fun d => (Nat.toDigits 10 d, order - n)
  let (digits, k) := found.getD ([], 0)
  ((digits.reverse.dropWhile (· == '0')).reverse, k + digits.length)

/-- Which decimal orders are written without an exponent, and how wide an exponent is. -/
structure DecimalLayout where
  leastPositional : Int
  firstScientific : Int
  exponentDigits : Nat

def DecimalLayout.exponentText (layout : DecimalLayout) (e : Int) : List Char :=
  let digits := Nat.toDigits 10 e.natAbs
  'e' :: (if e < 0 then '-' else '+')
    :: List.replicate (layout.exponentDigits - digits.length) '0' ++ digits

def DecimalLayout.digitsText (layout : DecimalLayout) (digits : List Char) (point : Int) :
    List Char :=
  if layout.leastPositional ≤ point - 1 ∧ point - 1 < layout.firstScientific then
    if point ≤ 0 then '0' :: '.' :: List.replicate (-point).toNat '0' ++ digits
    else if digits.length ≤ point then
      digits ++ List.replicate (point.toNat - digits.length) '0' ++ ['.', '0']
    else digits.take point.toNat ++ '.' :: digits.drop point.toNat
  else
    let rest := digits.drop 1
    digits.take 1 ++ (if rest.isEmpty then [] else '.' :: rest) ++ layout.exponentText (point - 1)

/-- The written form of a finite number. -/
def DecimalLayout.text (layout : DecimalLayout) (x : Binary64) : String :=
  let sign := if x.isNegative then ['-'] else []
  if x.isZero then String.ofList (sign ++ ['0', '.', '0'])
  else
    let (digits, point) := x.shortestDigits
    String.ofList (sign ++ layout.digitsText digits point)

/-- Numbers from `0.0001` to below `10 ^ 16` are positional; an exponent has two digits. -/
def jsonLayout : DecimalLayout := ⟨-4, 16, 2⟩

end ProcessDiagram.Binary64
