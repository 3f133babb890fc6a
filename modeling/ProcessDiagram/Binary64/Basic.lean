/-!
Binary64 numbers as bit patterns. A finite number is `significand * 2 ^ exponent` with a
sign, and a quotient of naturals rounds to the nearest one, a tie going to the even
significand. Numbers are carried, compared and printed here, never added.
-/
namespace ProcessDiagram

structure Binary64 where
  bits : UInt64
  deriving DecidableEq

namespace Binary64

def signBit : Nat := 0x8000000000000000

/-- The leading bit of a significand, which is not stored, and the unit of the stored exponent. -/
def hiddenBit : Nat := 0x10000000000000

def isNegative (x : Binary64) : Bool :=
  decide (signBit ≤ x.bits.toNat)

/-- The bits below the sign. They grow with the absolute value. -/
def magnitude (x : Binary64) : Nat :=
  x.bits.toNat % signBit

def infiniteMagnitude : Nat :=
  2047 * hiddenBit

def ofMagnitude (negative : Bool) (m : Nat) : Binary64 :=
  ⟨UInt64.ofNat (if negative then signBit + m else m)⟩

def zero : Binary64 := ofMagnitude false 0

def one : Binary64 := ofMagnitude false (1023 * hiddenBit)

def infinity (negative : Bool) : Binary64 := ofMagnitude negative infiniteMagnitude

def notANumber : Binary64 := ofMagnitude false (infiniteMagnitude + hiddenBit / 2)

def isFinite (x : Binary64) : Bool :=
  decide (x.magnitude < infiniteMagnitude)

def isNaN (x : Binary64) : Bool :=
  decide (infiniteMagnitude < x.magnitude)

def isZero (x : Binary64) : Bool :=
  x.magnitude == 0

def significand (x : Binary64) : Nat :=
  if x.magnitude < hiddenBit then x.magnitude else hiddenBit + x.magnitude % hiddenBit

def exponent (x : Binary64) : Int :=
  if x.magnitude < hiddenBit then -1074 else (x.magnitude / hiddenBit : Nat) - 1075

/-- The place of a number on the line; the two zeros share one place. What is not a number has
none, and nothing may be read off its key. -/
def orderKey (x : Binary64) : Int :=
  if x.isNegative then -x.magnitude else x.magnitude

/-- What is not a number is neither less nor greater than anything. -/
def lt (x y : Binary64) : Bool :=
  !x.isNaN && !y.isNaN && decide (x.orderKey < y.orderKey)

/-- Equal numbers, or one and the same value: a value that is not a number is only itself. -/
def same (x y : Binary64) : Bool :=
  x == y || (!x.isNaN && !y.isNaN && x.orderKey == y.orderKey)

/-- Rounds `n / d` to a natural number, a tie to the even neighbour. -/
def roundQuotient (n d : Nat) : Nat :=
  if 2 * (n % d) < d ∨ (2 * (n % d) = d ∧ n / d % 2 = 0) then n / d else n / d + 1

/-- The greatest power of two that does not exceed `n / d`. -/
def binaryOrder (n d : Nat) : Int :=
  let guess : Int := (n.log2 : Int) - d.log2
  if n * Nat.pow 2 (-guess).toNat < d * Nat.pow 2 guess.toNat then guess - 1 else guess

/-- The magnitude of the number nearest to `n / d`. A carry out of the significand moves on
into the exponent field, so one sum covers subnormal, normal and overflowing results. -/
def magnitudeOfRatio (n d : Nat) : Nat :=
  if n = 0 then 0
  else
    let q := max (binaryOrder n d - 52) (-1074)
    let m := roundQuotient (n * Nat.pow 2 (-q).toNat) (d * Nat.pow 2 q.toNat)
    min ((q + 1074).toNat * hiddenBit + m) infiniteMagnitude

/-- The number nearest to `digits * 10 ^ exponent`. Numbers far outside the range are settled
by their count of digits. -/
def ofDecimal (negative : Bool) (digits : Nat) (exponent : Int) : Binary64 :=
  let order : Int := (Nat.toDigits 10 digits).length + exponent
  ofMagnitude negative <|
    if digits = 0 then 0
    else if 310 < order then infiniteMagnitude
    else if order < -330 then 0
    else magnitudeOfRatio (digits * Nat.pow 10 exponent.toNat) (Nat.pow 10 (-exponent).toNat)

def ofInt (n : Int) : Binary64 :=
  ofDecimal (decide (n < 0)) n.natAbs 0

/-- The integer that a number without a fraction is. -/
def toInt? (x : Binary64) : Option Int :=
  let scaled := x.significand * Nat.pow 2 x.exponent.toNat
  let unit := Nat.pow 2 (-x.exponent).toNat
  if x.isFinite ∧ scaled % unit = 0 then
    some (if x.isNegative then -(scaled / unit : Nat) else (scaled / unit : Nat))
  else none

end Binary64
end ProcessDiagram
