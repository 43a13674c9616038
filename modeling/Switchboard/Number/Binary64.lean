/-! Binary floating point numbers of 64 bits, in exact arithmetic. A magnitude is a significand
times a power of two. Every operation computes the exact quotient and rounds it once, to the
nearest magnitude, a tie going to the even significand. -/
namespace Switchboard.Number

/-- A finite number. Its value is the significand times two to the exponent, with the sign. -/
structure Binary64 where
  negative : Bool
  significand : Nat
  exponent : Int
deriving DecidableEq

namespace Binary64

def leastExponent : Int := -1074

def greatestExponent : Int := 971

/-- Significands of normal numbers lie between this bound and its double. -/
def hidden : Nat := 0x10000000000000

def zero (negative : Bool) : Binary64 := ⟨negative, 0, leastExponent⟩

def numerator (x : Binary64) : Nat := x.significand * Nat.pow 2 x.exponent.toNat

def denominator (x : Binary64) : Nat := Nat.pow 2 (-x.exponent).toNat

/-- The whole number nearest to a quotient, a tie going to the even one. -/
def roundQuotient (num den : Nat) : Nat :=
  let quotient := num / den
  let twice := 2 * (num % den)
  if twice < den then quotient
  else if den < twice then quotient + 1
  else if quotient % 2 = 0 then quotient else quotient + 1

def scaled (num den : Nat) (exponent : Int) : Nat :=
  roundQuotient (num * Nat.pow 2 (-exponent).toNat) (den * Nat.pow 2 exponent.toNat)

/-- The greatest power of two that leaves a quotient at least at the hidden bit, or the least
exponent. -/
def fittingExponent (num den : Nat) : Int :=
  let guess : Int := (num.log2 : Int) - (den.log2 : Int) - 52
  let low := guess - 1
  let fits := hidden * (den * Nat.pow 2 guess.toNat) ≤ num * Nat.pow 2 (-guess).toNat
  max leastExponent (if fits then guess else low)

def ofFraction (negative : Bool) (num den : Nat) : Option Binary64 :=
  if num = 0 then some (zero negative) else
  let exponent := fittingExponent num den
  let rounded := scaled num den exponent
  let carried := rounded = 2 * hidden
  let top := if carried then exponent + 1 else exponent
  if greatestExponent < top then none
  else some ⟨negative, if carried then hidden else rounded, top⟩

def ofNat (n : Nat) : Option Binary64 := ofFraction false n 1

def mul? (x y : Binary64) : Option Binary64 :=
  ofFraction (x.negative != y.negative) (x.numerator * y.numerator) (x.denominator * y.denominator)

def div? (x y : Binary64) : Option Binary64 :=
  ofFraction (x.negative != y.negative) (x.numerator * y.denominator) (x.denominator * y.numerator)

def withSign (x : Binary64) (negative : Bool) : Binary64 := { x with negative := negative }

def isZero (x : Binary64) : Bool := x.significand == 0

end Binary64

end Switchboard.Number
