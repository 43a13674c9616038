import Switchboard.Number.Binary64

/-! The shortest decimal that reads back as a given number. On the grid of the decimals with one,
two, and up to seventeen digits only the two neighbours of the exact value are looked at. The
first grid with a neighbour that rounds to the number decides, of two such neighbours the nearer
one is taken, and a tie goes to the even digits. -/
namespace Switchboard.Number

structure Decimal where
  digits : Nat
  exponent : Int
deriving DecidableEq

namespace Shortest

structure Fraction where
  num : Nat
  den : Nat

/-- How far the decimals that round to a number may lie below and above it, in quarters of the
unit of its significand, and whether the ends belong to it. -/
structure Reach where
  below : Nat
  above : Nat
  closed : Bool

def reach (x : Binary64) : Reach where
  below :=
    if x.significand = Binary64.hidden ∧ Binary64.leastExponent < x.exponent then 1 else 2
  above := 2
  closed := x.significand % 2 == 0

def rounds (x : Binary64) (candidate : Fraction) : Bool :=
  let r := reach x
  let up := Nat.pow 2 x.exponent.toNat
  let down := Nat.pow 2 (-x.exponent).toNat
  let value := 4 * candidate.num * down
  let low := (4 * x.significand - r.below) * up * candidate.den
  let high := (4 * x.significand + r.above) * up * candidate.den
  if r.closed then low ≤ value && value ≤ high else low < value && value < high

def digitCount (n : Nat) : Nat := (Nat.toDigits 10 n).length

def leadingExponent (f : Fraction) : Int :=
  if f.den ≤ f.num then (digitCount (f.num / f.den) : Int) - 1
  else
    let count := digitCount (f.den / f.num)
    if f.den ≤ f.num * Nat.pow 10 (count - 1) then -((count - 1 : Nat) : Int) else -(count : Int)

def Decimal.fraction (d : Decimal) : Fraction :=
  ⟨d.digits * Nat.pow 10 d.exponent.toNat, Nat.pow 10 (-d.exponent).toNat⟩

def neighbours (f : Fraction) (exponent : Int) : Decimal × Decimal :=
  let low := f.num * Nat.pow 10 (-exponent).toNat / (f.den * Nat.pow 10 exponent.toNat)
  (⟨low, exponent⟩, ⟨low + 1, exponent⟩)

/-- Whether the upper neighbour is the better one: nearer, or as near and even. -/
def prefersUpper (f : Fraction) (low high : Decimal) : Bool :=
  let a := Decimal.fraction low
  let b := Decimal.fraction high
  let twice := 2 * f.num * a.den * b.den
  let sum := (a.num * b.den + b.num * a.den) * f.den
  sum < twice || (sum == twice && high.digits % 2 == 0)

def onGrid (x : Binary64) (f : Fraction) (exponent : Int) : Option Decimal :=
  let (low, high) := neighbours f exponent
  let lowFits := low.digits ≠ 0 && rounds x (Decimal.fraction low)
  let highFits := rounds x (Decimal.fraction high)
  match lowFits, highFits with
  | true, true => some (if prefersUpper f low high then high else low)
  | true, false => some low
  | false, true => some high
  | false, false => none

def search (x : Binary64) (f : Fraction) : Nat → Int → Decimal
  | 0, exponent => (neighbours f exponent).1
  | more + 1, exponent =>
      match onGrid x f exponent with
      | some found => found
      | none => search x f more (exponent - 1)

def normalize : Nat → Decimal → Decimal
  | 0, d => d
  | more + 1, d =>
      if d.digits % 10 = 0 then normalize more ⟨d.digits / 10, d.exponent + 1⟩ else d

end Shortest

/-- The shortest decimal that reads back as a number other than zero. -/
def shortest (x : Binary64) : Decimal :=
  let f : Shortest.Fraction := ⟨x.numerator, x.denominator⟩
  Shortest.normalize 18 (Shortest.search x f 17 (Shortest.leadingExponent f))

end Switchboard.Number
