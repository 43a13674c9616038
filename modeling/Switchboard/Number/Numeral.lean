import Switchboard.Number.Binary64
import Switchboard.Text.Whole

/-! Decimal numerals and their values. A numeral without fraction and exponent is a whole number
when it fits 64 bits, signed or unsigned. Any other numeral is a floating point number: its
leading digits are collected as long as they fit 64 bits, and the result is rounded, scaled by a
power of ten and rounded again. A magnitude out of range has no value; one too small is zero. -/
namespace Switchboard.Number

structure Numeral where
  negative : Bool
  whole : List Nat
  fraction : Option (List Nat)
  exponent : Option (Bool × List Nat)
deriving DecidableEq

inductive NumeralValue where
  | whole (n : Int)
  | real (x : Binary64)
deriving DecidableEq

namespace Numeral

/-- Appends digits to a significand while it fits 64 bits, and returns the digits left over. -/
def absorb (significand : Nat) : List Nat → Nat × List Nat
  | [] => (significand, [])
  | digit :: rest =>
      if significand * 10 + digit ≤ Text.bound64 then absorb (significand * 10 + digit) rest
      else (significand, digit :: rest)

def natOfDigits (digits : List Nat) : Nat := digits.foldl (fun n digit => n * 10 + digit) 0

def greatestTen : Nat := 308

def powerOfTen (k : Nat) : Binary64 :=
  (Binary64.ofNat (Nat.pow 10 k)).getD (Binary64.zero false)

def scaleDown (x : Binary64) (k : Nat) : Option Binary64 :=
  if k ≤ greatestTen then x.div? (powerOfTen k)
  else if x.isZero then some x
  else (x.div? (powerOfTen greatestTen)).bind fun y => scaleDown y (k - greatestTen)
termination_by k
decreasing_by simp only [greatestTen] at *; omega

def scaleUp (x : Binary64) (k : Nat) : Option Binary64 :=
  if k ≤ greatestTen then x.mul? (powerOfTen k) else if x.isZero then some x else none

def scale (significand : Nat) (exponent : Int) : Option Binary64 :=
  (Binary64.ofNat significand).bind fun x =>
    if 0 ≤ exponent then scaleUp x exponent.toNat else scaleDown x (-exponent).toNat

def exponentValue (n : Numeral) : Int :=
  match n.exponent with
  | none => 0
  | some (negative, digits) =>
      if negative then -(natOfDigits digits : Int) else natOfDigits digits

def realValue (n : Numeral) : Option Binary64 :=
  let (whole, dropped) := absorb 0 n.whole
  let fraction := n.fraction.getD []
  let (significand, ignored) := absorb whole fraction
  let used := fraction.length - ignored.length
  let exponent : Int := dropped.length - used + n.exponentValue
  (scale significand exponent).map (·.withSign n.negative)

/-- The exponent, which stops growing once it has reached 65536: further digits of it are passed
over. -/
def cappedExponent (n : Numeral) : Int :=
  match n.exponent with
  | none => 0
  | some (negative, digits) =>
      let size : Nat := digits.foldl
        (fun size digit => if size < 0x10000 then size * 10 + digit else size) 0
      if negative then -(size : Int) else size

/-- Whether a magnitude is too great for a number. The least magnitude that is too great is whole,
so only the digits before the point decide, and it has one digit more than the greatest power of
ten has zeros. -/
def isTooGreat (n : Numeral) : Bool :=
  let fraction := n.fraction.getD []
  let digits := (n.whole ++ fraction).dropWhile (· == 0)
  let places : Int := digits.length - fraction.length + n.cappedExponent
  if greatestTen + 1 < places then !digits.isEmpty
  else
    let padded := digits ++ List.replicate (greatestTen + 1) 0
    (Binary64.ofNat (natOfDigits (padded.take places.toNat))).isNone

def value? (n : Numeral) : Option NumeralValue :=
  match n.fraction, n.exponent, absorb 0 n.whole with
  | none, none, (magnitude, []) =>
      if !n.negative then some (.whole magnitude)
      else if 0 < magnitude && magnitude ≤ 0x8000000000000000 then
        some (.whole (-(magnitude : Int)))
      else n.realValue.map .real
  | _, _, _ => n.realValue.map .real

def takeDigits : List Char → List Nat × List Char
  | [] => ([], [])
  | c :: rest =>
      match Text.digitValue? c with
      | some digit => let (digits, after) := takeDigits rest; (digit :: digits, after)
      | none => ([], c :: rest)

def readExponent (text : List Char) : Option (Option (Bool × List Nat)) :=
  let signed (negative : Bool) (text : List Char) :=
    match takeDigits text with
    | ([], _) => none
    | (digits, []) => some (some (negative, digits))
    | (_, _ :: _) => none
  match text with
  | [] => some none
  | c :: rest =>
      if c = 'e' ∨ c = 'E' then
        match rest with
        | '+' :: digits => signed false digits
        | '-' :: digits => signed true digits
        | digits => signed false digits
      else none

def readFraction (text : List Char) : Option (Option (List Nat) × List Char) :=
  match text with
  | '.' :: rest =>
      match takeDigits rest with
      | ([], _) => none
      | (digits, after) => some (some digits, after)
  | rest => some (none, rest)

/-- A numeral has no sign but a minus, and its whole part has no zero in front of other digits. -/
def read? (text : List Char) : Option Numeral := do
  let (negative, unsigned) := match text with
    | '-' :: rest => (true, rest)
    | rest => (false, rest)
  let (whole, after) := takeDigits unsigned
  guard (whole = [0] || (whole.head?.isSome && whole.head? != some 0))
  let (fraction, after) ← readFraction after
  let exponent ← readExponent after
  return ⟨negative, whole, fraction, exponent⟩

end Numeral

end Switchboard.Number
