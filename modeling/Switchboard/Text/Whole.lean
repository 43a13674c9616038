import Switchboard.Text.Blank

/-! Whole numbers in decimal notation, read under a bound. A plus sign may come first, zeros may
lead, and nothing but the digits `0` to `9` may follow. The first character that is no digit, or
that takes the number over the bound, decides the error. -/
namespace Switchboard.Text

inductive WholeError where
  | empty
  | invalidDigit
  | tooLarge
deriving DecidableEq

def WholeError.message : WholeError → String
  | empty => "cannot parse integer from empty string"
  | invalidDigit => "invalid digit found in string"
  | tooLarge => "number too large to fit in target type"

def digitValue? (c : Char) : Option Nat :=
  if '0' ≤ c && c ≤ '9' then some (c.toNat - '0'.toNat) else none

def readDigits (bound : Nat) (soFar : Nat) : List Char → Except WholeError Nat
  | [] => .ok soFar
  | c :: rest =>
      match digitValue? c with
      | none => .error .invalidDigit
      | some digit =>
          if soFar * 10 + digit ≤ bound then readDigits bound (soFar * 10 + digit) rest
          else .error .tooLarge

def readWhole (bound : Nat) : List Char → Except WholeError Nat
  | [] => .error .empty
  | ['+'] => .error .invalidDigit
  | '+' :: c :: rest => readDigits bound 0 (c :: rest)
  | c :: rest => readDigits bound 0 (c :: rest)

def bound16 : Nat := 0xFFFF

def bound32 : Nat := 0xFFFFFFFF

def bound64 : Nat := 0xFFFFFFFFFFFFFFFF

def whole? (bound : Nat) (text : String) : Option Nat :=
  (readWhole bound (trimChars text.toList)).toOption

theorem readDigits_le {bound soFar n : Nat} {text : List Char} (start : soFar ≤ bound)
    (h : readDigits bound soFar text = .ok n) : n ≤ bound := by
  induction text generalizing soFar with
  | nil => simp only [readDigits, Except.ok.injEq] at h; omega
  | cons c rest ih =>
      rw [readDigits] at h
      split at h
      · simp at h
      · split at h
        next fits => exact ih fits h
        next => simp at h

theorem readWhole_le {bound n : Nat} {text : List Char} (h : readWhole bound text = .ok n) :
    n ≤ bound := by
  unfold readWhole at h
  split at h
  · simp at h
  · simp at h
  · exact readDigits_le (Nat.zero_le _) h
  · exact readDigits_le (Nat.zero_le _) h

end Switchboard.Text
