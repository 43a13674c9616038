import Mathlib.Data.Option.Basic
import Switchboard.Json.Printer
import Switchboard.Json.Value
import Switchboard.Proofs.Decimal

/-! The digits that a whole number is written with are read as a numeral without fraction and
exponent, whose value is the number again as long as it fits 64 bits. -/
namespace Switchboard.Json

open Number Numeral

def figures (n : Nat) : List Nat := (digits n).map fun c => c.toNat - '0'.toNat

def wholeNumeral : Int → Numeral
  | .ofNat n => ⟨false, figures n, none, none⟩
  | .negSucc n => ⟨true, figures (n + 1), none, none⟩

theorem isDigit_of_mem_digits {n : Nat} {c : Char} (h : c ∈ digits n) : c.isDigit :=
  Text.isDigit_of_mem_toDigits h

theorem takeDigits_of_isDigit {letters : List Char} (h : ∀ c ∈ letters, c.isDigit) :
    takeDigits letters = (letters.map fun c => c.toNat - '0'.toNat, []) := by
  induction letters with
  | nil => rfl
  | cons c rest ih =>
      have first := Text.digitValue?_of_isDigit (h c List.mem_cons_self)
      have others := ih fun other member => h other (List.mem_cons_of_mem _ member)
      simp only [takeDigits, first, others, List.map_cons]

theorem takeDigits_digits (n : Nat) : takeDigits (digits n) = (figures n, []) :=
  takeDigits_of_isDigit fun _ member => isDigit_of_mem_digits member

theorem natOfDigits_figures (n : Nat) : natOfDigits (figures n) = n := by
  have same : natOfDigits (figures n) = Nat.ofDigitChars 10 (digits n) 0 := by
    simp only [natOfDigits, figures, List.foldl_map, Nat.ofDigitChars, Nat.mul_comm]
  rw [same, digits, Nat.ofDigitChars_toDigits (by decide) (by decide)]

theorem figures_of_lt {n : Nat} (h : n < 10) : figures n = [n] := by
  rw [figures, digits, Nat.toDigits_of_lt_base h]
  exact congrArg (fun value => [value]) (Nat.toNat_digitChar_sub_48_of_lt_ten h)

theorem head?_figures {n : Nat} (h : 0 < n) :
    ∃ first, (figures n).head? = some first ∧ 0 < first := by
  induction n using Nat.strongRecOn with
  | ind n ih =>
      by_cases short : n < 10
      · exact ⟨n, by rw [figures_of_lt short]; rfl, h⟩
      · have smaller : 0 < n / 10 := by omega
        obtain ⟨first, found, positive⟩ := ih (n / 10) (by omega) smaller
        refine ⟨first, ?_, positive⟩
        rw [figures, digits] at found ⊢
        rw [Nat.toDigits_of_base_le (by decide) (by omega), List.map_append, List.head?_append,
          found]
        rfl

theorem le_foldl_digits (soFar : Nat) (digits : List Nat) :
    soFar ≤ digits.foldl (fun n digit => n * 10 + digit) soFar := by
  induction digits generalizing soFar with
  | nil => exact Nat.le_refl soFar
  | cons digit rest ih =>
      have grown := ih (soFar * 10 + digit)
      rw [List.foldl_cons]
      omega

theorem absorb_eq {soFar : Nat} {digits : List Nat}
    (fits : digits.foldl (fun n digit => n * 10 + digit) soFar ≤ Text.bound64) :
    absorb soFar digits = (digits.foldl (fun n digit => n * 10 + digit) soFar, []) := by
  induction digits generalizing soFar with
  | nil => rfl
  | cons digit rest ih =>
      rw [List.foldl_cons] at fits ⊢
      have small := Nat.le_trans (le_foldl_digits _ rest) fits
      rw [absorb, if_pos small, ih fits]

theorem absorb_figures {n : Nat} (h : n ≤ Text.bound64) : absorb 0 (figures n) = (n, []) := by
  have whole := natOfDigits_figures n
  rw [natOfDigits] at whole
  rw [absorb_eq (by rw [whole]; exact h), whole]

theorem value?_wholeNumeral {n : Int} (h : InRange n) :
    (wholeNumeral n).value? = some (.whole n) := by
  cases n with
  | ofNat n =>
      have high : (n : Int) < 0x10000000000000000 := h.2
      have small : n ≤ Text.bound64 := by
        unfold Text.bound64
        omega
      simp only [wholeNumeral, Numeral.value?, absorb_figures small, Bool.not_false, if_true]
      rfl
  | negSucc n =>
      have low := h.1
      have small : n + 1 ≤ 0x8000000000000000 := by omega
      have fits : n + 1 ≤ Text.bound64 := Nat.le_trans small (by decide)
      simp only [wholeNumeral, Numeral.value?, absorb_figures fits, Bool.not_true,
        Bool.false_eq_true, if_false]
      rw [if_pos (by simp [small])]
      rfl

theorem wellFormed_figures (n : Nat) :
    (figures n = [0] || ((figures n).head?.isSome && (figures n).head? != some 0)) = true := by
  by_cases zero : n = 0
  · subst zero
    rfl
  · obtain ⟨first, found, positive⟩ := head?_figures (Nat.pos_of_ne_zero zero)
    simp only [found]
    simp
    omega

theorem guard_of_true {b : Bool} (h : b = true) : (guard (b = true) : Option Unit) = some () :=
  if_pos h

theorem read?_renderWhole (n : Int) : Numeral.read? (renderWhole n) = some (wholeNumeral n) := by
  cases n with
  | ofNat n =>
      obtain ⟨first, rest, shape⟩ : ∃ first rest, digits n = first :: rest :=
        List.exists_cons_of_ne_nil Nat.toDigits_ne_nil
      have digit : first.isDigit := isDigit_of_mem_digits (shape ▸ List.mem_cons_self)
      have unsigned : first ≠ '-' := by
        rintro rfl
        exact absurd digit (by decide)
      have taken := takeDigits_digits n
      rw [shape] at taken
      rw [renderWhole, shape, read?.eq_def]
      split
      next negative letters sign =>
        split at sign
        next same => exact absurd (List.cons.inj same).1 unsigned
        next =>
          obtain ⟨rfl, rfl⟩ := Prod.mk.inj sign
          rw [taken]
          dsimp only
          rw [guard_of_true (wellFormed_figures n)]
          rfl
  | negSucc n =>
      rw [renderWhole, read?]
      dsimp only
      rw [takeDigits_digits]
      dsimp only
      rw [guard_of_true (wellFormed_figures (n + 1))]
      rfl

end Switchboard.Json
