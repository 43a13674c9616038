import Switchboard.Text.Whole

/-! The decimal notation of a number is read as this number under every bound that it keeps. -/
namespace Switchboard.Text

theorem digitValue?_of_isDigit {c : Char} (h : c.isDigit) :
    digitValue? c = some (c.toNat - '0'.toNat) := by
  simp only [Char.isDigit, Bool.and_eq_true, decide_eq_true_eq] at h
  have within : '0' ≤ c ∧ c ≤ '9' := by
    simp only [Char.le_def]
    exact h
  simp [digitValue?, within]

theorem isBlank_of_isDigit {c : Char} (h : c.isDigit) : isBlank c = false := by
  simp only [Char.isDigit, Bool.and_eq_true, decide_eq_true_eq, UInt32.le_iff_toNat_le] at h
  have low : 48 ≤ c.toNat := h.1
  have high : c.toNat ≤ 57 := h.2
  simp only [isBlank, blankRanges, List.any_cons, List.any_nil, Bool.or_false, Bool.or_eq_false_iff,
    Bool.and_eq_false_iff, decide_eq_false_iff_not]
  omega

theorem isDigit_of_mem_toDigits {n : Nat} {c : Char} (h : c ∈ Nat.toDigits 10 n) : c.isDigit :=
  Nat.isDigit_of_mem_toDigits (by decide) (by decide) h

theorem le_ofDigitChars (soFar : Nat) (letters : List Char) :
    soFar ≤ Nat.ofDigitChars 10 letters soFar := by
  induction letters generalizing soFar with
  | nil => exact Nat.le_refl soFar
  | cons c rest ih =>
      have grown := ih (10 * soFar + (c.toNat - '0'.toNat))
      rw [Nat.ofDigitChars, List.foldl_cons, ← Nat.ofDigitChars]
      omega

theorem readDigits_of_isDigit {bound soFar : Nat} {letters : List Char}
    (digits : ∀ c ∈ letters, c.isDigit) (fits : Nat.ofDigitChars 10 letters soFar ≤ bound) :
    readDigits bound soFar letters = .ok (Nat.ofDigitChars 10 letters soFar) := by
  induction letters generalizing soFar with
  | nil => rfl
  | cons c rest ih =>
      have next : Nat.ofDigitChars 10 (c :: rest) soFar =
          Nat.ofDigitChars 10 rest (soFar * 10 + (c.toNat - '0'.toNat)) := by
        rw [Nat.mul_comm]
        rfl
      rw [next] at fits ⊢
      rw [readDigits, digitValue?_of_isDigit (digits c List.mem_cons_self)]
      dsimp only
      rw [if_pos (Nat.le_trans (le_ofDigitChars _ rest) fits)]
      exact ih (fun other member => digits other (List.mem_cons_of_mem c member)) fits

theorem readWhole_toDigits {bound n : Nat} (h : n ≤ bound) :
    readWhole bound (Nat.toDigits 10 n) = .ok n := by
  have value : Nat.ofDigitChars 10 (Nat.toDigits 10 n) 0 = n := Nat.ofDigitChars_ten_toDigits
  have read : readDigits bound 0 (Nat.toDigits 10 n) = .ok n := by
    have fits : Nat.ofDigitChars 10 (Nat.toDigits 10 n) 0 ≤ bound := value.symm ▸ h
    rw [readDigits_of_isDigit (fun c member => isDigit_of_mem_toDigits member) fits, value]
  obtain ⟨first, rest, shape⟩ := List.exists_cons_of_ne_nil (Nat.toDigits_ne_nil (n := n) (b := 10))
  have digit : first.isDigit := isDigit_of_mem_toDigits (shape ▸ List.mem_cons_self)
  have unsigned : first ≠ '+' := by
    rintro rfl
    exact absurd digit (by decide)
  rw [shape] at read ⊢
  rw [readWhole]
  · exact read
  · exact fun sign => absurd sign unsigned
  · exact fun c others sign => absurd sign unsigned

theorem trimChars_toDigits (n : Nat) : trimChars (Nat.toDigits 10 n) = Nat.toDigits 10 n := by
  have solid : ∀ c ∈ Nat.toDigits 10 n, isBlank c = false := fun c member =>
    isBlank_of_isDigit (isDigit_of_mem_toDigits member)
  rw [trimChars, trimStart_eq_self fun c first => solid c (List.mem_of_mem_head? first),
    trimEnd_eq_self fun c last => solid c (List.mem_of_getLast? last)]

theorem toList_toString (n : Nat) : (toString n).toList = Nat.toDigits 10 n := String.toList_ofList

theorem whole?_toString {bound n : Nat} (h : n ≤ bound) : whole? bound (toString n) = some n := by
  rw [whole?, toList_toString, trimChars_toDigits, readWhole_toDigits h]
  rfl

end Switchboard.Text
