import Switchboard.Text.Utf8

/-! Encoding a text and decoding the bytes gives the characters of the text and no stray byte. The
first byte of a character says how many bytes follow it, and six bits of each of these put the
character together again. -/
namespace Switchboard.Text

theorem payload_continuation (n : Nat) : payload (continuation n) = n % 0x40 := by
  simp only [payload, continuation, UInt8.toNat_ofNat']
  omega

theorem isContinuation_continuation (n : Nat) : isContinuation (continuation n) = true := by
  have size : (continuation n).toNat = 0x80 + n % 0x40 := by
    simp only [continuation, UInt8.toNat_ofNat']
    omega
  simp only [isContinuation, Bool.and_eq_true, decide_eq_true_eq, UInt8.le_iff_toNat_le,
    UInt8.lt_iff_toNat_lt, size, UInt8.reduceToNat]
  omega

variable {n : Nat} (rest : Bytes)

theorem toNat_first (h : n < 0x100) : (UInt8.ofNat n).toNat = n := by
  rw [UInt8.toNat_ofNat', Nat.mod_eq_of_lt h]

theorem head?_one (h : n < 0x80) :
    head? (UInt8.ofNat n :: rest) = some (Char.ofNat n, 0) := by
  have first := toNat_first (n := n) (by omega)
  simp [head?, UInt8.lt_iff_toNat_lt, first, h]

theorem head?_two (low : 0xc0 ≤ n) (high : n < 0xe0) (m : Nat) :
    head? (UInt8.ofNat n :: continuation m :: rest) =
      (assemble? 0x80 (n % 0x20 * 0x40 + m % 0x40)).map (·, 1) := by
  have first := toNat_first (n := n) (by omega)
  have many : ¬ n < 0x80 ∧ ¬ n < 0xc0 := by omega
  simp [head?, UInt8.lt_iff_toNat_lt, first, many, high, isContinuation_continuation,
    payload_continuation]

theorem head?_three (low : 0xe0 ≤ n) (high : n < 0xf0) (l m : Nat) :
    head? (UInt8.ofNat n :: continuation l :: continuation m :: rest) =
      (assemble? 0x800 ((n % 0x10 * 0x40 + l % 0x40) * 0x40 + m % 0x40)).map (·, 2) := by
  have first := toNat_first (n := n) (by omega)
  have many : ¬ n < 0x80 ∧ ¬ n < 0xc0 ∧ ¬ n < 0xe0 := by omega
  simp [head?, UInt8.lt_iff_toNat_lt, first, many, high, isContinuation_continuation,
    payload_continuation]

theorem head?_four (low : 0xf0 ≤ n) (high : n < 0xf8) (k l m : Nat) :
    head? (UInt8.ofNat n :: continuation k :: continuation l :: continuation m :: rest) =
      (assemble? 0x10000
        (((n % 0x8 * 0x40 + k % 0x40) * 0x40 + l % 0x40) * 0x40 + m % 0x40)).map (·, 3) := by
  have first := toNat_first (n := n) (by omega)
  have many : ¬ n < 0x80 ∧ ¬ n < 0xc0 ∧ ¬ n < 0xe0 ∧ ¬ n < 0xf0 := by omega
  simp [head?, UInt8.lt_iff_toNat_lt, first, many, high, isContinuation_continuation,
    payload_continuation]

theorem valid_toNat (c : Char) :
    c.toNat < 0xd800 ∨ (0xe000 ≤ c.toNat ∧ c.toNat < 0x110000) := by
  have valid := c.valid
  simp only [UInt32.isValidChar, Nat.isValidChar] at valid
  simp only [Char.toNat]
  omega

theorem assemble?_toNat {least value : Nat} (c : Char) (whole : value = c.toNat)
    (h : least ≤ c.toNat) : assemble? least value = some c := by
  subst whole
  have valid := valid_toNat c
  simp [assemble?, h, valid, Char.ofNat_toNat]

theorem head?_encodeChar (c : Char) :
    head? (encodeChar c ++ rest) = some (c, (encodeChar c).length - 1) := by
  have valid := valid_toNat c
  simp only [encodeChar]
  split
  next one =>
    rw [List.singleton_append, head?_one rest one, Char.ofNat_toNat]
    rfl
  next =>
    split
    next two =>
      rw [List.cons_append, List.cons_append, List.nil_append,
        head?_two rest (by omega) (by omega), assemble?_toNat c (by omega) (by omega)]
      rfl
    next =>
      split
      next three =>
        rw [List.cons_append, List.cons_append, List.cons_append, List.nil_append,
          head?_three rest (by omega) (by omega), assemble?_toNat c (by omega) (by omega)]
        rfl
      next four =>
        rw [List.cons_append, List.cons_append, List.cons_append, List.cons_append,
          List.nil_append, head?_four rest (by omega) (by omega),
          assemble?_toNat c (by omega) (by omega)]
        rfl

theorem encodeChar_ne_nil (c : Char) : encodeChar c ≠ [] := by
  unfold encodeChar
  grind

theorem decodeFrom_append (bytes : Bytes) :
    decodeFrom bytes.length (bytes ++ rest) = decodeFrom 0 rest := by
  induction bytes with
  | nil => rfl
  | cons byte others ih => exact ih

theorem decode_encode (text : List Char) : decode (encode text) = text.map .char := by
  induction text with
  | nil => rfl
  | cons c others ih =>
      have read := head?_encodeChar (encode others) c
      obtain ⟨byte, more, shape⟩ := List.exists_cons_of_ne_nil (encodeChar_ne_nil c)
      rw [shape] at read
      have parts : encode (c :: others) = byte :: (more ++ encode others) := by
        rw [encode, List.flatMap_cons, shape]
        rfl
      rw [decode, parts, decodeFrom]
      rw [List.cons_append] at read
      rw [read]
      simp only [List.length_cons, Nat.add_sub_cancel, decodeFrom_append, List.map_cons]
      rw [← ih, decode]

end Switchboard.Text
