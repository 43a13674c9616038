/-! Blank characters and the trimming of a text. A character is blank when it has the Unicode
property White_Space. Trimming removes the blanks at both ends and nothing else. -/
namespace Switchboard.Text

/-- The code points with the property White_Space, as closed ranges. -/
def blankRanges : List (Nat × Nat) :=
  [(0x9, 0xd), (0x20, 0x20), (0x85, 0x85), (0xa0, 0xa0), (0x1680, 0x1680), (0x2000, 0x200a),
    (0x2028, 0x2029), (0x202f, 0x202f), (0x205f, 0x205f), (0x3000, 0x3000)]

def isBlank (c : Char) : Bool :=
  blankRanges.any fun range => range.1 ≤ c.toNat && c.toNat ≤ range.2

def trimStart (text : List Char) : List Char := text.dropWhile isBlank

def trimEnd (text : List Char) : List Char := (text.reverse.dropWhile isBlank).reverse

def trimChars (text : List Char) : List Char := trimEnd (trimStart text)

def trim (text : String) : String := String.ofList (trimChars text.toList)

theorem toList_trim (text : String) : (trim text).toList = trimChars text.toList := by
  simp [trim]

theorem trimStart_eq_self {text : List Char} (h : ∀ c, text.head? = some c → isBlank c = false) :
    trimStart text = text := by
  cases text with
  | nil => rfl
  | cons c rest => simp [trimStart, h c rfl]

theorem trimEnd_eq_self {text : List Char}
    (h : ∀ c, text.getLast? = some c → isBlank c = false) : trimEnd text = text := by
  have start : trimStart text.reverse = text.reverse := trimStart_eq_self (by simpa using h)
  simpa [trimEnd, trimStart] using congrArg List.reverse start

end Switchboard.Text
