import Switchboard.Number.Numeral

/-! The smallest parts of a TOML document: blanks, comments, line ends, strings, keys, numbers and
points in time. Each reader takes what it needs from the head of a text and returns the rest. -/
namespace Switchboard.Toml.Lexeme

abbrev Reader (α : Type) := List Char → Option (α × List Char)

def isSpace (c : Char) : Bool := c == ' ' || c == '\t'

def skipSpace (text : List Char) : List Char := text.dropWhile isSpace

def lineEnd? : List Char → Option (List Char)
  | '\n' :: rest => some rest
  | '\r' :: '\n' :: rest => some rest
  | _ => none

def isPlain (c : Char) : Bool := c == '\t' || (0x20 ≤ c.toNat && c.toNat != 0x7f)

def skipComment : List Char → List Char
  | '#' :: rest => rest.dropWhile isPlain
  | text => text

/-- The rest of a line that has nothing more to say, and the end of the line. -/
def finishLine (text : List Char) : Option (List Char) :=
  match skipComment (skipSpace text) with
  | [] => some []
  | rest => lineEnd? rest

def skipLines : Nat → List Char → List Char
  | 0, text => text
  | more + 1, text =>
      let text := skipSpace text
      match lineEnd? (skipComment text) with
      | some rest => skipLines more rest
      | none => text

def hexValue? (c : Char) : Option Nat :=
  if '0' ≤ c && c ≤ '9' then some (c.toNat - '0'.toNat)
  else if 'a' ≤ c && c ≤ 'f' then some (c.toNat - 'a'.toNat + 10)
  else if 'A' ≤ c && c ≤ 'F' then some (c.toNat - 'A'.toNat + 10)
  else none

def readHex : Nat → Nat → Reader Nat
  | 0, soFar, text => some (soFar, text)
  | _ + 1, _, [] => none
  | more + 1, soFar, c :: rest => (hexValue? c).bind fun digit =>
      readHex more (soFar * 16 + digit) rest

def charOfCode? (code : Nat) : Option Char :=
  if code < 0xd800 || (0xe000 ≤ code && code < 0x110000) then some (Char.ofNat code) else none

def readEscape : Reader Char
  | 'b' :: rest => some ('\x08', rest)
  | 't' :: rest => some ('\t', rest)
  | 'n' :: rest => some ('\n', rest)
  | 'f' :: rest => some ('\x0c', rest)
  | 'r' :: rest => some ('\r', rest)
  | '"' :: rest => some ('"', rest)
  | '\\' :: rest => some ('\\', rest)
  | 'u' :: rest => (readHex 4 0 rest).bind fun (code, rest) =>
      (charOfCode? code).map (·, rest)
  | 'U' :: rest => (readHex 8 0 rest).bind fun (code, rest) =>
      (charOfCode? code).map (·, rest)
  | _ => none

def readBasic : Nat → List Char → Reader (List Char)
  | 0, _, _ => none
  | more + 1, soFar, text =>
      match text with
      | '"' :: rest => some (soFar.reverse, rest)
      | '\\' :: rest => (readEscape rest).bind fun (c, rest) => readBasic more (c :: soFar) rest
      | c :: rest => if isPlain c then readBasic more (c :: soFar) rest else none
      | [] => none

def readLiteral : List Char → Reader (List Char)
  | soFar, '\'' :: rest => some (soFar.reverse, rest)
  | soFar, c :: rest => if isPlain c then readLiteral (c :: soFar) rest else none
  | _, [] => none

/-- How many marks stand at the head of a text, five at most. -/
def countMarks (mark : Char) (text : List Char) : Nat :=
  ((text.take 5).takeWhile (· == mark)).length

/-- The rest of a string over several lines, between marks. Three marks end it, up to two more
belong to it. Only a basic string has escapes, and a backslash at the end of a line joins it with
the next text. -/
def readLong (mark : Char) (escapes : Bool) : Nat → List Char → Reader (List Char)
  | 0, _, _ => none
  | more + 1, soFar, text =>
      match text with
      | [] => none
      | c :: rest =>
          if c = mark then
            let count := countMarks mark text
            let after := text.drop count
            if 3 ≤ count then some (soFar.reverse ++ List.replicate (count - 3) mark, after)
            else readLong mark escapes more (List.replicate count mark ++ soFar) after
          else if c = '\\' ∧ escapes then
            match lineEnd? (skipSpace rest) with
            | some next =>
                let joined := next.dropWhile fun c => isSpace c || c == '\n' || c == '\r'
                let skipped := next.take (next.length - joined.length)
                if loneReturn skipped then none else readLong mark escapes more soFar joined
            | none => (readEscape rest).bind fun (c, rest) =>
                readLong mark escapes more (c :: soFar) rest
          else match lineEnd? text with
            | some next => readLong mark escapes more ('\n' :: soFar) next
            | none => if isPlain c then readLong mark escapes more (c :: soFar) rest else none
where
  /-- Whether a carriage return stands without a line feed after it. -/
  loneReturn : List Char → Bool
    | '\r' :: '\n' :: rest => loneReturn rest
    | '\r' :: _ => true
    | _ :: rest => loneReturn rest
    | [] => false

def dropLineEnd (text : List Char) : List Char := (lineEnd? text).getD text

def readShortString : Reader (List Char)
  | '"' :: rest => readBasic (rest.length + 1) [] rest
  | '\'' :: rest => readLiteral [] rest
  | _ => none

def readString (text : List Char) : Option (List Char × List Char) :=
  match text with
  | '"' :: '"' :: '"' :: rest => readLong '"' true (rest.length + 1) [] (dropLineEnd rest)
  | '\'' :: '\'' :: '\'' :: rest => readLong '\'' false (rest.length + 1) [] (dropLineEnd rest)
  | _ => readShortString text

def isBare (c : Char) : Bool := c.isAlphanum || c == '-' || c == '_'

def readSimpleKey (text : List Char) : Option (String × List Char) :=
  match text with
  | '"' :: _ => (readShortString text).map fun (key, rest) => (String.ofList key, rest)
  | '\'' :: _ => (readShortString text).map fun (key, rest) => (String.ofList key, rest)
  | _ =>
      let key := text.takeWhile isBare
      if key.isEmpty then none else some (String.ofList key, text.dropWhile isBare)

def keyDepth : Nat := 79

def readKey : Nat → Reader (List String)
  | 0, _ => none
  | more + 1, text =>
      (readSimpleKey (skipSpace text)).bind fun (part, rest) =>
        match skipSpace rest with
        | '.' :: after => (readKey more after).map fun (parts, rest) => (part :: parts, rest)
        | after => some ([part], after)

def readDigitRun (isDigit : Char → Bool) : List Char → Option (List Char × List Char)
  | [] => none
  | c :: rest =>
      if isDigit c then some (go [c] rest) else none
where
  go (soFar : List Char) : List Char → List Char × List Char
    | '_' :: c :: rest =>
        if isDigit c then go (c :: soFar) rest else (soFar.reverse, '_' :: c :: rest)
    | c :: rest => if isDigit c then go (c :: soFar) rest else (soFar.reverse, c :: rest)
    | [] => (soFar.reverse, [])

def valueOf (base : Nat) (digits : List Char) : Nat :=
  digits.foldl (fun n c => n * base + (hexValue? c).getD 0) 0

def fitting? (n : Int) : Option Int :=
  if -0x8000000000000000 ≤ n ∧ n < 0x8000000000000000 then some n else none

def readBased (base : Nat) (isDigit : Char → Bool) (text : List Char) : Option (Int × List Char) :=
  (readDigitRun isDigit text).bind fun (digits, rest) =>
    (fitting? (valueOf base digits)).map (·, rest)

def readSign : List Char → Bool × List Char
  | '-' :: rest => (true, rest)
  | '+' :: rest => (false, rest)
  | text => (false, text)

/-- The digits of a decimal whole number: a zero alone, or digits that start with another one. -/
def readDecimal (text : List Char) : Option ((Bool × List Char) × List Char) :=
  let (negative, unsigned) := readSign text
  match unsigned with
  | '0' :: rest => some ((negative, ['0']), rest)
  | _ => (readDigitRun Char.isDigit unsigned).map fun (digits, rest) => ((negative, digits), rest)

def digitValues (digits : List Char) : List Nat := digits.filterMap Text.digitValue?

def readExponent : List Char → Option ((Bool × List Nat) × List Char)
  | [] => none
  | c :: rest =>
      if c = 'e' ∨ c = 'E' then
        let (negative, unsigned) := readSign rest
        (readDigitRun Char.isDigit unsigned).map fun (digits, rest) =>
          ((negative, digitValues digits), rest)
      else none

/-- The fraction and the exponent, of which one at least makes a number a floating point one. -/
def readPoint (negative : Bool) (whole : List Char) (text : List Char) :
    Option (Number.Numeral × List Char) :=
  match text with
  | '.' :: rest => (readDigitRun Char.isDigit rest).bind fun (digits, rest) =>
      let fraction := some (digitValues digits)
      match readExponent rest with
      | some (exponent, after) =>
          some (⟨negative, digitValues whole, fraction, some exponent⟩, after)
      | none => match rest with
        | 'e' :: _ => none
        | 'E' :: _ => none
        | _ => some (⟨negative, digitValues whole, fraction, none⟩, rest)
  | _ => (readExponent text).map fun (exponent, after) =>
      (⟨negative, digitValues whole, none, some exponent⟩, after)

/-- A floating point number may be out of range below zero, not above. -/
def isAllowed (n : Number.Numeral) : Bool := n.negative || !n.isTooGreat

def startsWord (word : String) (text : List Char) : Option (List Char) :=
  if word.toList.isPrefixOf text then some (text.drop word.length) else none

def readFixed (count : Nat) (text : List Char) : Option (Nat × List Char) :=
  let digits := text.take count
  if digits.length = count ∧ digits.all Char.isDigit then
    some (valueOf 10 digits, text.drop count)
  else none

def expect (mark : Char) : List Char → Option (List Char)
  | c :: rest => if c = mark then some rest else none
  | [] => none

def isLeap (year : Nat) : Bool := year % 4 == 0 && (year % 100 != 0 || year % 400 == 0)

def daysIn (year month : Nat) : Nat :=
  if month = 2 then (if isLeap year then 29 else 28)
  else if month = 4 ∨ month = 6 ∨ month = 9 ∨ month = 11 then 30 else 31

def padded (width n : Nat) : String :=
  let digits := Nat.toDigits 10 n
  String.ofList (List.replicate (width - digits.length) '0' ++ digits)

def readDate (text : List Char) : Option (String × List Char) := do
  let (year, rest) ← readFixed 4 text
  let (month, rest) ← readFixed 2 (← expect '-' rest)
  let (day, rest) ← readFixed 2 (← expect '-' rest)
  guard (1 ≤ month && month ≤ 12 && 1 ≤ day && day ≤ daysIn year month)
  return (padded 4 year ++ "-" ++ padded 2 month ++ "-" ++ padded 2 day, rest)

def readSecondFraction : List Char → Option (String × List Char)
  | '.' :: rest =>
      let digits := rest.takeWhile Char.isDigit
      if digits.isEmpty then none
      else
        let kept := (((digits.take 9).reverse.dropWhile (· == '0')).reverse)
        some (if kept.isEmpty then "" else String.ofList ('.' :: kept), rest.dropWhile Char.isDigit)
  | rest => some ("", rest)

def readTime (text : List Char) : Option (String × List Char) := do
  let (hour, rest) ← readFixed 2 text
  let (minute, rest) ← readFixed 2 (← expect ':' rest)
  let (second, rest) ← readFixed 2 (← expect ':' rest)
  guard (hour ≤ 23 && minute ≤ 59 && second ≤ 60)
  let (fraction, rest) ← readSecondFraction rest
  return (padded 2 hour ++ ":" ++ padded 2 minute ++ ":" ++ padded 2 second ++ fraction, rest)

def readOffset (text : List Char) : String × List Char :=
  match text with
  | 'Z' :: rest => ("Z", rest)
  | 'z' :: rest => ("Z", rest)
  | sign :: rest =>
      if sign = '+' ∨ sign = '-' then
        match (do
          let (hour, rest) ← readFixed 2 rest
          let (minute, rest) ← readFixed 2 (← expect ':' rest)
          guard (hour ≤ 23 && minute ≤ 59)
          let shown := if hour = 0 ∧ minute = 0 then '+' else sign
          return (String.singleton shown ++ padded 2 hour ++ ":" ++ padded 2 minute, rest) :
            Option (String × List Char)) with
        | some found => found
        | none => ("", text)
      else ("", text)
  | [] => ("", [])

def readMoment (text : List Char) : Option (String × List Char) :=
  match readDate text with
  | none => readTime text
  | some (date, rest) =>
      let timed := match rest with
        | mark :: after =>
            if mark = 'T' ∨ mark = 't' ∨ mark = ' ' then readTime after else none
        | [] => none
      match timed with
      | none => some (date, rest)
      | some (time, rest) =>
          let (offset, rest) := readOffset rest
          some (date ++ "T" ++ time ++ offset, rest)

end Switchboard.Toml.Lexeme
