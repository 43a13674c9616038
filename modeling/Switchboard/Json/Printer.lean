import Switchboard.Json.Value
import Switchboard.Number.Shortest

/-! The compact text of a JSON value: no blanks, members in the order of the value, and in strings
an escape only where one is needed. A floating point number has the shortest digits that read
back, in positional notation from a hundred thousandth up to ten to the sixteenth. -/
namespace Switchboard.Json

open Number

def digits (n : Nat) : List Char := Nat.toDigits 10 n

def hexDigit (n : Nat) : Char := (Nat.toDigits 16 n).headD '0'

def escapeChar (c : Char) : List Char :=
  if c = '"' then ['\\', '"']
  else if c = '\\' then ['\\', '\\']
  else if c = '\x08' then ['\\', 'b']
  else if c = '\x0c' then ['\\', 'f']
  else if c = '\n' then ['\\', 'n']
  else if c = '\r' then ['\\', 'r']
  else if c = '\t' then ['\\', 't']
  else if c.toNat < 0x20 then
    ['\\', 'u', '0', '0', hexDigit (c.toNat / 16), hexDigit (c.toNat % 16)]
  else [c]

def quote (text : String) : List Char := '"' :: (text.toList.flatMap escapeChar ++ ['"'])

def renderWhole : Int → List Char
  | .ofNat n => digits n
  | .negSucc n => '-' :: digits (n + 1)

/-- The positional form of digits with the point after `point` of them, which may be none or more
than there are. -/
def positional (digits : List Char) (point : Int) : List Char :=
  if point ≤ 0 then '0' :: '.' :: (List.replicate (-point).toNat '0' ++ digits)
  else
    let whole := digits.take point.toNat
    let rest := digits.drop point.toNat
    whole ++ List.replicate (point.toNat - whole.length) '0' ++
      '.' :: (if rest.isEmpty then ['0'] else rest)

def scientific (digits : List Char) (point : Int) : List Char :=
  let exponent := point - 1
  let mantissa := match digits with
    | [] => ['0']
    | [digit] => [digit]
    | digit :: rest => digit :: '.' :: rest
  mantissa ++ 'e' :: (if exponent < 0 then '-' else '+') :: (Nat.toDigits 10 exponent.natAbs)

def positionalPoints : Int × Int := (-4, 16)

def renderMagnitude (x : Binary64) : List Char :=
  if x.isZero then ['0', '.', '0']
  else
    let decimal := shortest x
    let digits := digits decimal.digits
    let point := decimal.exponent + digits.length
    if positionalPoints.1 ≤ point ∧ point ≤ positionalPoints.2 then positional digits point
    else scientific digits point

def renderReal (x : Binary64) : List Char :=
  if x.negative then '-' :: renderMagnitude x else renderMagnitude x

mutual

def write : Json → List Char → List Char
  | null, rest => "null".toList ++ rest
  | bool true, rest => "true".toList ++ rest
  | bool false, rest => "false".toList ++ rest
  | whole n, rest => renderWhole n ++ rest
  | real x, rest => renderReal x ++ rest
  | text s, rest => quote s ++ rest
  | array items, rest => '[' :: writeItems items (']' :: rest)
  | object members, rest => '\x7b' :: writeMembers members ('\x7d' :: rest)

def writeItems : List Json → List Char → List Char
  | [], rest => rest
  | [item], rest => write item rest
  | item :: next :: items, rest => write item (',' :: writeItems (next :: items) rest)

def writeMembers : List (String × Json) → List Char → List Char
  | [], rest => rest
  | [(name, item)], rest => quote name ++ ':' :: write item rest
  | (name, item) :: next :: members, rest =>
      quote name ++ ':' :: write item (',' :: writeMembers (next :: members) rest)

end

def render (value : Json) : List Char := write value []

def toText (value : Json) : String := String.ofList (render value)

end Switchboard.Json
