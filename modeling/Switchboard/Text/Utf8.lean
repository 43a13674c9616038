/-! UTF-8. Encoding turns characters into bytes. Decoding is total: it reads a character wherever
a well formed one starts and passes any other byte on as a stray one, so no byte is lost. A stray
byte is never below 128. -/
namespace Switchboard.Text

abbrev Bytes := List UInt8

inductive Glyph where
  | char (c : Char)
  | stray (b : UInt8)
deriving DecidableEq

def continuation (n : Nat) : UInt8 := UInt8.ofNat (0x80 + n % 0x40)

def encodeChar (c : Char) : Bytes :=
  let n := c.toNat
  if n < 0x80 then [UInt8.ofNat n]
  else if n < 0x800 then [UInt8.ofNat (0xc0 + n / 0x40), continuation n]
  else if n < 0x10000 then
    [UInt8.ofNat (0xe0 + n / 0x1000), continuation (n / 0x40), continuation n]
  else
    [UInt8.ofNat (0xf0 + n / 0x40000), continuation (n / 0x1000), continuation (n / 0x40),
      continuation n]

def encode (text : List Char) : Bytes := text.flatMap encodeChar

def utf8 (text : String) : Bytes := encode text.toList

def isContinuation (b : UInt8) : Bool := 0x80 ≤ b && b < 0xc0

def payload (b : UInt8) : Nat := b.toNat % 0x40

/-- The character that a group of bytes with this value and length stands for. It must not have a
shorter form, and it must be a character. -/
def assemble? (least value : Nat) : Option Char :=
  if least ≤ value && (value < 0xd800 || (0xe000 ≤ value && value < 0x110000)) then
    some (Char.ofNat value)
  else none

def head? : Bytes → Option (Char × Nat)
  | [] => none
  | a :: rest =>
      if a < 0x80 then some (Char.ofNat a.toNat, 0)
      else if a < 0xc0 then none
      else if a < 0xe0 then
        match rest with
        | b :: _ =>
            if isContinuation b then
              (assemble? 0x80 ((a.toNat % 0x20) * 0x40 + payload b)).map (·, 1)
            else none
        | _ => none
      else if a < 0xf0 then
        match rest with
        | b :: c :: _ =>
            if isContinuation b && isContinuation c then
              (assemble? 0x800 (((a.toNat % 0x10) * 0x40 + payload b) * 0x40 + payload c)).map
                (·, 2)
            else none
        | _ => none
      else if a < 0xf8 then
        match rest with
        | b :: c :: d :: _ =>
            if isContinuation b && isContinuation c && isContinuation d then
              (assemble? 0x10000
                ((((a.toNat % 0x8) * 0x40 + payload b) * 0x40 + payload c) * 0x40
                  + payload d)).map (·, 3)
            else none
        | _ => none
      else none

/-- Reads the bytes after `skip` ones that belong to a character already read. -/
def decodeFrom (skip : Nat) : Bytes → List Glyph
  | [] => []
  | a :: rest =>
      match skip with
      | n + 1 => decodeFrom n rest
      | 0 =>
          match head? (a :: rest) with
          | some (c, more) => .char c :: decodeFrom more rest
          | none => .stray a :: decodeFrom 0 rest

def decode (bytes : Bytes) : List Glyph := decodeFrom 0 bytes

def Glyph.char? : Glyph → Option Char
  | char c => some c
  | stray _ => none

def text? (bytes : Bytes) : Option String :=
  ((decode bytes).mapM Glyph.char?).map String.ofList

end Switchboard.Text
