import Switchboard.Number.Numeral
import Switchboard.Text.Utf8

/-! The tokens of a JSON text. A text is read glyph by glyph by a machine whose modes say what it
stands in: between tokens, in a word or in a string. A string may hold what no text can, a stray
byte or half of a surrogate pair. Its token then has no content: it can be passed over but not
used. -/
namespace Switchboard.Json

open Number Text

inductive Token where
  | openArray
  | closeArray
  | openObject
  | closeObject
  | comma
  | colon
  | null
  | bool (value : Bool)
  | number (numeral : Numeral)
  | text (content : Option String)
deriving DecidableEq

namespace Token

/-- What has been read of a string, last character first, and the leading half of a surrogate
pair that still waits for the other half. -/
structure Partial where
  content : Option (List Char)
  half : Option Nat
deriving DecidableEq

namespace Partial

def start : Partial := ⟨some [], none⟩

/-- A half pair without its other half makes a string unusable. -/
def settle (p : Partial) : Partial :=
  match p.half with
  | none => p
  | some _ => ⟨none, none⟩

def push (p : Partial) (c : Char) : Partial :=
  let settled := p.settle
  { settled with content := settled.content.map (c :: ·) }

def spoil (_ : Partial) : Partial := ⟨none, none⟩

def pushUnit (p : Partial) (unit : Nat) : Partial :=
  match p.half with
  | some lead =>
      if 0xdc00 ≤ unit && unit < 0xe000 then
        ⟨p.content.map (Char.ofNat (0x10000 + (lead - 0xd800) * 0x400 + (unit - 0xdc00)) :: ·),
          none⟩
      else p.spoil
  | none =>
      if 0xd800 ≤ unit && unit < 0xdc00 then { p with half := some unit }
      else if 0xdc00 ≤ unit && unit < 0xe000 then p.spoil
      else p.push (Char.ofNat unit)

def token (p : Partial) : Token :=
  .text (p.settle.content.map fun letters => String.ofList letters.reverse)

end Partial

inductive Mode where
  | between
  | word (letters : List Char)
  | plain (read : Partial)
  | escape (read : Partial)
  | hex (read : Partial) (left : Nat) (soFar : Nat)
deriving DecidableEq

def isSpace (c : Char) : Bool := c == ' ' || c == '\t' || c == '\n' || c == '\r'

def punctuation? (c : Char) : Option Token :=
  if c = '[' then some openArray
  else if c = ']' then some closeArray
  else if c = '\x7b' then some openObject
  else if c = '\x7d' then some closeObject
  else if c = ',' then some comma
  else if c = ':' then some colon
  else none

def hexValue? (c : Char) : Option Nat :=
  if '0' ≤ c && c ≤ '9' then some (c.toNat - '0'.toNat)
  else if 'a' ≤ c && c ≤ 'f' then some (c.toNat - 'a'.toNat + 10)
  else if 'A' ≤ c && c ≤ 'F' then some (c.toNat - 'A'.toNat + 10)
  else none

def escaped? (c : Char) : Option Char :=
  if c = '"' then some '"'
  else if c = '\\' then some '\\'
  else if c = '/' then some '/'
  else if c = 'b' then some '\x08'
  else if c = 'f' then some '\x0c'
  else if c = 'n' then some '\n'
  else if c = 'r' then some '\r'
  else if c = 't' then some '\t'
  else none

def ofWord? (letters : List Char) : Option Token :=
  if letters = "null".toList then some null
  else if letters = "true".toList then some (bool true)
  else if letters = "false".toList then some (bool false)
  else (Numeral.read? letters).map number

structure Lexer where
  tokens : List Token
  mode : Mode

namespace Lexer

def start : Lexer := ⟨[], .between⟩

def endWord (tokens : List Token) (letters : List Char) : Option (List Token) :=
  (ofWord? letters.reverse).map (· :: tokens)

def open? (tokens : List Token) (c : Char) : Lexer :=
  if isSpace c then ⟨tokens, .between⟩
  else if c = '"' then ⟨tokens, .plain .start⟩
  else match punctuation? c with
    | some token => ⟨token :: tokens, .between⟩
    | none => ⟨tokens, .word [c]⟩

def endsWord (c : Char) : Bool := isSpace c || c == '"' || (punctuation? c).isSome

def stepString (tokens : List Token) (read : Partial) : Glyph → Option Lexer
  | .stray _ => some ⟨tokens, .plain read.spoil⟩
  | .char c =>
      if c = '"' then some ⟨read.token :: tokens, .between⟩
      else if c = '\\' then some ⟨tokens, .escape read⟩
      else if c.toNat < 0x20 then none
      else some ⟨tokens, .plain (read.push c)⟩

def step (state : Lexer) (glyph : Glyph) : Option Lexer :=
  match state.mode, glyph with
  | .between, .char c => some (open? state.tokens c)
  | .between, .stray _ => none
  | .word letters, .char c =>
      if endsWord c then (endWord state.tokens letters).map (open? · c)
      else some ⟨state.tokens, .word (c :: letters)⟩
  | .word _, .stray _ => none
  | .plain read, glyph => stepString state.tokens read glyph
  | .escape _, .stray _ => none
  | .escape read, .char c =>
      if c = 'u' then some ⟨state.tokens, .hex read 4 0⟩
      else (escaped? c).map fun meant => ⟨state.tokens, .plain (read.push meant)⟩
  | .hex _ _ _, .stray _ => none
  | .hex read left soFar, .char c =>
      (hexValue? c).map fun digit =>
        if left ≤ 1 then ⟨state.tokens, .plain (read.pushUnit (soFar * 16 + digit))⟩
        else ⟨state.tokens, .hex read (left - 1) (soFar * 16 + digit)⟩

def finish (state : Lexer) : Option (List Token) :=
  match state.mode with
  | .between => some state.tokens.reverse
  | .word letters => (endWord state.tokens letters).map List.reverse
  | _ => none

/-- Runs the machine; where it stops, the error is the number of glyphs read. -/
def run (state : Lexer) (count : Nat) : List Glyph → Except Nat (List Token)
  | [] => match state.finish with
      | some tokens => .ok tokens
      | none => .error count
  | glyph :: rest => match state.step glyph with
      | some next => run next (count + 1) rest
      | none => .error (count + 1)

end Lexer

def ofGlyphs (glyphs : List Glyph) : Except Nat (List Token) := Lexer.start.run 0 glyphs

end Token

end Switchboard.Json
