import Switchboard.Json.Tree

/-! Reading JSON texts. What cannot be read is reported with the line and the column that the
reader had come to. -/
namespace Switchboard.Json

open Text

structure Place where
  line : Nat
  column : Nat
deriving DecidableEq

namespace Place

def advance (place : Place) (glyph : Glyph) : Place :=
  if glyph = .char '\n' then ⟨place.line + 1, 0⟩ else ⟨place.line, place.column + 1⟩

def after (glyphs : List Glyph) (count : Nat) : Place :=
  (glyphs.take count).foldl advance ⟨1, 0⟩

def describe (place : Place) : String := s!"at line {place.line} column {place.column}"

end Place

structure Malformed where
  place : Place
deriving DecidableEq

def Malformed.message (error : Malformed) : String :=
  s!"malformed document {error.place.describe}"

def readWith {α : Type} (make : Tree → Option α) (glyphs : List Glyph) : Except Malformed α :=
  match Token.ofGlyphs glyphs with
  | .error count => .error ⟨Place.after glyphs count⟩
  | .ok tokens =>
      match (Tree.ofTokens? tokens).bind make with
      | some result => .ok result
      | none => .error ⟨Place.after glyphs glyphs.length⟩

def read (budget : Nat) (text : String) : Except Malformed Json :=
  readWith (Tree.value? budget) (text.toList.map .char)

end Switchboard.Json
