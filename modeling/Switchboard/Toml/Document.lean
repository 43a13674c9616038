import Switchboard.Toml.Lexeme
import Switchboard.Toml.Value

/-! TOML documents. A document is a list of statements, one a line: the header of a table, the
header of a table in an array, or a key with a value. The statements are put together one after
the other into one table; a statement that contradicts an earlier one makes the document
invalid. -/
namespace Switchboard.Toml

open Lexeme

def pathOf (parts : List String) : List String × String :=
  (parts.dropLast, parts.getLast?.getD "")

def readNumber (chars : List Char) : Option (Toml × List Char) :=
  match readMoment chars with
  | some (stamp, rest) => some (.moment stamp, rest)
  | none =>
      match startsWord "0x" chars, startsWord "0o" chars, startsWord "0b" chars with
      | some rest, _, _ =>
          (readBased 16 (fun c => (hexValue? c).isSome) rest).map fun (n, rest) => (.whole n, rest)
      | _, some rest, _ =>
          (readBased 8 (fun c => '0' ≤ c && c ≤ '7') rest).map fun (n, rest) => (.whole n, rest)
      | _, _, some rest =>
          (readBased 2 (fun c => c == '0' || c == '1') rest).map fun (n, rest) => (.whole n, rest)
      | none, none, none =>
          match readDecimal chars with
          | some ((negative, digits), rest) =>
              match readPoint negative digits rest with
              | some (numeral, after) => if isAllowed numeral then some (.real, after) else none
              | none =>
                  let magnitude : Int := valueOf 10 digits
                  (fitting? (if negative then -magnitude else magnitude)).map fun n =>
                    (.whole n, rest)
          | none =>
              let unsigned := (readSign chars).2
              match startsWord "inf" unsigned, startsWord "nan" unsigned with
              | some rest, _ => some (.real, rest)
              | none, some rest => some (.real, rest)
              | none, none => none

def inlineTable (pairs : List (List String × Toml)) : Option Toml :=
  (pairs.foldlM (fun entries pair =>
    addPair (pathOf pair.1).1 (pathOf pair.1).2 pair.2 .inlined entries) []).map (.table .inlined)

def nesting : Nat := 79

mutual

/-- A value. The first argument bounds how many arrays and tables may be opened for it. -/
def readValue (budget : Nat) (chars : List Char) : Option (Toml × List Char) :=
  match chars with
  | [] => none
  | c :: rest =>
      if c = '"' ∨ c = '\'' then
        (readString chars).map fun (content, rest) => (.text (String.ofList content), rest)
      else if c = '[' then
        match budget with
        | 0 => none
        | left + 1 =>
            (readItems left (rest.length + 1) [] rest).map fun (items, rest) => (.array items, rest)
      else if c = '\x7b' then
        match budget with
        | 0 => none
        | left + 1 =>
            (readPairs left (rest.length + 1) rest).bind fun (pairs, rest) =>
              (inlineTable pairs).map (·, rest)
      else if c = 't' then (startsWord "true" chars).map fun rest => (.bool true, rest)
      else if c = 'f' then (startsWord "false" chars).map fun rest => (.bool false, rest)
      else readNumber chars
termination_by (budget, 0)

def readItems : Nat → Nat → List Toml → List Char → Option (List Toml × List Char)
  | _, 0, _, _ => none
  | more, left + 1, soFar, chars =>
      match skipLines (chars.length + 1) chars with
      | ']' :: rest => some (soFar.reverse, rest)
      | start =>
          (readValue more start).bind fun (value, rest) =>
            match skipLines (rest.length + 1) rest with
            | ',' :: rest => readItems more left (value :: soFar) rest
            | ']' :: rest => some ((value :: soFar).reverse, rest)
            | _ => none
termination_by more left _ _ => (more, left + 1)

/-- The pairs of a table between braces up to its end, which no comma may precede. -/
def readPairs : Nat → Nat → List Char → Option (List (List String × Toml) × List Char)
  | more, left, chars =>
      match skipSpace chars with
      | '\x7d' :: rest => some ([], rest)
      | _ => readSomePairs more left [] chars
termination_by more left _ => (more, left + 2)

def readSomePairs : Nat → Nat → List (List String × Toml) → List Char →
    Option (List (List String × Toml) × List Char)
  | _, 0, _, _ => none
  | more, left + 1, soFar, chars =>
      (readKey keyDepth chars).bind fun (key, rest) =>
        (expect '=' rest).bind fun rest =>
          (readValue more (skipSpace rest)).bind fun (value, rest) =>
            match skipSpace rest with
            | ',' :: rest => readSomePairs more left ((key, value) :: soFar) rest
            | '\x7d' :: rest => some (((key, value) :: soFar).reverse, rest)
            | _ => none
termination_by more left _ _ => (more, left + 1)

end

inductive Statement where
  | header (path : List String)
  | arrayHeader (path : List String)
  | pair (path : List String) (value : Toml)

def readStatement (chars : List Char) : Option (Statement × List Char) :=
  match chars with
  | '[' :: '[' :: rest => do
      let (path, rest) ← readKey keyDepth rest
      let rest ← finishLine (← expect ']' (← expect ']' rest))
      return (.arrayHeader path, rest)
  | '[' :: rest => do
      let (path, rest) ← readKey keyDepth rest
      let rest ← finishLine (← expect ']' rest)
      return (.header path, rest)
  | _ => do
      let (path, rest) ← readKey keyDepth chars
      let rest ← expect '=' rest
      let (value, rest) ← readValue nesting (skipSpace rest)
      let rest ← finishLine rest
      return (.pair path value, rest)

def readStatements : Nat → List Statement → List Char → Option (List Statement)
  | 0, _, _ => none
  | more + 1, soFar, chars =>
      match skipLines (chars.length + 1) chars with
      | [] => some soFar.reverse
      | start =>
          if (skipComment start).isEmpty then some soFar.reverse
          else (readStatement start).bind fun (statement, rest) =>
            readStatements more (statement :: soFar) rest

structure Draft where
  entries : List (String × Toml)
  current : List String

def openTable (key : String) (_ : Form) (entries : List (String × Toml)) :
    Option (List (String × Toml)) :=
  match lookup? entries key with
  | none => some (entries ++ [(key, .table .headed [])])
  | some (.table .implied inner) => some (replace entries key (.table .headed inner))
  | some _ => none

def openItem (key : String) (_ : Form) (entries : List (String × Toml)) :
    Option (List (String × Toml)) :=
  match lookup? entries key with
  | none => some (entries ++ [(key, .tables [.table .headed []])])
  | some (.tables items) => some (replace entries key (.tables (items ++ [.table .headed []])))
  | some _ => none

def Draft.take (d : Draft) : Statement → Option Draft
  | .header path =>
      (alter false (openTable (pathOf path).2) (pathOf path).1 .headed d.entries).map (⟨·, path⟩)
  | .arrayHeader path =>
      (alter false (openItem (pathOf path).2) (pathOf path).1 .headed d.entries).map (⟨·, path⟩)
  | .pair path value =>
      (alter false (addPair (pathOf path).1 (pathOf path).2 value) d.current .headed
        d.entries).map (⟨·, d.current⟩)

def readDocument (source : String) : Option (List (String × Toml)) :=
  let chars := match source.toList with
    | '\ufeff' :: rest => rest
    | chars => chars
  (readStatements (chars.length + 1) [] chars).bind fun statements =>
    (statements.foldlM Draft.take ⟨[], []⟩).map (·.entries)

end Switchboard.Toml
