import Switchboard.Dictionary
import Switchboard.Toml.Value

/-! Records in TOML. A record is a table that has no other keys than the names of its fields, or an
array with the values of its fields in order. A field that is missing has its default value. -/
namespace Switchboard.Toml

def text? : Toml → Option String
  | text content => some content
  | _ => none

def bool? : Toml → Option Bool
  | bool value => some value
  | _ => none

def size? : Toml → Option Nat
  | whole (.ofNat n) => some n
  | _ => none

def items? : Toml → Option (List Toml)
  | array items => some items
  | tables items => some items
  | _ => none

def fields? (names : List String) : Toml → Option (List (Option Toml))
  | table _ entries =>
      if entries.all fun entry => names.contains entry.1 then some (names.map (lookup? entries))
      else none
  | array items => some ((List.range names.length).map (items[·]?))
  | tables items => some ((List.range names.length).map (items[·]?))
  | _ => none

def field? {α : Type} (read : Toml → Option α) (fallback : α) : Option Toml → Option α
  | none => some fallback
  | some value => read value

/-- The name under which a point in time shows as a table. -/
def momentKey : String := "$__toml_private_datetime"

def texts? : Toml → Option (Dictionary String)
  | table _ entries => do
      let texts ← entries.mapM fun (entry : String × Toml) => do
        let content ← text? entry.2
        return (entry.1, content)
      return .ofList texts
  | moment stamp => some (.ofList [(momentKey, stamp)])
  | _ => none

def label? : Toml → Option String
  | text content => some content
  | table _ [(key, table _ [])] => some key
  | table _ [(key, array [])] => some key
  | _ => none

end Switchboard.Toml
