/-! TOML values. A table remembers how it came to be, because that decides whether a later part of
the document may still add to it. -/
namespace Switchboard

/-- How a table came to be: written in one place between braces, opened by a header, implied by a
header of a table inside it, or implied by a dotted key. -/
inductive Toml.Form where
  | inlined
  | headed
  | implied
  | dotted
deriving DecidableEq

inductive Toml where
  | text (value : String)
  | whole (value : Int)
  | real
  | bool (value : Bool)
  | moment (value : String)
  | array (items : List Toml)
  | tables (items : List Toml)
  | table (form : Toml.Form) (entries : List (String × Toml))

namespace Toml

def lookup? (entries : List (String × Toml)) (key : String) : Option Toml :=
  (entries.find? (·.1 == key)).map (·.2)

def replace (entries : List (String × Toml)) (key : String) (value : Toml) :
    List (String × Toml) :=
  entries.map fun entry => if entry.1 = key then (key, value) else entry

/-- Changes the table that a path leads to. Tables that are missing on the way are implied, and
an array of tables is entered at its last table. A dotted path may not enter a table that a header
has opened, and no path enters a table between braces. -/
def alter (dotted : Bool)
    (change : Form → List (String × Toml) → Option (List (String × Toml))) :
    List String → Form → List (String × Toml) → Option (List (String × Toml))
  | [], form, entries => change form entries
  | key :: path, _, entries =>
      match lookup? entries key with
      | none =>
          let form := if dotted then Form.dotted else .implied
          (alter dotted change path form []).map fun inner =>
            entries ++ [(key, table form inner)]
      | some (table form inner) =>
          if form = .inlined || (dotted && form = .headed) then none
          else (alter dotted change path form inner).map fun inner =>
            replace entries key (table form inner)
      | some (tables items) =>
          match items.getLast? with
          | some (table form inner) =>
              (alter dotted change path form inner).map fun inner =>
                replace entries key (tables (items.dropLast ++ [table form inner]))
          | _ => none
      | some _ => none

/-- Adds a value under a dotted key to a table. A key stands only once, and a table that a header
has implied takes no dotted keys. -/
def addPair (path : List String) (key : String) (value : Toml) (form : Form)
    (entries : List (String × Toml)) : Option (List (String × Toml)) :=
  alter true (fun form entries =>
    if (form = .dotted) = (path = []) then none
    else match lookup? entries key with
      | some _ => none
      | none => some (entries ++ [(key, value)])) path form entries

end Toml

end Switchboard
