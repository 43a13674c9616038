import Switchboard.Dictionary
import Switchboard.Json.Value

/-! Taking JSON values apart and putting them together. What is missing, null or of another kind
reads as an empty text, an empty list, zero or false, unless a reader asks whether it is there. -/
namespace Switchboard.Json

/-- The member of an object, if it is there and not null. -/
def get? (j : Json) (name : String) : Option Json :=
  match j with
  | object members =>
      match members.find? (·.1 == name) with
      | some (_, null) => none
      | some (_, value) => some value
      | none => none
  | _ => none

def get (j : Json) (name : String) : Json := (j.get? name).getD null

def toText? : Json → Option String
  | text content => some content
  | _ => none

def textAt? (j : Json) (name : String) : Option String := (j.get? name).bind toText?

def textAt (j : Json) (name : String) : String := (j.textAt? name).getD ""

def intAt? (j : Json) (name : String) : Option Int :=
  match j.get? name with
  | some (whole n) => some n
  | _ => none

def intAt (j : Json) (name : String) : Int := (j.intAt? name).getD 0

def natAt? (j : Json) (name : String) : Option Nat := (j.intAt? name).map Int.toNat

def natAt (j : Json) (name : String) : Nat := (j.natAt? name).getD 0

def flagAt? (j : Json) (name : String) : Option Bool :=
  match j.get? name with
  | some (bool value) => some value
  | _ => none

def flagAt (j : Json) (name : String) : Bool := (j.flagAt? name).getD false

def itemsAt (j : Json) (name : String) : List Json :=
  match j.get? name with
  | some (array items) => items
  | _ => []

def textsAt (j : Json) (name : String) : List String := (j.itemsAt name).filterMap toText?

def mapAt (j : Json) (name : String) : Dictionary String :=
  match j.get? name with
  | some (object members) =>
      .ofList (members.filterMap fun member => member.2.toText?.map (member.1, ·))
  | _ => .empty

def record (members : List (String × Json)) : Json :=
  object (members.foldl (fun sorted member => insertMember sorted member.1 member.2) [])

def ofNat (n : Nat) : Json := whole n

def ofTexts (texts : List String) : Json := array (texts.map text)

def ofList {α : Type} (write : α → Json) (list : List α) : Json := array (list.map write)

def ofOption {α : Type} (write : α → Json) : Option α → Json
  | some value => write value
  | none => null

def ofDictionary (d : Dictionary String) : Json :=
  object (d.entries.map fun entry => (entry.1, text entry.2))

end Switchboard.Json
