import Switchboard.Json.Token
import Switchboard.Json.Value

/-! The structure of a JSON text. A tree keeps the members of an object in the order of the text,
repeated names included, and it may be nested to any depth. A value is made from a tree within a
budget of nesting; of members with one name the last counts, and every string must have content. -/
namespace Switchboard.Json

open Number

inductive Tree where
  | null
  | bool (value : Bool)
  | number (numeral : Numeral)
  | text (content : Option String)
  | array (items : List Tree)
  | object (members : List (Option String × Tree))

namespace Tree

inductive Frame where
  | array (items : List Tree)
  | object (members : List (Option String × Tree)) (name : Option String)

inductive Wait where
  | value
  | firstItem
  | firstName
  | name (members : List (Option String × Tree))
  | colon (members : List (Option String × Tree)) (name : Option String)
  | closed (tree : Tree)

structure Builder where
  stack : List Frame
  wait : Wait

namespace Builder

def start : Builder := ⟨[], .value⟩

def openValue (stack : List Frame) (token : Token) : Option Builder :=
  match token with
  | .null => some ⟨stack, .closed .null⟩
  | .bool b => some ⟨stack, .closed (.bool b)⟩
  | .number n => some ⟨stack, .closed (.number n)⟩
  | .text t => some ⟨stack, .closed (.text t)⟩
  | .openArray => some ⟨.array [] :: stack, .firstItem⟩
  | .openObject => some ⟨stack, .firstName⟩
  | _ => none

def afterValue (stack : List Frame) (tree : Tree) (token : Token) : Option Builder :=
  match stack, token with
  | .array items :: rest, .comma => some ⟨.array (tree :: items) :: rest, .value⟩
  | .array items :: rest, .closeArray => some ⟨rest, .closed (.array (tree :: items).reverse)⟩
  | .object members name :: rest, .comma => some ⟨rest, .name ((name, tree) :: members)⟩
  | .object members name :: rest, .closeObject =>
      some ⟨rest, .closed (.object ((name, tree) :: members).reverse)⟩
  | _, _ => none

def step (state : Builder) (token : Token) : Option Builder :=
  match state.wait, token with
  | .value, token => openValue state.stack token
  | .firstItem, .closeArray => some ⟨state.stack.tail, .closed (.array [])⟩
  | .firstItem, token => openValue state.stack token
  | .firstName, .closeObject => some ⟨state.stack, .closed (.object [])⟩
  | .firstName, .text name => some ⟨state.stack, .colon [] name⟩
  | .name members, .text name => some ⟨state.stack, .colon members name⟩
  | .colon members name, .colon => some ⟨.object members name :: state.stack, .value⟩
  | .closed tree, token => afterValue state.stack tree token
  | _, _ => none

def run (state : Builder) : List Token → Option Builder
  | [] => some state
  | token :: rest => (state.step token).bind fun next => run next rest

def finish (state : Builder) : Option Tree :=
  match state with
  | ⟨[], .closed tree⟩ => some tree
  | _ => none

end Builder

def ofTokens? (tokens : List Token) : Option Tree :=
  (Builder.start.run tokens).bind Builder.finish

mutual

def value? (budget : Nat) : Tree → Option Json
  | null => some .null
  | bool b => some (.bool b)
  | number n => n.value?.map Json.ofNumeral
  | text content => content.map .text
  | array items =>
      match budget with
      | 0 => none
      | left + 1 => (items? left items).map .array
  | object members =>
      match budget with
      | 0 => none
      | left + 1 => (members? left members []).map .object

def items? (budget : Nat) : List Tree → Option (List Json)
  | [] => some []
  | item :: rest => do
      let value ← value? budget item
      let values ← items? budget rest
      return value :: values

/-- Puts members into the order of their names, over earlier ones with the same name. -/
def members? (budget : Nat) :
    List (Option String × Tree) → List (String × Json) → Option (List (String × Json))
  | [], soFar => some soFar
  | (name, item) :: rest, soFar => do
      let name ← name
      let value ← value? budget item
      members? budget rest (insertMember soFar name value)

end

end Tree

end Switchboard.Json
