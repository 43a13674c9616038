import Switchboard.Codec
import Switchboard.Json.Printer
import Switchboard.Json.Reader

/-! The JSON codec. A payload, a request or a response is written as an object with its fields in a
fixed order. It is read from an object with these fields, in any order and beside others that are
passed over, or from an array of exactly its fields. No more than 127 arrays and objects may be
open at a time, those passed over left out. -/
namespace Switchboard

open Text (Bytes)

namespace Json

def nesting : Nat := 127

def ofAttachments (attachments : Dictionary String) : Json :=
  object (attachments.entries.map fun entry => (entry.1, text entry.2))

def ofPayload (p : Payload) : Json :=
  object [("class_name", text p.className), ("value", p.value)]

def ofRequest (r : Request) : Json :=
  object [("service", text r.service), ("method", text r.method),
    ("args", array (r.arguments.map ofPayload)), ("attachments", ofAttachments r.attachments)]

def ofResponse (r : Response) : Json :=
  object [("value", (r.value.map ofPayload).getD null), ("error", (r.error.map text).getD null),
    ("attachments", ofAttachments r.attachments)]

namespace Tree

def occurrences (name : String) (members : List (Option String × Tree)) : List Tree :=
  (members.filter fun member => member.1 == some name).map (·.2)

/-- The field of an object, if it is there; twice it must not be there. -/
def field? (members : List (Option String × Tree)) (name : String) : Option (Option Tree) :=
  match occurrences name members with
  | [] => some none
  | [tree] => some (some tree)
  | _ => none

def fields? (names : List String) : Tree → Option (List (Option Tree))
  | object members =>
      if members.all fun member => member.1.isSome then names.mapM (field? members) else none
  | array items => if items.length = names.length then some (items.map some) else none
  | _ => none

def text? : Tree → Option String
  | text content => content
  | _ => none

/-- A record costs one level of the budget. -/
def record? {α : Type} (names : List String) (make : Nat → List (Option Tree) → Option α)
    (budget : Nat) (tree : Tree) : Option α :=
  match budget with
  | 0 => none
  | left + 1 => (fields? names tree).bind (make left)

def payload? : Nat → Tree → Option Payload :=
  record? ["class_name", "value"] fun budget fields => match fields with
    | [some className, some value] => do
        let className ← className.text?
        let value ← value.value? budget
        return ⟨className, value⟩
    | _ => none

def attachments? (budget : Nat) : Tree → Option (Dictionary String)
  | object members =>
      match budget with
      | 0 => none
      | _ + 1 => do
          let entries ← members.mapM fun member => do
            let name ← member.1
            let content ← member.2.text?
            return (name, content)
          return .ofList entries
  | _ => none

def arguments? (budget : Nat) : Tree → Option (List Payload)
  | array items =>
      match budget with
      | 0 => none
      | left + 1 => items.mapM (payload? left)
  | _ => none

def request? : Nat → Tree → Option Request :=
  record? ["service", "method", "args", "attachments"] fun budget fields => match fields with
    | [some service, some method, some arguments, some attachments] => do
        let service ← service.text?
        let method ← method.text?
        let arguments ← arguments.arguments? budget
        let attachments ← attachments.attachments? budget
        return ⟨service, method, arguments, attachments⟩
    | _ => none

def optional? {α : Type} (make : Tree → Option α) : Option Tree → Option (Option α)
  | none => some none
  | some null => some none
  | some tree => (make tree).map some

def response? : Nat → Tree → Option Response :=
  record? ["value", "error", "attachments"] fun budget fields => match fields with
    | [value, error, some attachments] => do
        let value ← optional? (payload? budget) value
        let error ← optional? text? error
        let attachments ← attachments.attachments? budget
        return ⟨value, error, attachments⟩
    | _ => none

end Tree

end Json

namespace Codec

def writeJson (value : Json) : Bytes := Text.encode value.render

def readJson {α : Type} (make : Nat → Json.Tree → Option α) (bytes : Bytes) (side : Side) :
    Outcome α :=
  match Json.readWith (make Json.nesting) (Text.decode bytes) with
  | .ok value => .ok value
  | .error malformed => .error (.decoding side malformed.message)

def jsonName : String := "json"

def json : Codec where
  encode payload _ := .ok (writeJson (.ofPayload payload))
  decode bytes expected side := do
    let payload ← readJson Json.Tree.payload? bytes side
    expect expected payload side
    return payload
  encodeRequest request _ := .ok (writeJson (.ofRequest request))
  decodeRequest bytes side := readJson Json.Tree.request? bytes side
  encodeResponse response _ := .ok (writeJson (.ofResponse response))
  decodeResponse bytes expected side := do
    let response ← readJson Json.Tree.response? bytes side
    match response.value with
    | some payload => expect expected payload side
    | none => pure ()
    return response

end Codec

end Switchboard
