import Switchboard.Dictionary
import Switchboard.Json.Value

/-! What travels in a call. A payload is a value with the name of its class; a request carries
payloads as arguments, a response carries at most one, and both carry attachments, texts that
filters pass along. -/
namespace Switchboard

inductive Side where
  | consumer
  | provider
deriving DecidableEq

def Side.label : Side → String
  | consumer => "consumer"
  | provider => "provider"

structure Payload where
  className : String
  value : Json

structure Request where
  service : String
  method : String
  arguments : List Payload
  attachments : Dictionary String

structure Response where
  value : Option Payload
  error : Option String
  attachments : Dictionary String

namespace Request

def new (service method : String) : Request := ⟨service, method, [], .empty⟩

def withArgument (r : Request) (argument : Payload) : Request :=
  { r with arguments := r.arguments ++ [argument] }

def attach (r : Request) (key value : String) : Request :=
  { r with attachments := r.attachments.insert key value }

def attachment? (r : Request) (key : String) : Option String := r.attachments.get? key

end Request

namespace Response

def empty : Response := ⟨none, none, .empty⟩

def ofValue (value : Payload) : Response := { empty with value := some value }

def attach (r : Response) (key value : String) : Response :=
  { r with attachments := r.attachments.insert key value }

end Response

end Switchboard
