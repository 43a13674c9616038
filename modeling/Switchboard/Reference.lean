import Switchboard.Codec
import Switchboard.Filter.Chain
import Switchboard.Registry
import Switchboard.Rotation

/-! References: services that are used from here. A reference has an address book, which registries
or a list of addresses fill, and while it is bound its proxy sends requests through a chain of
filters to a provider from the book. -/
namespace Switchboard

/-- Chooses one of several providers for a request, by weighted rotation or in a way of its own. -/
inductive Balancer (ε : Type) where
  | rotation
  | custom (pick : Request → List Provider → Nat → ε → Outcome Provider × ε)

namespace Reference

structure Settings where
  interface : String
  uniqueId : String
  protocol : String
  appName : String
  registries : List Registry.Settings
  direct : Option String
  selection : String
  balancer : String
  codec : String
  expected : Option String

/-- What calls a provider from the book of a reference, with the class that an answer must have. -/
structure Cluster (ε : Type) where
  reference : Nat
  service : Service
  balancer : Balancer ε
  codec : Codec
  expected : Option String

structure Proxy (ε : Type) where
  number : Nat
  chain : Chain ε
  cluster : Cluster ε

end Reference

structure Reference (ε : Type) where
  settings : Reference.Settings
  service : Service
  custom : List (Filter ε)
  subscribed : List Nat
  proxy : Option (Reference.Proxy ε)

namespace Reference

variable {ε : Type}

def context (r : Reference ε) : Context := .new .consumer r.service

def addresses (list : String) : List String :=
  ((Text.splitWhere (fun c => c == ';' || c == ',') list.toList).map Text.trimChars).filterMap
    fun address => if address.isEmpty then none else some (String.ofList address)

end Reference

end Switchboard
