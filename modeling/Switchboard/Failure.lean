import Switchboard.Call

/-! The ways in which an operation fails, each with a text, a stable code and a category. A
failure in a filter keeps the failure that the filter reported as its source. -/
namespace Switchboard

inductive Failure where
  | missingExtension (capability name : String)
  | settings (detail : String)
  | clientFilter (filter : String) (source : Failure)
  | providerFilter (filter : String) (source : Failure)
  | encoding (side : Side) (detail : String)
  | decoding (side : Side) (detail : String)
  | denied (side : Side) (className : String)
  | noProvider (service : String)
  | registry (protocol detail : String)
  | transport (address detail : String)
  | service (service detail : String)
  | internal (detail : String)
deriving DecidableEq

abbrev Outcome (α : Type) := Except Failure α

namespace Failure

inductive Category where
  | configuration
  | filter
  | serialization
  | security
  | routing
  | registry
  | transport
  | internal
deriving DecidableEq

def Category.label : Category → String
  | configuration => "configuration"
  | filter => "filter"
  | serialization => "serialization"
  | security => "security"
  | routing => "routing"
  | registry => "registry"
  | transport => "transport"
  | internal => "internal"

def message : Failure → String
  | missingExtension capability name =>
      "extension `" ++ name ++ "` of capability `" ++ capability ++ "` is not registered"
  | settings detail => "invalid configuration: " ++ detail
  | clientFilter filter source => "client filter `" ++ filter ++ "` failed: " ++ message source
  | providerFilter filter source => "provider filter `" ++ filter ++ "` failed: " ++ message source
  | encoding side detail => side.label ++ " serialize failed: " ++ detail
  | decoding side detail => side.label ++ " deserialize failed: " ++ detail
  | denied side className => side.label ++ " serialize check denied class `" ++ className ++ "`"
  | noProvider name => "no available provider for service `" ++ name ++ "`"
  | registry protocol detail => "registry `" ++ protocol ++ "` failed: " ++ detail
  | transport address detail => "transport to `" ++ address ++ "` failed: " ++ detail
  | service name detail => "service `" ++ name ++ "` returned an error: " ++ detail
  | internal detail => "internal failure: " ++ detail

def code : Failure → String
  | missingExtension _ _ => "rpc.config.extension_missing"
  | settings _ => "rpc.config.invalid"
  | clientFilter _ _ => "rpc.filter.client"
  | providerFilter _ _ => "rpc.filter.provider"
  | encoding .consumer _ => "rpc.serialize.client"
  | encoding .provider _ => "rpc.serialize.server"
  | decoding .consumer _ => "rpc.deserialize.client"
  | decoding .provider _ => "rpc.deserialize.server"
  | denied _ _ => "rpc.security.serialize_denied"
  | noProvider _ => "rpc.routing.no_provider"
  | registry _ _ => "rpc.registry.failure"
  | transport _ _ => "rpc.transport.failure"
  | service _ _ => "rpc.service.failure"
  | internal _ => "rpc.internal"

def category : Failure → Category
  | missingExtension _ _ => .configuration
  | settings _ => .configuration
  | clientFilter _ _ => .filter
  | providerFilter _ _ => .filter
  | encoding _ _ => .serialization
  | decoding _ _ => .serialization
  | denied _ _ => .security
  | noProvider _ => .routing
  | registry _ _ => .registry
  | transport _ _ => .transport
  | service _ _ => .internal
  | internal _ => .internal

def sources : Failure → List Failure
  | clientFilter _ source => source :: sources source
  | providerFilter _ source => source :: sources source
  | _ => []

/-- A failure that a filter has reported itself. One that comes from a filter already is left as it
is. -/
def ofFilter (side : Side) (filter : String) (source : Failure) : Failure :=
  if source.category = .filter then source
  else match side with
    | .consumer => clientFilter filter source
    | .provider => providerFilter filter source

theorem category_ofFilter (side : Side) (filter : String) (source : Failure) :
    (ofFilter side filter source).category = .filter := by
  unfold ofFilter
  split
  next h => exact h
  next => cases side <;> rfl

theorem ofFilter_ofFilter (side outer : Side) (filter name : String) (source : Failure) :
    ofFilter outer name (ofFilter side filter source) = ofFilter side filter source :=
  if_pos (category_ofFilter side filter source)

end Failure

end Switchboard
