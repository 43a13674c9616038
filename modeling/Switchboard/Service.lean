import Switchboard.Call

/-! Services and where a call to them is made. A service is an interface under a protocol, with an
identifier where there are several of one interface. Registries know it by its data id. -/
namespace Switchboard

structure Service where
  interface : String
  protocol : String
  uniqueId : String
  appName : String
deriving DecidableEq

namespace Service

def name (s : Service) : String :=
  if s.uniqueId.isEmpty then s.interface else s.interface ++ ":" ++ s.uniqueId

def dataId (s : Service) : String := s.name ++ "@" ++ s.protocol

end Service

structure Context where
  side : Side
  service : Service
  appName : String

def Context.new (side : Side) (service : Service) : Context := ⟨side, service, service.appName⟩

end Switchboard
