import Switchboard.Codec
import Switchboard.Filter.Chain
import Switchboard.Registry

/-! Offers: services that are provided here. An offer is announced at registries, and while it is
announced requests go through its chain of filters to the service. -/
namespace Switchboard

namespace Offer

structure Settings where
  interface : String
  uniqueId : String
  protocol : String
  appName : String
  host : String
  port : Nat
  weight : Nat
  warmupLength : Nat
  warmupWeight : Nat
  group : String
  registries : List Registry.Settings
  selection : String
  codec : String

/-- What an announced offer holds: its chain, its codec and the registries that know it under a
registration. -/
structure Announcement (ε : Type) where
  chain : Chain ε
  codec : Codec
  registration : Registry.Registration
  registries : List Nat

end Offer

structure Offer (ε : Type) where
  settings : Offer.Settings
  service : Service
  custom : List (Filter ε)
  act : Invoker ε
  announced : Option (Offer.Announcement ε)

namespace Offer

variable {ε : Type}

def context (o : Offer ε) : Context := .new .provider o.service

def warmupAttributes (s : Settings) (start : Nat) (p : Provider) : Provider :=
  if s.warmupLength = 0 then p
  else
    ((p.withAttribute Provider.warmupTimeKey (toString s.warmupLength)).withAttribute
      Provider.warmupWeightKey (toString s.warmupWeight)).withAttribute
      Provider.startTimeKey (toString start)

def provider (o : Offer ε) (start : Nat) : Provider :=
  let weighted :=
    (Provider.new o.settings.host o.settings.port o.settings.protocol).withAttribute
      Provider.weightKey (toString o.settings.weight)
  let named :=
    if o.service.appName.isEmpty then weighted
    else weighted.withAttribute Provider.appNameKey o.service.appName
  warmupAttributes o.settings start named

def registration (o : Offer ε) (start : Nat) : Registry.Registration :=
  ⟨o.service, o.settings.group, o.provider start⟩

end Offer

end Switchboard
