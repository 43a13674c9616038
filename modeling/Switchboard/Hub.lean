import Switchboard.Exchange.Membership
import Switchboard.Filter.Builtin
import Switchboard.Codec.Guarded
import Switchboard.Codec.Json
import Switchboard.Offer
import Switchboard.Reference
import Switchboard.Settings

/-! The hub: everything that the offers and references of a program share. It has a gate, the
catalogs of filters, codecs and balancers, and the exchange with the registries. Nothing is shared
beyond one hub. -/
namespace Switchboard

structure Hub (ε : Type) where
  settings : Settings
  gate : Gate
  filters : Catalog ε Context (Filter ε)
  codecs : Catalog ε Unit Codec
  balancers : Catalog ε Unit (Balancer ε)
  rotation : Rotation
  exchange : Exchange ε
  offers : List (Offer ε)
  references : List (Reference ε)
  proxies : Nat
  destroyed : Bool

namespace Hub

variable {ε : Type}

def rotationName : String := "weighted_round_robin"

def standardCodecs (ε : Type) : Catalog ε Unit Codec :=
  ((Catalog.new "serializer").register
    ⟨Codec.jsonName, 0, true, fun _ world => (.ok Codec.json, world)⟩).catalog

def standardBalancers (ε : Type) : Catalog ε Unit (Balancer ε) :=
  ((Catalog.new "load_balancer").register
    ⟨rotationName, 0, true, fun _ world => (.ok .rotation, world)⟩).catalog

def new (settings : Settings) (world : ε) : Hub ε where
  settings := settings
  gate := settings.gate
  filters := Filter.catalog ε false
  codecs := standardCodecs ε
  balancers := standardBalancers ε
  rotation := .empty
  exchange := .new world
  offers := []
  references := []
  proxies := 0
  destroyed := false

def world (h : Hub ε) : ε := h.exchange.world

def withWorld (h : Hub ε) (world : ε) : Hub ε := { h with exchange := h.exchange.withWorld world }

def view (ε : Type) : View (Hub ε) ε where
  get := world
  put world h := h.withWorld world
  get_put _ _ := rfl
  put_get _ := rfl
  put_put _ _ _ := rfl

def warn (h : Hub ε) (warnings : List Warning) : Hub ε :=
  { h with exchange := h.exchange.warn warnings }

def onExchange {α : Type} (h : Hub ε) (act : Exchange ε → Outcome α × Exchange ε) :
    Outcome α × Hub ε :=
  let (outcome, exchange) := act h.exchange
  (outcome, { h with exchange := exchange })

def guarded {α : Type} (h : Hub ε) (act : Gate → Checked α) : Outcome α × Hub ε :=
  let checked := act h.gate
  (checked.outcome, { h with gate := checked.gate }.warn checked.warnings)

def codec (h : Hub ε) (key : String) : Outcome Codec × Hub ε :=
  let found := h.codecs.get key () h.world
  (found.outcome, { h with codecs := found.catalog }.withWorld found.world)

def balancer (h : Hub ε) (key : String) : Outcome (Balancer ε) × Hub ε :=
  let found := h.balancers.get key () h.world
  (found.outcome, { h with balancers := found.catalog }.withWorld found.world)

def chain (h : Hub ε) (context : Context) (selection : String) (custom : List (Filter ε)) :
    Outcome (Chain ε) × Hub ε :=
  let built := Chain.build h.filters context selection custom h.world
  (built.outcome, { h with filters := built.catalog }.withWorld built.world)

/-- A service under the name of an application, by default that of the hub. -/
def service (h : Hub ε) (interface protocol uniqueId appName : String) : Service :=
  ⟨interface, protocol, uniqueId, if appName.isEmpty then h.settings.appName else appName⟩

/-- Destroys a hub once: its tasks stop and its registries are destroyed. -/
def destroy (h : Hub ε) : Hub ε :=
  if h.destroyed then h
  else
    { h with
      destroyed := true
      exchange := { h.exchange with tasks := h.exchange.tasks.stopAll }.destroyAll }

def addFilter (h : Hub ε) (d : Definition ε Context (Filter ε)) : Bool × Hub ε :=
  let registered := h.filters.register d
  (registered.accepted, { h with filters := registered.catalog }.warn registered.warnings)

def addCodec (h : Hub ε) (d : Definition ε Unit Codec) : Bool × Hub ε :=
  let registered := h.codecs.register d
  (registered.accepted, { h with codecs := registered.catalog }.warn registered.warnings)

def addBalancer (h : Hub ε) (d : Definition ε Unit (Balancer ε)) : Bool × Hub ε :=
  let registered := h.balancers.register d
  (registered.accepted, { h with balancers := registered.catalog }.warn registered.warnings)

def addRegistry (h : Hub ε) (d : Definition (Registry.Pool ε) Registry.Settings Nat) :
    Bool × Hub ε :=
  let registered := h.exchange.definitions.register d
  (registered.accepted,
    { h with exchange := { h.exchange with definitions := registered.catalog } }.warn
      registered.warnings)

def runNext (h : Hub ε) (limit : Nat) : Option (Hub ε) :=
  (h.exchange.runNext limit).map fun exchange => { h with exchange := exchange }

end Hub

end Switchboard
