import Switchboard.Hub
import Switchboard.Provider.Url

/-! The references of a hub, by their number, which is also that of their address book. Binding a
reference fills its book and builds its proxy; releasing it ends its subscriptions. -/
namespace Switchboard.Hub

open Text (Bytes)

variable {ε : Type}

abbrev Transport (σ : Type) := Provider → Bytes → σ → Outcome Bytes × σ

def addReference (h : Hub ε) (s : Reference.Settings) (custom : List (Filter ε)) : Nat × Hub ε :=
  let service := h.service s.interface s.protocol s.uniqueId s.appName
  (h.references.length,
    { h with
      references := h.references ++ [⟨s, service, custom, [], none⟩]
      exchange := h.exchange.addBook.2 })

def withReference (h : Hub ε) (number : Nat) (reference : Reference ε) : Hub ε :=
  { h with references := h.references.set number reference }

def book (h : Hub ε) (number : Nat) : Book := h.exchange.book number

def withBook (h : Hub ε) (number : Nat) (book : Book) : Hub ε :=
  { h with exchange := h.exchange.withBook number book }

def noReference {α : Type} (h : Hub ε) : Outcome α × Hub ε :=
  (.error (.internal "there is no such reference"), h)

def cluster (h : Hub ε) (number : Nat) : Outcome (Reference.Cluster ε) × Hub ε :=
  match h.references[number]? with
  | none => h.noReference
  | some reference =>
      proceed (h.balancer reference.settings.balancer) fun balancer found =>
        proceed (found.codec reference.settings.codec) fun codec after =>
          (.ok ⟨number, reference.service, balancer, codec, reference.settings.expected⟩, after)

/-- Subscribes at all registries that allow it and gives what they have brought. A reference that
has subscriptions already only shows its book. -/
def subscribe (h : Hub ε) (number : Nat) : Outcome (List Group) × Hub ε :=
  match h.references[number]? with
  | none => h.noReference
  | some reference =>
      if reference.subscribed.isEmpty then
        let cleared := h.withBook number ((h.book number).updateAll [])
        let sources := reference.settings.registries.filter (·.subscribes)
        proceed (cleared.onExchange
            (Exchange.followAll reference.service (.reference number) sources))
          fun followed after =>
            (.ok (followed.flatMap (·.groups)),
              after.withReference number
                { reference with subscribed := followed.map (·.number) })
      else (.ok (h.book number).groups, h)

def unsubscribe (h : Hub ε) (number : Nat) : Hub ε :=
  match h.references[number]? with
  | none => h
  | some reference =>
      { h.withReference number { reference with subscribed := [] } with
        exchange := h.exchange.partAll reference.service (.reference number)
          reference.subscribed }

def seed (h : Hub ε) (number : Nat) (list : String) : Outcome Unit × Hub ε :=
  match (Reference.addresses list).mapM Provider.parse with
  | .error failure => (.error failure, h)
  | .ok providers =>
      (.ok (), h.withBook number
        ((h.book number).update (Group.prepare ⟨Group.directName, providers⟩)))

def fill (h : Hub ε) (number : Nat) (direct : Option String) : Outcome Unit × Hub ε :=
  match direct with
  | some list => h.seed number list
  | none => proceed (h.subscribe number) fun _ after => (.ok (), after)

def buildProxy (h : Hub ε) (number : Nat) (reference : Reference ε) :
    Outcome (Reference.Proxy ε) × Hub ε :=
  proceed (h.cluster number) fun cluster found =>
    proceed (found.chain reference.context reference.settings.selection reference.custom)
      fun chain built => (.ok ⟨built.proxies, chain, cluster⟩, built)

/-- Takes over a proxy, or ends the subscriptions if there is none. -/
def settle (number : Nat) (service : Service) (built : Outcome (Reference.Proxy ε) × Hub ε) :
    Outcome (Reference.Proxy ε) × Hub ε :=
  match built with
  | (.ok proxy, h) =>
      match h.references[number]? with
      | none => h.noReference
      | some reference =>
          (.ok proxy,
            { h.withReference number { reference with proxy := some proxy } with
              proxies := h.proxies + 1 })
  | (.error failure, h) =>
      (.error failure, (h.unsubscribe number).warn [.bindingFailed service.dataId failure])

/-- Binds a reference. One that is bound keeps its proxy. -/
def bind (h : Hub ε) (number : Nat) : Outcome (Reference.Proxy ε) × Hub ε :=
  match h.references[number]? with
  | none => h.noReference
  | some reference =>
      match reference.proxy with
      | some proxy => (.ok proxy, h)
      | none =>
          proceed (h.fill number reference.settings.direct) fun _ filled =>
            settle number reference.service (filled.buildProxy number reference)

def release (h : Hub ε) (number : Nat) : Hub ε :=
  match h.references[number]? with
  | none => h
  | some reference =>
      if reference.proxy.isNone then h
      else (h.withReference number { reference with proxy := none }).unsubscribe number

def choose (h : Hub ε) (balancer : Balancer ε) (request : Request) (providers : List Provider)
    (now : Nat) : Outcome Provider × Hub ε :=
  match balancer with
  | .rotation =>
      let (outcome, rotation) := h.rotation.select request.service providers now
      (outcome, { h with rotation := rotation })
  | .custom pick =>
      let (outcome, world) := pick request providers now h.world
      (outcome, h.withWorld world)

/-- A response that tells an error is the failure of its service. -/
def resultOf (service : Service) (response : Response) : Outcome Response :=
  match response.error with
  | some detail => .error (.service service.name detail)
  | none => .ok response

def call (transport : Transport (Hub ε)) (now : Nat) (c : Reference.Cluster ε) :
    Invoker (Hub ε) := fun request h =>
  proceed (h.choose c.balancer request ((h.book c.reference).candidates now) now)
    fun provider chosen =>
      proceed (chosen.guarded (Codec.Guarded.encodeRequest c.codec request .consumer))
        fun bytes encoded =>
          proceed (transport provider bytes encoded) fun reply received =>
            proceed (received.guarded
                (Codec.Guarded.decodeResponse c.codec reply c.expected .consumer))
              fun response decoded => (resultOf c.service response, decoded)

def invoke (transport : Transport (Hub ε)) (now : Nat) (p : Reference.Proxy ε) :
    Invoker (Hub ε) :=
  p.chain.invoke (view ε) (call transport now p.cluster)

end Switchboard.Hub
