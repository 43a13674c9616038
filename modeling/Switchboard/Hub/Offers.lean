import Switchboard.Hub

/-! The offers of a hub, by their number. Announcing an offer builds its chain and registers a
provider wherever the settings say so; taking it back undoes both. Requests are answered only while
the offer is announced. -/
namespace Switchboard.Hub

open Text (Bytes)

variable {ε : Type}

def addOffer (h : Hub ε) (s : Offer.Settings) (custom : List (Filter ε)) (act : Invoker ε) :
    Nat × Hub ε :=
  let service := h.service s.interface s.protocol s.uniqueId s.appName
  (h.offers.length, { h with offers := h.offers ++ [⟨s, service, custom, act, none⟩] })

def withOffer (h : Hub ε) (number : Nat) (offer : Offer ε) : Hub ε :=
  { h with offers := h.offers.set number offer }

def isAnnounced (h : Hub ε) (number : Nat) : Bool :=
  (h.offers[number]?).any fun offer => offer.announced.isSome

/-- Builds what an announced offer holds and registers its provider, starting now. -/
def prepareOffer (h : Hub ε) (offer : Offer ε) (now : Nat) :
    Outcome (Offer.Announcement ε) × Hub ε :=
  proceed (h.chain offer.context offer.settings.selection offer.custom) fun chain built =>
    proceed (built.codec offer.settings.codec) fun codec found =>
      let registration := offer.registration now
      let targets := offer.settings.registries.filter (·.registers)
      proceed (found.onExchange (Exchange.enterAll registration targets)) fun numbers entered =>
        (.ok ⟨chain, codec, registration, numbers⟩, entered)

/-- Announces an offer. One that is announced stays as it is. -/
def announce (h : Hub ε) (number now : Nat) : Outcome Unit × Hub ε :=
  match h.offers[number]? with
  | none => (.error (.internal "there is no such offer"), h)
  | some offer =>
      if offer.announced.isSome then (.ok (), h)
      else proceed (h.prepareOffer offer now) fun announcement after =>
        (.ok (), after.withOffer number { offer with announced := some announcement })

def takeBack (h : Hub ε) (number : Nat) : Hub ε :=
  match h.offers[number]? with
  | none => h
  | some offer =>
      match offer.announced with
      | none => h
      | some a =>
          { h.withOffer number { offer with announced := none } with
            exchange := h.exchange.leaveAll a.registration a.registries }

/-- The answer that a chain's result becomes: a failure is told as the error of a response. -/
def responseOf (outcome : Outcome Response) : Response :=
  match outcome with
  | .ok response => response
  | .error failure => { Response.empty with error := some failure.message }

def handle (h : Hub ε) (number : Nat) (bytes : Bytes) : Outcome Bytes × Hub ε :=
  match h.offers[number]? with
  | none => (.error (.internal "there is no such offer"), h)
  | some offer =>
      match offer.announced with
      | none => (.error (.service offer.service.name "service is not exported"), h)
      | some a =>
          proceed (h.guarded (Codec.Guarded.decodeRequest a.codec bytes .provider))
            fun request decoded =>
              let (outcome, world) := a.chain.invoke (.self ε) offer.act request decoded.world
              (decoded.withWorld world).guarded
                (Codec.Guarded.encodeResponse a.codec (responseOf outcome) .provider)

end Switchboard.Hub
