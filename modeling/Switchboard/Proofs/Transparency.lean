import Switchboard.Proofs.Ordinary
import Switchboard.Proofs.Share

/-! A call through the proxy of a reference to an announced offer, from end to end. With the two
filters alone and with JSON at both ends the service is called once, with the request as it was
given but for the marks of a context filter, and its answer comes back but for such marks. The offer
may belong to the hub of the reference or to another hub somewhere in its surroundings. -/
namespace Switchboard

open Text (Bytes)

/-- Attachments before and after a context filter, which marks them if the selection takes it. -/
structure Filter.Marking (c : Context) (selection : String) (before after : Dictionary String) :
    Prop where
  taken : Filter.Marks selection → ∀ key, after.get? key = Filter.marked c before key
  untaken : ¬ Filter.Marks selection → after = before

structure Request.Marked (r marked : Request) (c : Context) (selection : String) : Prop where
  service : marked.service = r.service
  method : marked.method = r.method
  arguments : marked.arguments = r.arguments
  attachments : Filter.Marking c selection r.attachments marked.attachments

structure Response.Marked (r marked : Response) (c : Context) (selection : String) : Prop where
  value : marked.value = r.value
  error : marked.error = r.error
  attachments : Filter.Marking c selection r.attachments marked.attachments

namespace Chain

variable {ε : Type} {chain : Chain ε} {c : Context} {selection : String}

theorem Chosen.marking (chosen : chain.Chosen c selection) (attachments : Dictionary String) :
    Filter.Marking c selection attachments
      (if Filter.contextName ∈ chain.names then Filter.stamp c attachments else attachments) := by
  split
  next takes =>
    have selects := chosen.context.mp takes
    exact ⟨fun _ => Filter.get?_stamp c attachments, fun deselects => absurd selects deselects⟩
  next leaves =>
    have deselects := mt chosen.context.mpr leaves
    exact ⟨fun selects => absurd selects deselects, fun _ => rfl⟩

theorem Chosen.marked_passedOn (chosen : chain.Chosen c selection) (r : Request) :
    r.Marked (chain.passedOn c r) c selection := by
  have attachments : (chain.passedOn c r).attachments =
      if Filter.contextName ∈ chain.names then Filter.stamp c r.attachments else r.attachments := by
    unfold passedOn
    split <;> rfl
  refine ⟨?_, ?_, ?_, attachments ▸ chosen.marking r.attachments⟩ <;>
    (unfold passedOn; split <;> rfl)

theorem Chosen.marked_handedBack (chosen : chain.Chosen c selection) (r : Response) :
    r.Marked (chain.handedBack c r) c selection := by
  have attachments : (chain.handedBack c r).attachments =
      if Filter.contextName ∈ chain.names then Filter.stamp c r.attachments else r.attachments := by
    unfold handedBack
    split <;> rfl
  exact ⟨chain.handedBack_value c r, chain.handedBack_error c r,
    attachments ▸ chosen.marking r.attachments⟩

end Chain

def View.within {σ τ ρ : Type} (outer : View σ τ) (inner : View τ ρ) : View σ ρ where
  get state := inner.get (outer.get state)
  put world state := outer.put (inner.put world (outer.get state)) state
  get_put world state := by rw [outer.get_put, inner.get_put]
  put_get state := by rw [inner.put_get, outer.put_get]
  put_put world other state := by rw [outer.get_put, inner.put_put, outer.put_put]

/-- Where the hub of an offer is, seen from the hub of a reference. -/
inductive Site (ε : Type) : Type → Type 1 where
  | here : Site ε ε
  | beyond {δ : Type} (inner : View ε (Hub δ)) : Site ε δ

namespace Site

variable {ε δ : Type}

def view : Site ε δ → View (Hub ε) (Hub δ)
  | here => .self (Hub ε)
  | beyond inner => (Hub.view ε).within inner

def deliver (site : Site ε δ) (number : Nat) : Hub.Transport (Hub ε) := fun _ bytes h =>
  let handled := (site.view.get h).handle number bytes
  (handled.1, site.view.put handled.2 h)

end Site

/-- A payload that a gate accepts and that JSON carries within so many levels. -/
structure Gate.Carries (g : Gate) (levels : Nat) (payload : Payload) : Prop where
  accepted : g.Accepts payload.className
  portable : payload.Portable
  shallow : payload.value.depth ≤ levels

theorem Gate.Carries.onward {g next : Gate} {levels : Nat} {payload : Payload}
    (carries : g.Carries levels payload) (onward : g.Onward next) : next.Carries levels payload :=
  ⟨(onward.accepts _).mpr carries.accepted, carries.portable, carries.shallow⟩

def Balancer.isRotation {ε : Type} : Balancer ε → Bool
  | rotation => true
  | custom _ => false

theorem Balancer.eq_rotation {ε : Type} {b : Balancer ε} (h : b.isRotation = true) :
    b = .rotation := by
  cases b with
  | rotation => rfl
  | custom pick => cases h

namespace Hub

variable {α ε δ : Type} {h : Hub ε} {g k : Hub δ} {site : Site ε δ} {transport : Transport (Hub ε)}
  {now n i : Nat} {reference : Reference ε} {offer : Offer δ} {p : Reference.Proxy ε}
  {r : Request} {service : Service} {c : Context} {selection : String}

structure Calls (h : Hub ε) (n : Nat) (reference : Reference ε) (p : Reference.Proxy ε) : Prop where
  ordinary : Ordinary h
  known : h.references[n]? = some reference
  bound : reference.proxy = some p
  json : reference.settings.codec = Codec.jsonName
  plain : reference.custom = []

structure Answered (g : Hub δ) (i : Nat) (offer : Offer δ) : Prop where
  ordinary : Ordinary g
  known : g.offers[i]? = some offer
  announced : offer.announced.isSome
  json : offer.settings.codec = Codec.jsonName
  plain : offer.custom = []

theorem Answered.beside (answered : Answered g i offer) (beside : Beside g k) :
    Answered k i offer where
  ordinary := answered.ordinary.beside beside
  known := beside.offers ▸ answered.known
  announced := answered.announced
  json := answered.json
  plain := answered.plain

/-- A request finds a provider, and what is sent there comes to an offer. -/
def Reaches (site : Site ε δ) (transport : Transport (Hub ε)) (now : Nat) (h : Hub ε)
    (balancer : Balancer ε) (n : Nat) (r : Request) (chosen : Hub ε) (i : Nat) : Prop :=
  ∃ provider, h.choose balancer r ((h.book n).candidates now) now = (.ok provider, chosen) ∧
    ∀ bytes state, transport provider bytes state = site.deliver i provider bytes state

/-- What a call brings back when the service has given an outcome. -/
inductive Brings (service : Service) (c : Context) (selection : String) :
    Outcome Response → Outcome Response → Prop where
  | failed (failure : Failure) :
      Brings service c selection (.error failure) (.error (.service service.name failure.message))
  | told (response : Response) (detail : String) (error : response.error = some detail) :
      Brings service c selection (.ok response) (.error (.service service.name detail))
  | given (response returned : Response) (silent : response.error = none)
      (marked : response.Marked returned c selection) :
      Brings service c selection (.ok response) (.ok returned)

theorem Brings.exists_marked {response : Response} {outcome : Outcome Response}
    (brings : Brings service c selection (.ok response) outcome) (silent : response.error = none) :
    ∃ returned, outcome = .ok returned ∧ response.Marked returned c selection := by
  cases brings with
  | told _ detail error => cases silent.symm.trans error
  | given _ returned _ marked => exact ⟨returned, rfl, marked⟩

def answer (chain : Chain δ) (c : Context) (outcome : Outcome Response) : Response :=
  responseOf (outcome.map (chain.handedBack c))

theorem brings_answer {chain : Chain δ} (chosen : chain.Chosen c selection) (service : Service)
    (outcome : Outcome Response) :
    Brings service c selection outcome (resultOf service (answer chain c outcome)) := by
  cases outcome with
  | error failure => exact .failed failure
  | ok response =>
      have error := chain.handedBack_error c response
      simp only [answer, Except.map, responseOf, resultOf, error]
      cases told : response.error with
      | some detail => exact .told response detail told
      | none => exact .given response _ told (chosen.marked_handedBack response)

theorem forall_mem_answer {chain : Chain δ} {outcome : Outcome Response} {kind : Payload → Prop}
    (kinds : ∀ response, outcome = .ok response → ∀ payload ∈ response.value, kind payload) :
    ∀ payload ∈ (answer chain c outcome).value, kind payload := by
  cases outcome with
  | error failure =>
      intro payload none
      cases none
  | ok response =>
      simp only [answer, Except.map, responseOf, Chain.handedBack_value]
      exact kinds response rfl

theorem beside_choose (h : Hub ε) (balancer : Balancer ε) (r : Request) (providers : List Provider)
    (now : Nat) : Beside h (h.choose balancer r providers now).2 := by
  cases balancer <;> exact ⟨.refl _, rfl, rfl, rfl, rfl⟩

def turned (h : Hub ε) (service : String) : Hub ε :=
  { h with rotation := h.rotation.advance service }

theorem beside_turned (h : Hub ε) (service : String) : Beside h (h.turned service) :=
  ⟨.refl _, rfl, rfl, rfl, rfl⟩

theorem exists_choose_rotation (h : Hub ε) (r : Request) {providers : List Provider}
    (stocked : providers ≠ []) (now : Nat) :
    ∃ provider ∈ providers,
      h.choose .rotation r providers now = (.ok provider, h.turned r.service) ∧
      (0 < provider.effectiveWeight now ∨ ∀ other ∈ providers, other.effectiveWeight now = 0) := by
  obtain ⟨provider, member, picked, weighs⟩ :=
    Rotation.exists_pick stocked now (h.rotation.tick r.service)
  refine ⟨provider, member, ?_, weighs⟩
  simp only [choose, Rotation.select_of_ne_nil _ _ stocked, picked, turned]

theorem reaches_by_rotation (stocked : (h.book n).candidates now ≠ [])
    (delivers : ∀ provider bytes state,
      transport provider bytes state = site.deliver i provider bytes state) (r : Request) :
    Reaches site transport now h .rotation n r (h.turned r.service) i := by
  obtain ⟨provider, -, choice, -⟩ := h.exists_choose_rotation r stocked now
  exact ⟨provider, choice, delivers provider⟩

theorem beside_get_guarded (site : Site ε δ) (h : Hub ε) {ask : Gate → Checked α}
    (onward : h.gate.Onward (ask h.gate).gate) :
    Beside (site.view.get h) (site.view.get (h.guarded ask).2) ∧
      (site.view.get (h.guarded ask).2).world = (site.view.get h).world := by
  cases site with
  | here => exact ⟨h.beside_guarded onward, rfl⟩
  | beyond inner => exact ⟨.refl _, rfl⟩

theorem beside_put (site : Site ε δ) (h : Hub ε) (beside : Beside (site.view.get h) k) :
    Beside h (site.view.put k h) := by
  cases site with
  | here => exact beside
  | beyond inner => exact ⟨.refl _, rfl, rfl, rfl, rfl⟩

theorem handle_passes {a : Offer.Announcement δ} (faithful : g.gate.Faithful)
    (known : g.offers[i]? = some offer) (announced : offer.announced = some a)
    (json : a.codec = Codec.json) (builtIn : a.chain.BuiltIn c) (side : c.side = .provider)
    (arguments : ∀ payload ∈ r.arguments, g.gate.Carries 124 payload)
    (values : ∀ response, (offer.act r g.world).1 = .ok response →
      ∀ payload ∈ response.value, g.gate.Accepts payload.className) :
    (g.handle i (Codec.writeJson (.ofRequest r))).1 =
        .ok (Codec.writeJson (.ofResponse (answer a.chain c (offer.act r g.world).1))) ∧
      (g.handle i (Codec.writeJson (.ofRequest r))).2.world = (offer.act r g.world).2 := by
  have read : Codec.json.decodeRequest (Codec.writeJson (.ofRequest r)) .provider = .ok r :=
    (Codec.returns_request r).kept (fun payload member => (arguments payload member).portable)
      ((Codec.request_within_nesting r).mpr fun payload member =>
        (arguments payload member).shallow)
      id _
  have passed : (g.guarded (Codec.Guarded.decodeRequest .json (Codec.writeJson (.ofRequest r))
      .provider)).1 = .ok r :=
    (outcome_guarded _ _).trans (Codec.decodeRequest_of_accepted faithful read
      fun payload member => (arguments payload member).accepted)
  have onward := (g.beside_guarded
    (Codec.onward_decodeRequest .json (Codec.writeJson (.ofRequest r)) .provider g.gate)).gate
  have still := g.world_guarded
    (Codec.Guarded.decodeRequest .json (Codec.writeJson (.ofRequest r)) .provider)
  rw [handle_announced known announced json, proceed_ok passed]
  generalize (g.guarded (Codec.Guarded.decodeRequest .json (Codec.writeJson (.ofRequest r))
    .provider)).2 = decoded at onward still ⊢
  simp only [builtIn.invoke_provider side, still]
  have accepted : ∀ payload ∈ (answer a.chain c (offer.act r g.world).1).value,
      decoded.gate.Accepts payload.className :=
    fun payload member => (onward.accepts _).mpr (forall_mem_answer values payload member)
  exact ⟨Codec.encodeResponse_of_accepted (onward.faithful faithful) accepted .provider, rfl⟩

theorem deliver_passes {a : Offer.Announcement δ} {e : Hub ε}
    (faithful : (site.view.get e).gate.Faithful) (known : (site.view.get e).offers[i]? = some offer)
    (announced : offer.announced = some a) (json : a.codec = Codec.json)
    (builtIn : a.chain.BuiltIn c) (side : c.side = .provider)
    (arguments : ∀ payload ∈ r.arguments, (site.view.get e).gate.Carries 124 payload)
    (values : ∀ response, (offer.act r (site.view.get e).world).1 = .ok response →
      ∀ payload ∈ response.value, (site.view.get e).gate.Accepts payload.className)
    (provider : Provider) :
    ∃ replied, site.deliver i provider (Codec.writeJson (.ofRequest r)) e =
        (.ok (Codec.writeJson (.ofResponse
          (answer a.chain c (offer.act r (site.view.get e).world).1))), replied) ∧
      Beside e replied ∧ Beside (site.view.get e) (site.view.get replied) ∧
      (site.view.get replied).world = (offer.act r (site.view.get e).world).2 := by
  obtain ⟨reply, called⟩ :=
    handle_passes faithful known announced json builtIn side arguments values
  have handled := (site.view.get e).beside_handle i (Codec.writeJson (.ofRequest r))
  refine ⟨_, Prod.ext reply rfl, beside_put site e handled, ?_, ?_⟩
  · exact (site.view.get_put _ e).symm ▸ handled
  · exact (congrArg Hub.world (site.view.get_put _ e)).trans called

theorem call_passes {l : Reference.Cluster ε} {provider : Provider} {chosen replied : Hub ε}
    {response : Response} (json : l.codec = Codec.json)
    (choice : h.choose l.balancer r ((h.book l.reference).candidates now) now =
      (.ok provider, chosen))
    (faithful : chosen.gate.Faithful)
    (arguments : ∀ payload ∈ r.arguments, chosen.gate.Carries 124 payload)
    (reply : transport provider (Codec.writeJson (.ofRequest r))
      (chosen.guarded (Codec.Guarded.encodeRequest .json r .consumer)).2 =
        (.ok (Codec.writeJson (.ofResponse response)), replied))
    (onward : chosen.gate.Onward replied.gate)
    (values : ∀ payload ∈ response.value, chosen.gate.Carries 125 payload ∧
      ∀ className ∈ l.expected, className = payload.className) :
    call transport now l r h = (resultOf l.service response, (replied.guarded
      (Codec.Guarded.decodeResponse .json (Codec.writeJson (.ofResponse response)) l.expected
        .consumer)).2) := by
  have sent : (chosen.guarded (Codec.Guarded.encodeRequest .json r .consumer)).1 =
      .ok (Codec.writeJson (.ofRequest r)) :=
    (outcome_guarded _ _).trans (Codec.encodeRequest_of_accepted faithful
      (fun payload member => (arguments payload member).accepted) .consumer)
  have matching : ¬ Codec.Mismatch l.expected response.value.toList := by
    rintro ⟨className, expects, payload, member, other⟩
    exact other ((values payload (Option.mem_toList.mp member)).2 className expects)
  have read : Codec.json.decodeResponse (Codec.writeJson (.ofResponse response)) l.expected
      .consumer = .ok response :=
    (Codec.returns_response response l.expected).kept
      (fun payload member => (values payload (Option.mem_toList.mp member)).1.portable)
      ((Codec.response_within_nesting response).mpr fun payload member =>
        (values payload member).1.shallow) matching _
  have taken : (replied.guarded (Codec.Guarded.decodeResponse .json
      (Codec.writeJson (.ofResponse response)) l.expected .consumer)).1 = .ok response :=
    (outcome_guarded _ _).trans (Codec.decodeResponse_of_accepted (onward.faithful faithful) read
      fun payload member => ((values payload member).1.onward onward).accepted)
  simp only [call, json]
  rw [proceed_ok (congrArg Prod.fst choice), choice, proceed_ok sent,
    proceed_ok (congrArg Prod.fst reply), reply, proceed_ok taken]

/-- A call of a bound reference that finds an announced offer, with payloads that come through,
calls the service once, with the request as it was given but for the marks of the consumer. The
response comes back as it was given but for the marks of the provider, and an error of the service
comes back as its text. Afterwards both hubs are as ordinary as before. -/
theorem calls_are_transparent {chosen : Hub ε} (caller : Calls h n reference p) (r : Request) :
    ∃ received, r.Marked received reference.context reference.settings.selection ∧
      (Reaches site transport now h p.cluster.balancer n received chosen i →
        Answered (site.view.get chosen) i offer →
        (∀ payload ∈ r.arguments,
          h.gate.Carries 124 payload ∧ (site.view.get chosen).gate.Carries 124 payload) →
        (∀ response, (offer.act received (site.view.get chosen).world).1 = .ok response →
          ∀ payload ∈ response.value,
            (h.gate.Carries 125 payload ∧ (site.view.get chosen).gate.Carries 125 payload) ∧
            ∀ className ∈ reference.settings.expected, className = payload.className) →
        Brings reference.service offer.context offer.settings.selection
          (offer.act received (site.view.get chosen).world).1 (invoke transport now p r h).1 ∧
        (site.view.get (invoke transport now p r h).2).world =
          (offer.act received (site.view.get chosen).world).2 ∧
        Ordinary (invoke transport now p r h).2 ∧
        Ordinary (site.view.get (invoke transport now p r h).2)) := by
  have fits := caller.ordinary.equipped.references n reference caller.known p caller.bound
  have outward := fits.chain caller.plain
  have marked := outward.marked_passedOn r
  refine ⟨p.chain.passedOn reference.context r, marked, fun reaches answered arguments values => ?_⟩
  rw [← marked.arguments] at arguments
  rw [invoke, outward.invoke_consumer rfl]
  generalize p.chain.passedOn reference.context r = received at marked reaches arguments values ⊢
  obtain ⟨provider, choice, delivers⟩ := reaches
  obtain ⟨a, announced⟩ := Option.isSome_iff_exists.mp answered.announced
  have member := List.mem_of_getElem? answered.known
  have speaks := answered.ordinary.equipped.offers offer member a announced answered.json
  have inward := answered.ordinary.equipped.chains offer member a announced answered.plain
  rw [← fits.book] at choice
  have selected : Beside h chosen := by
    have beside := h.beside_choose p.cluster.balancer received
      ((h.book p.cluster.reference).candidates now) now
    rwa [choice] at beside
  -- The request goes out.
  have sending := Codec.onward_encodeRequest .json received .consumer chosen.gate
  have encoded := chosen.beside_guarded sending
  obtain ⟨beside, untouched⟩ := beside_get_guarded site chosen sending
  generalize sent : (chosen.guarded (Codec.Guarded.encodeRequest .json received .consumer)).2 = e
    at encoded beside untouched
  rw [← untouched] at values ⊢
  -- It is handled.
  obtain ⟨replied, delivered, carried, handled, called⟩ := deliver_passes
    (beside.gate.faithful answered.ordinary.equipped.gate) (beside.offers ▸ answered.known)
    announced
    speaks inward.toBuiltIn rfl
    (fun payload member => (arguments payload member).2.onward beside.gate)
    (fun response given payload member =>
      ((values response given payload member).1.2.onward beside.gate).accepted) provider
  have reply := (congrArg (transport provider (Codec.writeJson (.ofRequest received))) sent).trans
    ((delivers _ e).trans delivered)
  -- The reply comes in.
  rw [call_passes (fits.codec caller.json) choice
    (selected.gate.faithful caller.ordinary.equipped.gate)
    (fun payload member => (arguments payload member).1.onward selected.gate) reply
    (encoded.trans carried).gate (forall_mem_answer fun response given payload member =>
      ⟨(values response given payload member).1.1.onward selected.gate,
        fits.expected ▸ (values response given payload member).2⟩), fits.service]
  have receiving := Codec.onward_decodeResponse .json (Codec.writeJson (.ofResponse
    (answer a.chain offer.context (offer.act received (site.view.get e).world).1)))
    p.cluster.expected .consumer replied.gate
  obtain ⟨kept, still⟩ := beside_get_guarded site replied receiving
  refine ⟨brings_answer inward _ _, still.trans called, ?_, ?_⟩
  · exact caller.ordinary.beside
      (((selected.trans encoded).trans carried).trans (beside_guarded _ receiving))
  · exact answered.ordinary.beside ((beside.trans handled).trans kept)

/-- A service that returns the first argument of a request and notes from which side it comes. -/
def echo : Invoker (List (Option String)) := fun r noted =>
  (match r.arguments with
    | [] => .error (.internal "nothing to echo")
    | argument :: _ => .ok (.ofValue argument), noted ++ [r.attachment? "side"])

/-- The announced service and a reference that is bound to its address, behind the gate of a shop.
-/
def paired : Hub (List (Option String)) :=
  (Hub.new closedShop []).live
    [.act (.addOffer ⟨"com.demo.Echo", "", "bolt", "shop", "10.0.0.1", 12200, 100, 0, 0, "blue", [],
        "", "json"⟩ [] echo),
      .act (.addReference ⟨"com.demo.Echo", "", "bolt", "till", [], some "bolt://10.0.0.1:12200",
        "", rotationName, "json", some "shop.Order"⟩ []),
      .act (.turn (.announce 0 0)), .act (.turn (.bind 0))]

def order : Payload := ⟨"shop.Order", .whole 7⟩

def forged : Request :=
  ⟨"com.demo.Echo", "ping", [order], Dictionary.empty.insert "side" "forged"⟩

theorem marks_unselected : Filter.Marks "" := by
  unfold Filter.Marks
  decide +kernel

theorem ordinary_paired : Ordinary paired := ordinary_live _ _ (by simp [Occurrence.Plain])

theorem carries_order (levels : Nat) : paired.gate.Carries levels order := by
  have gate : paired.gate = closedShop.gate := by cbv
  exact ⟨gate ▸ closedShop_accepts, ⟨trivial, (by decide : Json.InRange 7)⟩, Nat.zero_le levels⟩

theorem exists_calls_paired :
    ∃ reference p, Calls paired 0 reference p ∧ p.cluster.balancer = .rotation ∧
      reference.settings.expected = some "shop.Order" ∧ reference.settings.selection = "" ∧
      reference.context = .new .consumer ⟨"com.demo.Echo", "bolt", "", "till"⟩ := by
  have asks : (paired.references[0]?).bind (fun reference => reference.proxy.map fun p =>
      (reference.settings.codec, reference.custom.isEmpty, p.cluster.balancer.isRotation,
        reference.settings.expected, reference.settings.selection, reference.context)) =
        some ("json", true, true, some "shop.Order", "",
          .new .consumer ⟨"com.demo.Echo", "bolt", "", "till"⟩) := by cbv
  obtain ⟨reference, known, bound⟩ := Option.bind_eq_some_iff.mp asks
  obtain ⟨p, taken, facts⟩ := Option.map_eq_some_iff.mp bound
  simp only [Prod.mk.injEq, List.isEmpty_iff] at facts
  obtain ⟨json, plain, rotates, expected, selection, context⟩ := facts
  exact ⟨reference, p, ⟨ordinary_paired, known, taken, json, plain⟩, Balancer.eq_rotation rotates,
    expected, selection, context⟩

theorem exists_answered_paired :
    ∃ offer, Answered paired 0 offer ∧ offer.settings.selection = "" ∧ offer.act = echo ∧
      offer.context = .new .provider ⟨"com.demo.Echo", "bolt", "", "shop"⟩ := by
  have offers : (paired.offers[0]?).map (fun offer => (offer.settings.codec, offer.custom.isEmpty,
      offer.announced.isSome, offer.settings.selection, offer.act, offer.context)) =
        some ("json", true, true, "", echo,
          .new .provider ⟨"com.demo.Echo", "bolt", "", "shop"⟩) := by cbv
  obtain ⟨offer, found, told⟩ := Option.map_eq_some_iff.mp offers
  simp only [Prod.mk.injEq, List.isEmpty_iff] at told
  obtain ⟨json, plain, announced, selection, acts, context⟩ := told
  exact ⟨offer, ⟨ordinary_paired, found, announced, json, plain⟩, selection, acts, context⟩

theorem calls_are_transparent_paired :
    ∃ p returned, (paired.references[0]?).bind (·.proxy) = some p ∧
      (invoke (Site.here.deliver 0) 0 p forged paired).1 = .ok returned ∧
      returned.value = some order ∧
      returned.attachments.get? "side" = some "provider" ∧
      returned.attachments.get? "app_name" = some "shop" ∧
      (invoke (Site.here.deliver 0) 0 p forged paired).2.world = [some "consumer"] := by
  obtain ⟨reference, p, caller, rotation, expected, selection, context⟩ := exists_calls_paired
  obtain ⟨offer, answered, offerSelection, acts, offerContext⟩ := exists_answered_paired
  have stocked : (paired.book 0).candidates 0 ≠ [] := by
    have providers : ((paired.book 0).candidates 0).isEmpty = false := by cbv
    simpa using providers
  obtain ⟨received, marked, call⟩ := @calls_are_transparent _ _ paired .here
    (Site.here.deliver 0) 0 0 0 reference offer p (paired.turned forged.service) caller forged
  rw [context, selection] at marked
  rw [expected, offerContext, offerSelection, acts, rotation] at call
  have outcome : ∀ world, (echo received world).1 = .ok (.ofValue order) := by
    intro world
    rw [echo, marked.arguments]
    rfl
  obtain ⟨brings, called, -⟩ := call
    (marked.service ▸ reaches_by_rotation stocked (fun _ _ _ => rfl) received)
    (answered.beside (beside_turned paired _))
    (fun payload member => by
      obtain rfl := List.mem_singleton.mp member
      exact ⟨carries_order 124, carries_order 124⟩)
    (fun response given payload member => by
      obtain rfl := Except.ok.inj ((outcome _).symm.trans given)
      obtain rfl : order = payload := Option.some.inj member
      exact ⟨⟨carries_order 125, carries_order 125⟩, fun _ same => (Option.some.inj same).symm⟩)
  rw [outcome] at brings
  obtain ⟨returned, came, back⟩ := brings.exists_marked rfl
  have side : received.attachment? "side" = some "consumer" :=
    (marked.attachments.taken marks_unselected "side").trans rfl
  have noted : (invoke (Site.here.deliver 0) 0 p forged paired).2.world =
      paired.world ++ [received.attachment? "side"] := called
  refine ⟨p, returned, ?_, came, back.value, ?_, ?_, ?_⟩
  · rw [caller.known]
    exact caller.bound
  · exact (back.attachments.taken marks_unselected "side").trans rfl
  · exact (back.attachments.taken marks_unselected "app_name").trans rfl
  · have untouched : paired.world = [] := by cbv
    rw [noted, untouched, side]
    rfl

end Hub

end Switchboard
