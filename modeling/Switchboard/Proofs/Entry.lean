import Switchboard.Proofs.Standing

/-! The entry of requests at an offer that speaks JSON. Whatever has been done before and whatever
bytes come in, the chain of the offer is called at most once: while the offer is announced, with a
request that could be read, and with no class in it that the gate refuses. The surroundings stand
for what filters and services do, so that nothing has run where they are as before. -/
namespace Switchboard

open Text (Bytes)

namespace Hub

variable {ε : Type} {h g k : Hub ε} {number : Nat} {offer : Offer ε}

/-- What is answered after a call of the chain. A failure of the chain is told and never failed
with. -/
inductive Answers (gate : Gate) : Outcome Response → Outcome Bytes → Prop where
  | told (failure : Failure) :
      Answers gate (.error failure)
        (.ok (Codec.writeJson (.ofResponse ⟨none, some failure.message, .empty⟩)))
  | given (response : Response)
      (accepted : ∀ payload ∈ response.value, gate.Accepts payload.className) :
      Answers gate (.ok response) (.ok (Codec.writeJson (.ofResponse response)))
  | withheld (response : Response) (payload : Payload) (carried : response.value = some payload)
      (refused : ¬ gate.Accepts payload.className) :
      Answers gate (.ok response) (.error (.denied .provider payload.className))

/-- How bytes are met at an offer: the reply and the surroundings afterwards. -/
inductive Met (h : Hub ε) (offer : Offer ε) (bytes : Bytes) : Outcome Bytes → ε → Prop where
  | closed (idle : offer.announced = none) :
      Met h offer bytes (.error (.service offer.service.name "service is not exported")) h.world
  | garbled (announced : offer.announced.isSome) (message : String)
      (unread : Codec.json.decodeRequest bytes .provider = .error (.decoding .provider message)) :
      Met h offer bytes (.error (.decoding .provider message)) h.world
  | refused (announced : offer.announced.isSome) (request : Request)
      (read : Codec.json.decodeRequest bytes .provider = .ok request) (payload : Payload)
      (first : FirstRefused h.gate request.arguments payload) :
      Met h offer bytes (.error (.denied .provider payload.className)) h.world
  | called (a : Offer.Announcement ε) (announced : offer.announced = some a) (request : Request)
      (read : Codec.json.decodeRequest bytes .provider = .ok request)
      (accepted : ∀ payload ∈ request.arguments, h.gate.Accepts payload.className)
      (reply : Outcome Bytes)
      (answers : Answers h.gate (a.chain.invoke (.self ε) offer.act request h.world).1 reply) :
      Met h offer bytes reply (a.chain.invoke (.self ε) offer.act request h.world).2

theorem answers_encodeResponse {gate : Gate} (faithful : gate.Faithful)
    (outcome : Outcome Response) :
    Answers gate outcome
      (Codec.Guarded.encodeResponse .json (responseOf outcome) .provider gate).outcome := by
  cases outcome with
  | error failure =>
      have empty : ∀ payload ∈ (responseOf (.error failure)).value,
          gate.Accepts payload.className := by
        intro payload member
        cases member
      rw [Codec.encodeResponse_of_accepted faithful empty]
      exact .told failure
  | ok response =>
      by_cases accepted : ∀ payload ∈ response.value, gate.Accepts payload.className
      · rw [responseOf, Codec.encodeResponse_of_accepted faithful accepted]
        exact .given response accepted
      · obtain ⟨payload, carried, refused⟩ : ∃ payload, response.value = some payload ∧
            ¬ gate.Accepts payload.className := by
          cases carried : response.value with
          | none => exact absurd (by simp [carried]) accepted
          | some payload => exact ⟨payload, rfl, by simpa [carried] using accepted⟩
        rw [responseOf, Codec.encodeResponse_of_refused faithful carried refused]
        exact .withheld response payload carried refused

theorem Answers.gate {gate other : Gate} (same : ∀ className, other.Accepts className ↔
    gate.Accepts className) {outcome : Outcome Response} {reply : Outcome Bytes}
    (answers : Answers other outcome reply) : Answers gate outcome reply := by
  cases answers with
  | told failure => exact .told failure
  | given response accepted =>
      exact .given response fun payload member => (same _).mp (accepted payload member)
  | withheld response payload carried refused =>
      exact .withheld response payload carried fun accepts => refused ((same _).mpr accepts)

theorem handle_closed (found : h.offers[number]? = some offer) (idle : offer.announced = none)
    (bytes : Bytes) :
    h.handle number bytes =
      (.error (.service offer.service.name "service is not exported"), h) := by
  simp only [handle, found, idle]

theorem handle_announced (found : h.offers[number]? = some offer) {a : Offer.Announcement ε}
    (announced : offer.announced = some a) (json : a.codec = Codec.json) (bytes : Bytes) :
    h.handle number bytes =
      proceed (h.guarded (Codec.Guarded.decodeRequest .json bytes .provider))
        fun request decoded =>
          let called := a.chain.invoke (.self ε) offer.act request decoded.world
          (decoded.withWorld called.2).guarded
            (Codec.Guarded.encodeResponse .json (responseOf called.1) .provider) := by
  simp only [handle, found, announced, json]

theorem met_handle (faithful : h.gate.Faithful) (found : h.offers[number]? = some offer)
    (json : ∀ a, offer.announced = some a → a.codec = Codec.json) (bytes : Bytes) :
    Met h offer bytes (h.handle number bytes).1 (h.handle number bytes).2.world := by
  cases announced : offer.announced with
  | none =>
      rw [handle_closed found announced]
      exact .closed announced
  | some a =>
      have isAnnounced : offer.announced.isSome := by
        rw [announced]
        rfl
      rw [handle_announced found announced (json a announced)]
      cases read : Codec.json.decodeRequest bytes .provider with
      | error failure =>
          obtain ⟨message, rfl⟩ := Codec.readJson_error read
          have unread : (h.guarded (Codec.Guarded.decodeRequest .json bytes .provider)).1 =
              .error (.decoding .provider message) :=
            (outcome_guarded _ _).trans (Codec.decodeRequest_of_error read h.gate)
          rw [proceed_error unread]
          exact .garbled isAnnounced message read
      | ok request =>
          by_cases accepted : ∀ payload ∈ request.arguments, h.gate.Accepts payload.className
          · have onward := Codec.onward_decodeRequest .json bytes .provider h.gate
            have passed : (h.guarded (Codec.Guarded.decodeRequest .json bytes .provider)).1 =
                .ok request :=
              (outcome_guarded _ _).trans (Codec.decodeRequest_of_accepted faithful read accepted)
            have answers := answers_encodeResponse (onward.faithful faithful)
              (a.chain.invoke (.self ε) offer.act request h.world).1
            rw [proceed_ok passed]
            exact .called a announced request read accepted _ (answers.gate onward.accepts)
          · obtain ⟨payload, first⟩ := exists_firstRefused accepted
            have denied : (h.guarded (Codec.Guarded.decodeRequest .json bytes .provider)).1 =
                .error (.denied .provider payload.className) :=
              (outcome_guarded _ _).trans (Codec.decodeRequest_of_refused faithful read first)
            rw [proceed_error denied]
            exact .refused isAnnounced request read payload first

/-- A hub whose gate answers by its lists and whose announced offers speak JSON where their settings
ask for it. -/
structure Serves (h : Hub ε) : Prop where
  gate : h.gate.Faithful
  codecs : h.codecs.Yields Codec.jsonName (· = Codec.json)
  offers : Announces (fun offer a => offer.settings.codec = Codec.jsonName → a.codec = Codec.json) h

theorem Serves.act (serves : Serves h) {a : Act ε}
    (plain : ∀ d, a = .addCodec d → d.key ≠ Codec.jsonName) : Serves (h.act a) := by
  have offers := serves.offers.act (fun offer now b made json =>
    codec_of_prepareOffer serves.codecs json made) a
  by_cases codec : ∃ d, a = .addCodec d
  · obtain ⟨d, rfl⟩ := codec
    exact ⟨serves.gate, serves.codecs.register (plain d rfl), offers⟩
  · by_cases filter : ∃ d, a = .addFilter d
    · obtain ⟨d, rfl⟩ := filter
      exact ⟨serves.gate, serves.codecs, offers⟩
    · have stands := h.stands_act (not_exists.mp filter) (not_exists.mp codec)
      exact ⟨stands.gate ▸ serves.gate, stands.codecs serves.codecs, offers⟩

theorem Serves.beside (serves : Serves h) (beside : Beside h g) : Serves g where
  gate := beside.gate.faithful serves.gate
  codecs := beside.codecs ▸ serves.codecs
  offers := serves.offers.offers beside.offers

theorem Serves.undergo (serves : Serves h) {o : Occurrence ε}
    (plain : ∀ d, o = .act (.addCodec d) → d.key ≠ Codec.jsonName) : Serves (h.undergo o) := by
  cases o with
  | act a => exact serves.act fun d same => plain d (congrArg _ same)
  | request offer bytes => exact serves.beside (h.beside_handle offer bytes)
  | gate a => exact ⟨serves.gate.perform a, serves.codecs, serves.offers⟩

theorem serves_new (settings : Settings) (world : ε) : Serves (Hub.new settings world) where
  gate := Gate.faithful_of_forgotten rfl
  codecs := yields_standardCodecs ε
  offers := fun offer member => by cases member

theorem serves_live (settings : Settings) (world : ε) {history : List (Occurrence ε)}
    (plain : ∀ d, .act (.addCodec d) ∈ history → d.key ≠ Codec.jsonName) :
    Serves ((Hub.new settings world).live history) := by
  refine List.foldlRecOn history undergo (motive := Serves) (serves_new settings world)
    fun g serves o member => serves.undergo fun d same => plain d (same ▸ member)

theorem isAnnounced_of_offers (same : g.offers = h.offers) (number : Nat) :
    g.isAnnounced number = h.isAnnounced number := by
  rw [isAnnounced, isAnnounced, same]

theorem isAnnounced_withOffer_of_ne {i : Nat} (different : i ≠ number) (h : Hub ε)
    (offer : Offer ε) : (h.withOffer i offer).isAnnounced number = h.isAnnounced number := by
  rw [isAnnounced, isAnnounced, withOffer, List.getElem?_set_ne different]

theorem isAnnounced_of_found (found : h.offers[number]? = some offer) :
    h.isAnnounced number = offer.announced.isSome := by
  rw [isAnnounced, found]
  rfl

theorem isAnnounced_withOffer (known : number < h.offers.length) (offer : Offer ε) :
    (h.withOffer number offer).isAnnounced number = offer.announced.isSome :=
  isAnnounced_of_found (List.getElem?_set_self known)

theorem isAnnounced_announce (h : Hub ε) (number now : Nat) :
    (h.announce number now).2.isAnnounced number = true ↔ (h.announce number now).1 = .ok () := by
  rw [announce]
  split
  next missing => simp [isAnnounced, missing]
  next offer found =>
    split
    next announced => simp [isAnnounced_of_found found, announced]
    next idle =>
      have offers := (h.tends_prepareOffer offer now).offers
      generalize h.prepareOffer offer now = done at offers ⊢
      obtain ⟨failure | a, g⟩ := done
      · have same : g.isAnnounced number = offer.announced.isSome :=
          (isAnnounced_of_offers offers number).trans (isAnnounced_of_found found)
        simp [proceed, same, idle]
      · have known : number < g.offers.length :=
          (congrArg List.length offers).symm ▸ (List.getElem?_eq_some_iff.mp found).1
        simp [proceed, isAnnounced_withOffer known]

theorem isAnnounced_announce_of_ne {i : Nat} (different : i ≠ number) (h : Hub ε) (now : Nat) :
    (h.announce i now).2.isAnnounced number = h.isAnnounced number := by
  rw [announce]
  split
  next => rfl
  next offer found =>
    split
    next => rfl
    next =>
      have prepared := isAnnounced_of_offers (h.tends_prepareOffer offer now).offers number
      refine proceed_state (P := fun g : Hub ε => g.isAnnounced number = h.isAnnounced number)
        prepared fun a _ => ?_
      exact (isAnnounced_withOffer_of_ne different _ _).trans prepared

theorem isAnnounced_takeBack (h : Hub ε) (number : Nat) :
    (h.takeBack number).isAnnounced number = false := by
  rw [takeBack]
  split
  next missing => simp [isAnnounced, missing]
  next offer found =>
    split
    next idle => simp [isAnnounced_of_found found, idle]
    next => exact isAnnounced_withOffer (List.getElem?_eq_some_iff.mp found).1 _

theorem isAnnounced_takeBack_of_ne {i : Nat} (different : i ≠ number) (h : Hub ε) :
    (h.takeBack i).isAnnounced number = h.isAnnounced number := by
  rw [takeBack]
  split
  next => rfl
  next offer found =>
    split
    next => rfl
    next => exact isAnnounced_withOffer_of_ne different h _

theorem isAnnounced_undergo (h : Hub ε) {o : Occurrence ε}
    (announces : ∀ now, o ≠ .act (.turn (.announce number now)))
    (takesBack : o ≠ .act (.turn (.takeBack number))) :
    (h.undergo o).isAnnounced number = h.isAnnounced number := by
  cases o with
  | gate a => rfl
  | request offer bytes => exact isAnnounced_of_offers (h.beside_handle offer bytes).offers number
  | act a =>
      cases a with
      | turn t =>
          cases t with
          | announce i now =>
              refine isAnnounced_announce_of_ne (fun same => ?_) h now
              exact announces now (by rw [same])
          | takeBack i =>
              refine isAnnounced_takeBack_of_ne (fun same => ?_) h
              exact takesBack (by rw [same])
          | _ => exact isAnnounced_of_offers (h.offers_act (by simp) (by simp) (by simp)) number
      | addOffer s custom act =>
          -- A new offer is not announced, and there was none with its number.
          show ((h.offers ++ [_])[number]?).any _ = (h.offers[number]?).any _
          rcases Nat.lt_trichotomy number h.offers.length with known | last | beyond
          · rw [List.getElem?_append_left known]
          · rw [last, List.getElem?_concat_length, List.getElem?_eq_none (Nat.le_refl _)]
            rfl
          · rw [List.getElem?_eq_none (by simp; omega), List.getElem?_eq_none (by omega)]
      | _ => exact isAnnounced_of_offers (h.offers_act (by simp) (by simp) (by simp)) number

theorem announce_of_isAnnounced (announced : h.isAnnounced number = true) (now : Nat) :
    (h.announce number now).1 = .ok () := by
  rw [announce]
  split
  next missing => simp [isAnnounced, missing] at announced
  next offer found =>
    rw [isAnnounced_of_found found] at announced
    rw [if_pos announced]

/-- In a history that starts with a hub, an announcement of an offer has not failed and the offer
was not taken back since. -/
def Exported (start : Hub ε) (number : Nat) (history : List (Occurrence ε)) : Prop :=
  ∃ before now after, history = before ++ .act (.turn (.announce number now)) :: after ∧
    ((start.live before).announce number now).1 = .ok () ∧
    .act (.turn (.takeBack number)) ∉ after

theorem exported_concat (start : Hub ε) (number : Nat) (history : List (Occurrence ε))
    (last : Occurrence ε) :
    Exported start number (history ++ [last]) ↔
      (∃ now, last = .act (.turn (.announce number now)) ∧
        ((start.live history).announce number now).1 = .ok ()) ∨
      (Exported start number history ∧ last ≠ .act (.turn (.takeBack number))) := by
  constructor
  · rintro ⟨before, now, after, whole, done, standing⟩
    rcases List.eq_nil_or_concat after with rfl | ⟨others, final, rfl⟩
    · obtain ⟨rfl, same⟩ := List.append_inj' whole rfl
      exact .inl ⟨now, (List.cons.inj same).1, done⟩
    · rw [List.concat_eq_append, ← List.cons_append, ← List.append_assoc] at whole
      obtain ⟨rfl, same⟩ := List.append_inj' whole rfl
      obtain rfl := (List.cons.inj same).1
      rw [List.concat_eq_append, List.mem_append, List.mem_singleton] at standing
      exact .inr ⟨⟨before, now, others, rfl, done, fun taken => standing (.inl taken)⟩,
        fun taken => standing (.inr taken.symm)⟩
  · rintro (⟨now, rfl, done⟩ | ⟨⟨before, now, after, rfl, done, standing⟩, kept⟩)
    · exact ⟨history, now, [], rfl, done, List.not_mem_nil⟩
    · refine ⟨before, now, after ++ [last], by simp, done, fun taken => ?_⟩
      rcases List.mem_append.mp taken with before | now
      · exact standing before
      · exact kept (List.mem_singleton.mp now).symm

theorem isAnnounced_live (settings : Settings) (world : ε) (history : List (Occurrence ε))
    (number : Nat) :
    ((Hub.new settings world).live history).isAnnounced number = true ↔
      Exported (Hub.new settings world) number history := by
  induction history using List.reverseRecOn with
  | nil =>
      have idle : (Hub.new settings world).isAnnounced number = false := rfl
      simp [live, idle, Exported]
  | append_singleton history last ih =>
      rw [live_concat, exported_concat, ← ih]
      generalize (Hub.new settings world).live history = h
      by_cases announces : ∃ now, last = .act (.turn (.announce number now))
      · obtain ⟨now, rfl⟩ := announces
        refine (isAnnounced_announce h number now).trans ⟨fun done => .inl ⟨now, rfl, done⟩, ?_⟩
        rintro (⟨other, same, done⟩ | ⟨announced, -⟩)
        · cases same
          exact done
        · exact announce_of_isAnnounced announced now
      · by_cases takesBack : last = .act (.turn (.takeBack number))
        · subst takesBack
          simp [undergo, act, turn, isAnnounced_takeBack]
        · rw [isAnnounced_undergo h (fun now same => announces ⟨now, same⟩) takesBack]
          constructor
          · exact fun announced => .inr ⟨announced, takesBack⟩
          · rintro (⟨now, same, -⟩ | ⟨announced, -⟩)
            · exact absurd ⟨now, same⟩ announces
            · exact announced

/-- Whatever has happened to a hub, bytes that come to an offer with JSON are met in one of four
ways. An offer is open while an announcement of it stands, and a reply is the text of a response
without a payload or with one whose class the gate accepts. -/
theorem requests_are_met {settings : Settings} {world : ε} {history : List (Occurrence ε)}
    (plain : ∀ d, .act (.addCodec d) ∈ history → d.key ≠ Codec.jsonName)
    (found : ((Hub.new settings world).live history).offers[number]? = some offer)
    (json : offer.settings.codec = Codec.jsonName) (bytes : Bytes) :
    Met ((Hub.new settings world).live history) offer bytes
      (((Hub.new settings world).live history).handle number bytes).1
      (((Hub.new settings world).live history).handle number bytes).2.world ∧
    (offer.announced.isSome ↔ Exported (Hub.new settings world) number history) ∧
    ∀ reply, (((Hub.new settings world).live history).handle number bytes).1 = .ok reply →
      ∃ response, reply = Codec.writeJson (.ofResponse response) ∧
        ∀ payload ∈ response.value,
          ((Hub.new settings world).live history).gate.Accepts payload.className := by
  have serves := serves_live settings world plain
  have exported := isAnnounced_live settings world history number
  rw [isAnnounced_of_found found] at exported
  have met := met_handle serves.gate found
    (fun a announced => serves.offers offer (List.mem_of_getElem? found) a announced json) bytes
  refine ⟨met, exported, fun reply replied => ?_⟩
  rw [replied] at met
  generalize (((Hub.new settings world).live history).handle number bytes).2.world = after at met
  cases met with
  | called a announced request read accepted reply answers =>
      generalize (a.chain.invoke (.self ε) offer.act request _).1 = outcome at answers
      cases answers with
      | told failure => exact ⟨_, rfl, fun payload member => by cases member⟩
      | given response accepted => exact ⟨response, rfl, accepted⟩

theorem Met.of_read {bytes : Bytes} {reply : Outcome Bytes} {after : ε}
    (met : Met h offer bytes reply after) {a : Offer.Announcement ε}
    (announced : offer.announced = some a) {request : Request}
    (read : Codec.json.decodeRequest bytes .provider = .ok request) :
    (∃ payload, FirstRefused h.gate request.arguments payload ∧
      reply = .error (.denied .provider payload.className) ∧ after = h.world) ∨
    ((∀ payload ∈ request.arguments, h.gate.Accepts payload.className) ∧
      Answers h.gate (a.chain.invoke (.self ε) offer.act request h.world).1 reply ∧
      after = (a.chain.invoke (.self ε) offer.act request h.world).2) := by
  cases met with
  | closed idle => cases idle.symm.trans announced
  | garbled _ message unread => cases unread.symm.trans read
  | refused _ other again payload first =>
      obtain rfl := Except.ok.inj (read.symm.trans again)
      exact .inl ⟨payload, first, rfl, rfl⟩
  | called other found question again accepted reply answers =>
      obtain rfl := Except.ok.inj (read.symm.trans again)
      obtain rfl := Option.some.inj (announced.symm.trans found)
      exact .inr ⟨accepted, answers, rfl⟩

def closedShop : Settings :=
  { Settings.default with denyOverride := "-*", allowOverride := "-*;shop." }

theorem closedShop_accepts : closedShop.gate.Accepts "shop.Order" := by
  rw [← Gate.judge_eq_allow_iff _ _ .provider]
  decide +kernel

theorem closedShop_refuses : ¬ closedShop.gate.Accepts "evil.Order" := by
  rw [← Gate.judge_eq_allow_iff _ _ .provider]
  decide +kernel

/-- A service that counts its calls and gives back what comes first, behind the gate of a shop. -/
def counting : Hub Nat :=
  (Hub.new closedShop 0).live
    [.act (.addOffer ⟨"com.demo.Echo", "", "bolt", "shop", "10.0.0.1", 12200, 100, 0, 0, "blue", [],
      "", "json"⟩ [] fun request calls =>
        (.ok { Response.empty with value := request.arguments.head? }, calls + 1)),
      .act (.turn (.announce 0 0))]

theorem gate_counting : counting.gate = closedShop.gate := by cbv

def orderCall (classes : List String) : Request :=
  ⟨"com.demo.Echo", "ping", classes.map (⟨·, .null⟩), .empty⟩

theorem read_orderCall (classes : List String)
    (fits : (Json.ofRequest (orderCall classes)).depth ≤ Json.nesting) :
    Codec.json.decodeRequest (Codec.writeJson (.ofRequest (orderCall classes))) .provider =
      .ok (orderCall classes) := by
  refine (Codec.returns_request _).kept (fun payload member => ?_) fits id .provider
  obtain ⟨name, -, rfl⟩ := List.mem_map.mp member
  exact ⟨trivial, trivial⟩

/-- One call with an argument that the gate refuses, and one that the chain answers. -/
theorem requests_are_met_evil :
    (counting.handle 0 (Codec.writeJson (.ofRequest (orderCall ["shop.Order", "evil.Order"])))).1 =
        .error (.denied .provider "evil.Order") ∧
      (counting.handle 0 (Codec.writeJson (.ofRequest
        (orderCall ["shop.Order", "evil.Order"])))).2.world = 0 ∧
    (counting.handle 0 (Codec.writeJson (.ofRequest (orderCall ["shop.Order"])))).1 =
        .ok (Codec.writeJson (.ofResponse ⟨some ⟨"shop.Order", .null⟩, none,
          .ofList [("app_name", "shop"), ("side", "provider")]⟩)) ∧
      (counting.handle 0
        (Codec.writeJson (.ofRequest (orderCall ["shop.Order"])))).2.world = 1 := by
  have codec : (counting.offers[0]?).map (·.settings.codec) = some "json" := by cbv
  have called : ((counting.offers[0]?).bind fun offer => offer.announced.map fun a =>
      a.chain.invoke (.self Nat) offer.act (orderCall ["shop.Order"]) 0) =
      some (.ok ⟨some ⟨"shop.Order", .null⟩, none,
        .ofList [("app_name", "shop"), ("side", "provider")]⟩, 1) := by cbv
  have idle : counting.world = 0 := by cbv
  obtain ⟨offer, found, json⟩ := Option.map_eq_some_iff.mp codec
  rw [found, Option.bind_some] at called
  obtain ⟨a, announced, answered⟩ := Option.map_eq_some_iff.mp called
  have met : ∀ bytes, Met counting offer bytes (counting.handle 0 bytes).1
      (counting.handle 0 bytes).2.world :=
    fun bytes => (requests_are_met (by simp) found json bytes).1
  have evil := (met _).of_read announced (read_orderCall ["shop.Order", "evil.Order"] (by decide))
  have kind := (met _).of_read announced (read_orderCall ["shop.Order"] (by decide))
  rw [gate_counting, idle] at evil kind
  refine and_assoc.mp ⟨?_, ?_⟩
  · rcases evil with ⟨payload, first, reply, after⟩ | ⟨accepted, -⟩
    · have listed : payload = ⟨"shop.Order", .null⟩ ∨ payload = ⟨"evil.Order", .null⟩ := by
        simpa [orderCall] using first.mem
      rcases listed with rfl | rfl
      · exact absurd closedShop_accepts first.refused
      · exact ⟨reply, after⟩
    · exact absurd (accepted ⟨"evil.Order", .null⟩ (by simp [orderCall])) closedShop_refuses
  · rcases kind with ⟨payload, first, -⟩ | ⟨-, answers, after⟩
    · obtain rfl : payload = ⟨"shop.Order", .null⟩ := by simpa [orderCall] using first.mem
      exact absurd closedShop_accepts first.refused
    · rw [answered] at answers after
      generalize (counting.handle 0 _).1 = reply at answers ⊢
      cases answers with
      | given response accepted => exact ⟨rfl, after⟩
      | withheld response payload carried refused =>
          cases carried
          exact absurd closedShop_accepts refused

end Hub

end Switchboard
