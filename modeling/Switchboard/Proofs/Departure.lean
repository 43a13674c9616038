import Switchboard.Proofs.Transparency

/-! What leaves a hub for its providers. A call by rotation and with JSON hands at most one message
to its transport: the text of a request with accepted classes alone, for a provider of the book that
is ready at the time and has weight unless none that is ready has any. What comes back from it is
given on if it tells no error and holds only what the gate accepts and the reference expects. -/
namespace Switchboard

open Text (Bytes)

structure Book.Ready (b : Book) (now : Nat) (p : Provider) : Prop where
  listed : ∃ g ∈ b.groups, p ∈ g.members
  status : p.statusAt now = .available ∨ p.statusAt now = .warmingUp

theorem Book.mem_candidates_iff (b : Book) (now : Nat) (p : Provider) :
    p ∈ b.candidates now ↔ b.Ready now p := by
  rw [candidates, List.mem_filter, List.mem_flatMap, Provider.isCandidate, Bool.or_eq_true,
    beq_iff_eq, beq_iff_eq]
  exact ⟨fun both => ⟨both.1, both.2⟩, fun ready => ⟨ready.listed, ready.status⟩⟩

namespace Hub

variable {ε : Type} {h maker : Hub ε} {now n : Nat} {c : Reference.Cluster ε} {request : Request}
  {transport : Transport (Hub ε)} {r : Reference ε}

/-- What a call hands to its transport, or why it hands nothing to it. -/
def depart (h : Hub ε) (now : Nat) (c : Reference.Cluster ε) (request : Request) :
    Outcome (Provider × Bytes) × Hub ε :=
  proceed (h.choose c.balancer request ((h.book c.reference).candidates now) now)
    fun provider chosen =>
      proceed (chosen.guarded (Codec.Guarded.encodeRequest c.codec request .consumer))
        fun bytes encoded => (.ok (provider, bytes), encoded)

def arrive (c : Reference.Cluster ε) (replied : Outcome Bytes × Hub ε) : Outcome Response × Hub ε :=
  proceed replied fun reply received =>
    proceed (received.guarded (Codec.Guarded.decodeResponse c.codec reply c.expected .consumer))
      fun response decoded => (resultOf c.service response, decoded)

/-- A message that leaves, or the failure with which none does. -/
inductive Departs (h : Hub ε) (now n : Nat) (request : Request) :
    Outcome (Provider × Bytes) → Prop where
  | idle (none : ∀ p, ¬ (h.book n).Ready now p) :
      Departs h now n request (.error (.noProvider request.service))
  | refused (p : Provider) (ready : (h.book n).Ready now p) (payload : Payload)
      (first : FirstRefused h.gate request.arguments payload) :
      Departs h now n request (.error (.denied .consumer payload.className))
  | sent (p : Provider) (ready : (h.book n).Ready now p)
      (weighs : 0 < p.effectiveWeight now ∨
        ∀ other, (h.book n).Ready now other → other.effectiveWeight now = 0)
      (accepted : ∀ payload ∈ request.arguments, h.gate.Accepts payload.className)
      (bytes : Bytes) (written : Codec.json.encodeRequest request .consumer = .ok bytes) :
      Departs h now n request (.ok (p, bytes))

theorem call_eq (transport : Transport (Hub ε)) (now : Nat) (c : Reference.Cluster ε)
    (request : Request) (h : Hub ε) :
    call transport now c request h =
      proceed (h.depart now c request) fun message left =>
        arrive c (transport message.1 message.2 left) := by
  simp only [call, depart, proceed_proceed]
  rfl

theorem world_depart (rotates : c.balancer = .rotation) (now : Nat) (request : Request)
    (h : Hub ε) :
    (h.depart now c request).2.world = h.world := by
  rw [depart, rotates]
  refine proceed_state (P := fun g : Hub ε => g.world = h.world) rfl fun provider _ => ?_
  exact proceed_state (P := fun g : Hub ε => g.world = h.world) rfl fun bytes _ => rfl

theorem world_arrive (c : Reference.Cluster ε) (replied : Outcome Bytes × Hub ε) :
    (arrive c replied).2.world = replied.2.world := by
  refine proceed_state (P := fun g : Hub ε => g.world = replied.2.world) rfl fun reply _ => ?_
  exact proceed_state (P := fun g : Hub ε => g.world = replied.2.world) rfl fun response _ => rfl

theorem onward_depart (rotates : c.balancer = .rotation) (now : Nat) (request : Request)
    (h : Hub ε) :
    h.gate.Onward (h.depart now c request).2.gate := by
  rw [depart, rotates]
  refine proceed_state (P := fun g : Hub ε => h.gate.Onward g.gate) (.refl _) fun provider _ => ?_
  have asked := Codec.onward_encodeRequest c.codec request .consumer h.gate
  exact proceed_state (P := fun g : Hub ε => h.gate.Onward g.gate) asked fun bytes _ => asked

theorem onward_arrive (c : Reference.Cluster ε) (replied : Outcome Bytes × Hub ε) :
    replied.2.gate.Onward (arrive c replied).2.gate := by
  refine proceed_state (P := fun g : Hub ε => replied.2.gate.Onward g.gate) (.refl _)
    fun reply _ => ?_
  have asked := Codec.onward_decodeResponse c.codec reply c.expected .consumer replied.2.gate
  exact proceed_state (P := fun g : Hub ε => replied.2.gate.Onward g.gate) asked
    fun response _ => asked

theorem depart_of_chosen {provider : Provider} {chosen : Hub ε}
    (choice : h.choose c.balancer request ((h.book c.reference).candidates now) now =
      (.ok provider, chosen)) :
    (h.depart now c request).1 =
      (Codec.Guarded.encodeRequest c.codec request .consumer chosen.gate).outcome.map
        fun bytes => (provider, bytes) := by
  rw [depart, choice, ← outcome_guarded, proceed]
  generalize chosen.guarded (Codec.Guarded.encodeRequest c.codec request .consumer) = asked
  obtain ⟨failure | bytes, encoded⟩ := asked <;> rfl

theorem departs (faithful : h.gate.Faithful) (rotates : c.balancer = .rotation)
    (json : c.codec = Codec.json) (now : Nat) (request : Request) :
    Departs h now c.reference request (h.depart now c request).1 := by
  have ready := (h.book c.reference).mem_candidates_iff now
  by_cases idle : (h.book c.reference).candidates now = []
  · rw [depart, rotates, idle]
    exact .idle fun p able => List.not_mem_nil (idle ▸ (ready p).mpr able)
  · obtain ⟨provider, member, choice, weighs⟩ := h.exists_choose_rotation request idle now
    have able := (ready provider).mp member
    rw [← rotates] at choice
    rw [depart_of_chosen choice, json]
    by_cases accepted : ∀ payload ∈ request.arguments, h.gate.Accepts payload.className
    · have written := Codec.encodeRequest_of_accepted faithful accepted .consumer
      rw [show (h.turned request.service).gate = h.gate from rfl, written]
      exact .sent provider able
        (weighs.imp_right fun none other able => none other ((ready other).mpr able)) accepted _ rfl
    · obtain ⟨payload, first⟩ := exists_firstRefused accepted
      have denied := Codec.encodeRequest_of_refused faithful first .consumer
      rw [show (h.turned request.service).gate = h.gate from rfl, denied]
      exact .refused provider able payload first

theorem noted_call (rotates : c.balancer = .rotation) {note : ε → List (Provider × Bytes)}
    (notes : ∀ provider bytes g,
      note (transport provider bytes g).2.world = note g.world ++ [(provider, bytes)])
    (request : Request) (h : Hub ε) :
    note (call transport now c request h).2.world =
      note h.world ++ (h.depart now c request).1.toOption.toList := by
  have still := world_depart rotates now request h
  rw [call_eq]
  generalize h.depart now c request = left at still
  obtain ⟨failure | ⟨provider, bytes⟩, g⟩ := left
  · exact (congrArg note still).trans (List.append_nil _).symm
  · refine (congrArg note (world_arrive c _)).trans ((notes provider bytes g).trans ?_)
    rw [show g.world = h.world from still]
    rfl

theorem resultOf_eq_ok_iff (service : Service) (found response : Response) :
    resultOf service found = .ok response ↔ found = response ∧ response.error = none := by
  rw [resultOf]
  cases told : found.error with
  | some detail =>
      refine ⟨fun same => (by cases same), ?_⟩
      rintro ⟨rfl, silent⟩
      cases told.symm.trans silent
  | none =>
      refine ⟨fun same => ?_, fun both => congrArg Except.ok both.1⟩
      obtain rfl := Except.ok.inj same
      exact ⟨rfl, told⟩

theorem arrive_eq_ok_iff (json : c.codec = Codec.json) {replied : Outcome Bytes × Hub ε}
    (faithful : replied.2.gate.Faithful) (response : Response) :
    (arrive c replied).1 = .ok response ↔
      ∃ reply, replied.1 = .ok reply ∧
        Codec.json.decodeResponse reply c.expected .consumer = .ok response ∧
        (∀ payload ∈ response.value, replied.2.gate.Accepts payload.className) ∧
        response.error = none := by
  constructor
  · intro got
    obtain ⟨reply, came, reading⟩ := exists_of_proceed_ok got
    obtain ⟨found, opened, given⟩ := exists_of_proceed_ok reading
    obtain ⟨rfl, silent⟩ := (resultOf_eq_ok_iff ..).mp given
    rw [outcome_guarded, json] at opened
    obtain ⟨read, accepted⟩ := (Codec.decodeResponse_eq_ok_iff faithful).mp opened
    exact ⟨reply, came, read, accepted, silent⟩
  · rintro ⟨reply, came, read, accepted, silent⟩
    have opened : (replied.2.guarded
        (Codec.Guarded.decodeResponse c.codec reply c.expected .consumer)).1 = .ok response := by
      rw [outcome_guarded, json]
      exact Codec.decodeResponse_of_accepted faithful read accepted
    rw [arrive, proceed_ok came, proceed_ok opened]
    exact (resultOf_eq_ok_iff ..).mpr ⟨rfl, silent⟩

theorem accepted_of_call (faithful : h.gate.Faithful) (rotates : c.balancer = .rotation)
    (json : c.codec = Codec.json)
    (asks : ∀ provider bytes g, ∃ acts, (transport provider bytes g).2.gate = g.gate.after acts)
    {response : Response} (given : (call transport now c request h).1 = .ok response) :
    response.error = none ∧ ∀ payload ∈ response.value,
      (call transport now c request h).2.gate.Accepts payload.className ∧
        ∀ className ∈ c.expected, payload.className = className := by
  have out := (onward_depart rotates now request h).faithful faithful
  rw [call_eq] at given ⊢
  obtain ⟨⟨provider, bytes⟩, departed, arriving⟩ := exists_of_proceed_ok given
  rw [proceed_ok departed] at given ⊢
  generalize (h.depart now c request).2 = left at out given ⊢
  obtain ⟨acts, asked⟩ := asks provider bytes left
  have back : (transport provider bytes left).2.gate.Faithful :=
    asked ▸ Gate.Faithful.after out acts
  obtain ⟨reply, -, read, accepted, silent⟩ := (arrive_eq_ok_iff json back response).mp given
  refine ⟨silent, fun payload member => ⟨?_, Codec.expected_of_decodeResponse read payload member⟩⟩
  exact ((onward_arrive c _).accepts _).mpr (accepted payload member)

/-- A call of a cluster for a reference, by rotation and with JSON, whatever is in the book and in
the gate of the hub and whatever the transport does. The weights of all that are ready amount to a
number of 64 bits. What leaves is decided before the transport is used: a message to a provider that
is ready, or nothing if none is ready or a class is refused. This message is all that the transport
carries, and a response is given back only if it tells no error and its class is accepted and, where
one is expected, the expected one. -/
theorem calls_depart_safely (known : maker.references[n]? = some r)
    (made : (maker.cluster n).1 = .ok c) (rotates : c.balancer = .rotation)
    (json : c.codec = Codec.json) (reached : h.gate.Reached) (now : Nat)
    (few : ((h.book n).groups.flatMap Group.members).length < 2 ^ 32)
    (fits : ∀ p ∈ (h.book n).groups.flatMap Group.members,
      ∀ weight, p.warmupWeight = some weight → weight < 2 ^ 32)
    (request : Request) :
    Rotation.totalWeight (·.effectiveWeight now) ((h.book n).candidates now) < 2 ^ 64 ∧
    Departs h now n request (h.depart now c request).1 ∧
    (∀ transport, call transport now c request h = match h.depart now c request with
      | (.error failure, left) => (.error failure, left)
      | (.ok (provider, bytes), left) => arrive c (transport provider bytes left)) ∧
    (∀ (transport : Transport (Hub ε)) (note : ε → List (Provider × Bytes)),
      (∀ provider bytes g,
        note (transport provider bytes g).2.world = note g.world ++ [(provider, bytes)]) →
      note (call transport now c request h).2.world =
        note h.world ++ (h.depart now c request).1.toOption.toList) ∧
    ∀ (transport : Transport (Hub ε)) (response : Response),
      (∀ provider bytes g, ∃ acts, (transport provider bytes g).2.gate = g.gate.after acts) →
      (call transport now c request h).1 = .ok response →
        response.error = none ∧ ∀ payload ∈ response.value,
          (call transport now c request h).2.gate.Accepts payload.className ∧
            ∀ className ∈ r.settings.expected, payload.className = className := by
  obtain ⟨book, -, expected, -⟩ := parts_of_cluster known made
  have faithful := reached.faithful
  have inside := (List.filter_sublist (p := fun p => p.isCandidate now)
    (l := (h.book n).groups.flatMap Group.members))
  refine ⟨?_, book ▸ departs faithful rotates json now request, fun transport => ?_,
    fun transport note notes => noted_call rotates notes request h,
    fun transport response asks given => ?_⟩
  · exact Rotation.Draw.total_lt (d := ⟨request.service, (h.book n).candidates now, now⟩)
      (Nat.lt_of_le_of_lt inside.length_le few) fun p member => fits p (inside.subset member)
  · rw [call_eq]
    obtain ⟨failure | ⟨provider, bytes⟩, left⟩ := h.depart now c request <;> rfl
  · exact expected ▸ accepted_of_call faithful rotates json asks given

theorem Departs.sent_of_ready {outcome : Outcome (Provider × Bytes)}
    (departs : Departs h now n request outcome) {p : Provider} (ready : (h.book n).Ready now p)
    (accepted : ∀ payload ∈ request.arguments, h.gate.Accepts payload.className) :
    ∃ provider bytes, outcome = .ok (provider, bytes) ∧ (h.book n).Ready now provider ∧
      (0 < p.effectiveWeight now → 0 < provider.effectiveWeight now) ∧
      Codec.json.encodeRequest request .consumer = .ok bytes := by
  cases departs with
  | idle none => exact absurd ready (none p)
  | refused other able payload first =>
      exact absurd (accepted payload first.mem) first.refused
  | sent provider able weighs _ bytes written =>
      refine ⟨provider, bytes, rfl, able, fun positive => ?_, written⟩
      exact weighs.resolve_right fun none => Nat.ne_of_gt positive (none p ready)

def light : Provider := (Provider.new "10.0.0.1" 1 "bolt").withAttribute Provider.weightKey "0"

def heavy : Provider := .new "10.0.0.1" 2 "bolt"

/-- A reference to two providers, the first one without weight, behind the gate of a shop. -/
def weighing : Hub (List (Provider × Bytes)) :=
  (Hub.new closedShop []).live
    [.act (.addReference ⟨"com.demo.Echo", "", "bolt", "till", [],
        some "bolt://10.0.0.1:1?weight=0;bolt://10.0.0.1:2", "", rotationName, "json",
        some "shop.Order"⟩ []),
      .act (.turn (.bind 0))]

theorem gate_weighing : weighing.gate = closedShop.gate := by cbv

theorem groups_weighing : (weighing.book 0).groups = [⟨Group.directName, [light, heavy]⟩] := by cbv

theorem ready_weighing (p : Provider) : (weighing.book 0).Ready 0 p ↔ p = light ∨ p = heavy := by
  refine ⟨fun ready => ?_, fun same => ⟨⟨_, groups_weighing ▸ List.mem_cons_self, by simpa⟩, ?_⟩⟩
  · obtain ⟨g, member, listed⟩ := ready.listed
    obtain rfl := List.mem_singleton.mp (groups_weighing ▸ member)
    simpa using listed
  · rcases same with rfl | rfl <;> exact .inl rfl

theorem exists_cluster_weighing :
    ∃ r c, weighing.references[0]? = some r ∧ (weighing.cluster 0).1 = .ok c ∧
      c.balancer = .rotation ∧ c.codec = Codec.json ∧ c.expected = some "shop.Order" := by
  have asks : (weighing.references[0]?).map (fun r => (r.settings.expected, r.settings.codec)) =
      some (some "shop.Order", "json") := by cbv
  have clusters : ((weighing.cluster 0).1.toOption).map (·.balancer.isRotation) = some true := by
    cbv
  obtain ⟨r, known, settings⟩ := Option.map_eq_some_iff.mp asks
  rw [Prod.mk.injEq] at settings
  obtain ⟨c, built, balances⟩ := Option.map_eq_some_iff.mp clusters
  have made : (weighing.cluster 0).1 = .ok c := by
    cases outcome : (weighing.cluster 0).1 with
    | error failure => simp [outcome, Except.toOption] at built
    | ok made => simpa [outcome, Except.toOption] using built
  obtain ⟨-, -, expected, found⟩ := parts_of_cluster known made
  rw [settings.2] at found
  exact ⟨r, c, known, made, Balancer.eq_rotation balances,
    (ordinary_live _ _ (by simp [Occurrence.Plain])).equipped.codecs.outcome found,
    expected.trans settings.1⟩

def courier : Transport (Hub (List (Provider × Bytes))) := fun provider bytes g =>
  (.ok (Codec.writeJson (.ofResponse (.ofValue order))),
    g.withWorld (g.world ++ [(provider, bytes)]))

theorem read_order :
    Codec.json.decodeResponse (Codec.writeJson (.ofResponse (.ofValue order))) (some "shop.Order")
      .consumer = .ok (.ofValue order) := by
  refine (Codec.returns_response (.ofValue order) _).kept ?_ (by decide) ?_ _
  · intro payload member
    obtain rfl := List.mem_singleton.mp member
    exact ⟨trivial, (by decide : Json.InRange 7)⟩
  · exact (Codec.not_mismatch_iff _ order).mpr fun _ same => (Option.some.inj same).symm

def errand : Request := ⟨"com.demo.Echo", "ping", [order], .empty⟩

theorem calls_depart_safely_weighing :
    ∃ c p, (weighing.cluster 0).1 = .ok c ∧ p.identity = ⟨"10.0.0.1", 2, "bolt"⟩ ∧
      (call courier 0 c errand weighing).2.world = [(p, Codec.writeJson (.ofRequest errand))] ∧
      (call courier 0 c errand weighing).1 = .ok (.ofValue order) ∧
      (call courier 0 c errand weighing).2.gate.Accepts "shop.Order" := by
  obtain ⟨r, c, known, made, rotates, json, expected⟩ := exists_cluster_weighing
  have reached : weighing.gate.Reached := gate_weighing ▸ ⟨_, _, _, [], rfl⟩
  have accepted : weighing.gate.Accepts "shop.Order" := gate_weighing ▸ closedShop_accepts
  obtain ⟨-, departs, whole, notes, back⟩ := calls_depart_safely known made rotates json reached 0
    (by rw [groups_weighing]; decide) (fun p member weight warming => by
      simp only [groups_weighing, List.flatMap_singleton, List.mem_cons, List.not_mem_nil,
        or_false] at member
      rcases member with rfl | rfl <;> cases warming) errand
  obtain ⟨p, bytes, sent, able, weighs, written⟩ := departs.sent_of_ready
    ((ready_weighing heavy).mpr (.inr rfl)) fun payload member => by
      obtain rfl := List.mem_singleton.mp member
      exact accepted
  obtain rfl := Except.ok.inj written
  have identity : p.identity = ⟨"10.0.0.1", 2, "bolt"⟩ := by
    rcases (ready_weighing p).mp able with rfl | rfl
    · exact absurd (weighs (by decide)) (by decide)
    · rfl
  have noted := notes courier id fun _ _ _ => rfl
  have onward := onward_depart rotates 0 errand weighing
  have given : (call courier 0 c errand weighing).1 = .ok (.ofValue order) := by
    rw [whole courier]
    generalize weighing.depart 0 c errand = left at sent onward
    obtain ⟨outcome, left⟩ := left
    obtain rfl : outcome = _ := sent
    refine (arrive_eq_ok_iff json (onward.faithful reached.faithful) _).mpr
      ⟨_, rfl, expected ▸ read_order, fun payload member => ?_, rfl⟩
    obtain rfl : order = payload := Option.some.inj member
    exact (onward.accepts _).mpr accepted
  obtain ⟨-, holds⟩ := back courier _ (fun _ _ _ => ⟨[], rfl⟩) given
  refine ⟨c, p, made, identity, ?_, given, (holds order rfl).1⟩
  have untouched : weighing.world = [] := by cbv
  rw [sent, id_eq, id_eq, untouched] at noted
  exact noted

end Hub

end Switchboard
