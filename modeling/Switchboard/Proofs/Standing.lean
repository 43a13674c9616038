import Switchboard.Proofs.BuiltIn
import Switchboard.Proofs.Catalog
import Switchboard.Proofs.Roster

/-! What stays in a hub. Its gate changes only by being asked or overridden, its catalogs only by
additions and by what they keep, and its offers only when one is added, announced or taken back. A
history is whatever happens to a hub in the course of time. -/
namespace Switchboard

open Text (Bytes)

namespace Hub

variable {ε : Type} {h g k : Hub ε} {number : Nat} {offer : Offer ε}

/-- The gate stays, a codec that is in force for JSON stays in force, and a catalog of the two
filters alone stays as it is. -/
structure Stands (h g : Hub ε) : Prop where
  gate : g.gate = h.gate
  codecs : h.codecs.Yields Codec.jsonName (· = Codec.json) →
    g.codecs.Yields Codec.jsonName (· = Codec.json)
  filters : h.filters = Filter.catalog ε false → g.filters = Filter.catalog ε false

structure Tends (h g : Hub ε) : Prop extends Stands h g where
  offers : g.offers = h.offers

theorem Stands.refl (h : Hub ε) : Stands h h := ⟨rfl, id, id⟩

theorem Stands.trans (first : Stands h g) (second : Stands g k) : Stands h k :=
  ⟨second.gate.trans first.gate, second.codecs ∘ first.codecs, second.filters ∘ first.filters⟩

theorem Tends.refl (h : Hub ε) : Tends h h := ⟨.refl h, rfl⟩

theorem Tends.trans (first : Tends h g) (second : Tends g k) : Tends h k :=
  ⟨first.toStands.trans second.toStands, second.offers.trans first.offers⟩

theorem tends_of_eq (gate : g.gate = h.gate) (codecs : g.codecs = h.codecs)
    (filters : g.filters = h.filters) (offers : g.offers = h.offers) : Tends h g :=
  ⟨⟨gate, fun yields => codecs ▸ yields, filters.trans⟩, offers⟩

theorem tends_chain (h : Hub ε) (context : Context) (selection : String)
    (custom : List (Filter ε)) : Tends h (h.chain context selection custom).2 := by
  refine ⟨⟨rfl, id, fun standard => ?_⟩, rfl⟩
  show (Chain.build h.filters context selection custom h.world).catalog = _
  rw [standard]
  exact Chain.catalog_build context selection custom h.world

theorem tends_codec (h : Hub ε) (key : String) : Tends h (h.codec key).2 :=
  ⟨⟨rfl, fun yields => yields.get key () h.world, id⟩, rfl⟩

theorem tends_onExchange {α : Type} (h : Hub ε) (act : Exchange ε → Outcome α × Exchange ε) :
    Tends h (h.onExchange act).2 := tends_of_eq rfl rfl rfl rfl

theorem tends_cluster (h : Hub ε) (n : Nat) : Tends h (h.cluster n).2 := by
  rw [cluster]
  split
  next => exact .refl h
  next reference _ =>
    have balanced : Tends h (h.balancer reference.settings.balancer).2 :=
      tends_of_eq rfl rfl rfl rfl
    refine proceed_state balanced fun balancer _ => ?_
    have found := balanced.trans (tends_codec _ reference.settings.codec)
    exact proceed_state found fun codec _ => found

theorem tends_buildProxy (h : Hub ε) (n : Nat) (reference : Reference ε) :
    Tends h (h.buildProxy n reference).2 := by
  have clustered := h.tends_cluster n
  refine proceed_state clustered fun cluster _ => ?_
  have chained := clustered.trans
    (tends_chain _ reference.context reference.settings.selection reference.custom)
  exact proceed_state chained fun chain _ => chained

theorem tends_subscribe (h : Hub ε) (n : Nat) : Tends h (h.subscribe n).2 := by
  rw [subscribe]
  split
  next => exact .refl h
  next reference _ =>
    split
    next =>
      exact proceed_state (P := Tends h) (tends_of_eq rfl rfl rfl rfl)
        fun followed _ => tends_of_eq rfl rfl rfl rfl
    next => exact .refl h

theorem tends_unsubscribe (h : Hub ε) (n : Nat) : Tends h (h.unsubscribe n) := by
  rw [unsubscribe]
  split <;> exact tends_of_eq rfl rfl rfl rfl

theorem tends_fill (h : Hub ε) (n : Nat) (direct : Option String) :
    Tends h (h.fill n direct).2 := by
  cases direct with
  | none =>
      have subscribed := h.tends_subscribe n
      exact proceed_state subscribed fun _ _ => subscribed
  | some list =>
      rw [fill, seed]
      split <;> exact tends_of_eq rfl rfl rfl rfl

theorem tends_bind (h : Hub ε) (n : Nat) : Tends h (h.bind n).2 := by
  rw [bind]
  split
  next => exact .refl h
  next reference _ =>
    split
    next => exact .refl h
    next =>
      have filled := h.tends_fill n reference.settings.direct
      refine proceed_state filled fun _ _ => ?_
      have built := filled.trans (tends_buildProxy _ n reference)
      generalize buildProxy _ n reference = last at built
      obtain ⟨failure | proxy, g⟩ := last
      · exact (built.trans (g.tends_unsubscribe n)).trans (tends_of_eq rfl rfl rfl rfl)
      · rw [settle]
        split
        next => exact built
        next => exact built.trans (tends_of_eq rfl rfl rfl rfl)

theorem tends_release (h : Hub ε) (n : Nat) : Tends h (h.release n) := by
  rw [release]
  split
  next => exact .refl h
  next reference _ =>
    split
    next => exact .refl h
    next =>
      exact (tends_of_eq rfl rfl rfl rfl : Tends h (h.withReference n _)).trans
        (tends_unsubscribe _ n)

theorem tends_prepareOffer (h : Hub ε) (offer : Offer ε) (now : Nat) :
    Tends h (h.prepareOffer offer now).2 := by
  have chained := h.tends_chain offer.context offer.settings.selection offer.custom
  refine proceed_state chained fun chain _ => ?_
  have found := chained.trans (tends_codec _ offer.settings.codec)
  refine proceed_state found fun codec _ => ?_
  have entered := found.trans (tends_onExchange _ (Exchange.enterAll (offer.registration now)
    (offer.settings.registries.filter (·.registers))))
  exact proceed_state entered fun numbers _ => entered

theorem parts_of_prepareOffer {now : Nat} {a : Offer.Announcement ε}
    (prepared : (h.prepareOffer offer now).1 = .ok a) :
    (h.chain offer.context offer.settings.selection offer.custom).1 = .ok a.chain ∧
    ((h.chain offer.context offer.settings.selection offer.custom).2.codec
      offer.settings.codec).1 = .ok a.codec := by
  obtain ⟨chain, selected, looked⟩ := exists_of_proceed_ok prepared
  obtain ⟨codec, found, entered⟩ := exists_of_proceed_ok looked
  obtain ⟨numbers, -, whole⟩ := exists_of_proceed_ok entered
  obtain rfl := Except.ok.inj whole
  exact ⟨selected, found⟩

theorem codec_of_prepareOffer {now : Nat} {a : Offer.Announcement ε}
    (yields : h.codecs.Yields Codec.jsonName (· = Codec.json))
    (json : offer.settings.codec = Codec.jsonName)
    (prepared : (h.prepareOffer offer now).1 = .ok a) : a.codec = Codec.json := by
  have found := (parts_of_prepareOffer prepared).2
  rw [json] at found
  exact yields.outcome found

theorem yields_standardCodecs (ε : Type) :
    (standardCodecs ε).Yields Codec.jsonName (· = Codec.json) := by
  refine ⟨fun d defined argument world codec built => ?_, fun codec kept => by cases kept⟩
  obtain rfl : (⟨Codec.jsonName, 0, true, fun _ world => (.ok Codec.json, world)⟩ :
    Definition ε Unit Codec) = d := Option.some.inj defined
  exact (Except.ok.inj built).symm

theorem stands_announce (h : Hub ε) (i now : Nat) : Stands h (h.announce i now).2 := by
  rw [announce]
  split
  next => exact .refl h
  next offer _ =>
    split
    next => exact .refl h
    next =>
      have prepared := (h.tends_prepareOffer offer now).toStands
      exact proceed_state prepared fun a _ => prepared.trans ⟨rfl, id, id⟩

theorem stands_takeBack (h : Hub ε) (i : Nat) : Stands h (h.takeBack i) := by
  rw [takeBack]
  split
  next => exact .refl h
  next offer _ => split <;> exact ⟨rfl, id, id⟩

theorem stands_act (h : Hub ε) {a : Act ε} (filters : ∀ d, a ≠ .addFilter d)
    (codecs : ∀ d, a ≠ .addCodec d) : Stands h (h.act a) := by
  cases a with
  | turn t =>
      cases t with
      | announce i now => exact h.stands_announce i now
      | takeBack i => exact h.stands_takeBack i
      | bind n => exact (h.tends_bind n).toStands
      | release n => exact (h.tends_release n).toStands
      | rescan registry => exact ⟨rfl, id, id⟩
  | subscribe n => exact (h.tends_subscribe n).toStands
  | cluster n => exact (h.tends_cluster n).toStands
  | addFilter d => exact absurd rfl (filters d)
  | addCodec d => exact absurd rfl (codecs d)
  | runNext limit =>
      rw [act, runNext]
      cases h.exchange.runNext limit <;> exact ⟨rfl, id, id⟩
  | destroy =>
      rw [act, destroy]
      split <;> exact ⟨rfl, id, id⟩
  | _ => exact ⟨rfl, id, id⟩

theorem offers_act (h : Hub ε) {a : Act ε} (adds : ∀ s custom act, a ≠ .addOffer s custom act)
    (announces : ∀ i now, a ≠ .turn (.announce i now)) (takesBack : ∀ i, a ≠ .turn (.takeBack i)) :
    (h.act a).offers = h.offers := by
  cases a with
  | turn t =>
      cases t with
      | announce i now => exact absurd rfl (announces i now)
      | takeBack i => exact absurd rfl (takesBack i)
      | bind n => exact (h.tends_bind n).offers
      | release n => exact (h.tends_release n).offers
      | rescan registry => rfl
  | subscribe n => exact (h.tends_subscribe n).offers
  | cluster n => exact (h.tends_cluster n).offers
  | addOffer s custom act => exact absurd rfl (adds s custom act)
  | runNext limit =>
      rw [act, runNext]
      cases h.exchange.runNext limit <;> rfl
  | destroy =>
      rw [act, destroy]
      split <;> rfl
  | _ => rfl

def Announces (kind : Offer ε → Offer.Announcement ε → Prop) (h : Hub ε) : Prop :=
  ∀ offer ∈ h.offers, ∀ a, offer.announced = some a → kind offer a

variable {kind : Offer ε → Offer.Announcement ε → Prop}

theorem Announces.offers (announces : Announces kind h) (same : g.offers = h.offers) :
    Announces kind g := fun offer member => announces offer (same ▸ member)

theorem Announces.withOffer (announces : Announces kind h)
    (own : ∀ a, offer.announced = some a → kind offer a) :
    Announces kind (h.withOffer number offer) := by
  intro other member
  rcases List.mem_or_eq_of_mem_set member with known | rfl
  · exact announces other known
  · exact own

theorem Announces.announce {now : Nat} (announces : Announces kind h)
    (own : ∀ offer a, (h.prepareOffer offer now).1 = .ok a →
      kind { offer with announced := some a } a) (number : Nat) :
    Announces kind (h.announce number now).2 := by
  rw [Hub.announce]
  split
  next => exact announces
  next offer _ =>
    split
    next => exact announces
    next =>
      have prepared := announces.offers (h.tends_prepareOffer offer now).offers
      refine proceed_state prepared fun a made => prepared.withOffer fun b announced => ?_
      obtain rfl : a = b := Option.some.inj announced
      exact own offer a made

theorem Announces.takeBack (announces : Announces kind h) (number : Nat) :
    Announces kind (h.takeBack number) := by
  rw [Hub.takeBack]
  split
  next => exact announces
  next offer _ =>
    split
    next => exact announces
    next =>
      have taken : Announces kind (h.withOffer number { offer with announced := none }) :=
        announces.withOffer fun a none => by cases none
      exact taken.offers rfl

theorem Announces.act (announces : Announces kind h)
    (own : ∀ offer now a, (h.prepareOffer offer now).1 = .ok a →
      kind { offer with announced := some a } a) (a : Act ε) : Announces kind (h.act a) := by
  cases a with
  | turn t =>
      cases t with
      | announce i now => exact announces.announce (fun offer a => own offer now a) i
      | takeBack i => exact announces.takeBack i
      | _ => exact announces.offers (h.offers_act (by simp) (by simp) (by simp))
  | addOffer s custom act =>
      intro offer member
      rcases List.mem_append.mp member with known | added
      · exact announces offer known
      · obtain rfl := List.mem_singleton.mp added
        exact fun a none => by cases none
  | _ => exact announces.offers (h.offers_act (by simp) (by simp) (by simp))

/-- A change that concerns nothing but what a gate remembers, the surroundings and the exchange. -/
structure Beside (h g : Hub ε) : Prop where
  gate : h.gate.Onward g.gate
  codecs : g.codecs = h.codecs
  filters : g.filters = h.filters
  offers : g.offers = h.offers
  references : g.references = h.references

theorem Beside.refl (h : Hub ε) : Beside h h := ⟨.refl _, rfl, rfl, rfl, rfl⟩

theorem Beside.trans (first : Beside h g) (second : Beside g k) : Beside h k where
  gate := first.gate.trans second.gate
  codecs := second.codecs.trans first.codecs
  filters := second.filters.trans first.filters
  offers := second.offers.trans first.offers
  references := second.references.trans first.references

theorem beside_guarded {α : Type} (h : Hub ε) {ask : Gate → Checked α}
    (onward : h.gate.Onward (ask h.gate).gate) : Beside h (h.guarded ask).2 :=
  ⟨onward, rfl, rfl, rfl, rfl⟩

theorem beside_withWorld (h : Hub ε) (world : ε) : Beside h (h.withWorld world) :=
  ⟨.refl _, rfl, rfl, rfl, rfl⟩

theorem beside_handle (h : Hub ε) (number : Nat) (bytes : Bytes) :
    Beside h (h.handle number bytes).2 := by
  rw [handle]
  split
  next => exact .refl h
  next offer found =>
    split
    next => exact .refl h
    next a announced =>
      have decoded := h.beside_guarded (Codec.onward_decodeRequest a.codec bytes .provider h.gate)
      refine proceed_state decoded fun request _ => ?_
      exact (decoded.trans (beside_withWorld _ _)).trans
        (beside_guarded _ (Codec.onward_encodeResponse a.codec _ .provider _))

end Hub

/-- What happens to a hub in the course of time: something is done with it, a request comes in, or
its gate is asked and overridden by others. -/
inductive Occurrence (ε : Type) where
  | act (a : Act ε)
  | request (offer : Nat) (bytes : Bytes)
  | gate (a : Gate.Act)

namespace Hub

variable {ε : Type}

def undergo (h : Hub ε) : Occurrence ε → Hub ε
  | .act a => h.act a
  | .request offer bytes => (h.handle offer bytes).2
  | .gate a => { h with gate := h.gate.perform a }

def live (h : Hub ε) (history : List (Occurrence ε)) : Hub ε := history.foldl undergo h

theorem live_concat (h : Hub ε) (history : List (Occurrence ε)) (last : Occurrence ε) :
    h.live (history ++ [last]) = (h.live history).undergo last := by
  rw [live, List.foldl_append]
  rfl

end Hub

end Switchboard
