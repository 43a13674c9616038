import Switchboard.Proofs.Released
import Switchboard.Proofs.Stocked

/-! Which offers and references there are. Only an addition changes that: whatever else is done,
each offer keeps its key and each reference its number. As a reference comes together with its book,
every reference of a run has one. -/
namespace Switchboard

namespace Hub

variable {ε : Type} {h g k : Hub ε}

structure SameRoster (h g : Hub ε) : Prop where
  keys : g.offers.map Offer.key = h.offers.map Offer.key
  references : g.references.length = h.references.length

theorem SameRoster.refl (h : Hub ε) : SameRoster h h := ⟨rfl, rfl⟩

theorem SameRoster.trans (first : SameRoster h g) (second : SameRoster g k) : SameRoster h k :=
  ⟨second.keys.trans first.keys, second.references.trans first.references⟩

theorem roster_withReference (h : Hub ε) (n : Nat) (r : Reference ε) :
    SameRoster h (h.withReference n r) := ⟨rfl, List.length_set⟩

theorem roster_cluster (h : Hub ε) (n : Nat) : SameRoster h (h.cluster n).2 := by
  rw [cluster]
  split
  next => exact .refl h
  next reference _ =>
    have balanced : SameRoster h (h.balancer reference.settings.balancer).2 := ⟨rfl, rfl⟩
    refine proceed_state balanced fun balancer _ => ?_
    exact proceed_state (P := SameRoster h) ⟨rfl, rfl⟩ fun codec _ => ⟨rfl, rfl⟩

theorem roster_buildProxy (h : Hub ε) (n : Nat) (reference : Reference ε) :
    SameRoster h (h.buildProxy n reference).2 := by
  have clustered := h.roster_cluster n
  refine proceed_state clustered fun cluster _ => ?_
  have chained : SameRoster h ((h.cluster n).2.chain reference.context
      reference.settings.selection reference.custom).2 := clustered.trans ⟨rfl, rfl⟩
  exact proceed_state chained fun chain _ => chained

theorem roster_subscribe (h : Hub ε) (n : Nat) : SameRoster h (h.subscribe n).2 := by
  rw [subscribe]
  split
  next => exact .refl h
  next reference _ =>
    split
    next =>
      exact proceed_state (P := SameRoster h) ⟨rfl, rfl⟩ fun followed _ => ⟨rfl, List.length_set⟩
    next => exact .refl h

theorem roster_unsubscribe (h : Hub ε) (n : Nat) : SameRoster h (h.unsubscribe n) := by
  rw [unsubscribe]
  split
  next => exact .refl h
  next reference _ => exact ⟨rfl, List.length_set⟩

theorem roster_fill (h : Hub ε) (n : Nat) (direct : Option String) :
    SameRoster h (h.fill n direct).2 := by
  cases direct with
  | none =>
      have subscribed := h.roster_subscribe n
      exact proceed_state subscribed fun _ _ => subscribed
  | some list =>
      rw [fill, seed]
      split <;> exact ⟨rfl, rfl⟩

theorem roster_bind (h : Hub ε) (n : Nat) : SameRoster h (h.bind n).2 := by
  rw [bind]
  split
  next => exact .refl h
  next reference _ =>
    split
    next => exact .refl h
    next =>
      have filled := h.roster_fill n reference.settings.direct
      refine proceed_state filled fun _ _ => ?_
      have built := filled.trans (roster_buildProxy _ n reference)
      generalize buildProxy _ n reference = last at built
      obtain ⟨failure | proxy, g⟩ := last
      · have ended := built.trans (g.roster_unsubscribe n)
        exact ⟨ended.keys, ended.references⟩
      · rw [settle]
        split
        next => exact built
        next => exact built.trans ⟨rfl, List.length_set⟩

theorem roster_release (h : Hub ε) (n : Nat) : SameRoster h (h.release n) := by
  rw [release]
  split
  next => exact .refl h
  next reference _ =>
    split
    next => exact .refl h
    next => exact (h.roster_withReference n _).trans (roster_unsubscribe _ n)

theorem offers_prepareOffer (h : Hub ε) (offer : Offer ε) (now : Nat) :
    (h.prepareOffer offer now).2.offers = h.offers := by
  refine proceed_state (P := fun g : Hub ε => g.offers = h.offers) rfl fun chain _ => ?_
  refine proceed_state (P := fun g : Hub ε => g.offers = h.offers) rfl fun codec _ => ?_
  exact proceed_state (P := fun g : Hub ε => g.offers = h.offers) rfl fun numbers _ => rfl

theorem references_prepareOffer (h : Hub ε) (offer : Offer ε) (now : Nat) :
    (h.prepareOffer offer now).2.references = h.references := by
  refine proceed_state (P := fun g : Hub ε => g.references = h.references) rfl fun chain _ => ?_
  refine proceed_state (P := fun g : Hub ε => g.references = h.references) rfl fun codec _ => ?_
  exact proceed_state (P := fun g : Hub ε => g.references = h.references) rfl fun numbers _ => rfl

theorem roster_announce (h : Hub ε) (i now : Nat) : SameRoster h (h.announce i now).2 := by
  rw [announce]
  split
  next => exact .refl h
  next offer known =>
    split
    next => exact .refl h
    next =>
      have offers := h.offers_prepareOffer offer now
      have references := congrArg List.length (h.references_prepareOffer offer now)
      refine proceed_state (P := SameRoster h) ⟨congrArg _ offers, references⟩
        fun announcement _ => ⟨?_, references⟩
      rw [withOffer, offers]
      exact map_set_of_eq known rfl

theorem roster_takeBack (h : Hub ε) (i : Nat) : SameRoster h (h.takeBack i) := by
  rw [takeBack]
  split
  next => exact .refl h
  next offer known =>
    split
    next => exact .refl h
    next => exact ⟨map_set_of_eq known rfl, rfl⟩

theorem roster_turn (h : Hub ε) (t : Turn) : SameRoster h (h.turn t) := by
  cases t with
  | announce i now => exact h.roster_announce i now
  | takeBack i => exact h.roster_takeBack i
  | bind n => exact h.roster_bind n
  | release n => exact h.roster_release n
  | rescan registry => exact ⟨rfl, rfl⟩

theorem roster_act (h : Hub ε) {a : Act ε} (offers : ∀ s custom act, a ≠ .addOffer s custom act)
    (references : ∀ s custom, a ≠ .addReference s custom) : SameRoster h (h.act a) := by
  cases a with
  | turn t => exact h.roster_turn t
  | subscribe n => exact h.roster_subscribe n
  | cluster n => exact h.roster_cluster n
  | addOffer s custom act => exact absurd rfl (offers s custom act)
  | addReference s custom => exact absurd rfl (references s custom)
  | runNext limit =>
      rw [act, runNext]
      cases h.exchange.runNext limit <;> exact ⟨rfl, rfl⟩
  | destroy =>
      rw [act, destroy]
      split <;> exact ⟨rfl, rfl⟩
  | _ => exact ⟨rfl, rfl⟩

theorem exists_spares_act (grow : h.exchange.definitions.Grow) (a : Act ε) :
    ∃ number, Spares number h (h.act a) := by
  have apart : ∃ number, number ≠ h.references.length ∧ a ≠ .turn (.bind number) ∧
      a ≠ .turn (.release number) ∧ a ≠ .subscribe number := by
    cases a with
    | turn t =>
        cases t with
        | bind n => exact ⟨h.references.length + n + 1, by omega, by simp; omega, by simp, by simp⟩
        | release n =>
            exact ⟨h.references.length + n + 1, by omega, by simp, by simp; omega, by simp⟩
        | _ => exact ⟨h.references.length + 1, by omega, by simp, by simp, by simp⟩
    | subscribe n => exact ⟨h.references.length + n + 1, by omega, by simp, by simp, by simp; omega⟩
    | _ => exact ⟨h.references.length + 1, by omega, by simp, by simp, by simp⟩
  obtain ⟨number, fresh, unbound, unreleased, unasked⟩ := apart
  exact ⟨number, spares_act grow (fun _ _ _ => fresh) unbound unreleased unasked⟩

structure Paired (h : Hub ε) : Prop where
  grow : h.exchange.definitions.Grow
  held : h.references.length ≤ h.exchange.books.length

theorem Paired.act (paired : Paired h) (a : Act ε) : Paired (h.act a) := by
  obtain ⟨number, spared⟩ := exists_spares_act paired.grow a
  refine ⟨spared.exchange.grow paired.grow, ?_⟩
  by_cases adds : ∃ s custom, a = .addReference s custom
  · obtain ⟨s, custom, rfl⟩ := adds
    rw [Hub.act, addReference, Exchange.addBook, List.length_append, List.length_append]
    exact Nat.add_le_add_right paired.held 1
  · have same : (h.act a).references.length = h.references.length := by
      cases a with
      | addOffer s custom act => rfl
      | addReference s custom => exact absurd ⟨s, custom, rfl⟩ adds
      | _ => exact (h.roster_act (by simp) (by simp)).references
    rw [same]
    exact Nat.le_trans paired.held spared.exchange.held

theorem paired_run (settings : Settings) (world : ε) (acts : List (Act ε)) :
    Paired ((Hub.new settings world).run acts) :=
  List.foldlRecOn acts Hub.act (motive := Paired) ⟨Registry.grow_definitions, Nat.le_refl _⟩
    fun _ before a _ => before.act a

end Hub

end Switchboard
