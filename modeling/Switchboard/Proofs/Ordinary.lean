import Switchboard.Proofs.Entry

/-! Ordinary hubs, to which no filters and no other codec for JSON were added. Whatever happens to
such a hub, a proxy that it holds for a reference and what it holds for an announced offer are what
the settings ask for. -/
namespace Switchboard

namespace Reference

variable {ε : Type} {number : Nat} {r s : Reference ε} {p : Proxy ε}

structure Fits (number : Nat) (r : Reference ε) (p : Proxy ε) : Prop where
  book : p.cluster.reference = number
  service : p.cluster.service = r.service
  expected : p.cluster.expected = r.settings.expected
  codec : r.settings.codec = Codec.jsonName → p.cluster.codec = Codec.json
  chain : r.custom = [] → p.chain.Chosen r.context r.settings.selection

theorem Fits.alike (fits : Fits number r p) (settings : s.settings = r.settings)
    (service : s.service = r.service) (custom : s.custom = r.custom) : Fits number s p := by
  have context : s.context = r.context := by rw [Reference.context, Reference.context, service]
  refine ⟨fits.book, fits.service.trans service.symm, ?_, ?_, ?_⟩
  · rw [settings]
    exact fits.expected
  · rw [settings]
    exact fits.codec
  · rw [settings, custom, context]
    exact fits.chain

end Reference

namespace Hub

variable {ε : Type} {h g : Hub ε} {n : Nat} {r : Reference ε}

def Fitted (h : Hub ε) : Prop :=
  ∀ (n : Nat) (r : Reference ε), h.references[n]? = some r → ∀ p, r.proxy = some p → r.Fits n p

theorem Fitted.references (fitted : Fitted h) (same : g.references = h.references) : Fitted g :=
  fun n r known => fitted n r (same ▸ known)

theorem Fitted.withReference (fitted : Fitted h) (own : ∀ p, r.proxy = some p → r.Fits n p) :
    Fitted (h.withReference n r) := by
  intro m s known
  rw [Hub.withReference, List.getElem?_set] at known
  split at known
  next same =>
    split at known
    · obtain rfl := Option.some.inj known
      exact same ▸ own
    · cases known
  next => exact fitted m s known

theorem Fitted.subscribe (fitted : Fitted h) (n : Nat) : Fitted (h.subscribe n).2 := by
  rw [Hub.subscribe]
  split
  next => exact fitted
  next r known =>
    split
    next =>
      have cleared : Fitted (h.withBook n ((h.book n).updateAll [])) := fitted.references rfl
      refine proceed_state (P := Fitted) (cleared.references rfl) fun followed _ => ?_
      refine (cleared.references rfl).withReference fun p bound => ?_
      exact (fitted n r known p bound).alike rfl rfl rfl
    next => exact fitted

theorem Fitted.unsubscribe (fitted : Fitted h) (n : Nat) : Fitted (h.unsubscribe n) := by
  rw [Hub.unsubscribe]
  split
  next => exact fitted
  next r known =>
    have ended : Fitted (h.withReference n { r with subscribed := [] }) :=
      fitted.withReference fun p bound => (fitted n r known p bound).alike rfl rfl rfl
    exact ended.references rfl

theorem Fitted.fill (fitted : Fitted h) (n : Nat) (direct : Option String) :
    Fitted (h.fill n direct).2 := by
  cases direct with
  | none =>
      have subscribed := fitted.subscribe n
      exact proceed_state subscribed fun _ _ => subscribed
  | some list =>
      rw [Hub.fill, seed]
      split <;> exact fitted.references rfl

theorem Fitted.release (fitted : Fitted h) (n : Nat) : Fitted (h.release n) := by
  rw [Hub.release]
  split
  next => exact fitted
  next r known =>
    split
    next => exact fitted
    next =>
      have loosened : Fitted (h.withReference n { r with proxy := none }) :=
        fitted.withReference fun p none => by cases none
      exact loosened.unsubscribe n

theorem references_cluster (h : Hub ε) (n : Nat) : (h.cluster n).2.references = h.references := by
  rw [cluster]
  split
  next => rfl
  next reference _ =>
    refine proceed_state (P := fun g : Hub ε => g.references = h.references) rfl
      fun balancer _ => ?_
    exact proceed_state (P := fun g : Hub ε => g.references = h.references) rfl fun codec _ => rfl

theorem references_buildProxy (h : Hub ε) (n : Nat) (r : Reference ε) :
    (h.buildProxy n r).2.references = h.references := by
  have clustered := h.references_cluster n
  refine proceed_state (P := fun g : Hub ε => g.references = h.references) clustered
    fun cluster _ => ?_
  exact proceed_state (P := fun g : Hub ε => g.references = h.references) clustered
    fun chain _ => clustered

theorem known_fill (known : h.references[n]? = some r) (direct : Option String) :
    ∃ registries,
      (h.fill n direct).2.references[n]? = some { r with subscribed := registries } := by
  cases direct with
  | some list =>
      refine ⟨r.subscribed, ?_⟩
      rw [fill, seed]
      split <;> exact known
  | none =>
      have subscribed : ∃ registries,
          (h.subscribe n).2.references[n]? = some { r with subscribed := registries } := by
        rw [subscribe, known]
        dsimp only
        split
        next =>
          refine proceed_state (P := fun g : Hub ε => ∃ registries,
            g.references[n]? = some { r with subscribed := registries }) ⟨r.subscribed, known⟩
            fun followed _ => ⟨followed.map (·.number), ?_⟩
          exact List.getElem?_set_self (List.getElem?_eq_some_iff.mp known).1
        next => exact ⟨r.subscribed, known⟩
      exact proceed_state (P := fun g : Hub ε => ∃ registries,
        g.references[n]? = some { r with subscribed := registries }) subscribed
        fun _ _ => subscribed

theorem parts_of_cluster (known : h.references[n]? = some r) {c : Reference.Cluster ε}
    (made : (h.cluster n).1 = .ok c) :
    c.reference = n ∧ c.service = r.service ∧ c.expected = r.settings.expected ∧
    ((h.balancer r.settings.balancer).2.codec r.settings.codec).1 = .ok c.codec := by
  rw [cluster, known] at made
  obtain ⟨balancer, -, looked⟩ := exists_of_proceed_ok made
  obtain ⟨codec, found, whole⟩ := exists_of_proceed_ok looked
  obtain rfl := Except.ok.inj whole
  exact ⟨rfl, rfl, rfl, found⟩

theorem fits_of_buildProxy (yields : h.codecs.Yields Codec.jsonName (· = Codec.json))
    (standard : h.filters = Filter.catalog ε false) (known : h.references[n]? = some r)
    {p : Reference.Proxy ε} (built : (h.buildProxy n r).1 = .ok p) : r.Fits n p := by
  obtain ⟨cluster, made, chained⟩ := exists_of_proceed_ok built
  obtain ⟨chain, selected, whole⟩ := exists_of_proceed_ok chained
  obtain rfl := Except.ok.inj whole
  obtain ⟨book, service, expected, found⟩ := parts_of_cluster known made
  refine ⟨book, service, expected, fun json => ?_, fun plain => ?_⟩
  · rw [json] at found
    exact yields.outcome found
  · have kept := (h.tends_cluster n).filters standard
    rw [plain, Hub.chain, kept] at selected
    exact Chain.chosen_of_build selected

theorem Fitted.bind (fitted : Fitted h) (yields : h.codecs.Yields Codec.jsonName (· = Codec.json))
    (standard : h.filters = Filter.catalog ε false) (n : Nat) : Fitted (h.bind n).2 := by
  rw [Hub.bind]
  split
  next => exact fitted
  next r known =>
    split
    next => exact fitted
    next =>
      have filled := fitted.fill n r.settings.direct
      have tended := (h.tends_fill n r.settings.direct).toStands
      obtain ⟨registries, kept⟩ := known_fill known r.settings.direct
      refine proceed_state filled fun _ _ => ?_
      generalize (h.fill n r.settings.direct).2 = g at filled tended kept
      have same := g.references_buildProxy n r
      have fits : ∀ p, (g.buildProxy n r).1 = .ok p → r.Fits n p := fun p built => by
        have fits := fits_of_buildProxy (tended.codecs yields) (tended.filters standard) kept built
        exact fits.alike rfl rfl rfl
      have built := filled.references same
      generalize g.buildProxy n r = last at same fits built
      obtain ⟨failure | p, k⟩ := last
      · exact (built.unsubscribe n).references rfl
      · rw [settle]
        split
        next => exact built
        next s found =>
          obtain rfl : { r with subscribed := registries } = s :=
            Option.some.inj (kept.symm.trans ((congrArg (·[n]?) same).symm.trans found))
          have bound : Fitted (k.withReference n
              { r with subscribed := registries, proxy := some p }) :=
            built.withReference fun q taken => by
              obtain rfl : p = q := Option.some.inj taken
              exact (fits p rfl).alike rfl rfl rfl
          exact bound.references rfl

theorem Fitted.act (fitted : Fitted h) (yields : h.codecs.Yields Codec.jsonName (· = Codec.json))
    (standard : h.filters = Filter.catalog ε false) (a : Act ε) : Fitted (h.act a) := by
  cases a with
  | turn t =>
      cases t with
      | announce i now =>
          rw [Hub.act, turn, announce]
          split
          next => exact fitted
          next offer _ =>
            split
            next => exact fitted
            next =>
              have prepared := fitted.references (h.references_prepareOffer offer now)
              exact proceed_state prepared fun a _ => prepared.references rfl
      | takeBack i =>
          rw [Hub.act, turn, takeBack]
          split
          next => exact fitted
          next => split <;> exact fitted.references rfl
      | bind n => exact fitted.bind yields standard n
      | release n => exact fitted.release n
      | rescan registry => exact fitted.references rfl
  | subscribe n => exact fitted.subscribe n
  | cluster n => exact fitted.references (h.references_cluster n)
  | addReference s custom =>
      intro n r known p bound
      rw [Hub.act, addReference, List.getElem?_append] at known
      split at known
      next => exact fitted n r known p bound
      next =>
        -- The reference that was added is not bound.
        obtain rfl := List.mem_singleton.mp (List.mem_of_getElem? known)
        cases bound
  | runNext limit =>
      rw [Hub.act, runNext]
      cases h.exchange.runNext limit <;> exact fitted.references rfl
  | destroy =>
      rw [Hub.act, destroy]
      split <;> exact fitted.references rfl
  | _ => exact fitted.references rfl

/-- A hub that serves and has the two filters alone, in which each offer and each reference without
filters of its own has the choice of them that it asks for. -/
structure Equipped (h : Hub ε) : Prop extends Serves h where
  filters : h.filters = Filter.catalog ε false
  chains : Announces (fun offer a => offer.custom = [] →
    a.chain.Chosen offer.context offer.settings.selection) h
  references : Fitted h

theorem equipped_new (settings : Settings) (world : ε) : Equipped (Hub.new settings world) where
  toServes := serves_new settings world
  filters := rfl
  chains := fun offer member => by cases member
  references := fun n r known => by cases known

theorem Equipped.beside (equipped : Equipped h) (beside : Beside h g) : Equipped g where
  toServes := equipped.toServes.beside beside
  filters := beside.filters.trans equipped.filters
  chains := equipped.chains.offers beside.offers
  references := equipped.references.references beside.references

end Hub

/-- No filter is added and no other codec for JSON. -/
def Occurrence.Plain {ε : Type} : Occurrence ε → Prop
  | .act (.addFilter _) => False
  | .act (.addCodec d) => d.key ≠ Codec.jsonName
  | _ => True

namespace Hub

variable {ε : Type} {h g : Hub ε}

theorem Equipped.act (equipped : Equipped h) {a : Act ε} (plain : (Occurrence.act a).Plain) :
    Equipped (h.act a) where
  toServes := equipped.toServes.act fun d codec => by
    subst codec
    exact plain
  filters := by
    by_cases codec : ∃ d, a = .addCodec d
    · obtain ⟨d, rfl⟩ := codec
      exact equipped.filters
    · have stands := h.stands_act (fun d filter => by subst filter; exact plain)
        (not_exists.mp codec)
      exact stands.filters equipped.filters
  chains := by
    refine equipped.chains.act (fun offer now b made own => ?_) a
    have plain : offer.custom = [] := own
    have selected := (parts_of_prepareOffer made).1
    rw [plain, Hub.chain, equipped.filters] at selected
    exact Chain.chosen_of_build selected
  references := equipped.references.act equipped.codecs equipped.filters a

theorem Equipped.undergo (equipped : Equipped h) {o : Occurrence ε} (plain : o.Plain) :
    Equipped (h.undergo o) := by
  cases o with
  | act a => exact equipped.act plain
  | request offer bytes => exact equipped.beside (h.beside_handle offer bytes)
  | gate a =>
      have serves := equipped.toServes.undergo (o := .gate a) fun d same => by cases same
      exact ⟨serves, equipped.filters, equipped.chains, equipped.references⟩

/-- What becomes of a new hub without filters beside the two and without another codec for JSON. -/
inductive Ordinary : Hub ε → Prop where
  | new (settings : Settings) (world : ε) : Ordinary (Hub.new settings world)
  | undergo {h : Hub ε} (ordinary : Ordinary h) (o : Occurrence ε) (plain : o.Plain) :
      Ordinary (h.undergo o)
  | beside {h g : Hub ε} (ordinary : Ordinary h) (beside : Beside h g) : Ordinary g

theorem Ordinary.equipped (ordinary : Ordinary h) : Equipped h := by
  induction ordinary with
  | new settings world => exact equipped_new settings world
  | undergo _ o plain ih => exact ih.undergo plain
  | beside _ beside ih => exact ih.beside beside

theorem ordinary_live (settings : Settings) (world : ε) {history : List (Occurrence ε)}
    (plain : ∀ o ∈ history, o.Plain) : Ordinary ((Hub.new settings world).live history) :=
  List.foldlRecOn history Hub.undergo (motive := Ordinary) (.new settings world)
    fun _ ordinary o member => .undergo ordinary o (plain o member)

end Hub

end Switchboard
