import Switchboard.Proofs.Leftover

/-! What a release ends. A reference may also subscribe by itself, without being bound. In any run
the entries for its book are behind the registries that it has noted, so that a release of a bound
reference ends all of its subscriptions. A release of one that is not bound does nothing at all:
what it has subscribed by itself goes on, and providers that are published later still come into its
book. -/
namespace Switchboard

namespace Exchange

open Registry (Memory memoryProtocol)

variable {ε : Type} {x y z : Exchange ε} {number : Nat}

/-- An entry for a subscriber in the store of an address and in a registry behind it. -/
structure Listed (subscriber : Subscriber) (dataId : String) (settings : Registry.Settings)
    (x : Exchange ε) : Prop where
  store : subscriber ∈ (x.store settings.address).subscribersOf dataId
  roll : ∃ registry, x.outlet? registry = some settings ∧ (dataId, subscriber) ∈ x.roll registry

variable {subscriber : Subscriber} {dataId : String} {settings : Registry.Settings}

theorem Listed.quiet (listed : Listed subscriber dataId settings x) (quiet : Quiet x y) :
    Listed subscriber dataId settings y where
  store := by
    rw [quiet.store]
    exact listed.store
  roll := by
    obtain ⟨registry, known, entry⟩ := listed.roll
    exact ⟨registry, quiet.outlets registry settings known, by rw [quiet.rolls]; exact entry⟩

theorem listed_join {registry : Nat} {state : Memory}
    (found : x.registry? registry = some ⟨settings, .memory state⟩) (dataId : String)
    (subscriber : Subscriber) :
    Listed subscriber dataId settings (x.join registry settings state dataId subscriber) where
  store := by
    rw [store_join, if_pos rfl, Registry.Store.subscribersOf_subscribe, if_pos rfl]
    exact List.mem_append_right _ List.mem_cons_self
  roll := by
    refine ⟨registry, (outlet?_join found subscriber registry).trans (outlet?_of_memory found), ?_⟩
    rw [roll_join found, if_pos rfl]
    exact List.mem_append_right _ List.mem_cons_self

theorem Listed.join (listed : Listed subscriber dataId settings x) {registry : Nat}
    {outlet : Registry.Settings} {state : Memory}
    (found : x.registry? registry = some ⟨outlet, .memory state⟩) (id : String)
    (other : Subscriber) :
    Listed subscriber dataId settings (x.join registry outlet state id other) where
  store := by
    have before := listed.store
    rw [store_join]
    split
    next here =>
      rw [Registry.Store.subscribersOf_subscribe, here]
      split
      next same => exact List.mem_append_left _ (same ▸ before)
      next => exact before
    next => exact before
  roll := by
    obtain ⟨known, outlet?, entry⟩ := listed.roll
    refine ⟨known, (outlet?_join found other known).trans outlet?, ?_⟩
    rw [roll_join found]
    split
    next same => exact List.mem_append_left _ (same ▸ entry)
    next => exact entry

theorem listed_tryAll (tabled : x.Tabled) (service : Service) (subscriber : Subscriber)
    {sources : List Registry.Settings}
    (memory : ∀ s ∈ sources, s.protocol = memoryProtocol ∧ s.subscribes = true)
    {followed : List Followed}
    (done : tryAll (follow service subscriber) sources x = (⟨followed, none⟩, y)) :
    (∀ s, Listed subscriber service.dataId s x → Listed subscriber service.dataId s y) ∧
    ∀ s ∈ sources, Listed subscriber service.dataId s y := by
  induction sources generalizing x followed with
  | nil =>
      obtain ⟨-, rfl⟩ := Prod.mk.inj done
      exact ⟨fun _ listed => listed, fun _ member => absurd member List.not_mem_nil⟩
  | cons first rest ih =>
      obtain ⟨ofMemory, allows⟩ := memory first List.mem_cons_self
      obtain ⟨w, quiet, still, ⟨failure, -, failed⟩ | ⟨registry, state, -, found, joined⟩⟩ :=
        follow_memory tabled ofMemory allows service subscriber
      · rw [tryAll, failed] at done
        cases done
      · rw [tryAll, joined] at done
        dsimp only at done
        generalize later : tryAll (follow service subscriber) rest _ = walk at done
        obtain ⟨⟨others, failure⟩, last⟩ := walk
        obtain ⟨rfl, rfl⟩ : failure = none ∧ last = y := by
          simpa using And.intro (congrArg (fun d => d.1.failure) done) (congrArg Prod.snd done)
        obtain ⟨kept, entered⟩ := ih (still.join found _ _)
          (fun s member => memory s (List.mem_cons_of_mem _ member)) later
        refine ⟨fun s listed => kept s ((listed.quiet quiet).join found _ _), fun s member => ?_⟩
        rcases List.mem_cons.mp member with rfl | inRest
        · exact kept s (listed_join found _ _)
        · exact entered s inRest

theorem Listed.publish (listed : Listed (.reference number) dataId settings x)
    (known : number < x.books.length) {group : String} (named : group ≠ Group.directName)
    (provider : Provider) :
    provider.prepare ∈
      ((x.publish settings.address dataId group provider).book number).members group := by
  have told : ((x.store settings.address).subscribersOf dataId).count (.reference number) ≠ 0 :=
    Nat.pos_iff_ne_zero.mp (List.count_pos_iff.mpr listed.store)
  rw [Exchange.publish, book_commit x settings.address _ known]
  rw [show ((x.store settings.address).publish dataId group provider).2 =
    (x.store settings.address).announce dataId (.add ⟨group, [provider]⟩) from rfl,
    Registry.Store.pushesTo_announce, Book.members_told_add _ _ _ _ _ named, if_pos rfl]
  exact List.mem_append_right _ (List.mem_replicate.mpr ⟨told, rfl⟩)

end Exchange

namespace Hub

open Exchange (Listed)
open Registry (memoryProtocol)

variable {ε : Type} {number : Nat} {h g : Hub ε} {r : Reference ε}

theorem subscribe_of_noted (known : h.references[number]? = some r) (noted : r.subscribed ≠ []) :
    h.subscribe number = (.ok (h.book number).groups, h) := by
  simp [Hub.subscribe, known, noted]

theorem Keeps.refill (keeps : Keeps number r h) (direct : Option String) :
    match h.fill number direct with
    | (.ok _, g) => ∃ registries, Keeps number { r with subscribed := registries } g
    | (.error _, g) => Keeps number r g := by
  by_cases empty : r.subscribed = []
  · exact keeps.fill empty direct
  · cases direct with
    | none =>
        rw [Hub.fill, subscribe_of_noted keeps.known empty]
        exact ⟨r.subscribed, keeps⟩
    | some list =>
        rw [Hub.fill, Hub.seed]
        cases (Reference.addresses list).mapM Provider.parse with
        | error failure => exact keeps
        | ok providers => exact ⟨r.subscribed, keeps.withBook _⟩

/-- There is no such reference and no entry for its book, or the reference keeps account of the
entries. -/
inductive Accounted (number : Nat) (h : Hub ε) : Prop where
  | unknown (grow : h.exchange.definitions.Grow) (missing : h.references[number]? = none)
      (unlisted : h.exchange.Unlisted number)
  | known {r : Reference ε} (keeps : Keeps number r h)

theorem Accounted.grow (accounted : Accounted number h) : h.exchange.definitions.Grow := by
  cases accounted with
  | unknown grow _ _ => exact grow
  | known keeps => exact keeps.grow

theorem Accounted.keeps (accounted : Accounted number h)
    (known : h.references[number]? = some r) : Keeps number r h := by
  cases accounted with
  | unknown _ missing _ =>
      rw [missing] at known
      cases known
  | known keeps =>
      obtain rfl := Option.some.inj (keeps.known.symm.trans known)
      exact keeps

theorem Accounted.spares (accounted : Accounted number h) (spares : Spares number h g) :
    Accounted number g := by
  cases accounted with
  | unknown grow missing unlisted =>
      exact .unknown (spares.exchange.grow grow) (spares.reference.trans missing)
        (unlisted.sheds spares.exchange.toSheds)
  | known keeps => exact .known (keeps.spares spares)

theorem Accounted.subscribe (accounted : Accounted number h) :
    Accounted number (h.subscribe number).2 := by
  cases accounted with
  | unknown grow missing unlisted =>
      rw [Hub.subscribe, missing]
      exact .unknown grow missing unlisted
  | @known r keeps =>
      by_cases empty : r.subscribed = []
      · have subscribed := keeps.subscribe empty
        generalize h.subscribe number = done at subscribed
        obtain ⟨failure | groups, g⟩ := done
        · exact .known subscribed
        · obtain ⟨registries, kept⟩ := subscribed
          exact .known kept
      · rw [subscribe_of_noted keeps.known empty]
        exact .known keeps

theorem Accounted.bind (accounted : Accounted number h) : Accounted number (h.bind number).2 := by
  cases accounted with
  | unknown grow missing unlisted =>
      rw [Hub.bind, missing]
      exact .unknown grow missing unlisted
  | @known r keeps =>
      cases unbound : r.proxy with
      | some proxy =>
          simp only [Hub.bind, keeps.known, unbound]
          exact .known keeps
      | none =>
          have filled := keeps.refill r.settings.direct
          simp only [Hub.bind, keeps.known, unbound]
          generalize h.fill number r.settings.direct = done at filled
          obtain ⟨failure | value, g⟩ := done
          · exact .known filled
          · obtain ⟨registries, subscribed⟩ := filled
            have built := subscribed.spares (spares_buildProxy g number r)
            rw [proceed]
            generalize g.buildProxy number r = last at built
            obtain ⟨outcome, k⟩ := last
            have settled := built.settle r.service outcome
            generalize Hub.settle number r.service (outcome, k) = done at settled
            obtain ⟨failure | proxy, after⟩ := done
            · exact .known settled
            · exact .known settled

theorem Accounted.release (accounted : Accounted number h) :
    Accounted number (h.release number) := by
  cases accounted with
  | unknown grow missing unlisted =>
      rw [Hub.release, missing]
      exact .unknown grow missing unlisted
  | known keeps =>
      have released := keeps.release
      split at released
      · rw [released]
        exact .known keeps
      · exact .known released

theorem Accounted.addReference (accounted : Accounted number h)
    (fresh : number = h.references.length) (s : Reference.Settings) (custom : List (Filter ε)) :
    Accounted number (h.addReference s custom).2 := by
  have spared : Exchange.Spares number h.exchange (h.addReference s custom).2.exchange :=
    Exchange.spares_addBook h.exchange
  cases accounted with
  | unknown grow missing unlisted =>
      have added : (h.addReference s custom).2.references[number]? = some
          ⟨s, h.service s.interface s.protocol s.uniqueId s.appName, custom, [], none⟩ := by
        rw [Hub.addReference, fresh]
        exact List.getElem?_concat_length
      exact .known ⟨grow, added, (unlisted.sheds spared.toSheds).traced _ _⟩
  | known keeps =>
      exact absurd fresh (Nat.ne_of_lt (List.getElem?_eq_some_iff.mp keeps.known).1)

theorem Accounted.act (accounted : Accounted number h) (a : Act ε) :
    Accounted number (h.act a) := by
  by_cases binds : a = .turn (.bind number)
  · exact binds ▸ accounted.bind
  by_cases releases : a = .turn (.release number)
  · exact releases ▸ accounted.release
  by_cases asks : a = .subscribe number
  · exact asks ▸ accounted.subscribe
  by_cases adds : ∃ s custom, a = .addReference s custom ∧ number = h.references.length
  · obtain ⟨s, custom, rfl, fresh⟩ := adds
    exact accounted.addReference fresh s custom
  · refine accounted.spares
      (spares_act accounted.grow (fun s custom same fresh => ?_) binds releases asks)
    exact adds ⟨s, custom, same, fresh⟩

theorem accounted_run (settings : Settings) (world : ε) (acts : List (Act ε)) (number : Nat) :
    Accounted number ((Hub.new settings world).run acts) := by
  refine List.foldlRecOn acts Hub.act (motive := Accounted number) ?_
    fun _ before a _ => before.act a
  exact .unknown Registry.grow_definitions rfl
    ⟨fun _ _ entry => absurd entry List.not_mem_nil, fun _ _ entry => absurd entry List.not_mem_nil⟩

theorem release_of_unbound (known : h.references[number]? = some r) (unbound : r.proxy = none) :
    h.release number = h := by
  simp [Hub.release, known, unbound]

theorem listed_subscribe (known : h.references[number]? = some r) (empty : r.subscribed = [])
    (tabled : h.exchange.Tabled)
    (memory : ∀ s ∈ r.settings.registries, s.subscribes = true → s.protocol = memoryProtocol)
    {groups : List Group} (done : h.subscribe number = (.ok groups, g)) :
    ∀ s ∈ r.settings.registries, s.subscribes = true →
      Listed (.reference number) r.service.dataId s g.exchange := by
  have cleared : (h.exchange.withBook number ((h.book number).updateAll [])).Tabled :=
    tabled.same rfl rfl fun _ _ known => known
  have sources : ∀ s ∈ r.settings.registries.filter (·.subscribes),
      s.protocol = memoryProtocol ∧ s.subscribes = true := fun s member => by
    obtain ⟨listed, allows⟩ := List.mem_filter.mp member
    exact ⟨memory s listed allows, allows⟩
  rw [subscribe_eq known empty rfl, Exchange.followAll] at done
  generalize walked : Exchange.tryAll _ _ _ = walk at done
  obtain ⟨⟨followed, failure⟩, y⟩ := walk
  cases failure with
  | some failure => cases done
  | none =>
      obtain ⟨-, rfl⟩ := Prod.mk.inj done
      intro s member allows
      exact (Exchange.listed_tryAll cleared r.service _ sources walked).2 s
        (List.mem_filter.mpr ⟨member, allows⟩)

theorem proxy_subscribe (known : h.references[number]? = some r) (empty : r.subscribed = [])
    {groups : List Group} (done : h.subscribe number = (.ok groups, g)) :
    ∃ registries, g.references[number]? = some { r with subscribed := registries } := by
  rw [subscribe_eq known empty rfl] at done
  generalize Exchange.followAll _ _ _ _ = walk at done
  obtain ⟨failure | followed, y⟩ := walk
  · cases done
  · obtain ⟨-, rfl⟩ := Prod.mk.inj done
    exact ⟨_, getElem?_withReference (h := { h with exchange := y }) known _⟩

/-- A release ends the subscriptions of a reference just if it is bound or there are none: then
nothing changes its book before it is bound again or asked to subscribe. So it ends them whenever
the reference was never asked to subscribe by itself. One that has just subscribed by itself,
through memory registries, stays entered with each of them, and a provider that is published there
comes into its book. -/
theorem release_ends_iff {settings : Settings} {world : ε} {acts : List (Act ε)}
    (known : ((Hub.new settings world).run acts).references[number]? = some r) :
    ((((Hub.new settings world).run acts).release number).exchange.Unlisted number ↔
      r.proxy.isSome = true ∨ ((Hub.new settings world).run acts).exchange.Unlisted number) ∧
    ((((Hub.new settings world).run acts).release number).exchange.Unlisted number →
      ∀ later, (∀ a ∈ later, a ≠ .turn (.bind number) ∧ a ≠ .subscribe number) →
        ((((Hub.new settings world).run acts).release number).run later).book number =
          (((Hub.new settings world).run acts).release number).book number) ∧
    ((∀ a ∈ acts, a ≠ .subscribe number) →
      (((Hub.new settings world).run acts).release number).exchange.Unlisted number) ∧
    (r.proxy = none → r.subscribed = [] → ((Hub.new settings world).run acts).exchange.Tabled →
      (∀ s ∈ r.settings.registries, s.subscribes = true → s.protocol = memoryProtocol) →
      ∀ groups g, ((Hub.new settings world).run acts).subscribe number = (.ok groups, g) →
      ∀ s ∈ r.settings.registries, s.subscribes = true →
        Listed (.reference number) r.service.dataId s (g.release number).exchange ∧
        ∀ group provider, group ≠ Group.directName →
          provider.prepare ∈ (((g.release number).act
            (.publish s.address r.service.dataId group provider)).book number).members group) := by
  have keeps := (accounted_run settings world acts number).keeps known
  have released := keeps.release
  refine ⟨?_, fun unlisted later idle => ?_, fun unasked => ?_, ?_⟩
  · cases bound : r.proxy with
    | none => simp [release_of_unbound known bound]
    | some proxy =>
        rw [if_neg (by simp [bound])] at released
        simpa using released.traced.unlisted
  · cases bound : r.proxy with
    | none =>
        rw [release_of_unbound known bound] at unlisted ⊢
        exact keeps.book_run_of_unlisted bound unlisted idle
    | some proxy =>
        rw [if_neg (by simp [bound])] at released
        exact released.book_run_of_unlisted rfl unlisted idle
  · cases (sound_new settings world number).run unasked with
    | unknown _ missing _ =>
        rw [missing] at known
        cases known
    | @known s sound loose =>
        obtain rfl := Option.some.inj (sound.known.symm.trans known)
        cases bound : s.proxy with
        | none =>
            rw [release_of_unbound known bound]
            exact (loose bound ▸ keeps.traced).unlisted
        | some proxy =>
            rw [if_neg (by simp [bound])] at released
            exact released.traced.unlisted
  · intro unbound empty tabled memory groups g done s member allows
    obtain ⟨registries, noted⟩ := proxy_subscribe known empty done
    have paired : Paired g := by
      have after := (paired_run settings world acts).act (.subscribe number)
      rwa [act, done] at after
    have listed := listed_subscribe known empty tabled memory done s member allows
    rw [release_of_unbound noted unbound]
    exact ⟨listed, fun group provider named => listed.publish (paired.below noted) named provider⟩

def roving : Reference.Settings :=
  ⟨"com.demo.Echo", "", "bolt", "", [Registry.Settings.new memoryProtocol "north",
    Registry.Settings.new memoryProtocol "south"], none, "", rotationName, Codec.jsonName, none⟩

theorem release_ends_iff_roving :
    (Follower.weighing "50").prepare ∈
      (((((Hub.new Settings.default ()).run [.addReference roving []]).subscribe 0).2.release 0).act
        (.publish "south" "com.demo.Echo@bolt" "blue" (Follower.weighing "50"))
          |>.book 0).members "blue" := by
  have known : ((Hub.new Settings.default ()).run [.addReference roving []]).references[0]? =
      some ⟨roving, ⟨"com.demo.Echo", "bolt", "", ""⟩, [], [], none⟩ := by cbv
  have tabled : ((Hub.new Settings.default ()).run [.addReference roving []]).exchange.Tabled :=
    ⟨(accounted_run _ _ _ 0).grow, rfl, fun _ _ _ found => by cases found⟩
  have memory : ∀ s ∈ roving.registries, s.subscribes = true → s.protocol = memoryProtocol := by
    simp [roving, Registry.Settings.new]
  have done : (((Hub.new Settings.default ()).run [.addReference roving []]).subscribe 0).1 =
      .ok [] := by cbv
  exact ((release_ends_iff known).2.2.2 rfl rfl tabled memory [] _ (Prod.ext done rfl)
    (Registry.Settings.new memoryProtocol "south") (by simp [roving]) rfl).2 "blue" _ (by decide)

/-- A reference that has subscribed by itself is still entered after its release, and a provider
that is published then comes into its book. -/
theorem release_leaves_subscription :
    ¬ ((Hub.new Settings.default ()).run
        [.addReference roving [], .subscribe 0, .turn (.release 0)]).exchange.Unlisted 0 ∧
      (((Hub.new Settings.default ()).run
        [.addReference roving [], .subscribe 0, .turn (.release 0)]).book 0).size = 0 ∧
      (((Hub.new Settings.default ()).run
        [.addReference roving [], .subscribe 0, .turn (.release 0),
          .publish "south" "com.demo.Echo@bolt" "blue" (Follower.weighing "50")]).book 0).size =
            1 := by
  refine ⟨fun unlisted => unlisted.rolls 0 "com.demo.Echo@bolt" ?_, ?_, ?_⟩
  · have roll : ((Hub.new Settings.default ()).run
        [.addReference roving [], .subscribe 0, .turn (.release 0)]).exchange.roll 0 =
          [("com.demo.Echo@bolt", .reference 0)] := by cbv
    rw [roll]
    exact List.mem_cons_self
  · cbv
  · cbv

end Hub

end Switchboard
