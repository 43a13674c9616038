import Switchboard.Hub.Offers
import Switchboard.Proofs.Subscriptions

/-! A binding that fails releases its subscriptions. Whatever is done with a hub, a reference that
is not asked to subscribe by itself has subscriptions only while it is bound, and each entry for its
book is behind a registry that it has noted. A failure on the way to its proxy therefore leaves no
entry at all, and nothing changes its book before it is bound again. -/
namespace Switchboard

inductive Turn where
  | announce (offer now : Nat)
  | takeBack (offer : Nat)
  | bind (reference : Nat)
  | release (reference : Nat)
  | rescan (registry : Nat)
deriving DecidableEq

/-- What may be done with a hub. Definitions of registries leave the registries that are there as
they are. -/
inductive Act (ε : Type) where
  | turn (t : Turn)
  | subscribe (reference : Nat)
  | cluster (reference : Nat)
  | addOffer (s : Offer.Settings) (custom : List (Filter ε)) (act : Invoker ε)
  | addReference (s : Reference.Settings) (custom : List (Filter ε))
  | addRegistry (d : Definition (Registry.Pool ε) Registry.Settings Nat)
      (grows : Registry.Grows d.build)
  | addFilter (d : Definition ε Context (Filter ε))
  | addCodec (d : Definition ε Unit Codec)
  | addBalancer (d : Definition ε Unit (Balancer ε))
  | addListener (hear : Listener ε)
  | listen (registry : Nat) (service : Service) (listener : Nat)
  | publish (address dataId group : String) (provider : Provider)
  | withdraw (address dataId group : String) (provider : Provider)
  | runNext (limit : Nat)
  | destroy

namespace Hub

open Exchange (Quiet Traced)

variable {ε : Type}

def turn (h : Hub ε) : Turn → Hub ε
  | .announce offer now => (h.announce offer now).2
  | .takeBack offer => h.takeBack offer
  | .bind reference => (h.bind reference).2
  | .release reference => h.release reference
  | .rescan registry => { h with exchange := h.exchange.rescan registry }

def act (h : Hub ε) : Act ε → Hub ε
  | .turn t => h.turn t
  | .subscribe reference => (h.subscribe reference).2
  | .cluster reference => (h.cluster reference).2
  | .addOffer s custom act => (h.addOffer s custom act).2
  | .addReference s custom => (h.addReference s custom).2
  | .addRegistry d _ => (h.addRegistry d).2
  | .addFilter d => (h.addFilter d).2
  | .addCodec d => (h.addCodec d).2
  | .addBalancer d => (h.addBalancer d).2
  | .addListener hear => { h with exchange := (h.exchange.addListener hear).2 }
  | .listen registry service listener =>
      { h with exchange := (h.exchange.subscribe registry service (.listener listener)).2 }
  | .publish address id group provider =>
      { h with exchange := h.exchange.publish address id group provider }
  | .withdraw address id group provider =>
      { h with exchange := h.exchange.withdraw address id group provider }
  | .runNext limit => (h.runNext limit).getD h
  | .destroy => h.destroy

def run (h : Hub ε) (acts : List (Act ε)) : Hub ε := acts.foldl act h

/-- What is done without regard to a reference. -/
structure Spares (number : Nat) (h g : Hub ε) : Prop where
  exchange : Exchange.Spares number h.exchange g.exchange
  reference : g.references[number]? = h.references[number]?

variable {number other : Nat} {h g k : Hub ε}

theorem Spares.refl (h : Hub ε) : Spares number h h := ⟨.refl _, rfl⟩

theorem Spares.trans (first : Spares number h g) (second : Spares number g k) :
    Spares number h k :=
  ⟨first.exchange.trans second.exchange, second.reference.trans first.reference⟩

theorem spares_of_quiet (quiet : Quiet h.exchange g.exchange)
    (references : g.references = h.references) : Spares number h g :=
  ⟨quiet.spares, by rw [references]⟩

theorem quiet_chain (h : Hub ε) (context : Context) (selection : String)
    (custom : List (Filter ε)) :
    Quiet h.exchange (h.chain context selection custom).2.exchange :=
  Exchange.quiet_withWorld _ _

theorem quiet_codec (h : Hub ε) (key : String) : Quiet h.exchange (h.codec key).2.exchange :=
  Exchange.quiet_withWorld _ _

theorem spares_chain (h : Hub ε) (context : Context) (selection : String)
    (custom : List (Filter ε)) : Spares number h (h.chain context selection custom).2 :=
  spares_of_quiet (h.quiet_chain context selection custom) rfl

theorem spares_codec (h : Hub ε) (key : String) : Spares number h (h.codec key).2 :=
  spares_of_quiet (h.quiet_codec key) rfl

theorem spares_balancer (h : Hub ε) (key : String) : Spares number h (h.balancer key).2 :=
  spares_of_quiet (Exchange.quiet_withWorld _ _) rfl

theorem spares_withReference (different : other ≠ number) (h : Hub ε) (r : Reference ε) :
    Spares number h (h.withReference other r) :=
  ⟨.refl _, List.getElem?_set_ne different⟩

theorem spares_cluster (h : Hub ε) (other : Nat) : Spares number h (h.cluster other).2 := by
  rw [cluster]
  split
  next => exact .refl h
  next reference _ =>
    have balanced : Spares number h (h.balancer reference.settings.balancer).2 :=
      spares_balancer h _
    refine proceed_state balanced fun balancer _ => ?_
    have coded := balanced.trans (spares_codec _ reference.settings.codec)
    exact proceed_state coded fun codec _ => coded

theorem spares_buildProxy (h : Hub ε) (other : Nat) (reference : Reference ε) :
    Spares number h (h.buildProxy other reference).2 := by
  have clustered : Spares number h (h.cluster other).2 := spares_cluster h other
  refine proceed_state clustered fun cluster _ => ?_
  have chained := clustered.trans
    (spares_chain _ reference.context reference.settings.selection reference.custom)
  exact proceed_state chained fun chain _ => chained

theorem spares_announce (grow : h.exchange.definitions.Grow) (offer now : Nat) :
    Spares number h (h.announce offer now).2 := by
  rw [announce]
  split
  next => exact .refl h
  next found _ =>
    split
    next => exact .refl h
    next =>
      have prepared : Spares number h (h.prepareOffer found now).2 := by
        have chained : Spares number h
            (h.chain found.context found.settings.selection found.custom).2 :=
          spares_chain h _ _ _
        refine proceed_state chained fun chain _ => ?_
        have coded := chained.trans (spares_codec _ found.settings.codec)
        refine proceed_state coded fun codec _ => ?_
        have entered := coded.trans (k := (onExchange _ (Exchange.enterAll (found.registration now)
          (found.settings.registries.filter (·.registers)))).2)
          ⟨Exchange.spares_enterAll (coded.exchange.grow grow) _ _, rfl⟩
        exact proceed_state entered fun registries _ => entered
      exact proceed_state prepared fun announcement _ => ⟨prepared.exchange, prepared.reference⟩

theorem spares_takeBack (h : Hub ε) (offer : Nat) : Spares number h (h.takeBack offer) := by
  rw [takeBack]
  split
  next => exact .refl h
  next found _ =>
    split
    next => exact .refl h
    next a _ => exact ⟨Exchange.spares_leaveAll h.exchange a.registration a.registries, rfl⟩

theorem spares_subscribe (grow : h.exchange.definitions.Grow) (different : other ≠ number) :
    Spares number h (h.subscribe other).2 := by
  rw [subscribe]
  split
  next => exact .refl h
  next reference _ =>
    split
    next =>
      have cleared : Spares number h (h.withBook other ((h.book other).updateAll [])) :=
        ⟨Exchange.spares_withBook different h.exchange _, rfl⟩
      have followed := cleared.trans (k := (onExchange _ (Exchange.followAll reference.service
          (.reference other) (reference.settings.registries.filter (·.subscribes)))).2)
        ⟨Exchange.spares_followAll (cleared.exchange.grow grow) _ (by simpa using different) _,
          rfl⟩
      exact proceed_state followed fun list _ =>
        followed.trans (spares_withReference different _ _)
    next => exact .refl h

theorem spares_unsubscribe (different : other ≠ number) (h : Hub ε) :
    Spares number h (h.unsubscribe other) := by
  rw [unsubscribe]
  split
  next => exact .refl h
  next reference _ =>
    exact ⟨Exchange.spares_partAll h.exchange reference.service (.reference other)
      reference.subscribed, List.getElem?_set_ne different⟩

theorem spares_fill (grow : h.exchange.definitions.Grow) (different : other ≠ number)
    (direct : Option String) : Spares number h (h.fill other direct).2 := by
  cases direct with
  | none =>
      have subscribed := spares_subscribe grow different
      exact proceed_state subscribed fun _ _ => subscribed
  | some list =>
      rw [fill, seed]
      split
      · exact .refl h
      · exact ⟨Exchange.spares_withBook different h.exchange _, rfl⟩

theorem spares_settle (different : other ≠ number) (service : Service)
    {built : Outcome (Reference.Proxy ε) × Hub ε} (spares : Spares number h built.2) :
    Spares number h (settle other service built).2 := by
  obtain ⟨failure | proxy, g⟩ := built
  · exact (spares.trans (spares_unsubscribe different g)).trans
      (spares_of_quiet (Exchange.quiet_warn _ _) rfl)
  · rw [settle]
    split
    next => exact spares
    next reference _ =>
      exact spares.trans ⟨.refl _, List.getElem?_set_ne different⟩

theorem spares_bind (grow : h.exchange.definitions.Grow) (different : other ≠ number) :
    Spares number h (h.bind other).2 := by
  rw [bind]
  split
  next => exact .refl h
  next reference _ =>
    split
    next => exact .refl h
    next =>
      have filled := spares_fill grow different reference.settings.direct
      exact proceed_state filled fun _ _ =>
        spares_settle different _ (filled.trans (spares_buildProxy _ other reference))

theorem spares_release (different : other ≠ number) (h : Hub ε) :
    Spares number h (h.release other) := by
  rw [release]
  split
  next => exact .refl h
  next reference _ =>
    split
    next => exact .refl h
    next => exact (spares_withReference different h _).trans (spares_unsubscribe different _)

theorem spares_turn (grow : h.exchange.definitions.Grow) {t : Turn} (unbound : t ≠ .bind number)
    (unreleased : t ≠ .release number) : Spares number h (h.turn t) := by
  cases t with
  | announce offer now => exact spares_announce grow offer now
  | takeBack offer => exact spares_takeBack h offer
  | bind other => exact spares_bind grow fun same => unbound (congrArg Turn.bind same)
  | release other => exact spares_release (fun same => unreleased (congrArg Turn.release same)) h
  | rescan registry => exact ⟨Exchange.spares_rescan h.exchange registry, rfl⟩

theorem spares_destroy (h : Hub ε) : Spares number h h.destroy := by
  rw [destroy]
  split
  next => exact .refl h
  next =>
    have stopped : Quiet h.exchange { h.exchange with tasks := h.exchange.tasks.stopAll } :=
      ⟨rfl, rfl, fun _ _ known => known, fun _ => rfl, rfl⟩
    exact ⟨stopped.spares.trans (Exchange.spares_destroyAll _), rfl⟩

theorem spares_addRegistry (h : Hub ε)
    {d : Definition (Registry.Pool ε) Registry.Settings Nat} (grows : Registry.Grows d.build) :
    Spares number h (h.addRegistry d).2 where
  exchange :=
    { outlets := fun _ _ known => known
      rolls := fun _ _ entry => entry
      stores := fun _ _ entry => entry
      grow := fun grow => grow.register d grows
      held := Nat.le_refl _
      book := fun _ => rfl }
  reference := rfl

theorem spares_act (grow : h.exchange.definitions.Grow) {a : Act ε}
    (elsewhere : ∀ s custom, a = .addReference s custom → number ≠ h.references.length)
    (unbound : a ≠ .turn (.bind number))
    (unreleased : a ≠ .turn (.release number)) (unasked : a ≠ .subscribe number) :
    Spares number h (h.act a) := by
  cases a with
  | turn t =>
      exact spares_turn grow (fun same => unbound (congrArg Act.turn same))
        fun same => unreleased (congrArg Act.turn same)
  | subscribe other =>
      exact spares_subscribe grow fun same => unasked (congrArg Act.subscribe same)
  | cluster other => exact spares_cluster h other
  | addOffer s custom act => exact ⟨.refl _, rfl⟩
  | addReference s custom =>
      refine ⟨Exchange.spares_addBook h.exchange, ?_⟩
      rw [act, addReference]
      rcases Nat.lt_or_gt_of_ne (elsewhere s custom rfl) with below | beyond
      · exact List.getElem?_append_left below
      · rw [List.getElem?_eq_none (Nat.le_of_lt beyond), List.getElem?_eq_none]
        simpa using Nat.succ_le_of_lt beyond
  | addRegistry d grows => exact spares_addRegistry h grows
  | addFilter d => exact spares_of_quiet (Exchange.quiet_warn _ _) rfl
  | addCodec d => exact spares_of_quiet (Exchange.quiet_warn _ _) rfl
  | addBalancer d => exact spares_of_quiet (Exchange.quiet_warn _ _) rfl
  | addListener hear =>
      exact spares_of_quiet ⟨rfl, rfl, fun _ _ known => known, fun _ => rfl, rfl⟩ rfl
  | listen registry service listener =>
      exact ⟨Exchange.spares_subscribe h.exchange registry service (by simp), rfl⟩
  | publish address id group provider => exact ⟨Exchange.spares_publish h.exchange _ _ _ _, rfl⟩
  | withdraw address id group provider => exact ⟨Exchange.spares_withdraw h.exchange _ _ _ _, rfl⟩
  | runNext limit =>
      rw [act, runNext]
      cases ran : h.exchange.runNext limit with
      | none => exact .refl h
      | some y => exact ⟨Exchange.spares_runNext ran, rfl⟩
  | destroy => exact spares_destroy h

/-- A reference has noted every registry behind which there is an entry for its book. -/
structure Keeps (number : Nat) (r : Reference ε) (h : Hub ε) : Prop where
  grow : h.exchange.definitions.Grow
  known : h.references[number]? = some r
  traced : h.exchange.Traced number r.service.dataId r.subscribed

variable {r : Reference ε}

theorem Keeps.spares (keeps : Keeps number r h) (spares : Spares number h g) :
    Keeps number r g where
  grow := spares.exchange.grow keeps.grow
  known := spares.reference.trans keeps.known
  traced := keeps.traced.sheds spares.exchange.toSheds

theorem Keeps.withBook (keeps : Keeps number r h) (b : Book) :
    Keeps number r (h.withBook number b) :=
  ⟨keeps.grow, keeps.known, keeps.traced.sheds (Exchange.sheds_withBook h.exchange number b)⟩

theorem getElem?_withReference (known : h.references[number]? = some r) (s : Reference ε) :
    (h.withReference number s).references[number]? = some s :=
  List.getElem?_set_self (List.getElem?_eq_some_iff.mp known).1

theorem subscribe_eq {followed : Outcome (List Exchange.Followed) × Exchange ε}
    (known : h.references[number]? = some r) (empty : r.subscribed = [])
    (done : Exchange.followAll r.service (.reference number)
      (r.settings.registries.filter (·.subscribes))
      (h.exchange.withBook number ((h.book number).updateAll [])) = followed) :
    h.subscribe number = proceed (followed.1, { h with exchange := followed.2 }) fun list after =>
      (.ok (list.flatMap (·.groups)),
        after.withReference number { r with subscribed := list.map (·.number) }) := by
  subst done
  simp only [Hub.subscribe, known, empty, List.isEmpty_nil, if_true]
  rfl

theorem unsubscribe_eq (known : h.references[number]? = some r) :
    h.unsubscribe number =
      { h with
        exchange := h.exchange.partAll r.service (.reference number) r.subscribed
        references := h.references.set number { r with subscribed := [] } } := by
  rw [Hub.unsubscribe, known]
  rfl

theorem Keeps.unsubscribe (keeps : Keeps number r h) :
    Keeps number { r with subscribed := [] } (h.unsubscribe number) := by
  have parted : Exchange.Spares number h.exchange
      (h.exchange.partAll r.service (.reference number) r.subscribed) :=
    Exchange.spares_partAll h.exchange r.service _ _
  rw [unsubscribe_eq keeps.known]
  exact
    { grow := parted.grow keeps.grow
      known := getElem?_withReference keeps.known _
      traced := keeps.traced.partAll.traced _ _ }

theorem Keeps.subscribe (keeps : Keeps number r h) (empty : r.subscribed = []) :
    match h.subscribe number with
    | (.ok _, g) => ∃ registries, Keeps number { r with subscribed := registries } g
    | (.error _, g) => Keeps number r g := by
  have cleared := keeps.withBook ((h.book number).updateAll [])
  have unlisted := (empty ▸ cleared.traced).unlisted
  obtain ⟨grown, followed⟩ := unlisted.followAll cleared.grow r.service
    (r.settings.registries.filter (·.subscribes))
  generalize done : Exchange.followAll r.service (.reference number) _ _ = walk at grown followed
  rw [subscribe_eq keeps.known empty done]
  obtain ⟨failure | list, y⟩ := walk
  · exact ⟨grown, keeps.known, followed.traced _ _⟩
  · exact ⟨list.map Exchange.Followed.number, grown, getElem?_withReference keeps.known _, followed⟩

theorem Keeps.fill (keeps : Keeps number r h) (empty : r.subscribed = [])
    (direct : Option String) :
    match h.fill number direct with
    | (.ok _, g) => ∃ registries, Keeps number { r with subscribed := registries } g
    | (.error _, g) => Keeps number r g := by
  cases direct with
  | none =>
      have subscribed := keeps.subscribe empty
      rw [Hub.fill]
      generalize h.subscribe number = done at subscribed
      obtain ⟨failure | groups, g⟩ := done
      · exact subscribed
      · exact subscribed
  | some list =>
      rw [Hub.fill, Hub.seed]
      cases (Reference.addresses list).mapM Provider.parse with
      | error failure => exact keeps
      | ok providers => exact ⟨r.subscribed, keeps.withBook _⟩

theorem Keeps.settle (keeps : Keeps number r h) (service : Service)
    (outcome : Outcome (Reference.Proxy ε)) :
    match Hub.settle number service (outcome, h) with
    | (.ok proxy, g) => Keeps number { r with proxy := some proxy } g
    | (.error _, g) => Keeps number { r with subscribed := [] } g := by
  cases outcome with
  | error failure =>
      exact keeps.unsubscribe.spares (spares_of_quiet (Exchange.quiet_warn _ _) rfl)
  | ok proxy =>
      simp only [Hub.settle, keeps.known]
      exact ⟨keeps.grow, getElem?_withReference keeps.known _, keeps.traced⟩

theorem Keeps.bind (keeps : Keeps number r h) (unbound : r.proxy = none)
    (empty : r.subscribed = []) :
    match h.bind number with
    | (.ok proxy, g) => ∃ registries,
        Keeps number { r with subscribed := registries, proxy := some proxy } g
    | (.error _, g) => Keeps number r g := by
  have filled := keeps.fill empty r.settings.direct
  simp only [Hub.bind, keeps.known, unbound]
  generalize h.fill number r.settings.direct = done at filled
  obtain ⟨failure | value, g⟩ := done
  · exact filled
  · obtain ⟨registries, subscribed⟩ := filled
    have built := subscribed.spares (spares_buildProxy g number r)
    rw [proceed]
    generalize g.buildProxy number r = last at built
    obtain ⟨outcome, k⟩ := last
    have settled := built.settle r.service outcome
    generalize Hub.settle number r.service (outcome, k) = done at settled
    obtain ⟨failure | proxy, after⟩ := done
    · exact (show ({ r with subscribed := [] } : Reference ε) = r by rw [← empty]) ▸ settled
    · exact ⟨registries, settled⟩

theorem Keeps.release (keeps : Keeps number r h) :
    if r.proxy.isNone then h.release number = h
    else Keeps number { r with proxy := none, subscribed := [] } (h.release number) := by
  rw [Hub.release, keeps.known]
  split
  next unbound => exact if_pos unbound
  next bound =>
    dsimp only
    rw [if_neg bound]
    have loosened : Keeps number { r with proxy := none }
        (h.withReference number { r with proxy := none }) :=
      ⟨keeps.grow, getElem?_withReference keeps.known _, keeps.traced⟩
    exact loosened.unsubscribe

/-- There is no such reference and no entry for its book, or the reference keeps account of the
entries and has none while it is not bound. -/
inductive Sound (number : Nat) (h : Hub ε) : Prop where
  | unknown (grow : h.exchange.definitions.Grow) (missing : h.references[number]? = none)
      (unlisted : h.exchange.Unlisted number)
  | known {r : Reference ε} (keeps : Keeps number r h)
      (loose : r.proxy = none → r.subscribed = [])

theorem Sound.grow (sound : Sound number h) : h.exchange.definitions.Grow := by
  cases sound with
  | unknown grow _ _ => exact grow
  | known keeps _ => exact keeps.grow

theorem Sound.spares (sound : Sound number h) (spares : Spares number h g) : Sound number g := by
  cases sound with
  | unknown grow missing unlisted =>
      exact .unknown (spares.exchange.grow grow) (spares.reference.trans missing)
        (unlisted.sheds spares.exchange.toSheds)
  | known keeps loose => exact .known (keeps.spares spares) loose

theorem Sound.bind (sound : Sound number h) : Sound number (h.bind number).2 := by
  cases sound with
  | unknown grow missing unlisted =>
      rw [Hub.bind, missing]
      exact .unknown grow missing unlisted
  | @known r keeps loose =>
      cases unbound : r.proxy with
      | some proxy =>
          simp only [Hub.bind, keeps.known, unbound]
          exact .known keeps loose
      | none =>
          have bound := keeps.bind unbound (loose unbound)
          generalize h.bind number = done at bound
          obtain ⟨failure | proxy, g⟩ := done
          · exact .known bound loose
          · obtain ⟨registries, kept⟩ := bound
            exact .known kept fun absurd => by cases absurd

theorem Sound.release (sound : Sound number h) : Sound number (h.release number) := by
  cases sound with
  | unknown grow missing unlisted =>
      rw [Hub.release, missing]
      exact .unknown grow missing unlisted
  | known keeps loose =>
      have released := keeps.release
      split at released
      · rw [released]
        exact .known keeps loose
      · exact .known released fun _ => rfl

theorem Sound.addReference (sound : Sound number h) (fresh : number = h.references.length)
    (s : Reference.Settings) (custom : List (Filter ε)) :
    Sound number (h.addReference s custom).2 := by
  have spared : Exchange.Spares number h.exchange (h.addReference s custom).2.exchange :=
    Exchange.spares_addBook h.exchange
  cases sound with
  | unknown grow missing unlisted =>
      have added : (h.addReference s custom).2.references[number]? = some
          ⟨s, h.service s.interface s.protocol s.uniqueId s.appName, custom, [], none⟩ := by
        rw [Hub.addReference, fresh]
        exact List.getElem?_concat_length
      exact .known ⟨grow, added, (unlisted.sheds spared.toSheds).traced _ _⟩ fun _ => rfl
  | known keeps _ =>
      exact absurd fresh (Nat.ne_of_lt (List.getElem?_eq_some_iff.mp keeps.known).1)

theorem Sound.act (sound : Sound number h) {a : Act ε} (unasked : a ≠ .subscribe number) :
    Sound number (h.act a) := by
  by_cases binds : a = .turn (.bind number)
  · exact binds ▸ sound.bind
  by_cases releases : a = .turn (.release number)
  · exact releases ▸ sound.release
  by_cases adds : ∃ s custom, a = .addReference s custom ∧ number = h.references.length
  · obtain ⟨s, custom, rfl, fresh⟩ := adds
    exact sound.addReference fresh s custom
  · refine sound.spares
      (spares_act sound.grow (fun s custom same fresh => ?_) binds releases unasked)
    exact adds ⟨s, custom, same, fresh⟩

theorem sound_new (settings : Settings) (world : ε) (number : Nat) :
    Sound number (Hub.new settings world) := by
  refine .unknown Registry.grow_definitions rfl ⟨fun registry id entry => ?_, fun _ _ entry => ?_⟩
  · exact absurd entry List.not_mem_nil
  · exact absurd entry List.not_mem_nil

theorem Sound.run (sound : Sound number h) {acts : List (Act ε)}
    (unasked : ∀ a ∈ acts, a ≠ .subscribe number) : Sound number (h.run acts) :=
  List.foldlRecOn acts Hub.act (motive := Sound number) sound fun _ before a member =>
    before.act (unasked a member)

theorem Keeps.book_run_of_unlisted (keeps : Keeps number r h) (unbound : r.proxy = none)
    (unlisted : h.exchange.Unlisted number) {later : List (Act ε)}
    (idle : ∀ a ∈ later, a ≠ .turn (.bind number) ∧ a ≠ .subscribe number) :
    (h.run later).book number = h.book number := by
  refine (List.foldlRecOn later Hub.act
    (motive := fun g =>
      Keeps number r g ∧ g.exchange.Unlisted number ∧ g.book number = h.book number)
    ⟨keeps, unlisted, rfl⟩ fun g before a member => ?_).2.2
  obtain ⟨kept, still, same⟩ := before
  obtain ⟨notBound, notAsked⟩ := idle a member
  by_cases releases : a = .turn (.release number)
  · have unchanged : g.act a = g := by
      have released := kept.release
      rw [if_pos (by rw [unbound]; rfl)] at released
      rw [releases]
      exact released
    rw [unchanged]
    exact ⟨kept, still, same⟩
  · have below := (List.getElem?_eq_some_iff.mp kept.known).1
    have spared := spares_act kept.grow (fun _ _ _ => Nat.ne_of_lt below) notBound releases notAsked
    exact ⟨kept.spares spared, still.sheds spared.exchange.toSheds,
      (spared.exchange.book still).trans same⟩

theorem Keeps.book_run (keeps : Keeps number r h) (unbound : r.proxy = none)
    (empty : r.subscribed = []) {later : List (Act ε)}
    (idle : ∀ a ∈ later, a ≠ .turn (.bind number) ∧ a ≠ .subscribe number) :
    (h.run later).book number = h.book number :=
  keeps.book_run_of_unlisted unbound (empty ▸ keeps.traced).unlisted idle

/-- A binding that fails leaves a reference unbound and without subscriptions, no store and no
registry has an entry for its book, and nothing changes the book before the reference is bound again
or asked to subscribe. -/
theorem bind_failed_releases {settings : Settings} {world : ε} {acts : List (Act ε)}
    {failure : Failure} {after : Hub ε}
    (known : number < ((Hub.new settings world).run acts).references.length)
    (unasked : ∀ a ∈ acts, a ≠ .subscribe number)
    (failed : ((Hub.new settings world).run acts).bind number = (.error failure, after)) :
    (∃ r, after.references[number]? = some r ∧ r.proxy = none ∧ r.subscribed = []) ∧
    (∀ address id, .reference number ∉ (after.exchange.store address).subscribersOf id) ∧
    (∀ registry id, (id, .reference number) ∉ after.exchange.roll registry) ∧
    ∀ later, (∀ a ∈ later, a ≠ .turn (.bind number) ∧ a ≠ .subscribe number) →
      (after.run later).book number = after.book number := by
  cases (sound_new settings world number).run unasked with
  | unknown _ missing _ =>
      exact absurd known (Nat.not_lt_of_le (List.getElem?_eq_none_iff.mp missing))
  | @known r keeps loose =>
      cases unbound : r.proxy with
      | some proxy =>
          simp only [Hub.bind, keeps.known, unbound] at failed
          cases failed
      | none =>
          have empty := loose unbound
          have left := keeps.bind unbound empty
          rw [failed] at left
          have unlisted := (empty ▸ left.traced).unlisted
          exact ⟨⟨r, left.known, unbound, empty⟩, unlisted.stores, unlisted.rolls,
            fun later idle => left.book_run unbound empty idle⟩

/-- A reference to a service at an address under two settings, with an unknown filter, after a
provider was published there and a first attempt to bind it. -/
def filtered : List (Act Unit) :=
  let center := Registry.Settings.new Registry.memoryProtocol "center"
  [.addReference ⟨"com.demo.Echo", "", "bolt", "", [center, { center with timeout := 7000 }], none,
      "missing", rotationName, Codec.jsonName, none⟩ [],
    .publish "center" "com.demo.Echo@bolt" "blue" (Follower.weighing "100"),
    .turn (.bind 0)]

theorem bind_failed_releases_filtered :
    (((Hub.new Settings.default ()).run filtered).bind 0).1 =
      .error (.missingExtension "filter" "missing") ∧
    (((Hub.new Settings.default ()).run filtered).bind 0).2.book 0 =
      ((((Hub.new Settings.default ()).run filtered).bind 0).2.run
        [.withdraw "center" "com.demo.Echo@bolt" "blue" (Follower.weighing "100"),
          .turn (.rescan 1)]).book 0 := by
  have refused : (((Hub.new Settings.default ()).run filtered).bind 0).1 =
      .error (.missingExtension "filter" "missing") := by cbv
  have known : 0 < ((Hub.new Settings.default ()).run filtered).references.length := by cbv
  have unasked : ∀ a ∈ filtered, a ≠ .subscribe 0 := by simp [filtered]
  have released := bind_failed_releases known unasked (Prod.ext refused rfl :
    ((Hub.new Settings.default ()).run filtered).bind 0 = (_, _))
  exact ⟨refused, (released.2.2.2 _ (by simp)).symm⟩

end Hub

end Switchboard
