import Switchboard.Proofs.Roster

/-! Offers and references that meet at one address, over any run in which they are announced and
taken back, bound and released, and in which full pushes come in between. The store of the address
agrees with the offers that are announced, and the book of each reference that is bound agrees with
the store, so that calls may go to the providers announced for its data id and to no other ones. -/
namespace Switchboard

open Registry (Registration memoryProtocol memoryDefinition)

namespace Exchange

variable {ε : Type} {address : String} {number : Nat} {x y : Exchange ε}

/-- A reference that goes to one address. Without a subscription it is unbound and its book rests;
otherwise it has noted the registry through which its book follows. -/
structure Attends (address : String) (number : Nat) (x : Exchange ε) (r : Reference ε) : Prop where
  direct : r.settings.direct = none
  alone : Alone address r.settings.registries
  state : (r.subscribed = [] ∧ r.proxy = none ∧ Rests number x) ∨
    ∃ registry, r.subscribed = [registry] ∧ Follows address r.service.dataId number [registry] x

theorem Attends.carries {r : Reference ε} (attends : Attends address number x r)
    (carries : Carries address number x y) : Attends address number y r where
  direct := attends.direct
  alone := attends.alone
  state := by
    rcases attends.state with ⟨empty, unbound, rests⟩ | ⟨registry, one, follows⟩
    · exact .inl ⟨empty, unbound, carries.rests rests⟩
    · exact .inr ⟨registry, one, carries.follows follows⟩

theorem Attends.rests {r : Reference ε} (attends : Attends address number x r)
    (empty : r.subscribed = []) : r.proxy = none ∧ Rests number x := by
  rcases attends.state with ⟨-, unbound, rests⟩ | ⟨registry, one, -⟩
  · exact ⟨unbound, rests⟩
  · rw [empty] at one
    cases one

theorem carries_addBook (x : Exchange ε) : Carries address number x x.addBook.2 where
  rests rests := rests.spares (spares_addBook x)
  follows follows :=
    { attached :=
        { known := by
            rw [addBook, List.length_append]
            exact Nat.lt_add_right _ follows.attached.known
          counted := follows.attached.counted
          unnamed := follows.attached.unnamed }
      shows := fun name => by
        rw [book_addBook]
        exact follows.shows name
      tidy := by rw [book_addBook]; exact follows.tidy
      traced := follows.traced.sheds (spares_addBook x).toSheds
      outlets := follows.outlets }

theorem rests_addBook (x : Exchange ε) (unlisted : x.Unlisted x.books.length) :
    Rests x.books.length x.addBook.2 := by
  have empty : x.addBook.2.book x.books.length = Book.empty := by
    rw [book, addBook, List.getD_eq_getElem?_getD, List.getElem?_concat_length]
    rfl
  refine ⟨?_, unlisted.sheds (spares_addBook x).toSheds, ?_, ?_⟩
  · rw [addBook, List.length_append]
    exact Nat.lt_succ_self _
  · rw [empty]
    rfl
  · rw [empty]
    rfl

end Exchange

/-- What may be done with a hub whose offers and references meet at one address. -/
def Act.Joins {ε : Type} (address : String) : Act ε → Prop
  | .addOffer s _ _ => s.group ≠ Group.directName ∧ Exchange.Alone address s.registries
  | .addReference s _ => s.direct = none ∧ Exchange.Alone address s.registries
  | .addRegistry d _ => d.key ≠ memoryProtocol
  | .subscribe _ | .listen _ _ _ | .publish _ _ _ _ | .withdraw _ _ _ _ | .destroy => False
  | .turn _ | .cluster _ | .addFilter _ | .addCodec _ | .addBalancer _ | .addListener _
  | .runNext _ => True

def Act.key? {ε : Type} : Act ε → Option (String × String × Identity)
  | .addOffer s _ _ => some (Service.dataId ⟨s.interface, s.protocol, s.uniqueId, s.appName⟩,
      s.group, ⟨s.host, s.port, s.protocol⟩)
  | _ => none

namespace Hub

open Exchange

variable {ε : Type} {address : String} {h g : Hub ε} {m : Nat} {r : Reference ε}

/-- Offers, store and books of a hub agree with each other at an address. -/
structure Agreement (address : String) (h : Hub ε) : Prop where
  stocked : Stocked address h.offers h.exchange
  attends : ∀ n r, h.references[n]? = some r → Attends address n h.exchange r
  paired : h.exchange.books.length = h.references.length

theorem Agreement.carries (agreement : Agreement address h)
    (stocked : Stocked address g.offers g.exchange) (references : g.references = h.references)
    (books : g.exchange.books.length = h.exchange.books.length)
    (carries : ∀ n, Carries address n h.exchange g.exchange) : Agreement address g where
  stocked := stocked
  attends n r known := (agreement.attends n r (references ▸ known)).carries (carries n)
  paired := by rw [books, agreement.paired, references]

theorem Agreement.set (agreement : Agreement address h)
    (stocked : Stocked address g.offers g.exchange)
    (references : g.references = h.references.set m r)
    (books : g.exchange.books.length = h.exchange.books.length)
    (others : ∀ n, m ≠ n → Carries address n h.exchange g.exchange)
    (own : Attends address m g.exchange r) : Agreement address g where
  stocked := stocked
  attends n s known := by
    rw [references, List.getElem?_set] at known
    split at known
    next same =>
      split at known
      · obtain rfl := Option.some.inj known
        exact same ▸ own
      · cases known
    next different => exact (agreement.attends n s known).carries (others n different)
  paired := by rw [books, agreement.paired, references, List.length_set]

theorem Agreement.quiet (agreement : Agreement address h) (quiet : Quiet h.exchange g.exchange)
    (tabled : g.exchange.Tabled) (offers : g.offers = h.offers)
    (references : g.references = h.references) : Agreement address g :=
  agreement.carries (offers ▸ agreement.stocked.steady quiet.steady tabled) references
    (by rw [quiet.books]) fun _ => quiet.carries

theorem Agreement.aside (agreement : Agreement address h) {world : ε} {warnings : List Warning}
    (same : g.exchange = { h.exchange with
      pool := { h.exchange.pool with world := world }, warnings := warnings })
    (offers : g.offers = h.offers) (references : g.references = h.references) :
    Agreement address g := by
  refine agreement.quiet ?_ ?_ offers references
  · rw [same]
    exact ⟨rfl, rfl, fun _ _ known => known, fun _ => rfl, rfl⟩
  · rw [same]
    exact agreement.stocked.tabled.same rfl rfl fun _ _ known => known

theorem Agreement.chain (agreement : Agreement address h) (context : Context)
    (selection : String) (custom : List (Filter ε)) :
    Agreement address (h.chain context selection custom).2 := agreement.aside rfl rfl rfl

theorem Agreement.codec (agreement : Agreement address h) (key : String) :
    Agreement address (h.codec key).2 := agreement.aside rfl rfl rfl

theorem Agreement.balancer (agreement : Agreement address h) (key : String) :
    Agreement address (h.balancer key).2 := agreement.aside rfl rfl rfl

theorem Agreement.cluster (agreement : Agreement address h) (n : Nat) :
    Agreement address (h.cluster n).2 := by
  rw [Hub.cluster]
  split
  next => exact agreement
  next reference _ =>
    have balanced := agreement.balancer reference.settings.balancer
    refine proceed_state balanced fun balancer _ => ?_
    have coded := balanced.codec reference.settings.codec
    exact proceed_state coded fun codec _ => coded

theorem Agreement.buildProxy (agreement : Agreement address h) (n : Nat)
    (reference : Reference ε) : Agreement address (h.buildProxy n reference).2 := by
  have clustered := agreement.cluster n
  refine proceed_state clustered fun cluster _ => ?_
  have chained := clustered.chain reference.context reference.settings.selection reference.custom
  exact proceed_state chained fun chain _ => chained

theorem Agreement.subscribe (agreement : Agreement address h)
    (known : h.references[m]? = some r) (empty : r.subscribed = []) :
    match h.subscribe m with
    | (.ok _, g) => Agreement address g ∧
        ∃ registry, g.references[m]? = some { r with subscribed := [registry] }
    | (.error _, g) => Agreement address g ∧ g.references[m]? = some r := by
  have attends := agreement.attends m r known
  obtain ⟨unbound, rests⟩ := attends.rests empty
  obtain ⟨s, only, memory, here, -, allows⟩ := attends.alone
  obtain ⟨cleared, vacant⟩ := rests.clear
  obtain ⟨below, own⟩ := List.getElem?_eq_some_iff.mp known
  have tabled : (h.exchange.withBook m ((h.book m).updateAll [])).Tabled :=
    agreement.stocked.tabled.same rfl rfl fun _ _ known => known
  have sources : r.settings.registries.filter (·.subscribes) = [s] := by
    rw [only, List.filter_cons_of_pos allows, List.filter_nil]
  obtain ⟨y, quiet, still, outcome⟩ :=
    followAll_memory tabled memory allows r.service (.reference m)
  have steady : Steady address h.exchange y := (steady_withBook _ m _).trans quiet.steady
  have others : ∀ n, m ≠ n → Carries address n h.exchange y := fun n different =>
    (leaves_withBook different _ _).carries.trans quiet.carries
  have carried : Carries address m _ y := quiet.carries
  have resting := carried.rests cleared
  rw [← sources] at outcome
  rcases outcome with ⟨failure, failed⟩ | ⟨registry, state, found, followed⟩
  · rw [subscribe_eq known empty failed]
    refine ⟨agreement.set (m := m) (r := r) (agreement.stocked.steady steady still) ?_ steady.known
      others ⟨attends.direct, attends.alone, .inl ⟨empty, unbound, resting⟩⟩, known⟩
    rw [← own]
    exact (List.set_getElem_self below).symm
  · rw [subscribe_eq known empty followed]
    have joined := steady.trans (steady_join found r.service.dataId (.reference m))
    have unnamed :
        ((y.store s.address).groupsOf r.service.dataId).get? Group.directName = none := by
      rw [here, groupsOf_of_services steady.services]
      exact agreement.stocked.unnamed _
    have follows := resting.join (by rw [quiet.book]; exact vacant) unnamed found
    rw [here] at follows
    refine ⟨agreement.set (m := m) (r := { r with subscribed := [registry] })
      (agreement.stocked.steady joined (still.join found _ _)) rfl joined.known
      (fun n different => (others n different).trans (leaves_join found _ different).carries)
      ⟨attends.direct, attends.alone, .inr ⟨registry, rfl, follows⟩⟩, registry, ?_⟩
    exact List.getElem?_set_self below

theorem Agreement.unsubscribe (agreement : Agreement address h)
    (known : h.references[m]? = some r) (unbound : r.proxy = none) :
    Agreement address (h.unsubscribe m) := by
  have attends := agreement.attends m r known
  rw [unsubscribe_eq known]
  rcases attends.state with ⟨empty, -, rests⟩ | ⟨registry, one, follows⟩
  · rw [empty]
    exact agreement.set (m := m) (r := { r with subscribed := [] }) agreement.stocked rfl rfl
      (fun n _ => .refl _) ⟨attends.direct, attends.alone, .inl ⟨rfl, unbound, rests⟩⟩
  · rw [one]
    obtain ⟨settings, outlet, -⟩ := follows.outlets registry List.mem_cons_self
    obtain ⟨state, found, parted⟩ := partAll_memory outlet r.service (.reference m)
    have rests := follows.part
    rw [parted] at rests ⊢
    have steady : Steady address h.exchange _ :=
      steady_dismiss found r.service.dataId (.reference m)
    exact agreement.set (m := m) (r := { r with subscribed := [] })
      (agreement.stocked.steady steady (agreement.stocked.tabled.dismiss found _ _)) rfl
      steady.known
      (fun n different => (leaves_dismiss found _ different).carries)
      ⟨attends.direct, attends.alone, .inl ⟨rfl, unbound, rests⟩⟩

theorem Agreement.withProxy (agreement : Agreement address h)
    (known : h.references[m]? = some r) {registry : Nat} (one : r.subscribed = [registry])
    (proxy : Option (Reference.Proxy ε)) :
    Agreement address (h.withReference m { r with proxy := proxy }) := by
  have attends := agreement.attends m r known
  refine agreement.set (m := m) (r := { r with proxy := proxy }) agreement.stocked rfl rfl
    (fun n _ => .refl _) ⟨attends.direct, attends.alone, .inr ?_⟩
  rcases attends.state with ⟨empty, -, -⟩ | follows
  · rw [one] at empty
    cases empty
  · exact follows

theorem Agreement.settle (agreement : Agreement address h) (known : h.references[m]? = some r)
    (unbound : r.proxy = none) {registry : Nat} (one : r.subscribed = [registry])
    (service : Service) (outcome : Outcome (Reference.Proxy ε)) :
    Agreement address (Hub.settle m service (outcome, h)).2 := by
  cases outcome with
  | error failure => exact (agreement.unsubscribe known unbound).aside rfl rfl rfl
  | ok proxy =>
      simp only [Hub.settle, known]
      have bound := agreement.withProxy known one (some proxy)
      exact ⟨bound.stocked, bound.attends, bound.paired⟩

theorem Agreement.bind (agreement : Agreement address h)
    (loose : ∀ r, h.references[m]? = some r → r.proxy = none → r.subscribed = []) :
    Agreement address (h.bind m).2 := by
  cases known : h.references[m]? with
  | none =>
      rw [Hub.bind, known]
      exact agreement
  | some r =>
      cases unbound : r.proxy with
      | some proxy =>
          simp only [Hub.bind, known, unbound]
          exact agreement
      | none =>
          have subscribed := agreement.subscribe known (loose r known unbound)
          simp only [Hub.bind, known, unbound, (agreement.attends m r known).direct, Hub.fill]
          generalize h.subscribe m = done at subscribed
          obtain ⟨failure | groups, g⟩ := done
          · exact subscribed.1
          · obtain ⟨followed, registry, noted⟩ := subscribed
            have built := followed.buildProxy m r
            have kept : Spares m g (g.buildProxy m r).2 := spares_buildProxy g m r
            simp only [proceed]
            generalize g.buildProxy m r = last at built kept
            obtain ⟨outcome, k⟩ := last
            exact built.settle (kept.reference.trans noted) unbound rfl r.service outcome

theorem Agreement.release (agreement : Agreement address h) (m : Nat) :
    Agreement address (h.release m) := by
  rw [Hub.release]
  split
  next => exact agreement
  next reference known =>
    split
    next => exact agreement
    next bound =>
      rcases (agreement.attends m reference known).state with ⟨-, unbound, -⟩ | ⟨registry, one, -⟩
      · rw [unbound] at bound
        exact absurd rfl bound
      · have loosened := agreement.withProxy known one none
        exact loosened.unsubscribe (getElem?_withReference known _) rfl

theorem Agreement.announce (agreement : Agreement address h) (i now : Nat) :
    Agreement address (h.announce i now).2 := by
  rw [Hub.announce]
  split
  next => exact agreement
  next offer known =>
    split
    next => exact agreement
    next unannounced =>
      have idle : offer.announced = none := Option.not_isSome_iff_eq_none.mp unannounced
      have stands := agreement.stocked.stands offer (List.mem_of_getElem? known)
      obtain ⟨s, only, memory, here, announces, -⟩ := stands.alone
      have targets : offer.settings.registries.filter (·.registers) = [s] := by
        rw [only, List.filter_cons_of_pos announces, List.filter_nil]
      rw [prepareOffer, targets]
      have chained := agreement.chain offer.context offer.settings.selection offer.custom
      have offers : (h.chain offer.context offer.settings.selection offer.custom).2.offers =
        h.offers := rfl
      generalize h.chain offer.context offer.settings.selection offer.custom = built
        at chained offers
      obtain ⟨failure | chain, h₁⟩ := built
      · exact chained
      have coded := chained.codec offer.settings.codec
      have kept : (h₁.codec offer.settings.codec).2.offers = h.offers := offers
      simp only [proceed]
      generalize h₁.codec offer.settings.codec = found at coded kept
      obtain ⟨failure | codec, h₂⟩ := found
      · exact coded
      obtain ⟨y, quiet, still, ⟨failure, failed⟩ | ⟨number, outlet, entered⟩⟩ :=
        enterAll_memory coded.stocked.tabled memory announces (offer.registration now)
      · simp only [onExchange, failed]
        exact coded.quiet (g := { h₂ with exchange := y }) quiet still rfl rfl
      · simp only [onExchange, entered]
        have ready := coded.stocked.steady quiet.steady still
        obtain ⟨absent, stocked⟩ := ready.publish
          (a := ⟨chain, codec, offer.registration now, [number]⟩) (kept ▸ known) idle rfl rfl outlet
          announces here
        rw [here]
        exact coded.carries (g := Hub.withOffer { h₂ with exchange := _ } i _) stocked rfl
          ((length_books_commit _ _ _).trans (by rw [quiet.books]))
          fun n => quiet.carries.trans (carries_publish stands.named _ absent)

theorem Agreement.takeBack (agreement : Agreement address h) (i : Nat) :
    Agreement address (h.takeBack i) := by
  rw [Hub.takeBack]
  split
  next => exact agreement
  next offer known =>
    split
    next => exact agreement
    next a announced =>
      have stands := agreement.stocked.stands offer (List.mem_of_getElem? known)
      obtain ⟨number, settings, only, outlet, announces, here⟩ := stands.outlet a announced
      have left := leaveAll_memory outlet announces a.registration
      rw [here, ← only] at left
      rw [left]
      exact agreement.carries (g := { h.withOffer i { offer with announced := none } with
          exchange := h.exchange.withdraw address a.registration.service.dataId
            a.registration.group a.registration.provider })
        (agreement.stocked.withdraw known announced) rfl (length_books_commit _ _ _)
        fun n => carries_withdraw _ _ _ _

theorem Agreement.rescan (agreement : Agreement address h) (registry : Nat) :
    Agreement address { h with exchange := h.exchange.rescan registry } := by
  have steady : Steady address h.exchange (h.exchange.rescan registry) := steady_rescan _ registry
  exact agreement.carries (g := { h with exchange := h.exchange.rescan registry })
    (agreement.stocked.steady steady (agreement.stocked.tabled.rescan registry)) rfl steady.known
    fun n => carries_rescan _ registry

theorem Agreement.runNext (agreement : Agreement address h) (limit : Nat) :
    Agreement address ((h.runNext limit).getD h) := by
  have awake : ∀ task, Agreement address
      { h with exchange := { h.exchange with tasks := h.exchange.tasks.wake task } } := fun task =>
    agreement.quiet (g := { h with exchange := _ })
      ⟨rfl, rfl, fun _ _ known => known, fun _ => rfl, rfl⟩
      (agreement.stocked.tabled.same rfl rfl fun _ _ known => known) rfl rfl
  rw [Hub.runNext, Exchange.runNext]
  split
  next => exact agreement
  next task due _ =>
    split
    next => exact agreement
    next =>
      dsimp only
      split
      next entry _ => exact (awake task).rescan entry.job
      next => exact awake task

theorem Agreement.addOffer (agreement : Agreement address h) {s : Offer.Settings}
    (named : s.group ≠ Group.directName) (alone : Alone address s.registries)
    (fresh : (Service.dataId ⟨s.interface, s.protocol, s.uniqueId, s.appName⟩, s.group,
      (⟨s.host, s.port, s.protocol⟩ : Identity)) ∉ h.offers.map Offer.key)
    (custom : List (Filter ε)) (act : Invoker ε) :
    Agreement address (h.addOffer s custom act).2 where
  stocked := by
    have stands : Stands address h.exchange ⟨s, h.service s.interface s.protocol s.uniqueId
        s.appName, custom, act, none⟩ :=
      { alone := alone
        named := named
        genuine := fun a announced => by cases announced
        outlet := fun a announced => by cases announced }
    exact agreement.stocked.append stands rfl fresh
  attends := agreement.attends
  paired := agreement.paired

theorem Agreement.addReference (agreement : Agreement address h)
    (sound : Sound h.references.length h) {s : Reference.Settings} (direct : s.direct = none)
    (alone : Alone address s.registries) (custom : List (Filter ε)) :
    Agreement address (h.addReference s custom).2 where
  stocked :=
    { tabled := agreement.stocked.tabled.same rfl rfl fun _ _ known => known
      stands := fun o member => (agreement.stocked.stands o member).outlets fun _ _ known => known
      distinct := agreement.stocked.distinct
      unnamed := agreement.stocked.unnamed
      members := agreement.stocked.members }
  attends n r known := by
    rw [Hub.addReference] at known ⊢
    rcases Nat.lt_trichotomy n h.references.length with below | here | beyond
    · rw [List.getElem?_append_left below] at known
      exact (agreement.attends n r known).carries (carries_addBook _)
    · subst here
      rw [List.getElem?_concat_length] at known
      obtain rfl := Option.some.inj known
      have unlisted : h.exchange.Unlisted h.references.length := by
        cases sound with
        | unknown _ _ unlisted => exact unlisted
        | known keeps _ =>
            exact absurd (List.getElem?_eq_some_iff.mp keeps.known).1 (Nat.lt_irrefl _)
      have rests := rests_addBook h.exchange (agreement.paired ▸ unlisted)
      exact ⟨direct, alone, .inl ⟨rfl, rfl, agreement.paired ▸ rests⟩⟩
    · rw [List.getElem?_eq_none (by simpa using Nat.succ_le_of_lt beyond)] at known
      cases known
  paired := by
    rw [Hub.addReference, Exchange.addBook, List.length_append, List.length_append,
      agreement.paired]
    rfl

theorem Agreement.addRegistry (agreement : Agreement address h)
    {d : Definition (Registry.Pool ε) Registry.Settings Nat} (grows : Registry.Grows d.build)
    (other : d.key ≠ memoryProtocol) : Agreement address (h.addRegistry d).2 := by
  have leaves : ∀ n, Leaves address n h.exchange (h.addRegistry d).2.exchange := fun n =>
    { outlets := fun _ _ known => known
      rolls := fun _ _ entry => entry
      stores := fun _ _ entry => entry
      grow := fun grow => grow.register d grows
      held := Nat.le_refl _
      services := rfl
      known := rfl
      counted := fun _ => rfl
      book := rfl }
  have tabled : (h.addRegistry d).2.exchange.Tabled :=
    { grow := agreement.stocked.tabled.grow.register d grows
      defined := (Catalog.get?_register_of_ne _ other).trans agreement.stocked.tabled.defined
      outlets := agreement.stocked.tabled.outlets }
  exact agreement.carries (agreement.stocked.steady (leaves 0).toSteady tabled) rfl rfl fun n =>
    (leaves n).carries

theorem Agreement.turn (agreement : Agreement address h) (sound : ∀ n, Sound n h) (t : Turn) :
    Agreement address (h.turn t) := by
  cases t with
  | announce i now => exact agreement.announce i now
  | takeBack i => exact agreement.takeBack i
  | bind n =>
      refine agreement.bind fun r known unbound => ?_
      cases sound n with
      | unknown _ missing _ =>
          rw [missing] at known
          cases known
      | known keeps loose =>
          obtain rfl := Option.some.inj (keeps.known.symm.trans known)
          exact loose unbound
  | release n => exact agreement.release n
  | rescan registry => exact agreement.rescan registry

theorem Agreement.act (agreement : Agreement address h) (sound : ∀ n, Sound n h) {a : Act ε}
    (joins : a.Joins address) (fresh : ∀ key, a.key? = some key → key ∉ h.offers.map Offer.key) :
    Agreement address (h.act a) := by
  cases a with
  | turn t => exact agreement.turn sound t
  | cluster n => exact agreement.cluster n
  | addOffer s custom act => exact agreement.addOffer joins.1 joins.2 (fresh _ rfl) custom act
  | addReference s custom => exact agreement.addReference (sound _) joins.1 joins.2 custom
  | addRegistry d grows => exact agreement.addRegistry grows joins
  | addFilter d => exact agreement.aside rfl rfl rfl
  | addCodec d => exact agreement.aside rfl rfl rfl
  | addBalancer d => exact agreement.aside rfl rfl rfl
  | addListener hear =>
      exact agreement.quiet (g := { h with exchange := (h.exchange.addListener hear).2 })
        ⟨rfl, rfl, fun _ _ known => known, fun _ => rfl, rfl⟩
        (agreement.stocked.tabled.same rfl rfl fun _ _ known => known) rfl rfl
  | runNext limit => exact agreement.runNext limit
  | subscribe | listen | publish | withdraw | destroy => exact joins.elim

theorem keys_act (h : Hub ε) (a : Act ε) :
    (h.act a).offers.map Offer.key = h.offers.map Offer.key ++ a.key?.toList := by
  cases a with
  | addOffer s custom act => exact List.map_append
  | addReference s custom => exact (List.append_nil _).symm
  | _ => exact (h.roster_act (by simp) (by simp)).keys.trans (List.append_nil _).symm

theorem agreement_new (address : String) (settings : Settings) (world : ε) :
    Agreement address (Hub.new settings world) where
  stocked :=
    { tabled :=
        { grow := Registry.grow_definitions
          defined := rfl
          outlets := fun _ _ _ found => by cases found }
      stands := fun _ member => absurd member List.not_mem_nil
      distinct := List.nodup_nil
      unnamed := fun _ => rfl
      members := fun _ _ => List.Perm.nil }
  attends _ _ known := by cases known
  paired := rfl

theorem Agreement.run {acts : List (Act ε)} (agreement : Agreement address h)
    (sound : ∀ n, Sound n h) (joins : ∀ a ∈ acts, a.Joins address)
    (distinct : (h.offers.map Offer.key ++ acts.filterMap Act.key?).Nodup) :
    Agreement address (h.run acts) := by
  induction acts generalizing h with
  | nil => exact agreement
  | cons a rest ih =>
      have own := joins a List.mem_cons_self
      have keys : (h.act a).offers.map Offer.key ++ rest.filterMap Act.key? =
          h.offers.map Offer.key ++ (a :: rest).filterMap Act.key? := by
        rw [h.keys_act, List.append_assoc]
        cases found : a.key? with
        | none => rw [List.filterMap_cons_none found]; rfl
        | some key => rw [List.filterMap_cons_some found]; rfl
      have step : Agreement address (h.act a) := by
        refine agreement.act sound own fun key found listed => ?_
        rw [List.filterMap_cons_some found] at distinct
        exact (List.nodup_append.mp distinct).2.2 key listed key List.mem_cons_self rfl
      refine ih step (fun n => (sound n).act fun same => ?_)
        (fun b member => joins b (List.mem_cons_of_mem _ member)) (keys ▸ distinct)
      rw [same] at own
      exact own

theorem announce_of_announced {i : Nat} (announced : h.isAnnounced i = true) (now : Nat) :
    h.announce i now = (.ok (), h) := by
  rw [isAnnounced] at announced
  cases known : h.offers[i]? with
  | none =>
      rw [known] at announced
      cases announced
  | some offer =>
      rw [known] at announced
      simp only [Hub.announce, known]
      exact if_pos announced

theorem bind_of_bound (known : h.references[m]? = some r) {proxy : Reference.Proxy ε}
    (bound : r.proxy = some proxy) : h.bind m = (.ok proxy, h) := by
  simp only [Hub.bind, known, bound]

theorem Sound.bound {proxy : Reference.Proxy ε} (sound : Sound m h)
    (done : h.bind m = (.ok proxy, g)) : ∃ r, g.references[m]? = some r ∧ r.proxy = some proxy := by
  cases sound with
  | unknown _ missing _ =>
      rw [Hub.bind, missing] at done
      cases done
  | @known r keeps loose =>
      cases state : r.proxy with
      | some earlier =>
          rw [bind_of_bound keeps.known state] at done
          cases done
          exact ⟨r, keeps.known, state⟩
      | none =>
          have bound := keeps.bind state (loose state)
          rw [done] at bound
          obtain ⟨registries, kept⟩ := bound
          exact ⟨_, kept.known, rfl⟩

theorem Sound.bound_run {proxy : Reference.Proxy ε} (sound : Sound m h)
    (known : h.references[m]? = some r) (bound : r.proxy = some proxy) {later : List (Act ε)}
    (held : ∀ a ∈ later, a ≠ .subscribe m ∧ a ≠ .turn (.release m)) :
    (h.run later).references[m]? = some r := by
  refine (List.foldlRecOn later Hub.act
    (motive := fun g => Sound m g ∧ g.references[m]? = some r) ⟨sound, known⟩
    fun g before a member => ?_).2
  obtain ⟨still, same⟩ := before
  obtain ⟨unasked, unreleased⟩ := held a member
  refine ⟨still.act unasked, ?_⟩
  by_cases binds : a = .turn (.bind m)
  · rw [binds, Hub.act, Hub.turn, bind_of_bound same bound]
    exact same
  · have below := (List.getElem?_eq_some_iff.mp same).1
    have spared := spares_act still.grow (fun _ _ _ => Nat.ne_of_lt below) binds unreleased unasked
    exact spared.reference.trans same

/-- Wherever offers and references meet at one address, calls through a bound reference may go to
the providers that are announced for its data id, each of them once, and to no other ones. To
announce an offer again changes nothing, and to bind a reference again gives its proxy again and
changes nothing, until it is released. -/
theorem bound_references_reach_announced {settings : Settings} {world : ε} {acts : List (Act ε)}
    (joins : ∀ a ∈ acts, a.Joins address) (distinct : (acts.filterMap Act.key?).Nodup) :
    (∀ o ∈ ((Hub.new settings world).run acts).offers, ∀ a, o.announced = some a →
      ∃ start, a.registration = o.registration start) ∧
    (∀ n r, ((Hub.new settings world).run acts).references[n]? = some r → r.proxy.isSome = true →
      ∀ now, ((((Hub.new settings world).run acts).book n).candidates now).Perm
        (announcedFor ((Hub.new settings world).run acts).offers r.service.dataId)) ∧
    (∀ i now, ((Hub.new settings world).run acts).isAnnounced i = true →
      ((Hub.new settings world).run acts).announce i now =
        (.ok (), (Hub.new settings world).run acts)) ∧
    ∀ n proxy after, ((Hub.new settings world).run acts).bind n = (.ok proxy, after) →
      ∀ later, (∀ a ∈ later, a.Joins address ∧ a ≠ .turn (.release n)) →
        (after.run later).bind n = (.ok proxy, after.run later) := by
  have asked : ∀ {a : Act ε}, a.Joins address → ∀ n, a ≠ .subscribe n := fun own n same => by
    rw [same] at own
    exact own
  have sound : ∀ n, Sound n ((Hub.new settings world).run acts) := fun n =>
    (sound_new settings world n).run fun a member => asked (joins a member) n
  have agreement : Agreement address ((Hub.new settings world).run acts) :=
    (agreement_new address settings world).run (sound_new settings world) joins distinct
  refine ⟨fun o member => (agreement.stocked.stands o member).genuine, ?_, ?_, ?_⟩
  · intro n r known bound now
    rcases (agreement.attends n r known).state with ⟨-, unbound, -⟩ | ⟨registry, -, follows⟩
    · rw [unbound] at bound
      cases bound
    · exact follows.candidates agreement.stocked now
  · exact fun i now announced => announce_of_announced announced now
  · intro n proxy after done later held
    have kept := sound n
    obtain ⟨r, known, bound⟩ := kept.bound done
    have still : Sound n after := by
      rw [← show (((Hub.new settings world).run acts).bind n).2 = after from congrArg Prod.snd done]
      exact kept.bind
    refine bind_of_bound (still.bound_run known bound fun a member => ?_) bound
    exact ⟨asked (held a member).1 n, (held a member).2⟩

/-- Two offers and a reference to their service at one address. One offer is taken back while the
reference is bound, announced again, and then the other one is taken back. -/
def meeting : List (Act Unit) :=
  let center := [Registry.Settings.new memoryProtocol "center"]
  let offer := fun (host group : String) => Act.addOffer
    ⟨"com.demo.Echo", "", "bolt", "", host, 12200, 50, 0, 0, group, center, "", Codec.jsonName⟩ []
    fun _ state => (.ok .empty, state)
  [offer "10.0.0.1" "blue", offer "10.0.0.2" "green",
    .addReference ⟨"com.demo.Echo", "", "bolt", "", center, none, "", rotationName, Codec.jsonName,
      none⟩ [],
    .turn (.announce 0 5), .turn (.bind 0), .turn (.announce 1 6), .turn (.takeBack 0),
    .turn (.rescan 0), .turn (.bind 0), .turn (.announce 0 7), .turn (.takeBack 1)]

theorem bound_references_reach_announced_meeting :
    ((((Hub.new Settings.default ()).run meeting).book 0).candidates 9).Perm
      [(Provider.new "10.0.0.1" 12200 "bolt").withAttribute Provider.weightKey "50"] := by
  have joins : ∀ a ∈ meeting, a.Joins "center" := by
    have alone : Alone "center" [Registry.Settings.new memoryProtocol "center"] :=
      ⟨_, rfl, rfl, rfl, rfl, rfl⟩
    simp [meeting, Act.Joins, alone, Group.directName]
  have distinct : (meeting.filterMap Act.key?).Nodup := by decide
  have bound : (((Hub.new Settings.default ()).run meeting).references[0]?.map fun r =>
      (r.proxy.isSome, r.service.dataId)) = some (true, "com.demo.Echo@bolt") := by cbv
  have shown :
      announcedFor ((Hub.new Settings.default ()).run meeting).offers "com.demo.Echo@bolt" =
      [(Provider.new "10.0.0.1" 12200 "bolt").withAttribute Provider.weightKey "50"] := by cbv
  obtain ⟨r, known, facts⟩ := Option.map_eq_some_iff.mp bound
  have reached := (bound_references_reach_announced joins distinct).2.1 0 r known
    (congrArg Prod.fst facts) 9
  rwa [show r.service.dataId = _ from congrArg Prod.snd facts, shown] at reached

end Hub

end Switchboard
