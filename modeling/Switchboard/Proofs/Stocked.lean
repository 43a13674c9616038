import Switchboard.Hub.Offers
import Switchboard.Proofs.Attended

/-! Offers that announce at one address. If no two of them share the data id, the group and the
identity of their provider, the store of the address has under each data id and group just the
providers of the offers that are announced, each of them once. -/
namespace Switchboard

open Registry (Registration memoryProtocol)

theorem perm_filterMap_set {α β : Type} {list : List α} {i : Nat} {old new : α} {f : α → Option β}
    {b : β} (found : list[i]? = some old) (before : f old = none) (after : f new = some b) :
    ((list.set i new).filterMap f).Perm (b :: list.filterMap f) := by
  obtain ⟨below, rfl⟩ := List.getElem?_eq_some_iff.mp found
  have entered := (List.set_perm_cons_eraseIdx below new).filterMap f
  have left := (List.getElem_cons_eraseIdx_perm below).filterMap f
  rw [List.filterMap_cons_some after] at entered
  rw [List.filterMap_cons_none before] at left
  exact entered.trans (left.cons b)

theorem map_set_of_eq {α β : Type} {list : List α} {i : Nat} {old new : α} {f : α → β}
    (found : list[i]? = some old) (same : f new = f old) : (list.set i new).map f = list.map f := by
  have below := (List.getElem?_eq_some_iff.mp found).1
  refine List.ext_getElem? fun j => ?_
  rw [List.map_set, same, List.getElem?_set, List.length_map]
  split
  next here => rw [← here, List.getElem?_map, found]; rfl
  next => rfl

theorem perm_flatMap_filter {α κ : Type} [DecidableEq κ] (key : α → κ) {keys : List κ}
    (distinct : keys.Nodup) {list : List α} (covered : ∀ a ∈ list, key a ∈ keys) :
    (keys.flatMap fun k => list.filter (key · = k)).Perm list := by
  induction keys generalizing list with
  | nil =>
      have nothing : list = [] := List.eq_nil_iff_forall_not_mem.mpr fun a member =>
        absurd (covered a member) List.not_mem_nil
      rw [nothing]
      rfl
  | cons k rest ih =>
      obtain ⟨fresh, others⟩ := List.nodup_cons.mp distinct
      have left : ∀ a ∈ list.filter fun a => !decide (key a = k), key a ∈ rest := by
        intro a member
        obtain ⟨listed, different⟩ := List.mem_filter.mp member
        exact (List.mem_cons.mp (covered a listed)).resolve_left (by simpa using different)
      have later := ih others left
      have same : rest.flatMap (fun j => (list.filter fun a => !decide (key a = k)).filter
          (key · = j)) = rest.flatMap fun j => list.filter (key · = j) := by
        refine List.flatMap_congr fun j member => ?_
        rw [List.filter_filter]
        refine List.filter_congr fun a _ => ?_
        by_cases here : key a = j
        · have different : j ≠ k := fun equal => fresh (equal ▸ member)
          simp [here, different]
        · simp [here]
      rw [same] at later
      rw [List.flatMap_cons]
      exact (later.append_left _).trans (List.filter_append_perm _ list)

namespace Registry

/-- What no two registrations may have in common. -/
def Registration.key (r : Registration) : String × String × Identity :=
  (r.service.dataId, r.group, r.provider.identity)

def held (registrations : List Registration) (dataId group : String) : List Provider :=
  (registrations.filter fun r => r.service.dataId = dataId ∧ r.group = group).map (·.provider)

variable {registrations others : List Registration} {r : Registration} {dataId group : String}

theorem held_perm (perm : registrations.Perm others) (dataId group : String) :
    (held registrations dataId group).Perm (held others dataId group) := (perm.filter _).map _

theorem held_cons_own : held (r :: registrations) r.service.dataId r.group =
    r.provider :: held registrations r.service.dataId r.group := by
  simp [held]

theorem held_cons_other (other : ¬(r.service.dataId = dataId ∧ r.group = group)) :
    held (r :: registrations) dataId group = held registrations dataId group := by
  rw [held, List.filter_cons_of_neg (by simpa using other), held]

theorem held_ne (fresh : r.key ∉ registrations.map Registration.key) :
    ∀ known ∈ held registrations r.service.dataId r.group,
      known.identity ≠ r.provider.identity := by
  intro known member same
  obtain ⟨other, selected, rfl⟩ := List.mem_map.mp member
  obtain ⟨listed, here⟩ := List.mem_filter.mp selected
  obtain ⟨sameId, sameGroup⟩ := of_decide_eq_true here
  refine fresh (List.mem_map.mpr ⟨other, listed, ?_⟩)
  rw [Registration.key, Registration.key, sameId, sameGroup, same]

theorem held_without (fresh : r.key ∉ registrations.map Registration.key)
    {members : List Provider}
    (perm : members.Perm (held (r :: registrations) r.service.dataId r.group)) :
    (Group.without members [r.provider]).Perm (held registrations r.service.dataId r.group) := by
  rw [held_cons_own] at perm
  have left := perm.filter fun p => decide (p.identity ≠ r.provider.identity)
  rw [List.filter_cons_of_neg (by simp)] at left
  rw [Group.without_singleton]
  rwa [List.filter_eq_self.mpr fun p member => decide_eq_true (held_ne fresh p member)] at left

end Registry

namespace Offer

variable {ε : Type}

def key (o : Offer ε) : String × String × Identity :=
  (o.service.dataId, o.settings.group, ⟨o.settings.host, o.settings.port, o.settings.protocol⟩)

theorem provider_eq (o : Offer ε) (start : Nat) :
    (o.provider start).identity = ⟨o.settings.host, o.settings.port, o.settings.protocol⟩ ∧
    (o.provider start).status = .available := by
  unfold provider warmupAttributes
  dsimp only
  split <;> split <;> exact ⟨rfl, rfl⟩

theorem key_registration (o : Offer ε) (start : Nat) : (o.registration start).key = o.key := by
  rw [Registration.key, registration, (o.provider_eq start).1, key]

def registrations (offers : List (Offer ε)) : List Registration :=
  offers.filterMap fun o => o.announced.map (·.registration)

/-- What is announced is the provider of the offer, as it started at some time. -/
def Genuine (o : Offer ε) : Prop :=
  ∀ a, o.announced = some a → ∃ start, a.registration = o.registration start

theorem sublist_keys {offers : List (Offer ε)} (genuine : ∀ o ∈ offers, o.Genuine) :
    ((registrations offers).map Registration.key).Sublist (offers.map key) := by
  induction offers with
  | nil => exact .slnil
  | cons o rest ih =>
      have later := ih fun other member => genuine other (List.mem_cons_of_mem _ member)
      cases announced : o.announced with
      | none =>
          rw [registrations, List.filterMap_cons_none (by rw [announced]; rfl)]
          exact later.cons _
      | some a =>
          obtain ⟨start, same⟩ := genuine o List.mem_cons_self a announced
          have one : a.registration.key = o.key := by rw [same, key_registration]
          rw [registrations, List.filterMap_cons_some (by rw [announced]; rfl), List.map_cons,
            List.map_cons, ← one]
          exact later.cons_cons _

theorem registrations_set {offers : List (Offer ε)} {i : Nat} {o : Offer ε} {a : Announcement ε}
    (genuine : ∀ o ∈ offers, o.Genuine) (distinct : (offers.map key).Nodup)
    (found : offers[i]? = some o) (idle : o.announced = none)
    (own : ∃ start, a.registration = o.registration start) :
    (registrations (offers.set i { o with announced := some a })).Perm
      (a.registration :: registrations offers) ∧
    a.registration.key ∉ (registrations offers).map Registration.key := by
  have perm : (registrations (offers.set i { o with announced := some a })).Perm
      (a.registration :: registrations offers) :=
    perm_filterMap_set found (by rw [idle]; rfl) rfl
  have later : ∀ p ∈ offers.set i { o with announced := some a }, p.Genuine := by
    intro p member b announced
    rcases List.mem_or_eq_of_mem_set member with old | rfl
    · exact genuine p old b announced
    · obtain rfl := Option.some.inj announced
      exact own
  have same : (offers.set i { o with announced := some a }).map key = offers.map key :=
    map_set_of_eq found rfl
  have nodup := (perm.map Registration.key).nodup_iff.mp
    ((sublist_keys later).nodup (same ▸ distinct))
  exact ⟨perm, (List.nodup_cons.mp nodup).1⟩

end Offer

namespace Exchange

variable {ε : Type} {address : String} {x y : Exchange ε} {offers : List (Offer ε)} {i : Nat}
  {o : Offer ε}

/-- Just one registry, of the memory protocol at an address, to announce and to subscribe. -/
def Alone (address : String) (registries : List Registry.Settings) : Prop :=
  ∃ s, registries = [s] ∧ s.protocol = memoryProtocol ∧ s.address = address ∧
    s.registers = true ∧ s.subscribes = true

/-- An offer that announces at one address, with the registry at which it does so now. -/
structure Stands (address : String) (x : Exchange ε) (o : Offer ε) : Prop where
  alone : Alone address o.settings.registries
  named : o.settings.group ≠ Group.directName
  genuine : o.Genuine
  outlet : ∀ a, o.announced = some a → ∃ number settings, a.registries = [number] ∧
    x.outlet? number = some settings ∧ settings.registers = true ∧ settings.address = address

/-- The store of an address has the providers of the announced offers and no other ones. -/
structure Stocked (address : String) (offers : List (Offer ε)) (x : Exchange ε) : Prop where
  tabled : x.Tabled
  stands : ∀ o ∈ offers, Stands address x o
  distinct : (offers.map Offer.key).Nodup
  unnamed : ∀ id, ((x.store address).groupsOf id).get? Group.directName = none
  members : ∀ id group, ((x.store address).members id group).Perm
    (Registry.held (Offer.registrations offers) id group)

theorem Stands.outlets (stands : Stands address x o)
    (outlets : ∀ number settings, x.outlet? number = some settings →
      y.outlet? number = some settings) : Stands address y o where
  alone := stands.alone
  named := stands.named
  genuine := stands.genuine
  outlet a announced := by
    obtain ⟨number, settings, only, known, rest⟩ := stands.outlet a announced
    exact ⟨number, settings, only, outlets number settings known, rest⟩

theorem Stands.unannounced (stands : Stands address x o) :
    Stands address x { o with announced := none } where
  alone := stands.alone
  named := stands.named
  genuine a announced := by cases announced
  outlet a announced := by cases announced

theorem Stands.announced {a : Offer.Announcement ε} {now number : Nat}
    {settings : Registry.Settings} (stands : Stands address x o)
    (own : a.registration = o.registration now) (only : a.registries = [number])
    (known : x.outlet? number = some settings) (announces : settings.registers = true)
    (here : settings.address = address) : Stands address x { o with announced := some a } where
  alone := stands.alone
  named := stands.named
  genuine b announced := by
    obtain rfl := Option.some.inj announced
    exact ⟨now, own⟩
  outlet b announced := by
    obtain rfl := Option.some.inj announced
    exact ⟨number, settings, only, known, announces, here⟩

theorem unnamed_replaceGroup {s : Registry.Store} {group : String}
    (named : group ≠ Group.directName) {id : String}
    (unnamed : (s.groupsOf id).get? Group.directName = none) (dataId : String)
    (members : List Provider) :
    ((s.replaceGroup dataId group members).groupsOf id).get? Group.directName = none := by
  rw [Registry.Store.groupsOf_replaceGroup]
  split
  next same =>
    rw [Dictionary.get?_insert, if_neg named, same]
    exact unnamed
  next => exact unnamed

theorem Stocked.steady (stocked : Stocked address offers x) (steady : Steady address x y)
    (tabled : y.Tabled) : Stocked address offers y where
  tabled := tabled
  stands o member := (stocked.stands o member).outlets steady.outlets
  distinct := stocked.distinct
  unnamed id := by rw [groupsOf_of_services steady.services]; exact stocked.unnamed id
  members id group := by
    rw [members_of_services steady.services]
    exact stocked.members id group

theorem Stocked.append (stocked : Stocked address offers x) (stands : Stands address x o)
    (idle : o.announced = none) (fresh : o.key ∉ offers.map Offer.key) :
    Stocked address (offers ++ [o]) x where
  tabled := stocked.tabled
  stands other member := by
    rcases List.mem_append.mp member with old | new
    · exact stocked.stands other old
    · exact List.mem_singleton.mp new ▸ stands
  distinct := by
    rw [List.map_append, List.map_singleton]
    refine List.nodup_append.mpr ⟨stocked.distinct, List.pairwise_singleton _ _, ?_⟩
    intro key old other new same
    exact fresh (List.mem_singleton.mp new ▸ same ▸ old)
  unnamed := stocked.unnamed
  members id group := by
    have none : Offer.registrations [o] = [] := by
      rw [Offer.registrations, List.filterMap_cons_none (by rw [idle]; rfl), List.filterMap_nil]
    rw [show Offer.registrations (offers ++ [o]) = Offer.registrations offers from by
      rw [Offer.registrations, List.filterMap_append, ← Offer.registrations, ← Offer.registrations,
        none, List.append_nil]]
    exact stocked.members id group

theorem Stocked.publish {a : Offer.Announcement ε} {now number : Nat}
    {settings : Registry.Settings} (stocked : Stocked address offers x)
    (found : offers[i]? = some o) (idle : o.announced = none)
    (own : a.registration = o.registration now) (only : a.registries = [number])
    (known : x.outlet? number = some settings) (announces : settings.registers = true)
    (here : settings.address = address) :
    (∀ known ∈ (x.store address).members a.registration.service.dataId a.registration.group,
      known.identity ≠ a.registration.provider.identity) ∧
    Stocked address (offers.set i { o with announced := some a })
      (x.publish address a.registration.service.dataId a.registration.group
        a.registration.provider) := by
  have stands := stocked.stands o (List.mem_of_getElem? found)
  obtain ⟨perm, fresh⟩ := Offer.registrations_set (a := a)
    (fun p member => (stocked.stands p member).genuine) stocked.distinct found idle ⟨now, own⟩
  have absent : ∀ known ∈ (x.store address).members a.registration.service.dataId
      a.registration.group, known.identity ≠ a.registration.provider.identity :=
    fun p member => Registry.held_ne fresh p ((stocked.members _ _).subset member)
  have outlets : ∀ number settings, x.outlet? number = some settings →
      (x.publish address a.registration.service.dataId a.registration.group
        a.registration.provider).outlet? number = some settings := fun other _ known =>
    (outlet?_commit x address _ other).trans known
  refine ⟨absent, stocked.tabled.commit _ _, ?_, ?_, fun id => ?_, fun id group => ?_⟩
  · intro p member
    rcases List.mem_or_eq_of_mem_set member with old | rfl
    · exact (stocked.stands p old).outlets outlets
    · exact (stands.announced own only known announces here).outlets outlets
  · have same : (offers.set i { o with announced := some a }).map Offer.key =
        offers.map Offer.key := map_set_of_eq found rfl
    exact same ▸ stocked.distinct
  · have named : a.registration.group ≠ Group.directName := by rw [own]; exact stands.named
    rw [Exchange.publish, store_commit]
    exact unnamed_replaceGroup named (stocked.unnamed id) _ _
  · refine List.Perm.trans ?_ (Registry.held_perm perm id group).symm
    rw [Exchange.publish, store_commit, Registry.Store.publish, Registry.Store.members_replaceGroup]
    split
    next same =>
      obtain ⟨rfl, rfl⟩ := same
      rw [Registry.Store.settle_of_absent absent, Registry.held_cons_own]
      exact (List.perm_append_singleton _ _).trans ((stocked.members _ _).cons _)
    next other =>
      rw [Registry.held_cons_other other]
      exact stocked.members id group

theorem Stocked.withdraw {a : Offer.Announcement ε} (stocked : Stocked address offers x)
    (found : offers[i]? = some o) (announced : o.announced = some a) :
    Stocked address (offers.set i { o with announced := none })
      (x.withdraw address a.registration.service.dataId a.registration.group
        a.registration.provider) := by
  obtain ⟨below, own⟩ := List.getElem?_eq_some_iff.mp found
  have stands := stocked.stands o (List.mem_of_getElem? found)
  have idle : ∀ p ∈ offers.set i { o with announced := none }, Stands address x p := by
    intro p member
    rcases List.mem_or_eq_of_mem_set member with old | rfl
    · exact stocked.stands p old
    · exact stands.unannounced
  have distinct : ((offers.set i { o with announced := none }).map Offer.key).Nodup := by
    have same : (offers.set i { o with announced := none }).map Offer.key =
        offers.map Offer.key := map_set_of_eq found rfl
    exact same ▸ stocked.distinct
  have now : (offers.set i { o with announced := none })[i]? = some { o with announced := none } :=
    List.getElem?_set_self below
  obtain ⟨perm, fresh⟩ := Offer.registrations_set (a := a)
    (fun p member => (idle p member).genuine) distinct now rfl (stands.genuine a announced)
  have back : (offers.set i { o with announced := none }).set i { o with announced := some a } =
      offers := by
    rw [List.set_set, ← announced, ← own, List.set_getElem_self]
  rw [back] at perm
  refine ⟨stocked.tabled.commit _ _, fun p member => ?_, distinct, fun id => ?_, fun id group => ?_⟩
  · exact (idle p member).outlets fun number _ known =>
      (outlet?_commit x address _ number).trans known
  · rw [Exchange.withdraw, store_commit]
    rcases (x.store address).withdraw_cases a.registration.service.dataId a.registration.group
      a.registration.provider with ⟨kept, -⟩ | ⟨taken, present⟩
    · rw [kept]
      exact stocked.unnamed id
    · have named : a.registration.group ≠ Group.directName := fun same =>
        present (same ▸ (x.store address).members_eq_nil_of_unnamed (stocked.unnamed _))
      rw [taken]
      exact unnamed_replaceGroup named (stocked.unnamed id) _ _
  · have before := (stocked.members id group).trans (Registry.held_perm perm id group)
    rw [Exchange.withdraw, store_commit, Registry.Store.members_withdraw]
    split
    next same =>
      obtain ⟨rfl, rfl⟩ := same
      exact Registry.held_without fresh before
    next other => rwa [Registry.held_cons_other other] at before

section Shown

variable {dataId : String} {number : Nat} {registries : List Nat}

theorem Follows.entry_eq (follows : Follows address dataId number registries x)
    {entry : String × Group} (member : entry ∈ (x.book number).named.entries) :
    entry.2.members = ((x.store address).members dataId entry.1).map Provider.prepare := by
  obtain ⟨named, held⟩ := Book.members_of_mem_entries follows.tidy member
  rw [← follows.shows.members_eq named, held]

theorem Follows.mem_keys (follows : Follows address dataId number registries x) {group : String}
    (named : group ≠ Group.directName)
    (present : (x.store address).members dataId group ≠ []) :
    group ∈ (x.book number).named.keys := by
  rw [Dictionary.mem_keys_iff]
  cases found : (x.book number).named.get? group with
  | some list => rfl
  | none =>
      have shown := follows.shows.members_eq named
      rw [Book.members_named _ named, found] at shown
      exact absurd (List.map_eq_nil_iff.mp shown.symm) present

theorem isCandidate_prepare {p : Provider} (available : p.status = .available) (now : Nat) :
    p.prepare.isCandidate now = true := by
  have status : p.prepare.status = .available ∨ p.prepare.status = .warmingUp := by
    rw [Provider.prepare]
    split
    · exact .inr rfl
    · exact .inl available
  rw [← Bool.not_eq_false, Provider.isCandidate_eq_false_iff]
  rcases status with same | same <;> simp [same]

def registrationsFor (offers : List (Offer ε)) (dataId : String) : List Registration :=
  (Offer.registrations offers).filter fun r => r.service.dataId = dataId

def announcedFor (offers : List (Offer ε)) (dataId : String) : List Provider :=
  (registrationsFor offers dataId).map (·.provider.prepare)

theorem held_eq_filter (offers : List (Offer ε)) (dataId group : String) :
    (Registry.held (Offer.registrations offers) dataId group).map Provider.prepare =
      ((registrationsFor offers dataId).filter (·.group = group)).map (·.provider.prepare) := by
  rw [Registry.held, List.map_map, registrationsFor, List.filter_filter]
  congr 1
  refine List.filter_congr fun r _ => ?_
  rw [← Bool.decide_and]
  exact decide_eq_decide.mpr and_comm

theorem Stocked.origin {offers : List (Offer ε)} (stocked : Stocked address offers x)
    {r : Registration} (member : r ∈ Offer.registrations offers) :
    ∃ o ∈ offers, Stands address x o ∧ ∃ start, r = o.registration start := by
  obtain ⟨o, listed, announced⟩ := List.mem_filterMap.mp member
  obtain ⟨a, found, rfl⟩ := Option.map_eq_some_iff.mp announced
  have stands := stocked.stands o listed
  exact ⟨o, listed, stands, stands.genuine a found⟩

theorem Follows.candidates {offers : List (Offer ε)}
    (follows : Follows address dataId number registries x) (stocked : Stocked address offers x)
    (now : Nat) : ((x.book number).candidates now).Perm (announcedFor offers dataId) := by
  have entries : ∀ entry ∈ (x.book number).named.entries,
      entry.2.members.Perm (((registrationsFor offers dataId).filter (·.group = entry.1)).map
        (·.provider.prepare)) := by
    intro entry member
    rw [follows.entry_eq member, ← held_eq_filter]
    exact (stocked.members dataId entry.1).map _
  have covered : ∀ r ∈ registrationsFor offers dataId, r.group ∈ (x.book number).named.keys := by
    intro r member
    obtain ⟨listed, same⟩ := List.mem_filter.mp member
    obtain ⟨o, -, stands, start, rfl⟩ := stocked.origin listed
    refine follows.mem_keys stands.named fun nothing => ?_
    have held := stocked.members dataId (o.registration start).group
    rw [nothing] at held
    have here : (o.registration start).provider ∈
        Registry.held (Offer.registrations offers) dataId (o.registration start).group :=
      List.mem_map_of_mem (List.mem_filter.mpr ⟨listed, by simpa using same⟩)
    rw [held.nil_eq.symm] at here
    exact absurd here List.not_mem_nil
  have shown :
      ((x.book number).groups.flatMap Group.members).Perm (announcedFor offers dataId) := by
    rw [Book.groups, List.flatMap_append, List.flatMap_map, List.flatMap_singleton,
      follows.shows.direct_eq, List.append_nil]
    refine (List.Perm.flatMap_left _ entries).trans ?_
    have grouped := perm_flatMap_filter Registration.group (x.book number).named.nodup_keys covered
    rw [Dictionary.keys, List.flatMap_map] at grouped
    have mapped := grouped.map (·.provider.prepare)
    rw [List.map_flatMap] at mapped
    exact mapped
  refine (shown.filter _).trans ?_
  rw [List.filter_eq_self.mpr]
  intro p member
  obtain ⟨r, selected, rfl⟩ := List.mem_map.mp member
  obtain ⟨o, -, -, start, rfl⟩ := stocked.origin (List.mem_filter.mp selected).1
  exact isCandidate_prepare (o.provider_eq start).2 now

end Shown

end Exchange

end Switchboard
