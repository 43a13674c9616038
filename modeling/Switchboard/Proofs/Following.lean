import Mathlib
import Switchboard.Hub.References
import Switchboard.Proofs.Delivery
import Switchboard.Proofs.Replica

/-! One book among several stores. The book of a reference may follow a data id at any number of
addresses, more than once at each, and take full pushes from all of them. Said here is what one
event changes: what a store holds, how often the book is told, and what a named group shows. Mathlib
is imported as a whole because runs are evaluated from here on, with equations from all over it. -/
namespace Switchboard

namespace Group

theorem without_singleton (members : List Provider) (provider : Provider) :
    without members [provider] =
      members.filter fun member => decide (member.identity ≠ provider.identity) := by
  refine List.filter_congr fun member _ => ?_
  by_cases same : provider.identity = member.identity
  · simp [same]
  · simp [same, Ne.symm same]

end Group

namespace Book

theorem members_add_named (b : Book) (g : Group) {name : String} (h : name ≠ Group.directName) :
    (b.add g).members name =
      if g.name = name then b.members name ++ g.members else b.members name := by
  by_cases named : g.name = Group.directName
  · have other : g.name ≠ name := fun same => h (same ▸ named)
    rw [if_neg other, add]
    split
    · rfl
    · split
      next known found =>
        rw [members_named _ h, members_named _ h]
        simp only [Dictionary.get?_insert, if_neg other]
      next unknown =>
        rw [if_pos (g.isDirect_iff.mpr named), members_replaceDirect, if_neg (Ne.symm h)]
  · exact members_add b named name

theorem members_foldl_update_of_named (b : Book) {groups : List Group}
    (distinct : (groups.map (·.name)).Nodup) {name : String}
    (h : ∃ group ∈ groups, group.name = name) :
    (groups.foldl update b).members name = Group.membersIn groups name := by
  induction groups generalizing b with
  | nil => simp at h
  | cons group rest ih =>
      obtain ⟨fresh, others⟩ := List.nodup_cons.mp distinct
      rw [List.foldl_cons, Group.membersIn]
      by_cases same : group.name = name
      · have absent : ∀ other ∈ rest, other.name ≠ name := fun other member equal =>
          fresh (List.mem_map.mpr ⟨other, member, equal.trans same.symm⟩)
        rw [if_pos same, members_foldl_update_of_absent _ absent, members_update, if_pos same]
      · obtain ⟨other, member, equal⟩ := h
        have later : other ∈ rest :=
          (List.mem_cons.mp member).resolve_left fun first => same (first ▸ equal)
        rw [if_neg same]
        exact ih _ others ⟨other, later, equal⟩

theorem members_told_add (b : Book) (group name : String) (provider : Provider) (count : Nat)
    (named : name ≠ Group.directName) :
    ((List.replicate count (Push.add ⟨group, [provider]⟩)).foldl receive b).members name =
      b.members name ++
        if group = name then List.replicate count provider.prepare else [] := by
  induction count generalizing b with
  | zero => simp
  | succ count ih =>
      rw [List.replicate_succ, List.foldl_cons, ih, receive, members_add_named _ _ named]
      split <;> simp_all [Group.prepare, List.replicate_succ]

theorem members_told_delete (b : Book) (group name : String) (provider : Provider)
    (count : Nat) :
    ((List.replicate count (Push.delete ⟨group, [provider]⟩)).foldl receive b).members name =
      if group = name ∧ count ≠ 0 then Group.without (b.members name) [provider]
      else b.members name := by
  induction count generalizing b with
  | zero => simp
  | succ count ih =>
      rw [List.replicate_succ, List.foldl_cons, ih, receive, members_remove]
      by_cases same : group = name
      · by_cases last : count = 0
        · simp [same, last]
        · simp [same, last, Group.without_singleton]
      · simp [same]

end Book

namespace Registry.Store

theorem withdraw_of_held (s : Store) {dataId group : String} {provider : Provider}
    (h : ∃ known ∈ s.members dataId group, known.identity = provider.identity) :
    s.withdraw dataId group provider =
      (s.replaceGroup dataId group (Group.without (s.members dataId group) [provider]),
        s.announce dataId (.delete ⟨group, [provider]⟩)) := by
  obtain ⟨known, member, same⟩ := h
  refine if_neg fun kept => ?_
  rw [Group.without_singleton] at kept
  have all := List.filter_eq_self.mp (List.filter_sublist.eq_of_length kept) known member
  exact of_decide_eq_true all same

theorem withdraw_of_absent (s : Store) {dataId group : String} {provider : Provider}
    (h : ∀ known ∈ s.members dataId group, known.identity ≠ provider.identity) :
    s.withdraw dataId group provider = (s, []) := by
  refine if_pos (congrArg List.length ?_)
  rw [Group.without_singleton]
  exact List.filter_eq_self.mpr fun known member => by simpa using h known member

theorem members_withdraw (s : Store) (dataId group other name : String) (provider : Provider) :
    (s.withdraw dataId group provider).1.members other name =
      if dataId = other ∧ group = name then Group.without (s.members other name) [provider]
      else s.members other name := by
  rcases s.withdraw_cases dataId group provider with ⟨kept, nothing⟩ | ⟨taken, -⟩
  · rw [kept]
    split
    next own => rw [← own.1, ← own.2, nothing]
    next => rfl
  · rw [taken, members_replaceGroup]
    split
    next own => rw [own.1, own.2]
    next => rfl

theorem subscribersOf_withdraw (s : Store) (dataId group other : String) (provider : Provider) :
    (s.withdraw dataId group provider).1.subscribersOf other = s.subscribersOf other := by
  rcases s.withdraw_cases dataId group provider with ⟨kept, -⟩ | ⟨taken, -⟩
  · rw [kept]
  · rw [taken, subscribersOf_replaceGroup]

end Registry.Store

namespace Exchange

variable {ε : Type}

theorem store_withStore (x : Exchange ε) (address other : String) (s : Registry.Store) :
    (x.withStore address s).store other = if address = other then s else x.store other := by
  rw [store, withStore, Dictionary.getD, Dictionary.get?_insert]
  split <;> rfl

theorem store_commit_eq (x : Exchange ε) (address other : String)
    (change : Registry.Store × List Delivery) :
    (x.commit address change).store other =
      if address = other then change.1 else x.store other := by
  rw [← store_withStore, store, commit, stores_deliverAll, store]

theorem members_foldl_snapshot (s : Registry.Store) (b : Book) (dataId name : String) :
    (((s.snapshot dataId).map Group.prepare).foldl Book.update b).members name =
      if ∃ group ∈ s.snapshot dataId, group.name = name then
        (s.members dataId name).map Provider.prepare
      else b.members name := by
  split
  next found =>
    have prepared : ∃ group ∈ (s.snapshot dataId).map Group.prepare, group.name = name := by
      obtain ⟨group, member, same⟩ := found
      exact ⟨group.prepare, List.mem_map_of_mem member, same⟩
    rw [Book.members_foldl_update_of_named _ (nodup_names_prepared _ _) prepared,
      Group.membersIn_map_prepare, Registry.Store.membersIn_snapshot]
  next absent =>
    refine Book.members_foldl_update_of_absent _ fun group member same => ?_
    obtain ⟨known, own, rfl⟩ := List.mem_map.mp member
    exact absent ⟨known, own, same⟩

end Exchange

/-- What may happen while the book of a reference follows a data id: providers of any data id come
and go at any address, the book begins or ceases to follow an address, takes a full push from one,
or has its named groups emptied. -/
inductive Event where
  | publish (address dataId group : String) (provider : Provider)
  | withdraw (address dataId group : String) (provider : Provider)
  | follow (address : String)
  | part (address : String)
  | resync (address : String)
  | clear
deriving DecidableEq

/-- A data id and the number of the book that follows it. -/
structure Follower where
  dataId : String
  number : Nat

namespace Follower

open Registry (Store)

variable {ε : Type} (f : Follower)

def subscriber : Subscriber := .reference f.number

def act (x : Exchange ε) : Event → Exchange ε
  | .publish address id group provider => x.publish address id group provider
  | .withdraw address id group provider => x.withdraw address id group provider
  | .follow address => x.commit address ((x.store address).subscribe f.dataId f.subscriber)
  | .part address => x.forget address f.dataId f.subscriber
  | .resync address => x.deliver ((x.store address).resync f.dataId f.subscriber)
  | .clear => x.withBook f.number ((x.book f.number).updateAll [])

def run (x : Exchange ε) (events : List Event) : Exchange ε := events.foldl f.act x

def Along (allowed : Exchange ε → Event → Prop) : Exchange ε → List Event → Prop
  | _, [] => True
  | x, event :: rest => allowed x event ∧ Along allowed (f.act x event) rest

def live (x : Exchange ε) (address group : String) : List Provider :=
  (x.store address).members f.dataId group

def shown (x : Exchange ε) (group : String) : List Provider := (x.book f.number).members group

def times (x : Exchange ε) (address : String) : Nat :=
  ((x.store address).subscribersOf f.dataId).count f.subscriber

def published (address group : String) (identity : Identity) : Event → Option Provider
  | .publish place id name provider =>
      if place = address ∧ id = f.dataId ∧ name = group ∧ provider.identity = identity then
        some provider
      else none
  | _ => none

/-- The book exists and follows no other data id. -/
structure Ready (x : Exchange ε) : Prop where
  known : f.number < x.books.length
  alone : ∀ address id, id ≠ f.dataId → f.subscriber ∉ (x.store address).subscribersOf id

variable {f} {x : Exchange ε}

theorem Along.mono {allowed permitted : Exchange ε → Event → Prop} {events : List Event}
    (along : f.Along allowed x events)
    (weaker : ∀ y event, allowed y event → permitted y event) : f.Along permitted x events := by
  induction events generalizing x with
  | nil => trivial
  | cons event rest ih => exact ⟨weaker x event along.1, ih along.2⟩

theorem run_append (before after : List Event) :
    f.run x (before ++ after) = f.run (f.run x before) after := List.foldl_append

theorem live_commit (address other group : String) (change : Store × List Delivery) :
    f.live (x.commit address change) other group =
      if address = other then change.1.members f.dataId group else f.live x other group := by
  rw [live, Exchange.store_commit_eq]
  split <;> rfl

theorem times_commit (address other : String) (change : Store × List Delivery) :
    f.times (x.commit address change) other =
      if address = other then (change.1.subscribersOf f.dataId).count f.subscriber
      else f.times x other := by
  rw [times, Exchange.store_commit_eq]
  split <;> rfl

theorem live_of_unnamed {address group : String}
    (h : ¬∃ known ∈ (x.store address).snapshot f.dataId, known.name = group) :
    f.live x address group = [] := by
  rw [Store.exists_name_snapshot_iff, Option.not_isSome_iff_eq_none] at h
  exact (x.store address).members_eq_nil_of_unnamed h

theorem live_publish (address id group other name : String) (provider : Provider) :
    f.live (x.publish address id group provider) other name =
      if address = other ∧ id = f.dataId ∧ group = name then
        Store.settle provider (f.live x other name)
      else f.live x other name := by
  rw [Exchange.publish, live_commit]
  by_cases here : address = other
  · subst here
    rw [if_pos rfl, Store.publish, Store.members_replaceGroup]
    by_cases own : id = f.dataId ∧ group = name
    · rw [if_pos own, if_pos ⟨rfl, own⟩, own.1, own.2, live]
    · rw [if_neg own, if_neg fun h => own h.2, live]
  · rw [if_neg here, if_neg fun h => here h.1]

theorem live_withdraw (address id group other name : String) (provider : Provider) :
    f.live (x.withdraw address id group provider) other name =
      if address = other ∧ id = f.dataId ∧ group = name then
        Group.without (f.live x other name) [provider]
      else f.live x other name := by
  rw [Exchange.withdraw, live_commit]
  by_cases here : address = other
  · subst here
    rw [if_pos rfl, Store.members_withdraw]
    by_cases own : id = f.dataId ∧ group = name
    · rw [if_pos own, if_pos ⟨rfl, own⟩, live]
    · rw [if_neg own, if_neg fun h => own h.2, live]
  · rw [if_neg here, if_neg fun h => here h.1]

theorem live_follow (address other group : String) :
    f.live (f.act x (.follow address)) other group = f.live x other group := by
  rw [act, live_commit]
  split
  next same => rw [← same]; rfl
  next => rfl

theorem live_part (address other group : String) :
    f.live (f.act x (.part address)) other group = f.live x other group := by
  rw [act, live, Exchange.forget, Exchange.store_withStore]
  split
  next same => rw [← same]; rfl
  next => rfl

theorem live_resync (address other group : String) :
    f.live (f.act x (.resync address)) other group = f.live x other group := by
  rw [act, live, Exchange.store_deliver, live]

theorem times_publish (address id group other : String) (provider : Provider) :
    f.times (x.publish address id group provider) other = f.times x other := by
  rw [Exchange.publish, times_commit]
  split
  next same => rw [← same]; rfl
  next => rfl

theorem times_withdraw (address id group other : String) (provider : Provider) :
    f.times (x.withdraw address id group provider) other = f.times x other := by
  rw [Exchange.withdraw, times_commit]
  split
  next same => rw [Store.subscribersOf_withdraw, ← same, times]
  next => rfl

theorem times_follow (address other : String) :
    f.times (f.act x (.follow address)) other =
      if address = other then f.times x other + 1 else f.times x other := by
  rw [act, times_commit]
  split
  next same =>
    rw [Store.subscribersOf_subscribe, if_pos rfl, List.count_append, List.count_singleton_self,
      ← same, times]
  next => rfl

theorem times_resync (address other : String) :
    f.times (f.act x (.resync address)) other = f.times x other := by
  rw [act, times, Exchange.store_deliver, times]

theorem Ready.commit (ready : f.Ready x) {address : String} {s : Store}
    (deliveries : List Delivery)
    (same : ∀ id, id ≠ f.dataId → s.subscribersOf id = (x.store address).subscribersOf id) :
    f.Ready (x.commit address (s, deliveries)) where
  known := by rw [Exchange.length_books_commit]; exact ready.known
  alone other id different := by
    rw [Exchange.store_commit_eq]
    split
    next => rw [same id different]; exact ready.alone address id different
    next => exact ready.alone other id different

theorem Ready.step (ready : f.Ready x) (event : Event) : f.Ready (f.act x event) := by
  cases event with
  | publish address id group provider =>
      exact ready.commit _ fun _ _ => Store.subscribersOf_replaceGroup ..
  | withdraw address id group provider =>
      exact ready.commit _ fun _ _ => Store.subscribersOf_withdraw ..
  | follow address =>
      refine ready.commit _ fun id different => ?_
      exact (Store.subscribersOf_subscribe ..).trans (if_neg (Ne.symm different))
  | part address =>
      refine ⟨ready.known, fun other id different => ?_⟩
      rw [act, Exchange.forget, Exchange.store_withStore]
      split
      next =>
        simp only [Store.unsubscribe, Store.subscribersOf, Dictionary.getD, Dictionary.get?_insert,
          if_neg (Ne.symm different)]
        exact ready.alone address id different
      next => exact ready.alone other id different
  | resync address =>
      refine ⟨?_, fun other id different => ?_⟩
      · rw [act, Exchange.length_books_deliver]
        exact ready.known
      · rw [act, Exchange.store_deliver]
        exact ready.alone other id different
  | clear => exact ⟨by simpa [act, Exchange.withBook] using ready.known, ready.alone⟩

theorem Ready.run (ready : f.Ready x) (events : List Event) : f.Ready (f.run x events) := by
  induction events generalizing x with
  | nil => exact ready
  | cons event rest ih => exact ih (ready.step event)

theorem Ready.book_announce (ready : f.Ready x) (address id : String) (s : Store) (push : Push) :
    (x.commit address (s, (x.store address).announce id push)).book f.number =
      (List.replicate (if id = f.dataId then f.times x address else 0) push).foldl Book.receive
        (x.book f.number) := by
  rw [Exchange.book_commit x address _ ready.known, Store.pushesTo_announce]
  by_cases own : id = f.dataId
  · rw [if_pos own, own]; rfl
  · have none : ((x.store address).subscribersOf id).count (.reference f.number) = 0 :=
      List.count_eq_zero.mpr (ready.alone address id own)
    rw [if_neg own, none]

theorem Ready.shown_publish (ready : f.Ready x) (address id group : String) (provider : Provider)
    {name : String} (named : name ≠ Group.directName) :
    f.shown (x.publish address id group provider) name =
      f.shown x name ++
        if id = f.dataId ∧ group = name then List.replicate (f.times x address) provider.prepare
        else [] := by
  rw [shown, Exchange.publish, Store.publish, ready.book_announce,
    Book.members_told_add _ _ _ _ _ named, shown]
  by_cases own : id = f.dataId
  · simp [own]
  · simp [own]

theorem Ready.shown_withdraw (ready : f.Ready x) (address id group name : String)
    (provider : Provider) :
    f.shown (x.withdraw address id group provider) name =
      if id = f.dataId ∧ group = name ∧ f.times x address ≠ 0 ∧
          ∃ known ∈ f.live x address name, known.identity = provider.identity then
        Group.without (f.shown x name) [provider]
      else f.shown x name := by
  by_cases held : ∃ known ∈ (x.store address).members id group, known.identity = provider.identity
  · rw [Exchange.withdraw, Store.withdraw_of_held _ held, shown, ready.book_announce,
      Book.members_told_delete]
    by_cases own : id = f.dataId
    · subst own
      by_cases here : group = name
      · subst here
        have also : ∃ known ∈ f.live x address group, known.identity = provider.identity := held
        simp [also, shown]
      · simp [here, shown]
    · simp [own, shown]
  · have absent : ∀ known ∈ (x.store address).members id group,
        known.identity ≠ provider.identity := fun known member same => held ⟨known, member, same⟩
    rw [Exchange.withdraw, Store.withdraw_of_absent _ absent, if_neg]
    · rfl
    · rintro ⟨rfl, rfl, -, also⟩
      exact held also

theorem Ready.shown_follow (ready : f.Ready x) (address name : String) :
    f.shown (f.act x (.follow address)) name =
      if ∃ group ∈ (x.store address).snapshot f.dataId, group.name = name then
        (f.live x address name).map Provider.prepare
      else f.shown x name := by
  have told : (f.act x (.follow address)).book f.number =
      (((x.store address).snapshot f.dataId).map Group.prepare).foldl Book.update
        (x.book f.number) := by
    rw [act, Exchange.book_commit x address _ ready.known, subscriber, Store.pushesTo_subscribe,
      List.foldl_map, List.foldl_map]
    rfl
  rw [shown, told, Exchange.members_foldl_snapshot, live, shown]

theorem Ready.shown_resync (ready : f.Ready x) (address : String) {name : String}
    (named : name ≠ Group.directName) :
    f.shown (f.act x (.resync address)) name = (f.live x address name).map Provider.prepare := by
  rw [shown, act, Exchange.book_deliver _ _ ready.known, subscriber, Store.resync, if_pos rfl,
    Book.receive, Book.members_updateAll _ (Exchange.nodup_names_prepared _ _) named,
    Group.membersIn_map_prepare, Store.membersIn_snapshot, live]

theorem Ready.shown_clear (ready : f.Ready x) {name : String} (named : name ≠ Group.directName) :
    f.shown (f.act x .clear) name = [] := by
  have emptied : (f.act x .clear).book f.number = (x.book f.number).updateAll [] := by
    simp [act, Exchange.book, Exchange.withBook, ready.known]
  rw [shown, emptied, Book.members_updateAll _ (by simp) named, Group.membersIn]

def weighing (weight : String) : Provider :=
  (Provider.new "10.0.0.1" 12200 "bolt").withAttribute Provider.weightKey weight

def onlyBook : Follower := ⟨"com.demo.Echo@bolt", 0⟩

def boundTo (x : Exchange Unit) (registries : List Registry.Settings) : Hub Unit :=
  (({ Hub.new Settings.default () with exchange := x }.addReference
    ⟨"com.demo.Echo", "", "bolt", "", registries, none, "", Hub.rotationName, Codec.jsonName, none⟩
    []).2.bind 0).2

end Follower

end Switchboard
