import Switchboard.Proofs.Outlets

/-! A book beside other ones. Either it rests, without an entry in any table, or it follows one data
id at an address and shows what the store has there. What is done for other references leaves it in
either state, and so does every provider that comes or goes, and every full push. The book itself
goes from the one state to the other when its reference joins a registry or leaves it. -/
namespace Switchboard

namespace Exchange

open Registry (Memory Store)

variable {ε : Type} {address dataId : String} {number other : Nat} {registries : List Nat}
  {x y z : Exchange ε}

/-- A book that is subscribed nowhere and has no direct group. -/
structure Rests (number : Nat) (x : Exchange ε) : Prop where
  known : number < x.books.length
  unlisted : x.Unlisted number
  tidy : (x.book number).Tidy
  direct : (x.book number).direct.members = []

/-- A book that is subscribed once, to a data id at an address, and shows what the store has. -/
structure Follows (address dataId : String) (number : Nat) (registries : List Nat)
    (x : Exchange ε) : Prop where
  attached : Attached address dataId number 1 x
  shows : Shows address dataId number [] x
  tidy : (x.book number).Tidy
  traced : Traced number dataId registries x
  outlets : ∀ registry ∈ registries, ∃ settings, x.outlet? registry = some settings ∧
    settings.address = address

structure Steady (address : String) (x y : Exchange ε) : Prop where
  outlets : ∀ registry settings,
    x.outlet? registry = some settings → y.outlet? registry = some settings
  services : (y.store address).services = (x.store address).services
  known : y.books.length = x.books.length

structure Leaves (address : String) (number : Nat) (x y : Exchange ε) : Prop
    extends Sheds number x y, Steady address x y where
  counted : ∀ id, ((y.store address).subscribersOf id).count (.reference number) =
    ((x.store address).subscribersOf id).count (.reference number)
  book : y.book number = x.book number

theorem Steady.trans (first : Steady address x y) (second : Steady address y z) :
    Steady address x z where
  outlets registry settings known :=
    second.outlets registry settings (first.outlets registry settings known)
  services := second.services.trans first.services
  known := second.known.trans first.known

theorem members_of_services {s t : Store} (same : t.services = s.services) (id group : String) :
    t.members id group = s.members id group := by
  rw [Store.members, Store.groupsOf, same]
  rfl

theorem groupsOf_of_services {s t : Store} (same : t.services = s.services) (id : String) :
    t.groupsOf id = s.groupsOf id := by
  rw [Store.groupsOf, same]
  rfl

theorem snapshot_of_services {s t : Store} (same : t.services = s.services)
    (dataId : String) : t.snapshot dataId = s.snapshot dataId := by
  rw [Store.snapshot, Store.snapshot, groupsOf_of_services same]

theorem Quiet.steady (quiet : Quiet x y) : Steady address x y where
  outlets := quiet.outlets
  services := by rw [quiet.store]
  known := by rw [quiet.books]

theorem Quiet.leaves (quiet : Quiet x y) : Leaves address number x y where
  toSheds := quiet.spares.toSheds
  services := by rw [quiet.store]
  known := by rw [quiet.books]
  counted id := by rw [quiet.store]
  book := quiet.book number

theorem steady_withBook (x : Exchange ε) (other : Nat) (b : Book) :
    Steady address x (x.withBook other b) := ⟨fun _ _ known => known, rfl, List.length_set⟩

theorem leaves_withBook (different : other ≠ number) (x : Exchange ε) (b : Book) :
    Leaves address number x (x.withBook other b) where
  toSheds := sheds_withBook x other b
  services := rfl
  known := List.length_set
  counted _ := rfl
  book := by simp [Exchange.book, withBook, List.getElem?_set_ne different]

theorem leaves_deliver {d : Delivery} (different : d.subscriber ≠ .reference number)
    (x : Exchange ε) : Leaves address number x (x.deliver d) where
  toSheds := sheds_deliver x d
  services := by rw [store_deliver]
  known := length_books_deliver x d
  counted id := by rw [store_deliver]
  book := book_deliver_of_other x different

variable {registry : Nat} {outlet : Registry.Settings} {state : Memory}

theorem steady_join (found : x.registry? registry = some ⟨outlet, .memory state⟩) (id : String)
    (subscriber : Subscriber) :
    Steady address x (x.join registry outlet state id subscriber) where
  outlets other settings known := (outlet?_join found subscriber other).trans known
  services := by
    rw [store_join]
    split
    next same => rw [← same]; rfl
    next => rfl
  known := length_books_commit _ _ _

theorem leaves_join (found : x.registry? registry = some ⟨outlet, .memory state⟩) (id : String)
    (different : other ≠ number) :
    Leaves address number x (x.join registry outlet state id (.reference other)) where
  toSheds := (spares_join found id (by simpa using different)).toSheds
  services := (steady_join found id _).services
  known := length_books_commit _ _ _
  counted key := by
    rw [store_join]
    split
    next here =>
      subst here
      rw [Store.subscribersOf_subscribe]
      split
      next same =>
        have none : ([.reference other] : List Subscriber).count (.reference number) = 0 := by
          simp [different]
        rw [same, List.count_append, none, Nat.add_zero]
      next => rfl
    next => rfl
  book := by
    refine book_deliverAll_of_others _ fun d told => ?_
    obtain ⟨group, -, rfl⟩ := List.mem_map.mp told
    simpa using different

theorem steady_dismiss (found : x.registry? registry = some ⟨outlet, .memory state⟩)
    (id : String) (subscriber : Subscriber) :
    Steady address x (x.dismiss registry outlet state id subscriber) where
  outlets other settings known := (outlet?_dismiss found subscriber other).trans known
  services := by
    rw [store_dismiss]
    split
    next same => rw [← same]; rfl
    next => rfl
  known := rfl

theorem leaves_dismiss (found : x.registry? registry = some ⟨outlet, .memory state⟩)
    (id : String) (different : other ≠ number) :
    Leaves address number x (x.dismiss registry outlet state id (.reference other)) where
  toSheds := (spares_dismiss found id _).toSheds
  services := (steady_dismiss found id _).services
  known := rfl
  counted key := by
    rw [store_dismiss]
    split
    next here =>
      subst here
      rw [Store.subscribersOf_unsubscribe]
      split
      next same => rw [same, List.count_filter (by simpa using Ne.symm different)]
      next => rfl
    next => rfl
  book := rfl

theorem Rests.spares (rests : Rests number x) (spares : Spares number x y) : Rests number y where
  known := Nat.lt_of_lt_of_le rests.known spares.held
  unlisted := rests.unlisted.sheds spares.toSheds
  tidy := by rw [spares.book rests.unlisted]; exact rests.tidy
  direct := by rw [spares.book rests.unlisted]; exact rests.direct

theorem Follows.leaves (follows : Follows address dataId number registries x)
    (leaves : Leaves address number x y) : Follows address dataId number registries y where
  attached :=
    { known := by rw [leaves.known]; exact follows.attached.known
      counted := fun id => by rw [leaves.counted]; exact follows.attached.counted id
      unnamed := by
        rw [groupsOf_of_services leaves.services]
        exact follows.attached.unnamed }
  shows name := by
    rw [leaves.book, members_of_services leaves.services]
    exact follows.shows name
  tidy := by rw [leaves.book]; exact follows.tidy
  traced := follows.traced.sheds leaves.toSheds
  outlets registry listed := by
    obtain ⟨settings, known, here⟩ := follows.outlets registry listed
    exact ⟨settings, leaves.outlets registry settings known, here⟩

theorem Follows.moves (follows : Follows address dataId number registries x)
    (moves : Moves address dataId number x y) (sheds : Sheds number x y)
    (tidy : (y.book number).Tidy) : Follows address dataId number registries y where
  attached := follows.attached.moves moves
  shows := follows.shows.moves follows.attached moves
  tidy := tidy
  traced := follows.traced.sheds sheds
  outlets registry listed := by
    obtain ⟨settings, known, here⟩ := follows.outlets registry listed
    exact ⟨settings, sheds.outlets registry settings known, here⟩

structure Carries (address : String) (number : Nat) (x y : Exchange ε) : Prop where
  rests : Rests number x → Rests number y
  follows : ∀ {dataId registries}, Follows address dataId number registries x →
    Follows address dataId number registries y

theorem Carries.refl (x : Exchange ε) : Carries address number x x :=
  ⟨fun rests => rests, fun follows => follows⟩

theorem Carries.trans (first : Carries address number x y) (second : Carries address number y z) :
    Carries address number x z :=
  ⟨fun rests => second.rests (first.rests rests),
    fun follows => second.follows (first.follows follows)⟩

theorem Leaves.carries (leaves : Leaves address number x y) : Carries address number x y where
  rests rests := rests.spares ⟨leaves.toSheds, fun _ => leaves.book⟩
  follows follows := follows.leaves leaves

theorem Quiet.carries (quiet : Quiet x y) : Carries address number x y := quiet.leaves.carries

theorem tidy_commit (tidy : (x.book number).Tidy) (known : number < x.books.length)
    (change : Store × List Delivery) : ((x.commit address change).book number).Tidy := by
  rw [book_commit x address change known]
  exact tidy.foldl_receive _

theorem carries_publish {group : String} (named : group ≠ Group.directName) (id : String)
    {provider : Provider} (absent : ∀ known ∈ (x.store address).members id group,
      known.identity ≠ provider.identity) :
    Carries address number x (x.publish address id group provider) where
  rests rests := rests.spares (spares_publish x _ _ _ _)
  follows {dataId registries} follows := by
    have moves : Moves address dataId number x (x.publish address id group provider) := by
      by_cases own : id = dataId
      · subst own
        exact .publish named absent
      · exact .publishOther own
    exact follows.moves moves (spares_publish x _ _ _ _).toSheds
      (tidy_commit follows.tidy follows.attached.known _)

theorem carries_withdraw (x : Exchange ε) (id group : String) (provider : Provider) :
    Carries address number x (x.withdraw address id group provider) where
  rests rests := rests.spares (spares_withdraw x _ _ _ _)
  follows {dataId registries} follows := by
    have moves : Moves address dataId number x (x.withdraw address id group provider) := by
      by_cases own : id = dataId
      · subst own
        exact .withdraw
      · exact .withdrawOther own
    exact follows.moves moves (spares_withdraw x _ _ _ _).toSheds
      (tidy_commit follows.tidy follows.attached.known _)

theorem Follows.resync (follows : Follows address dataId number registries x) :
    Follows address dataId number registries
      (x.deliver ((x.store address).resync dataId (.reference number))) := by
  refine follows.moves .resync (sheds_deliver x _) ?_
  rw [book_deliver x _ follows.attached.known]
  exact if_pos rfl ▸ follows.tidy.receive _

theorem steady_rescan (x : Exchange ε) (registry : Nat) :
    Steady address x (x.rescan registry) := by
  rw [rescan]
  split
  next settings state _ =>
    refine List.foldlRecOn state.subscriptions _ (motive := Steady address x)
      (Quiet.refl x).steady fun y before entry _ => before.trans ?_
    refine ⟨fun other settings known => ?_, by rw [store_deliver], length_books_deliver y _⟩
    rw [outlet?, registry?_deliver]
    exact known
  next => exact (Quiet.refl x).steady

theorem Follows.rescan (follows : Follows address dataId number registries x) (registry : Nat) :
    Follows address dataId number registries (x.rescan registry) := by
  rw [Exchange.rescan]
  split
  next settings state found =>
    refine List.foldlRecOn state.subscriptions _
      (motive := Follows address dataId number registries) follows fun y before entry member => ?_
    by_cases own : entry.2 = .reference number
    · have listed : (entry.1, .reference number) ∈ x.roll registry := by
        rw [roll, found, ← own]
        exact member
      obtain ⟨same, noted⟩ := follows.traced.rolls registry entry.1 listed
      obtain ⟨place, known, here⟩ := follows.outlets registry noted
      obtain rfl : settings = place := Option.some.inj ((outlet?_of_memory found).symm.trans known)
      rw [own, same, here]
      exact before.resync
    · exact before.leaves (leaves_deliver own y)
  next => exact follows

theorem carries_rescan (x : Exchange ε) (registry : Nat) :
    Carries address number x (x.rescan registry) := by
  have steady : Steady address x (x.rescan registry) := steady_rescan x registry
  exact ⟨fun rests => rests.spares (spares_rescan x registry),
    fun follows => follows.rescan registry⟩

theorem Rests.join (rests : Rests number x)
    (vacant : ∀ name, name ≠ Group.directName → (x.book number).members name = [])
    (unnamed : ((x.store outlet.address).groupsOf dataId).get? Group.directName = none)
    (found : x.registry? registry = some ⟨outlet, .memory state⟩) :
    Follows outlet.address dataId number [registry]
      (x.join registry outlet state dataId (.reference number)) := by
  have listed : Attached outlet.address dataId number 0 (x.withMemory registry outlet
      { state with subscriptions := state.subscriptions ++ [(dataId, .reference number)] }) :=
    { known := rests.known
      counted := fun id => by
        rw [ite_self]
        exact List.count_eq_zero.mpr (rests.unlisted.stores outlet.address id)
      unnamed := unnamed }
  refine ⟨listed.subscribe, ?_, ?_, (rests.unlisted.traced dataId []).join found,
    fun other listed => ?_⟩
  · exact rests.direct ▸ Shows.subscribe listed vacant
  · exact tidy_commit (x := x.withMemory registry outlet _) rests.tidy rests.known _
  · rw [List.mem_singleton.mp listed, outlet?_join found]
    exact ⟨outlet, outlet?_of_memory found, rfl⟩

theorem Follows.part {service : Service}
    (follows : Follows address service.dataId number [registry] x) :
    Rests number (partAll service (.reference number) [registry] x) := by
  obtain ⟨settings, known, -⟩ := follows.outlets registry List.mem_cons_self
  obtain ⟨state, found, parted⟩ := partAll_memory known service (.reference number)
  have unlisted := follows.traced.partAll
  rw [parted] at unlisted ⊢
  exact ⟨follows.attached.known, unlisted, follows.tidy, follows.shows.direct_eq⟩

theorem Rests.clear (rests : Rests number x) :
    Rests number (x.withBook number ((x.book number).updateAll [])) ∧
    ∀ name, name ≠ Group.directName →
      ((x.withBook number ((x.book number).updateAll [])).book number).members name = [] := by
  have cleared : (x.withBook number ((x.book number).updateAll [])).book number =
      (x.book number).updateAll [] := by
    simp [Exchange.book, withBook, rests.known]
  refine ⟨⟨?_, rests.unlisted.sheds (sheds_withBook x _ _), ?_, ?_⟩, fun name named => ?_⟩
  · simpa [withBook] using rests.known
  · rw [cleared]
    exact rests.tidy.updateAll []
  · rw [cleared, Book.direct_updateAll _ (by simp)]
    exact rests.direct
  · rw [cleared, Book.members_updateAll _ (by simp) named]
    rfl

end Exchange

end Switchboard
