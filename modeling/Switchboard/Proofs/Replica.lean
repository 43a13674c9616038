import Mathlib.Logic.Relation
import Switchboard.Proofs.Delivery

/-! A book that follows one data id of a store shows what the store holds under that id. The store
and the book are changed by different rules: the store looks for a provider before it adds one and
pushes single changes, the book appends and removes what it is told. They agree as long as nobody
publishes a provider that is live already, over any run of changes and full pushes. -/
namespace Switchboard

namespace Registry.Store

theorem withdraw_cases (s : Store) (dataId group : String) (provider : Provider) :
    (s.withdraw dataId group provider = (s, []) ∧
      Group.without (s.members dataId group) [provider] = s.members dataId group) ∨
    (s.withdraw dataId group provider =
      (s.replaceGroup dataId group (Group.without (s.members dataId group) [provider]),
        s.announce dataId (.delete ⟨group, [provider]⟩)) ∧
      s.members dataId group ≠ []) := by
  by_cases same :
      (Group.without (s.members dataId group) [provider]).length = (s.members dataId group).length
  · refine Or.inl ⟨if_pos same, ?_⟩
    exact List.filter_sublist.eq_of_length same
  · refine Or.inr ⟨if_neg same, fun empty => same ?_⟩
    rw [empty, Group.nil_without]

theorem members_eq_nil_of_unnamed (s : Store) {dataId name : String}
    (h : (s.groupsOf dataId).get? name = none) : s.members dataId name = [] := by
  rw [members, Dictionary.getD, h, Option.getD_none]

end Registry.Store

namespace Exchange

open Registry (Store)

variable {ε : Type} {address dataId : String} {number : Nat}

/-- What may happen while the book of a reference follows a data id at an address: providers come
and go, those of other data ids without restriction, and the book gets a full push. -/
inductive Moves (address dataId : String) (number : Nat) : Exchange ε → Exchange ε → Prop where
  | publish {x : Exchange ε} {group : String} {provider : Provider}
      (named : group ≠ Group.directName)
      (absent : ∀ known ∈ (x.store address).members dataId group,
        known.identity ≠ provider.identity) :
      Moves address dataId number x (x.publish address dataId group provider)
  | withdraw {x : Exchange ε} {group : String} {provider : Provider} :
      Moves address dataId number x (x.withdraw address dataId group provider)
  | publishOther {x : Exchange ε} {id group : String} {provider : Provider} (other : id ≠ dataId) :
      Moves address dataId number x (x.publish address id group provider)
  | withdrawOther {x : Exchange ε} {id group : String} {provider : Provider}
      (other : id ≠ dataId) :
      Moves address dataId number x (x.withdraw address id group provider)
  | resync {x : Exchange ε} :
      Moves address dataId number x
        (x.deliver ((x.store address).resync dataId (.reference number)))

/-- A book exists and is subscribed to the data id a number of times, to others not at all, and the
store has no named group under the name of the direct one. -/
structure Attached (address dataId : String) (number times : Nat) (x : Exchange ε) : Prop where
  known : number < x.books.length
  counted : ∀ id, ((x.store address).subscribersOf id).count (.reference number) =
    if id = dataId then times else 0
  unnamed : ((x.store address).groupsOf dataId).get? Group.directName = none

/-- The groups of the book are those of the store, prepared, and its direct group is the given
one. -/
def Shows (address dataId : String) (number : Nat) (direct : List Provider) (x : Exchange ε) :
    Prop :=
  ∀ name, (x.book number).members name =
    if name = Group.directName then direct
    else ((x.store address).members dataId name).map Provider.prepare

theorem book_commit_of_push (x : Exchange ε) {times : Nat} {id : String}
    (attached : Attached address dataId number times x) (s : Store) (push : Push) :
    (x.commit address (s, (x.store address).announce id push)).book number =
      (List.replicate (if id = dataId then times else 0) push).foldl Book.receive
        (x.book number) := by
  rw [book_commit x address _ attached.known, Store.pushesTo_announce, attached.counted]

theorem book_commit_of_other (x : Exchange ε) {times : Nat} {id : String}
    (attached : Attached address dataId number times x) (other : id ≠ dataId) (s : Store)
    (push : Push) :
    (x.commit address (s, (x.store address).announce id push)).book number = x.book number := by
  rw [book_commit_of_push x attached, if_neg other]
  rfl

theorem book_commit_of_own (x : Exchange ε) (attached : Attached address dataId number 1 x)
    (s : Store) (push : Push) :
    (x.commit address (s, (x.store address).announce dataId push)).book number =
      (x.book number).receive push := by
  rw [book_commit_of_push x attached, if_pos rfl]
  rfl

theorem Attached.commit {x : Exchange ε} {times : Nat}
    (attached : Attached address dataId number times x) {s : Store} (deliveries : List Delivery)
    (subscribers : ∀ id, s.subscribersOf id = (x.store address).subscribersOf id)
    (unnamed : (s.groupsOf dataId).get? Group.directName = none) :
    Attached address dataId number times (x.commit address (s, deliveries)) where
  known := by rw [length_books_commit]; exact attached.known
  counted id := by rw [store_commit, subscribers]; exact attached.counted id
  unnamed := by rw [store_commit]; exact unnamed

theorem Attached.replaceGroup {x : Exchange ε} {times : Nat}
    (attached : Attached address dataId number times x) {id group : String}
    (named : id = dataId → group ≠ Group.directName) (members : List Provider)
    (deliveries : List Delivery) :
    Attached address dataId number times
      (x.commit address ((x.store address).replaceGroup id group members, deliveries)) := by
  refine attached.commit deliveries (fun _ => Store.subscribersOf_replaceGroup ..) ?_
  rw [Store.groupsOf_replaceGroup]
  by_cases own : id = dataId
  · rw [if_pos own, Dictionary.get?_insert, if_neg (named own), own]
    exact attached.unnamed
  · rw [if_neg own]
    exact attached.unnamed

theorem Attached.ne_directName {x : Exchange ε} {times : Nat}
    (attached : Attached address dataId number times x) {group : String}
    (found : (x.store address).members dataId group ≠ []) : group ≠ Group.directName := by
  intro same
  subst same
  exact found ((x.store address).members_eq_nil_of_unnamed attached.unnamed)

theorem Attached.withdraw {x : Exchange ε} {times : Nat}
    (attached : Attached address dataId number times x) (id group : String)
    (provider : Provider) :
    Attached address dataId number times (x.withdraw address id group provider) := by
  unfold Exchange.withdraw
  rcases (x.store address).withdraw_cases id group provider with ⟨kept, -⟩ | ⟨taken, found⟩
  · rw [kept]
    exact attached.commit [] (fun _ => rfl) attached.unnamed
  · rw [taken]
    refine attached.replaceGroup (fun own => ?_) _ _
    subst own
    exact attached.ne_directName found

theorem Attached.moves {x y : Exchange ε} {times : Nat}
    (attached : Attached address dataId number times x) (h : Moves address dataId number x y) :
    Attached address dataId number times y := by
  cases h with
  | publish named absent => exact attached.replaceGroup (fun _ => named) _ _
  | publishOther other => exact attached.replaceGroup (fun own => absurd own other) _ _
  | withdraw => exact attached.withdraw _ _ _
  | withdrawOther other => exact attached.withdraw _ _ _
  | resync =>
      exact
        { known := by rw [length_books_deliver]; exact attached.known
          counted := fun id => by rw [store_deliver]; exact attached.counted id
          unnamed := by rw [store_deliver]; exact attached.unnamed }

theorem Shows.members_eq {x : Exchange ε} {direct : List Provider}
    (shows : Shows address dataId number direct x) {group : String}
    (named : group ≠ Group.directName) :
    (x.book number).members group =
      ((x.store address).members dataId group).map Provider.prepare :=
  (shows group).trans (if_neg named)

theorem Shows.other {x : Exchange ε} {direct : List Provider}
    (attached : Attached address dataId number 1 x)
    (shows : Shows address dataId number direct x) {id : String} (other : id ≠ dataId)
    (group : String) (members : List Provider) (push : Push) :
    Shows address dataId number direct (x.commit address
      ((x.store address).replaceGroup id group members, (x.store address).announce id push)) := by
  intro name
  have kept := (x.store address).members_replaceGroup id group dataId name members
  rw [if_neg fun both => other both.1] at kept
  rw [book_commit_of_other x attached other, store_commit, kept]
  exact shows name

theorem Shows.own {x : Exchange ε} {direct : List Provider}
    (attached : Attached address dataId number 1 x)
    (shows : Shows address dataId number direct x) {group : String}
    (named : group ≠ Group.directName) {members : List Provider} {push : Push}
    (same : ∀ name, ((x.book number).receive push).members name =
      if group = name then members.map Provider.prepare else (x.book number).members name) :
    Shows address dataId number direct (x.commit address
      ((x.store address).replaceGroup dataId group members,
        (x.store address).announce dataId push)) := by
  intro name
  have after := (x.store address).members_replaceGroup dataId group dataId name members
  rw [book_commit_of_own x attached, store_commit, same]
  by_cases changed : group = name
  · subst changed
    rw [if_pos ⟨rfl, rfl⟩] at after
    rw [if_pos rfl, if_neg named, after]
  · rw [if_neg fun both => changed both.2] at after
    rw [if_neg changed, after]
    exact shows name

theorem Shows.publish {x : Exchange ε} {direct : List Provider}
    (attached : Attached address dataId number 1 x)
    (shows : Shows address dataId number direct x) {group : String} {provider : Provider}
    (named : group ≠ Group.directName)
    (absent : ∀ known ∈ (x.store address).members dataId group,
      known.identity ≠ provider.identity) :
    Shows address dataId number direct (x.publish address dataId group provider) := by
  refine shows.own attached named fun name => ?_
  have pushedNamed : (Group.mk group [provider]).prepare.name ≠ Group.directName := named
  rw [Book.receive, Book.members_add _ pushedNamed,
    Store.settle_of_absent absent, List.map_append, ← shows.members_eq named]
  by_cases own : group = name
  · subst own
    rfl
  · rw [if_neg own, if_neg (show ¬(Group.mk group [provider]).prepare.name = name from own)]

theorem Shows.withdraw {x : Exchange ε} {direct : List Provider}
    (attached : Attached address dataId number 1 x)
    (shows : Shows address dataId number direct x) (id group : String) (provider : Provider) :
    Shows address dataId number direct (x.withdraw address id group provider) := by
  unfold Exchange.withdraw
  rcases (x.store address).withdraw_cases id group provider with ⟨kept, -⟩ | ⟨taken, found⟩
  · rw [kept]
    intro name
    rw [store_commit, book_commit x address _ attached.known]
    exact shows name
  · rw [taken]
    by_cases own : id = dataId
    · subst own
      have named := attached.ne_directName found
      refine shows.own attached named fun name => ?_
      rw [Book.receive, Book.members_remove, Group.map_prepare_without, ← shows.members_eq named]
      by_cases changed : group = name
      · subst changed
        rfl
      · rw [if_neg changed, if_neg (show ¬(Group.mk group [provider]).name = name from changed)]
    · exact shows.other attached own _ _ _

theorem nodup_names_prepared (s : Store) (dataId : String) :
    (((s.snapshot dataId).map Group.prepare).map (·.name)).Nodup := by
  rw [List.map_map]
  exact s.nodup_names_snapshot dataId

theorem Attached.prepared_ne_directName {x : Exchange ε} {times : Nat}
    (attached : Attached address dataId number times x) :
    ∀ group ∈ ((x.store address).snapshot dataId).map Group.prepare,
      group.name ≠ Group.directName := by
  intro group member direct
  obtain ⟨held, isHeld, rfl⟩ := List.mem_map.mp member
  have found := ((x.store address).exists_name_snapshot_iff dataId Group.directName).mp
    ⟨held, isHeld, direct⟩
  rw [attached.unnamed] at found
  cases found

theorem Shows.resync {x : Exchange ε} {times : Nat}
    (attached : Attached address dataId number times x) :
    Shows address dataId number (x.book number).direct.members
      (x.deliver ((x.store address).resync dataId (.reference number))) := by
  intro name
  have pushed : (x.deliver ((x.store address).resync dataId (.reference number))).book number =
      (x.book number).updateAll (((x.store address).snapshot dataId).map Group.prepare) :=
    (book_deliver x _ attached.known).trans (if_pos rfl)
  rw [pushed, store_deliver]
  by_cases direct : name = Group.directName
  · rw [if_pos direct, direct, Book.members_direct,
      Book.direct_updateAll _ attached.prepared_ne_directName]
  · rw [if_neg direct, Book.members_updateAll _ (nodup_names_prepared _ _) direct,
      Group.membersIn_map_prepare, Store.membersIn_snapshot]

theorem Shows.direct_eq {x : Exchange ε} {direct : List Provider}
    (shows : Shows address dataId number direct x) : (x.book number).direct.members = direct := by
  rw [← Book.members_direct, shows, if_pos rfl]

theorem Shows.moves {x y : Exchange ε} {direct : List Provider}
    (attached : Attached address dataId number 1 x)
    (shows : Shows address dataId number direct x) (h : Moves address dataId number x y) :
    Shows address dataId number direct y := by
  cases h with
  | publish named absent => exact shows.publish attached named absent
  | publishOther other => exact shows.other attached other _ _ _
  | withdraw => exact shows.withdraw attached _ _ _
  | withdrawOther => exact shows.withdraw attached _ _ _
  | resync =>
      rw [← shows.direct_eq]
      exact Shows.resync attached

theorem Shows.subscribe {x : Exchange ε} {times : Nat}
    (attached : Attached address dataId number times x)
    (vacant : ∀ name, name ≠ Group.directName → (x.book number).members name = []) :
    Shows address dataId number (x.book number).direct.members
      (x.commit address ((x.store address).subscribe dataId (.reference number))) := by
  intro name
  have told : (x.commit address ((x.store address).subscribe dataId (.reference number))).book
      number = (((x.store address).snapshot dataId).map Group.prepare).foldl Book.update
        (x.book number) := by
    rw [book_commit x address _ attached.known, Store.pushesTo_subscribe, List.foldl_map,
      List.foldl_map]
    rfl
  have held : ((x.commit address ((x.store address).subscribe dataId (.reference number))).store
      address).members dataId name = (x.store address).members dataId name := by
    rw [store_commit]
    rfl
  rw [told, held]
  by_cases direct : name = Group.directName
  · rw [if_pos direct, direct,
      Book.members_foldl_update_of_absent _ attached.prepared_ne_directName, Book.members_direct]
  · rw [if_neg direct, Book.members_foldl_update _ (nodup_names_prepared _ _) (vacant name direct),
      Group.membersIn_map_prepare, Store.membersIn_snapshot]

theorem Attached.subscribe {x : Exchange ε} {times : Nat}
    (attached : Attached address dataId number times x) :
    Attached address dataId number (times + 1)
      (x.commit address ((x.store address).subscribe dataId (.reference number))) where
  known := by rw [length_books_commit]; exact attached.known
  counted id := by
    rw [store_commit, Store.subscribersOf_subscribe]
    by_cases own : dataId = id
    · subst own
      rw [if_pos rfl, if_pos rfl, List.count_append, List.count_singleton_self,
        attached.counted, if_pos rfl]
    · rw [if_neg own, if_neg (Ne.symm own), attached.counted, if_neg (Ne.symm own)]
  unnamed := by rw [store_commit]; exact attached.unnamed

theorem Attached.run {x y : Exchange ε} {times : Nat}
    (attached : Attached address dataId number times x)
    (run : Relation.ReflTransGen (Moves address dataId number) x y) :
    Attached address dataId number times y := by
  induction run with
  | refl => exact attached
  | tail _ last ih => exact ih.moves last

theorem Shows.run {x y : Exchange ε} {direct : List Provider}
    (attached : Attached address dataId number 1 x)
    (shows : Shows address dataId number direct x)
    (run : Relation.ReflTransGen (Moves address dataId number) x y) :
    Shows address dataId number direct y := by
  induction run with
  | refl => exact shows
  | tail before last ih => exact ih.moves (attached.run before) last

/-- A book that subscribes to a data id while its named groups are empty shows, from then on, the
providers that the store has under this data id, prepared. -/
theorem book_replicates_store {x₀ x y : Exchange ε}
    (known : number < x₀.books.length)
    (unsubscribed : ∀ id, .reference number ∉ (x₀.store address).subscribersOf id)
    (named : ∀ group ∈ (x₀.store address).snapshot dataId, group.name ≠ Group.directName)
    (before : Relation.ReflTransGen (Moves address dataId number) x₀ x)
    (vacant : ∀ name, name ≠ Group.directName → (x.book number).members name = [])
    (after : Relation.ReflTransGen (Moves address dataId number)
      (x.commit address ((x.store address).subscribe dataId (.reference number))) y)
    (name : String) :
    (y.book number).members name =
      if name = Group.directName then (x.book number).direct.members
      else (Group.membersIn ((y.store address).snapshot dataId) name).map Provider.prepare := by
  have unnamed : ((x₀.store address).groupsOf dataId).get? Group.directName = none := by
    rw [← Option.not_isSome_iff_eq_none, ← Store.exists_name_snapshot_iff]
    rintro ⟨group, member, same⟩
    exact named group member same
  have start : Attached address dataId number 0 x₀ :=
    { known := known
      counted := fun id => by rw [List.count_eq_zero.mpr (unsubscribed id), ite_self]
      unnamed := unnamed }
  have subscribing := start.run before
  have shows := (Shows.subscribe subscribing vacant).run subscribing.subscribe after
  rw [Store.membersIn_snapshot]
  exact shows name

def warming : Provider :=
  (((Provider.new "10.0.0.2" 12200 "bolt").withAttribute Provider.warmupTimeKey
    "1000").withAttribute Provider.warmupWeightKey "5").withAttribute Provider.startTimeKey "0"

def opened : Exchange Unit :=
  (Exchange.new ()).addBook.2.publish "local" "echo@bolt" "blue"
    (Provider.new "10.0.0.1" 12200 "bolt")

def replaced : Exchange Unit :=
  ((opened.commit "local" ((opened.store "local").subscribe "echo@bolt" (.reference 0))).publish
    "local" "echo@bolt" "blue" warming).withdraw "local" "echo@bolt" "blue"
      (Provider.new "10.0.0.1" 12200 "bolt")

theorem book_replicates_store_replaced :
    (replaced.book 0).members "blue" =
      (Group.membersIn ((replaced.store "local").snapshot "echo@bolt") "blue").map
        Provider.prepare ∧
    (replaced.book 0).members "blue" =
      [⟨⟨"10.0.0.2", 12200, "bolt"⟩, .empty, .warmingUp, some 5, some 1000⟩] := by
  refine ⟨?_, by decide⟩
  have before : Relation.ReflTransGen (Moves "local" "echo@bolt" 0) (Exchange.new ()).addBook.2
      opened := by
    refine Relation.ReflTransGen.single (.publish (by decide) ?_)
    exact fun known member => absurd member List.not_mem_nil
  have vacant : ∀ name, name ≠ Group.directName → (opened.book 0).members name = [] := by
    intro name named
    rw [Book.members_named _ named]
    rfl
  have after : Relation.ReflTransGen (Moves "local" "echo@bolt" 0)
      (opened.commit "local" ((opened.store "local").subscribe "echo@bolt" (.reference 0)))
      replaced := by
    refine Relation.ReflTransGen.tail (.single (.publish (by decide) ?_)) .withdraw
    decide
  exact book_replicates_store (by decide) (fun id => List.not_mem_nil)
    (fun group member => absurd member List.not_mem_nil) before vacant after "blue"

end Exchange

end Switchboard
