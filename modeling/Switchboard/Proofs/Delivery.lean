import Switchboard.Exchange
import Switchboard.Proofs.Book
import Switchboard.Proofs.Dictionary

/-! What a change of a store is told to one address book. The book takes the pushes that are
addressed to it, in their order, and no delivery changes a store. -/
namespace Switchboard

def pushesTo (subscriber : Subscriber) (deliveries : List Delivery) : List Push :=
  (deliveries.filter fun d => decide (d.subscriber = subscriber)).map (·.push)

namespace Registry.Store

theorem pushesTo_announce (s : Store) (dataId : String) (push : Push) (subscriber : Subscriber) :
    pushesTo subscriber (s.announce dataId push) =
      List.replicate ((s.subscribersOf dataId).count subscriber) push := by
  unfold pushesTo announce
  induction s.subscribersOf dataId with
  | nil => rfl
  | cons first rest ih =>
      by_cases same : first = subscriber
      · rw [List.map_cons, List.filter_cons_of_pos (by simpa using same), List.map_cons, ih,
          same, List.count_cons_self, List.replicate_succ]
      · rw [List.map_cons, List.filter_cons_of_neg (by simpa using same), ih,
          List.count_cons_of_ne same]

theorem pushesTo_subscribe (s : Store) (dataId : String) (subscriber : Subscriber) :
    pushesTo subscriber (s.subscribe dataId subscriber).2 = (s.snapshot dataId).map .set := by
  unfold pushesTo subscribe
  induction s.snapshot dataId with
  | nil => rfl
  | cons group rest ih =>
      rw [List.map_cons, List.filter_cons_of_pos (by simp), List.map_cons, List.map_cons, ih]

theorem membersIn_snapshot (s : Store) (dataId name : String) :
    Group.membersIn (s.snapshot dataId) name = s.members dataId name := by
  unfold snapshot members Dictionary.getD Dictionary.get?
  induction (s.groupsOf dataId).entries with
  | nil => rfl
  | cons entry rest ih =>
      rw [List.map_cons, Group.membersIn, Entries.get?]
      split
      · rfl
      · exact ih

theorem names_snapshot (s : Store) (dataId : String) :
    (s.snapshot dataId).map (·.name) = (s.groupsOf dataId).keys := by
  simp [snapshot, Dictionary.keys, List.map_map, Function.comp_def]

theorem nodup_names_snapshot (s : Store) (dataId : String) :
    ((s.snapshot dataId).map (·.name)).Nodup := by
  rw [names_snapshot]
  exact (s.groupsOf dataId).nodup_keys

theorem exists_name_snapshot_iff (s : Store) (dataId name : String) :
    (∃ group ∈ s.snapshot dataId, group.name = name) ↔
      ((s.groupsOf dataId).get? name).isSome := by
  rw [← Dictionary.mem_keys_iff, ← names_snapshot, List.mem_map]

theorem subscribersOf_replaceGroup (s : Store) (dataId group other : String)
    (members : List Provider) :
    (s.replaceGroup dataId group members).subscribersOf other = s.subscribersOf other := rfl

theorem groupsOf_replaceGroup (s : Store) (dataId group other : String)
    (members : List Provider) :
    (s.replaceGroup dataId group members).groupsOf other =
      if dataId = other then (s.groupsOf dataId).insert group members else s.groupsOf other := by
  simp only [groupsOf, replaceGroup, Dictionary.getD, Dictionary.get?_insert]
  split <;> rfl

theorem subscribersOf_subscribe (s : Store) (dataId other : String) (subscriber : Subscriber) :
    (s.subscribe dataId subscriber).1.subscribersOf other =
      if dataId = other then s.subscribersOf dataId ++ [subscriber] else s.subscribersOf other := by
  simp only [subscribersOf, subscribe, Dictionary.getD, Dictionary.get?_insert]
  split <;> rfl

theorem settle_of_absent {provider : Provider} {list : List Provider}
    (h : ∀ known ∈ list, known.identity ≠ provider.identity) :
    settle provider list = list ++ [provider] := by
  induction list with
  | nil => rfl
  | cons known rest ih =>
      rw [settle, if_neg (h known List.mem_cons_self),
        ih fun other member => h other (List.mem_cons_of_mem _ member), List.cons_append]

end Registry.Store

namespace Exchange

variable {ε : Type}

theorem stores_deliver (x : Exchange ε) (d : Delivery) : (x.deliver d).stores = x.stores := by
  unfold deliver
  split
  · rfl
  · split <;> rfl

theorem store_deliver (x : Exchange ε) (d : Delivery) (address : String) :
    (x.deliver d).store address = x.store address := by rw [store, store, stores_deliver]

theorem length_books_deliver (x : Exchange ε) (d : Delivery) :
    (x.deliver d).books.length = x.books.length := by
  unfold deliver
  split
  · exact List.length_set
  · split <;> rfl

theorem book_deliver (x : Exchange ε) (d : Delivery) {number : Nat}
    (h : number < x.books.length) :
    (x.deliver d).book number =
      if d.subscriber = .reference number then (x.book number).receive d.push
      else x.book number := by
  unfold deliver
  split
  next other addressee =>
    rw [addressee]
    by_cases same : other = number
    · subst same
      simp [book, withBook, h]
    · have kept :
          (x.withBook other ((x.book other).receive d.push)).book number = x.book number := by
        simp [book, withBook, List.getElem?_set_ne same]
      rw [kept, if_neg (by simpa using same)]
  next listener addressee =>
    rw [addressee, if_neg (by simp)]
    split <;> rfl

theorem stores_deliverAll (x : Exchange ε) (deliveries : List Delivery) :
    (x.deliverAll deliveries).stores = x.stores := by
  induction deliveries generalizing x with
  | nil => rfl
  | cons d rest ih => rw [deliverAll, List.foldl_cons, ← deliverAll, ih, stores_deliver]

theorem length_books_deliverAll (x : Exchange ε) (deliveries : List Delivery) :
    (x.deliverAll deliveries).books.length = x.books.length := by
  induction deliveries generalizing x with
  | nil => rfl
  | cons d rest ih => rw [deliverAll, List.foldl_cons, ← deliverAll, ih, length_books_deliver]

theorem book_deliverAll (x : Exchange ε) (deliveries : List Delivery) {number : Nat}
    (h : number < x.books.length) :
    (x.deliverAll deliveries).book number =
      (pushesTo (.reference number) deliveries).foldl Book.receive (x.book number) := by
  induction deliveries generalizing x with
  | nil => rfl
  | cons d rest ih =>
      rw [deliverAll, List.foldl_cons, ← deliverAll,
        ih (x.deliver d) (by rw [length_books_deliver]; exact h), book_deliver x d h]
      by_cases own : d.subscriber = .reference number
      · rw [if_pos own, pushesTo, pushesTo, List.filter_cons_of_pos (by simpa using own),
          List.map_cons, List.foldl_cons]
      · rw [if_neg own, pushesTo, pushesTo, List.filter_cons_of_neg (by simpa using own)]

theorem store_commit (x : Exchange ε) (address : String)
    (change : Registry.Store × List Delivery) :
    (x.commit address change).store address = change.1 := by
  rw [store, commit, stores_deliverAll, withStore, Dictionary.getD, Dictionary.get?_insert,
    if_pos rfl, Option.getD_some]

theorem length_books_commit (x : Exchange ε) (address : String)
    (change : Registry.Store × List Delivery) :
    (x.commit address change).books.length = x.books.length := length_books_deliverAll _ _

theorem book_commit (x : Exchange ε) (address : String)
    (change : Registry.Store × List Delivery) {number : Nat} (h : number < x.books.length) :
    (x.commit address change).book number =
      (pushesTo (.reference number) change.2).foldl Book.receive (x.book number) :=
  book_deliverAll (x.withStore address change.1) change.2 h

end Exchange

end Switchboard
