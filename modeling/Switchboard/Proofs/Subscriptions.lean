import Switchboard.Hub.Offers
import Switchboard.Hub.References
import Switchboard.Proofs.Quiet

/-! Who is subscribed on behalf of a reference. The entries for its book stand in two tables, in the
store of an address and in the registry through which it came there, and the reference keeps the
numbers of these registries. Whatever is done with a hub, the two tables hold no entry of a
reference but behind the numbers that it keeps, so that ending its subscriptions removes every
entry. A binding that fails therefore leaves none, and from then on nothing changes the book until
the next binding. -/
namespace Switchboard

namespace Registry.Store

theorem subscribersOf_unsubscribe (s : Store) (dataId other : String) (subscriber : Subscriber) :
    (s.unsubscribe dataId subscriber).subscribersOf other =
      if dataId = other then (s.subscribersOf dataId).filter (· ≠ subscriber)
      else s.subscribersOf other := by
  simp only [subscribersOf, unsubscribe, Dictionary.getD, Dictionary.get?_insert]
  split <;> rfl

end Registry.Store

namespace Exchange

open Registry (Registration Memory Store)

variable {ε : Type}

theorem book_deliver_of_other (x : Exchange ε) {d : Delivery} {number : Nat}
    (other : d.subscriber ≠ .reference number) : (x.deliver d).book number = x.book number := by
  unfold deliver
  split
  next addressee same =>
    have different : addressee ≠ number := fun equal => other (by rw [same, equal])
    simp [book, withBook, List.getElem?_set_ne different]
  next => split <;> rfl

theorem book_deliverAll_of_others (x : Exchange ε) {deliveries : List Delivery} {number : Nat}
    (others : ∀ d ∈ deliveries, d.subscriber ≠ .reference number) :
    (x.deliverAll deliveries).book number = x.book number := by
  induction deliveries generalizing x with
  | nil => rfl
  | cons d rest ih =>
      have later := fun later member => others later (List.mem_cons_of_mem _ member)
      exact (ih (x.deliver d) later).trans
        (book_deliver_of_other x (others d List.mem_cons_self))

theorem roll_commit (x : Exchange ε) (address : String) (change : Store × List Delivery)
    (registry : Nat) : (x.commit address change).roll registry = x.roll registry := by
  rw [roll, commit, registry?_deliverAll]
  rfl

def join (x : Exchange ε) (registry : Nat) (outlet : Registry.Settings) (state : Memory)
    (dataId : String) (subscriber : Subscriber) : Exchange ε :=
  (x.withMemory registry outlet
    { state with subscriptions := state.subscriptions ++ [(dataId, subscriber)] }).commit
      outlet.address ((x.store outlet.address).subscribe dataId subscriber)

def dismiss (x : Exchange ε) (registry : Nat) (outlet : Registry.Settings) (state : Memory)
    (dataId : String) (subscriber : Subscriber) : Exchange ε :=
  (x.forget outlet.address dataId subscriber).withMemory registry outlet
    { state with subscriptions := state.subscriptions.filter (· ≠ (dataId, subscriber)) }

theorem subscribe_cases (x : Exchange ε) (registry : Nat) (service : Service)
    (subscriber : Subscriber) :
    (∃ outlet state, x.registry? registry = some ⟨outlet, .memory state⟩ ∧
      x.subscribe registry service subscriber =
        (.ok ((x.store outlet.address).snapshot service.dataId),
          x.join registry outlet state service.dataId subscriber)) ∨
    ∃ y, ∃ pushes : List Push, Quiet x y ∧ (x.subscribe registry service subscriber).2 =
      y.deliverAll (pushes.map (⟨subscriber, service.dataId, ·⟩)) := by
  rw [subscribe]
  split
  next => exact .inr ⟨x, [], .refl x, rfl⟩
  next settings behaviour found => exact .inr ⟨_, _, quiet_withWorld x _, rfl⟩
  next settings state found =>
    by_cases allowed : settings.subscribes = true
    · exact .inl ⟨settings, state, found, by rw [if_pos allowed]; rfl⟩
    · rw [if_neg allowed]
      exact .inr ⟨x, [], .refl x, rfl⟩

theorem unsubscribe_cases (x : Exchange ε) (registry : Nat) (service : Service)
    (subscriber : Subscriber) :
    (∃ outlet state, x.registry? registry = some ⟨outlet, .memory state⟩ ∧
      x.unsubscribe registry service subscriber =
        (.ok (), x.dismiss registry outlet state service.dataId subscriber)) ∨
    (Quiet x (x.unsubscribe registry service subscriber).2 ∧ x.outlet? registry = none) := by
  rw [unsubscribe]
  split
  next missing => exact .inr ⟨.refl x, outlet?_of_missing missing⟩
  next settings behaviour found => exact .inr ⟨quiet_outside x _, outlet?_of_foreign found⟩
  next settings state found => exact .inl ⟨settings, state, found, rfl⟩

theorem follow_cases {x : Exchange ε} (grow : x.definitions.Grow) (service : Service)
    (subscriber : Subscriber) (settings : Registry.Settings) :
    (∃ registry y outlet state, Quiet x y ∧ y.registry? registry = some ⟨outlet, .memory state⟩ ∧
      follow service subscriber settings x =
        (.ok ⟨registry, (y.store outlet.address).snapshot service.dataId⟩,
          y.join registry outlet state service.dataId subscriber)) ∨
    ∃ y, ∃ pushes : List Push, Quiet x y ∧ (follow service subscriber settings x).2 =
      y.deliverAll (pushes.map (⟨subscriber, service.dataId, ·⟩)) := by
  have begun := quiet_ready grow settings
  rw [follow]
  generalize x.ready settings = done at begun
  obtain ⟨failure | registry, y⟩ := done
  · exact .inr ⟨y, [], begun, rfl⟩
  · rw [proceed]
    rcases y.subscribe_cases registry service subscriber with
      ⟨outlet, state, found, joined⟩ | ⟨z, pushes, quiet, told⟩
    · exact .inl ⟨registry, y, outlet, state, begun, found, by rw [joined, proceed]⟩
    · refine .inr ⟨z, pushes, begun.trans quiet, ?_⟩
      exact proceed_state (P := (· = z.deliverAll _)) told fun _ _ => told

theorem part_cases (x : Exchange ε) (registry : Nat) (service : Service)
    (subscriber : Subscriber) :
    (∃ outlet state, x.registry? registry = some ⟨outlet, .memory state⟩ ∧
      part service subscriber x registry =
        x.dismiss registry outlet state service.dataId subscriber) ∨
    (Quiet x (part service subscriber x registry) ∧ x.outlet? registry = none) := by
  rw [part]
  rcases x.unsubscribe_cases registry service subscriber with
    ⟨outlet, state, found, dismissed⟩ | ⟨quiet, silent⟩
  · exact .inl ⟨outlet, state, found, by rw [dismissed]⟩
  · refine .inr ⟨?_, silent⟩
    generalize x.unsubscribe registry service subscriber = done at quiet
    obtain ⟨failure | value, y⟩ := done
    · exact quiet.trans (quiet_warn y _)
    · exact quiet

/-- Neither a store nor a registry has an entry for the book of a reference. -/
structure Unlisted (number : Nat) (x : Exchange ε) : Prop where
  rolls : ∀ registry id, (id, .reference number) ∉ x.roll registry
  stores : ∀ address id, .reference number ∉ (x.store address).subscribersOf id

/-- Memory registries stay where they are, no book is lost, and a reference gets no entry that it
did not have. -/
structure Sheds (number : Nat) (x y : Exchange ε) : Prop where
  outlets : ∀ registry settings,
    x.outlet? registry = some settings → y.outlet? registry = some settings
  rolls : ∀ registry id, (id, .reference number) ∈ y.roll registry →
    (id, .reference number) ∈ x.roll registry
  stores : ∀ address id, .reference number ∈ (y.store address).subscribersOf id →
    .reference number ∈ (x.store address).subscribersOf id
  grow : x.definitions.Grow → y.definitions.Grow
  held : x.books.length ≤ y.books.length

/-- What is done without regard to a reference changes its book only if it has an entry. -/
structure Spares (number : Nat) (x y : Exchange ε) : Prop extends Sheds number x y where
  book : x.Unlisted number → y.book number = x.book number

variable {number : Nat} {x y z : Exchange ε}

theorem Unlisted.sheds (unlisted : x.Unlisted number) (sheds : Sheds number x y) :
    y.Unlisted number where
  rolls registry id entry := unlisted.rolls registry id (sheds.rolls registry id entry)
  stores address id entry := unlisted.stores address id (sheds.stores address id entry)

theorem Sheds.refl (x : Exchange ε) : Sheds number x x :=
  ⟨fun _ _ known => known, fun _ _ entry => entry, fun _ _ entry => entry, fun grow => grow,
    Nat.le_refl _⟩

theorem Sheds.trans (first : Sheds number x y) (second : Sheds number y z) : Sheds number x z where
  outlets registry settings known :=
    second.outlets registry settings (first.outlets registry settings known)
  rolls registry id entry := first.rolls registry id (second.rolls registry id entry)
  stores address id entry := first.stores address id (second.stores address id entry)
  grow grow := second.grow (first.grow grow)
  held := Nat.le_trans first.held second.held

theorem Spares.refl (x : Exchange ε) : Spares number x x := ⟨.refl x, fun _ => rfl⟩

theorem Spares.trans (first : Spares number x y) (second : Spares number y z) :
    Spares number x z where
  toSheds := first.toSheds.trans second.toSheds
  book unlisted := (second.book (unlisted.sheds first.toSheds)).trans (first.book unlisted)

theorem Quiet.spares (quiet : Quiet x y) : Spares number x y where
  outlets := quiet.outlets
  rolls registry id entry := by rw [← quiet.rolls]; exact entry
  stores address id entry := by rw [← quiet.store]; exact entry
  grow := quiet.grow
  held := Nat.le_of_eq (congrArg List.length quiet.books).symm
  book _ := quiet.book number

theorem spares_foldl {β : Type} (act : Exchange ε → β → Exchange ε) (list : List β)
    (x : Exchange ε) (each : ∀ y, ∀ b ∈ list, Spares number y (act y b)) :
    Spares number x (list.foldl act x) :=
  List.foldlRecOn list act (motive := Spares number x) (.refl x) fun y before b member =>
    before.trans (each y b member)

theorem spares_tryAll {α : Type}
    {attempt : Registry.Settings → Exchange ε → Outcome α × Exchange ε}
    (each : ∀ settings x, x.definitions.Grow → Spares number x (attempt settings x).2)
    (grow : x.definitions.Grow) (settings : List Registry.Settings) :
    Spares number x (tryAll attempt settings x).2 := by
  induction settings generalizing x with
  | nil => exact .refl x
  | cons first rest ih =>
      have step := each first x grow
      rw [tryAll]
      generalize attempt first x = done at step
      obtain ⟨failure | value, after⟩ := done
      · exact step
      · exact step.trans (ih (step.grow grow))

theorem sheds_withBook (x : Exchange ε) (other : Nat) (b : Book) :
    Sheds number x (x.withBook other b) :=
  ⟨fun _ _ known => known, fun _ _ entry => entry, fun _ _ entry => entry, fun grow => grow,
    Nat.le_of_eq List.length_set.symm⟩

theorem spares_withBook {other : Nat} (different : other ≠ number) (x : Exchange ε) (b : Book) :
    Spares number x (x.withBook other b) :=
  ⟨sheds_withBook x other b, fun _ => by simp [book, withBook, List.getElem?_set_ne different]⟩

theorem book_addBook (x : Exchange ε) (number : Nat) :
    x.addBook.2.book number = x.book number := by
  simp only [book, addBook, List.getD_eq_getElem?_getD]
  rcases Nat.lt_trichotomy number x.books.length with below | here | beyond
  · rw [List.getElem?_append_left below]
  · subst here
    simp
  · rw [List.getElem?_eq_none (Nat.le_of_lt beyond), List.getElem?_eq_none]
    simpa using Nat.succ_le_of_lt beyond

theorem spares_addBook (x : Exchange ε) : Spares number x x.addBook.2 where
  outlets _ _ known := known
  rolls _ _ entry := entry
  stores _ _ entry := entry
  grow grow := grow
  held := by
    rw [addBook, List.length_append]
    exact Nat.le_add_right _ _
  book _ := book_addBook x number

theorem sheds_deliver (x : Exchange ε) (d : Delivery) : Sheds number x (x.deliver d) where
  outlets registry settings known := by rw [outlet?, registry?_deliver]; exact known
  rolls registry id entry := by rw [roll, registry?_deliver] at entry; exact entry
  stores address id entry := by rw [store_deliver] at entry; exact entry
  grow grow := by rw [definitions_deliver]; exact grow
  held := Nat.le_of_eq (length_books_deliver x d).symm

theorem sheds_deliverAll (x : Exchange ε) (deliveries : List Delivery) :
    Sheds number x (x.deliverAll deliveries) :=
  List.foldlRecOn deliveries deliver (motive := Sheds number x) (.refl x) fun y before d _ =>
    before.trans (sheds_deliver y d)

theorem spares_deliverAll (x : Exchange ε) {deliveries : List Delivery}
    (others : x.Unlisted number → ∀ d ∈ deliveries, d.subscriber ≠ .reference number) :
    Spares number x (x.deliverAll deliveries) :=
  ⟨sheds_deliverAll x deliveries, fun unlisted => book_deliverAll_of_others x (others unlisted)⟩

theorem spares_withStore (x : Exchange ε) (address : String) {s : Store}
    (fewer : ∀ id, .reference number ∈ s.subscribersOf id →
      .reference number ∈ (x.store address).subscribersOf id) :
    Spares number x (x.withStore address s) where
  outlets _ _ known := known
  rolls _ _ entry := entry
  stores other id entry := by
    rw [store_withStore] at entry
    split at entry
    next same => exact same ▸ fewer id entry
    next => exact entry
  grow grow := grow
  held := Nat.le_refl _
  book _ := rfl

theorem spares_commit (x : Exchange ε) (address : String) {change : Store × List Delivery}
    (fewer : ∀ id, .reference number ∈ change.1.subscribersOf id →
      .reference number ∈ (x.store address).subscribersOf id)
    (others : x.Unlisted number → ∀ d ∈ change.2, d.subscriber ≠ .reference number) :
    Spares number x (x.commit address change) where
  toSheds := (spares_withStore x address fewer).toSheds.trans (sheds_deliverAll _ _)
  book unlisted := book_deliverAll_of_others (x.withStore address change.1) (others unlisted)

theorem Unlisted.announce (unlisted : x.Unlisted number) (address id : String) (push : Push) :
    ∀ d ∈ (x.store address).announce id push, d.subscriber ≠ .reference number := by
  intro d told same
  obtain ⟨subscriber, subscribed, rfl⟩ := List.mem_map.mp told
  exact unlisted.stores address id (same ▸ subscribed)

theorem spares_publish (x : Exchange ε) (address id group : String) (provider : Provider) :
    Spares number x (x.publish address id group provider) :=
  spares_commit x address (fun _ entry => entry) fun unlisted => unlisted.announce address id _

theorem spares_withdraw (x : Exchange ε) (address id group : String) (provider : Provider) :
    Spares number x (x.withdraw address id group provider) := by
  refine spares_commit x address (fun other entry => ?_) fun unlisted => ?_
  · rw [Store.subscribersOf_withdraw] at entry
    exact entry
  · rcases (x.store address).withdraw_cases id group provider with ⟨kept, -⟩ | ⟨taken, -⟩
    · rw [kept]
      exact fun _ told => absurd told List.not_mem_nil
    · rw [taken]
      exact unlisted.announce address id _

theorem spares_enter (grow : x.definitions.Grow) (r : Registration)
    (settings : Registry.Settings) : Spares number x (enter r settings x).2 := by
  rcases enter_cases grow r settings with ⟨registry, outlet, y, quiet, -, -, entered⟩ | quiet
  · rw [entered]
    exact quiet.spares.trans (spares_publish y _ _ _ _)
  · exact quiet.spares

theorem spares_leave (x : Exchange ε) (r : Registration) (registry : Nat) :
    Spares number x (leave r x registry) := by
  rcases x.leave_cases r registry with ⟨outlet, -, -, withdrawn⟩ | ⟨quiet, -⟩
  · rw [withdrawn]
    exact spares_withdraw x _ _ _ _
  · exact quiet.spares

theorem spares_leaveAll (x : Exchange ε) (r : Registration) (registries : List Nat) :
    Spares number x (leaveAll r registries x) :=
  spares_foldl _ registries x fun y registry _ => spares_leave y r registry

theorem spares_enterAll (grow : x.definitions.Grow) (r : Registration)
    (settings : List Registry.Settings) : Spares number x (enterAll r settings x).2 := by
  have tried : Spares number x (tryAll (enter r) settings x).2 :=
    spares_tryAll (fun settings _ grow => spares_enter grow r settings) grow settings
  rw [enterAll]
  generalize tryAll (enter r) settings x = walk at tried
  obtain ⟨⟨registries, failure⟩, y⟩ := walk
  dsimp only
  split
  · exact tried
  · exact (tried.trans (spares_leaveAll y r _)).trans (quiet_warn _ _).spares

theorem spares_withMemory {registry : Nat} {outlet : Registry.Settings} {old state : Memory}
    (found : x.registry? registry = some ⟨outlet, .memory old⟩)
    (fewer : ∀ id, (id, .reference number) ∈ state.subscriptions →
      (id, .reference number) ∈ old.subscriptions) :
    Spares number x (x.withMemory registry outlet state) where
  outlets other settings known := by rw [outlet?_withMemory found]; exact known
  rolls other id entry := by
    rw [roll_withMemory found] at entry
    split at entry
    next same =>
      rw [← same, roll, found]
      exact fewer id entry
    next => exact entry
  stores _ _ entry := entry
  grow grow := grow
  held := Nat.le_refl _
  book _ := rfl

theorem spares_forget (x : Exchange ε) (address id : String) (subscriber : Subscriber) :
    Spares number x (x.forget address id subscriber) := by
  refine spares_withStore x address fun other entry => ?_
  rw [Store.subscribersOf_unsubscribe] at entry
  split at entry
  next same => exact same ▸ (List.mem_filter.mp entry).1
  next => exact entry

theorem spares_dismiss {registry : Nat} {outlet : Registry.Settings} {state : Memory}
    (found : x.registry? registry = some ⟨outlet, .memory state⟩) (id : String)
    (subscriber : Subscriber) :
    Spares number x (x.dismiss registry outlet state id subscriber) := by
  have still : registry? (x.forget outlet.address id subscriber) registry =
      some ⟨outlet, .memory state⟩ := found
  exact (spares_forget x outlet.address id subscriber).trans
    (spares_withMemory still fun _ entry => (List.mem_filter.mp entry).1)

theorem spares_join {registry : Nat} {outlet : Registry.Settings} {state : Memory}
    (found : x.registry? registry = some ⟨outlet, .memory state⟩) (id : String)
    {subscriber : Subscriber} (other : subscriber ≠ .reference number) :
    Spares number x (x.join registry outlet state id subscriber) := by
  have listed : Spares number x (x.withMemory registry outlet
      { state with subscriptions := state.subscriptions ++ [(id, subscriber)] }) := by
    refine spares_withMemory found fun _ entry => ?_
    refine (List.mem_append.mp entry).resolve_right fun last => other ?_
    exact (Prod.ext_iff.mp (List.mem_singleton.mp last)).2.symm
  refine listed.trans (spares_commit _ outlet.address (fun key entry => ?_) fun _ d told => ?_)
  · rw [Store.subscribersOf_subscribe] at entry
    split at entry
    next same =>
      refine same ▸ (List.mem_append.mp entry).resolve_right fun last => other ?_
      exact (List.mem_singleton.mp last).symm
    next => exact entry
  · obtain ⟨group, -, rfl⟩ := List.mem_map.mp told
    exact other

theorem spares_subscribe (x : Exchange ε) (registry : Nat) (service : Service)
    {subscriber : Subscriber} (other : subscriber ≠ .reference number) :
    Spares number x (x.subscribe registry service subscriber).2 := by
  rcases x.subscribe_cases registry service subscriber with
    ⟨outlet, state, found, joined⟩ | ⟨y, pushes, quiet, told⟩
  · rw [joined]
    exact spares_join found _ other
  · rw [told]
    refine quiet.spares.trans (spares_deliverAll y fun _ d member => ?_)
    obtain ⟨push, -, rfl⟩ := List.mem_map.mp member
    exact other

theorem spares_follow (grow : x.definitions.Grow) (service : Service) {subscriber : Subscriber}
    (other : subscriber ≠ .reference number) (settings : Registry.Settings) :
    Spares number x (follow service subscriber settings x).2 := by
  rcases follow_cases grow service subscriber settings with
    ⟨registry, y, outlet, state, quiet, found, joined⟩ | ⟨y, pushes, quiet, told⟩
  · rw [joined]
    exact quiet.spares.trans (spares_join found _ other)
  · rw [told]
    refine quiet.spares.trans (spares_deliverAll y fun _ d member => ?_)
    obtain ⟨push, -, rfl⟩ := List.mem_map.mp member
    exact other

theorem spares_part (x : Exchange ε) (service : Service) (subscriber : Subscriber)
    (registry : Nat) : Spares number x (part service subscriber x registry) := by
  rcases x.part_cases registry service subscriber with
    ⟨outlet, state, found, dismissed⟩ | ⟨quiet, -⟩
  · rw [dismissed]
    exact spares_dismiss found _ _
  · exact quiet.spares

theorem spares_partAll (x : Exchange ε) (service : Service) (subscriber : Subscriber)
    (registries : List Nat) : Spares number x (partAll service subscriber registries x) :=
  spares_foldl _ registries x fun y registry _ => spares_part y service subscriber registry

theorem spares_followAll (grow : x.definitions.Grow) (service : Service)
    {subscriber : Subscriber} (other : subscriber ≠ .reference number)
    (settings : List Registry.Settings) :
    Spares number x (followAll service subscriber settings x).2 := by
  have tried : Spares number x (tryAll (follow service subscriber) settings x).2 :=
    spares_tryAll (fun settings _ grow => spares_follow grow service other settings) grow settings
  rw [followAll]
  generalize tryAll (follow service subscriber) settings x = walk at tried
  obtain ⟨⟨followed, failure⟩, y⟩ := walk
  dsimp only
  split
  · exact tried
  · exact tried.trans (spares_partAll y service subscriber _)

theorem spares_rescan (x : Exchange ε) (registry : Nat) : Spares number x (x.rescan registry) := by
  rw [rescan]
  split
  next settings state found =>
    refine ⟨List.foldlRecOn state.subscriptions _ (motive := Sheds number x) (.refl x)
      fun y before entry _ => before.trans (sheds_deliver y _), fun unlisted => ?_⟩
    refine List.foldlRecOn state.subscriptions _
      (motive := fun y : Exchange ε => y.book number = x.book number) rfl
      fun y before entry member => ?_
    refine (book_deliver_of_other y fun same => ?_).trans before
    have own : (entry.1, .reference number) ∈ x.roll registry := by
      rw [roll, found, ← show entry.2 = .reference number from same]
      exact member
    exact unlisted.rolls registry entry.1 own
  next => exact .refl x

theorem registry?_foldl_forget (entries : List (String × Subscriber)) (address : String)
    (x : Exchange ε) (registry : Nat) :
    registry? (entries.foldl (fun y entry => y.forget address entry.1 entry.2) x) registry =
      x.registry? registry := by
  induction entries generalizing x with
  | nil => rfl
  | cons entry rest ih => exact ih (x.forget address entry.1 entry.2)

theorem spares_destroy (x : Exchange ε) (registry : Nat) :
    Spares number x (x.destroy registry).2 := by
  rw [destroy]
  split
  next => exact .refl x
  next => exact (quiet_outside x _).spares
  next settings state found =>
    have cleared : ∀ w : Exchange ε, Quiet x w → w.registry? registry = x.registry? registry →
        Spares number x ((state.subscriptions.foldl
          (fun y entry => y.forget settings.address entry.1 entry.2) w).withMemory registry
            settings .new) := by
      intro w begun same
      have left : Spares number w (state.subscriptions.foldl
          (fun y entry => y.forget settings.address entry.1 entry.2) w) :=
        spares_foldl _ _ w fun y entry _ => spares_forget y settings.address entry.1 entry.2
      have still : registry? (state.subscriptions.foldl
          (fun y entry => y.forget settings.address entry.1 entry.2) w) registry =
            some ⟨settings, .memory state⟩ := by
        rw [ registry?_foldl_forget, same, found]
      exact (begun.spares.trans left).trans
        (spares_withMemory still fun _ entry => absurd entry List.not_mem_nil)
    dsimp only
    cases state.rescan with
    | none => exact cleared x (.refl x) rfl
    | some task => exact cleared _ ⟨rfl, rfl, fun _ _ known => known, fun _ => rfl, rfl⟩ rfl

theorem spares_retire (x : Exchange ε) (settings : Registry.Settings) (registry : Nat) :
    Spares number x (x.retire settings registry) := by
  have gone : Spares number x ((x.withWorld (x.hooks.foldl
      (fun world hook => hook.before settings world) x.world)).destroy registry).2 :=
    (quiet_withWorld x _).spares.trans (spares_destroy _ registry)
  rw [retire]
  generalize (x.withWorld _).destroy registry = done at gone
  obtain ⟨failure | value, y⟩ := done
  · exact (gone.trans (quiet_warn y _).spares).trans (quiet_withWorld _ _).spares
  · exact gone.trans (quiet_withWorld _ _).spares

theorem spares_destroyAll (x : Exchange ε) : Spares number x x.destroyAll := by
  have emptied : Quiet x { x with table := [] } :=
    ⟨rfl, rfl, fun _ _ known => known, fun _ => rfl, rfl⟩
  exact emptied.spares.trans
    (spares_foldl _ x.table _ fun y entry _ => spares_retire y entry.1 entry.2)

theorem spares_runNext {limit : Nat} (ran : x.runNext limit = some y) : Spares number x y := by
  have awake : ∀ task, Quiet x { x with tasks := x.tasks.wake task } := fun _ =>
    ⟨rfl, rfl, fun _ _ known => known, fun _ => rfl, rfl⟩
  rw [runNext] at ran
  split at ran
  next => cases ran
  next task due next =>
    split at ran
    · cases ran
    · dsimp only at ran
      split at ran <;> cases ran
      · exact (awake task).spares.trans (spares_rescan _ _)
      · exact (awake task).spares

/-- All entries for the book of a reference are under one data id, and each is behind one of the
registries with the given numbers. -/
structure Traced (number : Nat) (dataId : String) (registries : List Nat) (x : Exchange ε) :
    Prop where
  rolls : ∀ registry id, (id, .reference number) ∈ x.roll registry →
    id = dataId ∧ registry ∈ registries
  stores : ∀ address id, .reference number ∈ (x.store address).subscribersOf id →
    id = dataId ∧ ∃ registry ∈ registries, ∃ outlet,
      x.outlet? registry = some outlet ∧ outlet.address = address

variable {dataId : String} {registries : List Nat}

theorem Traced.sheds (traced : Traced number dataId registries x) (sheds : Sheds number x y) :
    Traced number dataId registries y where
  rolls registry id entry := traced.rolls registry id (sheds.rolls registry id entry)
  stores address id entry := by
    obtain ⟨same, registry, listed, outlet, known, here⟩ :=
      traced.stores address id (sheds.stores address id entry)
    exact ⟨same, registry, listed, outlet, sheds.outlets registry outlet known, here⟩

theorem Traced.mono (traced : Traced number dataId registries x) {more : List Nat}
    (subset : registries ⊆ more) : Traced number dataId more x where
  rolls registry id entry :=
    (traced.rolls registry id entry).imp_right fun listed => subset listed
  stores address id entry :=
    (traced.stores address id entry).imp_right fun ⟨registry, listed, rest⟩ =>
      ⟨registry, subset listed, rest⟩

theorem Traced.unlisted (traced : Traced number dataId [] x) : x.Unlisted number where
  rolls registry id entry := absurd (traced.rolls registry id entry).2 List.not_mem_nil
  stores address id entry := by
    obtain ⟨-, registry, listed, -⟩ := traced.stores address id entry
    exact absurd listed List.not_mem_nil

theorem Unlisted.traced (unlisted : x.Unlisted number) (dataId : String)
    (registries : List Nat) : Traced number dataId registries x where
  rolls registry id entry := absurd entry (unlisted.rolls registry id)
  stores address id entry := absurd entry (unlisted.stores address id)

theorem outlet?_join {registry : Nat} {outlet : Registry.Settings} {state : Memory}
    (found : x.registry? registry = some ⟨outlet, .memory state⟩) (subscriber : Subscriber)
    (other : Nat) :
    (x.join registry outlet state dataId subscriber).outlet? other = x.outlet? other :=
  (outlet?_commit _ _ _ _).trans (outlet?_withMemory found _ other)

theorem roll_join {registry : Nat} {outlet : Registry.Settings} {state : Memory}
    (found : x.registry? registry = some ⟨outlet, .memory state⟩) (subscriber : Subscriber)
    (other : Nat) :
    (x.join registry outlet state dataId subscriber).roll other =
      if registry = other then x.roll registry ++ [(dataId, subscriber)] else x.roll other := by
  rw [join, roll_commit, roll_withMemory found, show x.roll registry = state.subscriptions from by
    rw [roll, found]; rfl]

theorem store_join {registry : Nat} {outlet : Registry.Settings} {state : Memory}
    (subscriber : Subscriber) (address : String) :
    (x.join registry outlet state dataId subscriber).store address =
      if outlet.address = address then ((x.store outlet.address).subscribe dataId subscriber).1
      else x.store address := store_commit_eq _ _ _ _

theorem outlet?_dismiss {registry : Nat} {outlet : Registry.Settings} {state : Memory}
    (found : x.registry? registry = some ⟨outlet, .memory state⟩) (subscriber : Subscriber)
    (other : Nat) :
    (x.dismiss registry outlet state dataId subscriber).outlet? other = x.outlet? other :=
  outlet?_withMemory (x := x.forget outlet.address dataId subscriber) found _ other

theorem roll_dismiss {registry : Nat} {outlet : Registry.Settings} {state : Memory}
    (found : x.registry? registry = some ⟨outlet, .memory state⟩) (subscriber : Subscriber)
    (other : Nat) :
    (x.dismiss registry outlet state dataId subscriber).roll other =
      if registry = other then (x.roll registry).filter (· ≠ (dataId, subscriber))
      else x.roll other := by
  rw [show x.roll registry = state.subscriptions from by rw [roll, found]; rfl]
  exact roll_withMemory (x := x.forget outlet.address dataId subscriber) found _ other

theorem store_dismiss {registry : Nat} {outlet : Registry.Settings} {state : Memory}
    (subscriber : Subscriber) (address : String) :
    (x.dismiss registry outlet state dataId subscriber).store address =
      if outlet.address = address then (x.store outlet.address).unsubscribe dataId subscriber
      else x.store address := store_withStore _ _ _ _

theorem Traced.join (traced : Traced number dataId registries x) {registry : Nat}
    {outlet : Registry.Settings} {state : Memory}
    (found : x.registry? registry = some ⟨outlet, .memory state⟩) :
    Traced number dataId (registries ++ [registry])
      (x.join registry outlet state dataId (.reference number)) := by
  have known := outlet?_of_memory found
  have last : registry ∈ registries ++ [registry] := List.mem_append_right _ List.mem_cons_self
  refine ⟨fun other id entry => ?_, fun address id entry => ?_⟩
  · rw [roll_join found] at entry
    split at entry
    next here =>
      subst here
      rcases List.mem_append.mp entry with old | new
      · exact (traced.rolls registry id old).imp_right (List.mem_append_left _)
      · exact ⟨(Prod.ext_iff.mp (List.mem_singleton.mp new)).1, last⟩
    next => exact (traced.rolls other id entry).imp_right (List.mem_append_left _)
  · simp only [outlet?_join found]
    have before : .reference number ∈ (x.store address).subscribersOf id →
        id = dataId ∧ ∃ other ∈ registries ++ [registry], ∃ settings,
          x.outlet? other = some settings ∧ settings.address = address := fun old =>
      (traced.mono (List.subset_append_left _ _)).stores address id old
    rw [store_join] at entry
    split at entry
    next here =>
      subst here
      rw [Store.subscribersOf_subscribe] at entry
      split at entry
      next same => exact ⟨same.symm, registry, last, outlet, known, rfl⟩
      next => exact before entry
    next => exact before entry

theorem Traced.follow {service : Service}
    (traced : Traced number service.dataId registries x) (grow : x.definitions.Grow)
    (settings : Registry.Settings) :
    (Exchange.follow service (.reference number) settings x).2.definitions.Grow ∧
    match Exchange.follow service (.reference number) settings x with
    | (.ok followed, y) => Traced number service.dataId (registries ++ [followed.number]) y
    | (.error _, y) => Traced number service.dataId registries y := by
  rcases follow_cases grow service (.reference number) settings with
    ⟨registry, y, outlet, state, quiet, found, joined⟩ | ⟨y, pushes, quiet, told⟩
  · rw [joined]
    have grown : (y.join registry outlet state service.dataId
        (.reference number)).definitions.Grow := by
      rw [Exchange.join, definitions_commit]
      exact quiet.grow grow
    exact ⟨grown, (traced.sheds quiet.spares.toSheds).join found⟩
  · have sheds : Sheds number x (Exchange.follow service (.reference number) settings x).2 := by
      rw [told]
      exact quiet.spares.toSheds.trans (sheds_deliverAll y _)
    refine ⟨sheds.grow grow, ?_⟩
    generalize Exchange.follow service (.reference number) settings x = done at sheds
    obtain ⟨failure | followed, z⟩ := done
    · exact traced.sheds sheds
    · exact (traced.sheds sheds).mono (List.subset_append_left _ _)

theorem Traced.tryAll {service : Service}
    (traced : Traced number service.dataId registries x) (grow : x.definitions.Grow)
    (settings : List Registry.Settings) :
    (Exchange.tryAll (Exchange.follow service (.reference number)) settings x).2.definitions.Grow ∧
    Traced number service.dataId
      (registries ++ (Exchange.tryAll (Exchange.follow service (.reference number)) settings
        x).1.done.map (·.number))
      (Exchange.tryAll (Exchange.follow service (.reference number)) settings x).2 := by
  induction settings generalizing x registries with
  | nil => exact ⟨grow, by simpa [Exchange.tryAll] using traced⟩
  | cons first rest ih =>
      obtain ⟨grown, step⟩ := traced.follow grow first
      rw [Exchange.tryAll]
      generalize Exchange.follow service (.reference number) first x = done at grown step
      obtain ⟨failure | followed, y⟩ := done
      · exact ⟨grown, by simpa using step⟩
      · simpa using ih step grown

theorem roll_of_outlet?_eq_none {registry : Nat} (closed : x.outlet? registry = none) :
    x.roll registry = [] := by
  rw [outlet?] at closed
  rw [roll]
  cases found : x.registry? registry with
  | none => rfl
  | some r =>
      obtain ⟨settings, state | behaviour⟩ := r
      · rw [found] at closed
        cases closed
      · rfl

theorem Traced.part {service : Service} {registry : Nat}
    (traced : Traced number service.dataId (registry :: registries) x) :
    Traced number service.dataId registries
      (Exchange.part service (.reference number) x registry) := by
  rcases x.part_cases registry service (.reference number) with
    ⟨outlet, state, found, dismissed⟩ | ⟨quiet, closed⟩
  · rw [dismissed]
    have kept := (traced.sheds (spares_dismiss found service.dataId (.reference number)).toSheds)
    refine ⟨fun other id entry => ?_, fun address id entry => ?_⟩
    · obtain ⟨rfl, listed⟩ := kept.rolls other id entry
      refine ⟨rfl, (List.mem_cons.mp listed).resolve_left fun here => ?_⟩
      rw [roll_dismiss found, if_pos here.symm] at entry
      simp at entry
    · obtain ⟨rfl, other, listed, settings, known, here⟩ := kept.stores address id entry
      refine ⟨rfl, other, (List.mem_cons.mp listed).resolve_left fun same => ?_, settings, known,
        here⟩
      rw [outlet?_dismiss found, same, outlet?_of_memory found] at known
      rw [store_dismiss, if_pos (Option.some.inj known ▸ here), Store.subscribersOf_unsubscribe,
        if_pos rfl] at entry
      simp at entry
  · have kept := traced.sheds quiet.spares.toSheds
    refine ⟨fun other id entry => ?_, fun address id entry => ?_⟩
    · obtain ⟨rfl, listed⟩ := kept.rolls other id entry
      refine ⟨rfl, (List.mem_cons.mp listed).resolve_left fun here => ?_⟩
      rw [quiet.rolls, here, roll_of_outlet?_eq_none closed] at entry
      exact absurd entry List.not_mem_nil
    · obtain ⟨rfl, other, listed, settings, known, here⟩ :=
        traced.stores address id (quiet.spares.stores address id entry)
      refine ⟨rfl, other, (List.mem_cons.mp listed).resolve_left fun same => ?_, settings,
        quiet.outlets other settings known, here⟩
      rw [same, closed] at known
      cases known

theorem Traced.partAll {service : Service}
    (traced : Traced number service.dataId registries x) :
    (Exchange.partAll service (.reference number) registries x).Unlisted number := by
  induction registries generalizing x with
  | nil => exact traced.unlisted
  | cons registry rest ih => exact ih traced.part

theorem Unlisted.followAll (unlisted : x.Unlisted number) (grow : x.definitions.Grow)
    (service : Service) (settings : List Registry.Settings) :
    (Exchange.followAll service (.reference number) settings x).2.definitions.Grow ∧
    match Exchange.followAll service (.reference number) settings x with
    | (.ok followed, y) => Traced number service.dataId (followed.map (·.number)) y
    | (.error _, y) => y.Unlisted number := by
  obtain ⟨grown, tried⟩ := (unlisted.traced service.dataId []).tryAll grow settings
  rw [Exchange.followAll]
  generalize Exchange.tryAll (Exchange.follow service (.reference number)) settings x = walk
    at grown tried
  obtain ⟨⟨followed, failure⟩, y⟩ := walk
  rw [List.nil_append] at tried
  cases failure with
  | none => exact ⟨grown, tried⟩
  | some failure =>
      have parted : Spares number y (Exchange.partAll service (.reference number)
          (followed.map (·.number)) y) := spares_partAll y service _ _
      exact ⟨parted.grow grown, tried.partAll⟩

end Exchange

end Switchboard
