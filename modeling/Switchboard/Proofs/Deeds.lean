import Switchboard.Proofs.Released
import Switchboard.Proofs.Sharing
import Switchboard.Proofs.Timetable

/-! What is done with a hub, seen from its registries. They come by requests and by no other way,
and one is started where it was asked for on behalf of an offer or of a reference, or by itself. All
the rest leaves the table, the tasks and the registries as they are, but for who has subscribed. So
whatever holds of the registries is kept by every deed if it is kept by these steps. -/
namespace Switchboard

def Registry.mode {ε : Type} : Registry ε → Registry.Settings × Option Bool
  | ⟨settings, .memory state⟩ => (settings, some state.started)
  | ⟨settings, .foreign _⟩ => (settings, none)

theorem Registry.fst_mode {ε : Type} (r : Registry ε) : r.mode.1 = r.settings := by
  obtain ⟨settings, state | behaviour⟩ := r
  · rfl
  · rfl

namespace Exchange

open Registry (Registration Memory Store)

variable {ε : Type} {x y z : Exchange ε}

def modes (x : Exchange ε) : List (Registry.Settings × Option Bool) :=
  x.pool.registries.map Registry.mode

theorem getElem?_modes (x : Exchange ε) (number : Nat) :
    x.modes[number]? = (x.registry? number).map Registry.mode := List.getElem?_map

theorem modes_withMemory (x : Exchange ε) (number : Nat) (settings : Registry.Settings)
    (state : Memory) : (x.withMemory number settings state).modes =
      x.modes.set number (settings, some state.started) := List.map_set

theorem modes_withMemory_of_started {number : Nat} {settings : Registry.Settings}
    {old state : Memory} (found : x.registry? number = some ⟨settings, .memory old⟩)
    (same : state.started = old.started) :
    (x.withMemory number settings state).modes = x.modes := by
  have own : x.modes[number]? = some (settings, some state.started) := by
    rw [getElem?_modes, found, same]
    rfl
  refine (modes_withMemory x number settings state).trans (List.ext_getElem? fun other => ?_)
  rw [List.getElem?_set]
  split
  next here => rw [← here, if_pos (List.getElem?_eq_some_iff.mp own).1, own]
  next => rfl

/-- Behind every entry in a store there is a memory registry that has noted it. -/
def Covered (x : Exchange ε) : Prop :=
  ∀ address id subscriber, subscriber ∈ (x.store address).subscribersOf id →
    ∃ number outlet, x.outlet? number = some outlet ∧ outlet.address = address ∧
      (id, subscriber) ∈ x.roll number

theorem Covered.of_same (covered : x.Covered)
    (registries : y.pool.registries = x.pool.registries)
    (subscribers : ∀ address id,
      (y.store address).subscribersOf id = (x.store address).subscribersOf id) : y.Covered := by
  intro address id subscriber entry
  rw [subscribers] at entry
  simpa only [outlet?, roll, registry?, registries] using covered address id subscriber entry

theorem Covered.quiet (covered : x.Covered) (quiet : Quiet x y) : y.Covered := by
  intro address id subscriber entry
  rw [quiet.store] at entry
  obtain ⟨number, outlet, known, here, noted⟩ := covered address id subscriber entry
  exact ⟨number, outlet, quiet.outlets number outlet known, here, by rw [quiet.rolls]; exact noted⟩

theorem mem_store_forget_iff {address place id dataId : String} {subscriber other : Subscriber} :
    other ∈ ((x.forget place dataId subscriber).store address).subscribersOf id ↔
      other ∈ (x.store address).subscribersOf id ∧
        ¬(place = address ∧ dataId = id ∧ other = subscriber) := by
  rw [forget, store_withStore]
  by_cases here : place = address
  · by_cases same : dataId = id
    · simp [here, same, Store.subscribersOf_unsubscribe, List.mem_filter]
    · simp [here, same, Store.subscribersOf_unsubscribe]
  · simp [here]

/-- No registry comes, goes or starts, and no task either. -/
structure Calm (x y : Exchange ε) : Prop where
  table : y.table = x.table
  tasks : y.tasks = x.tasks
  definitions : y.definitions = x.definitions
  modes : y.modes = x.modes
  covered : x.Covered → y.Covered

theorem Calm.refl (x : Exchange ε) : Calm x x := ⟨rfl, rfl, rfl, rfl, id⟩

theorem Calm.trans (first : Calm x y) (second : Calm y z) : Calm x z where
  table := second.table.trans first.table
  tasks := second.tasks.trans first.tasks
  definitions := second.definitions.trans first.definitions
  modes := second.modes.trans first.modes
  covered covered := second.covered (first.covered covered)

theorem calm_foldl {α : Type} {f : Exchange ε → α → Exchange ε} (step : ∀ y a, Calm y (f y a))
    (items : List α) (x : Exchange ε) : Calm x (items.foldl f x) := by
  induction items generalizing x with
  | nil => exact .refl x
  | cons item rest ih => exact (step x item).trans (ih (f x item))

theorem calm_of_same (table : y.table = x.table) (tasks : y.tasks = x.tasks)
    (definitions : y.definitions = x.definitions)
    (registries : y.pool.registries = x.pool.registries)
    (subscribers : ∀ address id,
      (y.store address).subscribersOf id = (x.store address).subscribersOf id) : Calm x y where
  table := table
  tasks := tasks
  definitions := definitions
  modes := congrArg (List.map Registry.mode) registries
  covered covered := covered.of_same registries subscribers

theorem calm_withWorld (x : Exchange ε) (world : ε) : Calm x (x.withWorld world) :=
  calm_of_same rfl rfl rfl rfl fun _ _ => rfl

theorem calm_warn (x : Exchange ε) (warnings : List Warning) : Calm x (x.warn warnings) :=
  calm_of_same rfl rfl rfl rfl fun _ _ => rfl

theorem calm_withBook (x : Exchange ε) (number : Nat) (b : Book) : Calm x (x.withBook number b) :=
  calm_of_same rfl rfl rfl rfl fun _ _ => rfl

theorem calm_addBook (x : Exchange ε) : Calm x x.addBook.2 :=
  calm_of_same rfl rfl rfl rfl fun _ _ => rfl

theorem calm_addListener (x : Exchange ε) (hear : Listener ε) : Calm x (x.addListener hear).2 :=
  calm_of_same rfl rfl rfl rfl fun _ _ => rfl

theorem calm_deliver (x : Exchange ε) (d : Delivery) : Calm x (x.deliver d) := by
  rw [deliver]
  split
  · exact calm_withBook x _ _
  · split
    · exact calm_withWorld x _
    · exact .refl x

theorem calm_deliverAll (x : Exchange ε) (deliveries : List Delivery) :
    Calm x (x.deliverAll deliveries) := calm_foldl calm_deliver deliveries x

theorem calm_withStore (x : Exchange ε) (address : String) {s : Store}
    (fewer : ∀ id subscriber, subscriber ∈ s.subscribersOf id →
      subscriber ∈ (x.store address).subscribersOf id) : Calm x (x.withStore address s) where
  table := rfl
  tasks := rfl
  definitions := rfl
  modes := rfl
  covered covered other id subscriber entry := by
    refine covered other id subscriber ?_
    rw [store_withStore] at entry
    split at entry
    next same => exact same ▸ fewer id subscriber entry
    next => exact entry

theorem calm_commit (x : Exchange ε) (address : String) {change : Store × List Delivery}
    (fewer : ∀ id subscriber, subscriber ∈ change.1.subscribersOf id →
      subscriber ∈ (x.store address).subscribersOf id) : Calm x (x.commit address change) :=
  (calm_withStore x address fewer).trans (calm_deliverAll _ _)

theorem calm_publish (x : Exchange ε) (address id group : String) (provider : Provider) :
    Calm x (x.publish address id group provider) :=
  calm_commit x address fun _ _ entry => entry

theorem calm_withdraw (x : Exchange ε) (address id group : String) (provider : Provider) :
    Calm x (x.withdraw address id group provider) :=
  calm_commit x address fun other subscriber entry => by
    rwa [Store.subscribersOf_withdraw] at entry

theorem calm_outside {α : Type} (x : Exchange ε) (act : ε → Outcome α × ε) :
    Calm x (x.outside act).2 := calm_withWorld x _

theorem calm_register (x : Exchange ε) (number : Nat) (r : Registration) :
    Calm x (x.register number r).2 := by
  rw [register]
  split
  next => exact .refl x
  next => exact calm_outside x _
  next settings state _ =>
    dsimp only
    split
    · exact calm_publish x _ _ _ _
    · exact .refl x

theorem calm_unregister (x : Exchange ε) (number : Nat) (r : Registration) :
    Calm x (x.unregister number r).2 := by
  rw [unregister]
  split
  next => exact .refl x
  next => exact calm_outside x _
  next settings state _ =>
    dsimp only
    split
    · exact calm_withdraw x _ _ _ _
    · exact .refl x

theorem calm_join {number : Nat} {outlet : Registry.Settings} {state : Memory}
    (found : x.registry? number = some ⟨outlet, .memory state⟩) (dataId : String)
    (subscriber : Subscriber) : Calm x (x.join number outlet state dataId subscriber) where
  table := (calm_deliverAll _ _).table
  tasks := (calm_deliverAll _ _).tasks
  definitions := (calm_deliverAll _ _).definitions
  modes := (calm_deliverAll _ _).modes.trans (modes_withMemory_of_started found rfl)
  covered covered address id other entry := by
    simp only [outlet?_join found]
    rw [store_join] at entry
    have before : other ∈ (x.store address).subscribersOf id → ∃ n settings,
        x.outlet? n = some settings ∧ settings.address = address ∧
          (id, other) ∈ (x.join number outlet state dataId subscriber).roll n := by
      intro old
      obtain ⟨n, settings, known, here, noted⟩ := covered address id other old
      refine ⟨n, settings, known, here, ?_⟩
      rw [roll_join found]
      split
      next same => exact List.mem_append_left _ (same ▸ noted)
      next => exact noted
    split at entry
    next here =>
      subst here
      rw [Store.subscribersOf_subscribe] at entry
      split at entry
      next same =>
        rcases List.mem_append.mp entry with old | new
        · exact before (same ▸ old)
        · refine ⟨number, outlet, outlet?_of_memory found, rfl, ?_⟩
          rw [roll_join found, if_pos rfl, ← same, List.mem_singleton.mp new]
          exact List.mem_append_right _ List.mem_cons_self
      next => exact before entry
    next => exact before entry

theorem calm_dismiss {number : Nat} {outlet : Registry.Settings} {state : Memory}
    (found : x.registry? number = some ⟨outlet, .memory state⟩) (dataId : String)
    (subscriber : Subscriber) : Calm x (x.dismiss number outlet state dataId subscriber) where
  table := rfl
  tasks := rfl
  definitions := rfl
  modes := modes_withMemory_of_started (x := x.forget outlet.address dataId subscriber) found rfl
  covered covered address id other entry := by
    obtain ⟨old, different⟩ := mem_store_forget_iff.mp
      (show other ∈ ((x.forget outlet.address dataId subscriber).store address).subscribersOf id
        from entry)
    obtain ⟨n, settings, known, here, noted⟩ := covered address id other old
    refine ⟨n, settings, (outlet?_dismiss found subscriber n).trans known, here, ?_⟩
    rw [roll_dismiss found]
    split
    next same =>
      subst same
      obtain rfl := Option.some.inj ((outlet?_of_memory found).symm.trans known)
      refine List.mem_filter.mpr ⟨noted, decide_eq_true fun equal => different ?_⟩
      obtain ⟨rfl, rfl⟩ := Prod.mk.inj equal
      exact ⟨here, rfl, rfl⟩
    next => exact noted

theorem calm_subscribe (x : Exchange ε) (number : Nat) (service : Service)
    (subscriber : Subscriber) : Calm x (x.subscribe number service subscriber).2 := by
  rw [subscribe]
  split
  next => exact .refl x
  next => exact (calm_withWorld x _).trans (calm_deliverAll _ _)
  next settings state found =>
    dsimp only
    split
    · exact calm_join found service.dataId subscriber
    · exact .refl x

theorem calm_unsubscribe (x : Exchange ε) (number : Nat) (service : Service)
    (subscriber : Subscriber) : Calm x (x.unsubscribe number service subscriber).2 := by
  rw [unsubscribe]
  split
  next => exact .refl x
  next => exact calm_outside x _
  next settings state found => exact calm_dismiss found service.dataId subscriber

theorem calm_leave (r : Registration) (x : Exchange ε) (number : Nat) :
    Calm x (leave r x number) := by
  have done := calm_unregister x number r
  rw [leave]
  generalize x.unregister number r = left at done
  obtain ⟨failure | value, y⟩ := left
  · exact done.trans (calm_warn y _)
  · exact done

theorem calm_part (service : Service) (subscriber : Subscriber) (x : Exchange ε) (number : Nat) :
    Calm x (part service subscriber x number) := by
  have done := calm_unsubscribe x number service subscriber
  rw [part]
  generalize x.unsubscribe number service subscriber = left at done
  obtain ⟨failure | value, y⟩ := left
  · exact done.trans (calm_warn y _)
  · exact done

theorem calm_leaveAll (r : Registration) (numbers : List Nat) (x : Exchange ε) :
    Calm x (leaveAll r numbers x) := calm_foldl (calm_leave r) numbers x

theorem calm_partAll (service : Service) (subscriber : Subscriber) (numbers : List Nat)
    (x : Exchange ε) : Calm x (partAll service subscriber numbers x) :=
  calm_foldl (calm_part service subscriber) numbers x

theorem calm_rescan (x : Exchange ε) (number : Nat) : Calm x (x.rescan number) := by
  rw [rescan]
  split
  · exact calm_foldl (fun y _ => calm_deliver y _) _ x
  · exact .refl x

/-! ### What starts a registry -/

inductive Begins (x : Exchange ε) (number : Nat) : Exchange ε → Prop where
  | missing (absent : x.registry? number = none) : Begins x number x
  | foreign (settings : Registry.Settings) (behaviour : Registry.Foreign ε)
      (found : x.registry? number = some ⟨settings, .foreign behaviour⟩) :
      Begins x number (x.withWorld (behaviour.start x.world).2)
  | again (settings : Registry.Settings) (state : Memory)
      (found : x.registry? number = some ⟨settings, .memory state⟩)
      (started : state.started = true) : Begins x number x
  | plain (settings : Registry.Settings) (state : Memory)
      (found : x.registry? number = some ⟨settings, .memory state⟩)
      (fresh : state.started = false) (unasked : settings.scanPeriod? = none) :
      Begins x number (x.withMemory number settings { state with started := true })
  | scanning (settings : Registry.Settings) (state : Memory)
      (found : x.registry? number = some ⟨settings, .memory state⟩)
      (fresh : state.started = false) (period : Nat)
      (asked : settings.scanPeriod? = some period) :
      Begins x number (withMemory
        { x with
          tasks := x.tasks.launch (rescanName settings.address) .fixedDelay period period number }
        number settings { state with started := true, rescan := some x.tasks.tasks.length })

theorem begins_start (x : Exchange ε) (number : Nat) : Begins x number (x.start number).2 := by
  rw [start]
  split
  next absent => exact .missing absent
  next settings behaviour found => exact .foreign settings behaviour found
  next settings state found =>
    cases started : state.started with
    | true => exact .again settings state found started
    | false =>
        cases asked : settings.scanPeriod? with
        | none => exact .plain settings state found started asked
        | some period =>
            have begun := Begins.scanning settings state found started period asked
            have positive := Registry.Settings.scanPeriod?_pos asked
            rw [Timetable.launch, Timetable.create, if_neg (Nat.ne_of_gt positive)] at begun
            simp only [Bool.false_eq_true, if_false, startRescan, Timetable.create,
              if_neg (Nat.ne_of_gt positive), withMemory, List.set_set] at begun ⊢
            exact begun

/-- What a deed makes of the registries, with the settings of those that it starts, in order. It may
offer definitions that are allowed. -/
inductive Leads (allowed : Definition (Registry.Pool ε) Registry.Settings Nat → Prop) :
    Exchange ε → List Registry.Settings → Exchange ε → Prop where
  | calm {x y : Exchange ε} (calm : Calm x y) : Leads allowed x [] y
  | define {x : Exchange ε} (d : Definition (Registry.Pool ε) Registry.Settings Nat)
      (fits : allowed d) : Leads allowed x [] (x.define d)
  | obtain (x : Exchange ε) (settings : Registry.Settings) :
      Leads allowed x [] (x.obtain settings).2
  | start (x : Exchange ε) (number : Nat) :
      Leads allowed x (x.settings? number).toList (x.start number).2
  | wake (x : Exchange ε) (task : Nat) :
      Leads allowed x [] { x with tasks := x.tasks.wake task }
  | trans {x y z : Exchange ε} {first second : List Registry.Settings}
      (before : Leads allowed x first y) (after : Leads allowed y second z) :
      Leads allowed x (first ++ second) z

def readied (settings : Registry.Settings) (x : Exchange ε) : List Registry.Settings :=
  match x.obtain settings with
  | (.error _, _) => []
  | (.ok number, found) => (found.settings? number).toList

def tried {α : Type} (attempt : Registry.Settings → Exchange ε → Outcome α × Exchange ε) :
    List Registry.Settings → Exchange ε → List Registry.Settings
  | [], _ => []
  | settings :: rest, x =>
      x.readied settings ++
        match attempt settings x with
        | (.error _, _) => []
        | (.ok _, after) => tried attempt rest after

variable {allowed : Definition (Registry.Pool ε) Registry.Settings Nat → Prop}
  {log : List Registry.Settings}

theorem Leads.calmly (leads : Leads allowed x log y) (calm : Calm y z) : Leads allowed x log z :=
  List.append_nil log ▸ leads.trans (.calm calm)

theorem leads_ready (x : Exchange ε) (settings : Registry.Settings) :
    Leads allowed x (x.readied settings) (x.ready settings).2 := by
  have obtained : Leads allowed x [] (x.obtain settings).2 := .obtain x settings
  rw [readied, ready]
  generalize x.obtain settings = done at obtained
  obtain ⟨failure | number, y⟩ := done
  · exact obtained
  · have started : Leads allowed x (y.settings? number).toList (y.start number).2 :=
      obtained.trans (.start y number)
    rw [proceed]
    exact proceed_state (P := Leads allowed x (y.settings? number).toList) started
      fun _ _ => started

theorem leads_enter (r : Registration) (settings : Registry.Settings) (x : Exchange ε) :
    Leads allowed x (x.readied settings) (enter r settings x).2 :=
  proceed_state (leads_ready x settings) fun number _ =>
    have registered := (leads_ready x settings).calmly (calm_register _ number r)
    proceed_state registered fun _ _ => registered

theorem leads_follow (service : Service) (subscriber : Subscriber) (settings : Registry.Settings)
    (x : Exchange ε) :
    Leads allowed x (x.readied settings) (follow service subscriber settings x).2 :=
  proceed_state (leads_ready x settings) fun number _ =>
    have subscribed := (leads_ready x settings).calmly (calm_subscribe _ number service subscriber)
    proceed_state subscribed fun _ _ => subscribed

variable (allowed) in
theorem leads_tryAll {α : Type}
    {attempt : Registry.Settings → Exchange ε → Outcome α × Exchange ε}
    (each : ∀ settings x, Leads allowed x (x.readied settings) (attempt settings x).2)
    (list : List Registry.Settings) (x : Exchange ε) :
    Leads allowed x (tried attempt list x) (tryAll attempt list x).2 := by
  induction list generalizing x with
  | nil => exact .calm (.refl x)
  | cons settings rest ih =>
      have step := each settings x
      rw [tried, tryAll]
      generalize attempt settings x = done at step
      obtain ⟨failure | value, after⟩ := done
      · exact step.trans (.calm (.refl after))
      · exact step.trans (ih after)

variable (allowed) in
theorem leads_enterAll (r : Registration) (list : List Registry.Settings) (x : Exchange ε) :
    Leads allowed x (tried (enter r) list x) (enterAll r list x).2 := by
  have done := leads_tryAll allowed (leads_enter r) list x
  rw [enterAll]
  generalize tryAll (enter r) list x = walk at done
  obtain ⟨⟨numbers, failure⟩, y⟩ := walk
  dsimp only
  split
  · exact done
  · exact done.calmly ((calm_leaveAll r numbers y).trans (calm_warn _ _))

variable (allowed) in
theorem leads_followAll (service : Service) (subscriber : Subscriber)
    (list : List Registry.Settings) (x : Exchange ε) :
    Leads allowed x (tried (follow service subscriber) list x)
      (followAll service subscriber list x).2 := by
  have done := leads_tryAll allowed (leads_follow service subscriber) list x
  rw [followAll]
  generalize tryAll (follow service subscriber) list x = walk at done
  obtain ⟨⟨followed, failure⟩, y⟩ := walk
  dsimp only
  split
  · exact done
  · exact done.calmly (calm_partAll service subscriber _ y)

theorem leads_runNext {limit : Nat} (ran : x.runNext limit = some y) : Leads allowed x [] y := by
  rw [runNext] at ran
  split at ran
  next => cases ran
  next task due _ =>
    split at ran
    · cases ran
    · dsimp only at ran
      split at ran <;> cases ran
      · exact (Leads.wake x task).calmly (calm_rescan _ _)
      · exact .wake x task

end Exchange

inductive Deed (ε : Type) where
  | act (a : Act ε)
  | obtain (settings : Registry.Settings)
  | start (registry : Nat)

namespace Hub

open Exchange (tried)

variable {ε : Type} {h g k : Hub ε}

def deed (h : Hub ε) : Deed ε → Hub ε
  | .act a => h.act a
  | .obtain settings => { h with exchange := (h.exchange.obtain settings).2 }
  | .start registry => { h with exchange := (h.exchange.start registry).2 }

def after (h : Hub ε) (deeds : List (Deed ε)) : Hub ε := deeds.foldl deed h

/-! ### What is calm -/

/-- The registries stay as they are, and the hub is not destroyed. -/
structure Calm (h g : Hub ε) : Prop where
  exchange : h.exchange.Calm g.exchange
  destroyed : g.destroyed = h.destroyed

theorem Calm.refl (h : Hub ε) : Calm h h := ⟨.refl _, rfl⟩

theorem Calm.trans (first : Calm h g) (second : Calm g k) : Calm h k :=
  ⟨first.exchange.trans second.exchange, second.destroyed.trans first.destroyed⟩

theorem calm_chain (h : Hub ε) (context : Context) (selection : String)
    (custom : List (Filter ε)) : Calm h (h.chain context selection custom).2 :=
  ⟨Exchange.calm_withWorld _ _, rfl⟩

theorem calm_codec (h : Hub ε) (key : String) : Calm h (h.codec key).2 :=
  ⟨Exchange.calm_withWorld _ _, rfl⟩

theorem calm_balancer (h : Hub ε) (key : String) : Calm h (h.balancer key).2 :=
  ⟨Exchange.calm_withWorld _ _, rfl⟩

theorem calm_withBook (h : Hub ε) (number : Nat) (b : Book) : Calm h (h.withBook number b) :=
  ⟨Exchange.calm_withBook _ _ _, rfl⟩

theorem calm_warn (h : Hub ε) (warnings : List Warning) : Calm h (h.warn warnings) :=
  ⟨Exchange.calm_warn _ _, rfl⟩

theorem calm_cluster (h : Hub ε) (number : Nat) : Calm h (h.cluster number).2 := by
  rw [cluster]
  split
  next => exact .refl h
  next reference _ =>
    have balanced : Calm h (h.balancer reference.settings.balancer).2 := calm_balancer h _
    refine proceed_state balanced fun balancer _ => ?_
    have coded := balanced.trans (calm_codec _ reference.settings.codec)
    exact proceed_state coded fun codec _ => coded

theorem calm_buildProxy (h : Hub ε) (number : Nat) (reference : Reference ε) :
    Calm h (h.buildProxy number reference).2 := by
  have clustered : Calm h (h.cluster number).2 := calm_cluster h number
  refine proceed_state clustered fun cluster _ => ?_
  have chained := clustered.trans
    (calm_chain _ reference.context reference.settings.selection reference.custom)
  exact proceed_state chained fun chain _ => chained

theorem calm_takeBack (h : Hub ε) (offer : Nat) : Calm h (h.takeBack offer) := by
  rw [takeBack]
  split
  next => exact .refl h
  next found _ =>
    split
    next => exact .refl h
    next a _ => exact ⟨Exchange.calm_leaveAll a.registration a.registries h.exchange, rfl⟩

theorem calm_unsubscribe (h : Hub ε) (number : Nat) : Calm h (h.unsubscribe number) := by
  rw [unsubscribe]
  split
  next => exact .refl h
  next reference _ =>
    exact ⟨Exchange.calm_partAll reference.service _ reference.subscribed h.exchange, rfl⟩

theorem calm_release (h : Hub ε) (number : Nat) : Calm h (h.release number) := by
  rw [release]
  split
  next => exact .refl h
  next reference _ =>
    split
    next => exact .refl h
    next =>
      have loosened : Calm h (h.withReference number { reference with proxy := none }) :=
        ⟨.refl _, rfl⟩
      exact loosened.trans (calm_unsubscribe _ number)

theorem calm_settle (number : Nat) (service : Service)
    {built : Outcome (Reference.Proxy ε) × Hub ε} (calm : Calm h built.2) :
    Calm h (settle number service built).2 := by
  obtain ⟨failure | proxy, g⟩ := built
  · exact (calm.trans (calm_unsubscribe g number)).trans (calm_warn _ _)
  · rw [settle]
    split
    next => exact calm
    next reference _ => exact ⟨calm.exchange, calm.destroyed⟩

/-! ### What starts a registry -/

/-- What a deed makes of a hub, with the settings of the registries that it starts. The hub is not
destroyed. -/
structure Leads (allowed : Definition (Registry.Pool ε) Registry.Settings Nat → Prop) (h : Hub ε)
    (log : List Registry.Settings) (g : Hub ε) : Prop where
  exchange : Exchange.Leads allowed h.exchange log g.exchange
  destroyed : g.destroyed = h.destroyed

variable {allowed : Definition (Registry.Pool ε) Registry.Settings Nat → Prop}
  {log : List Registry.Settings}

theorem Calm.leads (calm : Calm h g) : Leads allowed h [] g :=
  ⟨.calm calm.exchange, calm.destroyed⟩

theorem Leads.trans {first second : List Registry.Settings} (before : Leads allowed h first g)
    (after : Leads allowed g second k) : Leads allowed h (first ++ second) k :=
  ⟨before.exchange.trans after.exchange, after.destroyed.trans before.destroyed⟩

theorem Leads.calmly (leads : Leads allowed h log g) (calm : Calm g k) : Leads allowed h log k :=
  ⟨leads.exchange.calmly calm.exchange, calm.destroyed.trans leads.destroyed⟩

theorem Calm.leading (calm : Calm h g) (leads : Leads allowed g log k) : Leads allowed h log k :=
  calm.leads.trans leads

def startsOfAnnouncement (h : Hub ε) (number now : Nat) : List Registry.Settings :=
  match h.offers[number]? with
  | none => []
  | some offer =>
      if offer.announced.isSome then []
      else
        match h.chain offer.context offer.settings.selection offer.custom with
        | (.error _, _) => []
        | (.ok _, built) =>
            match built.codec offer.settings.codec with
            | (.error _, _) => []
            | (.ok _, found) =>
                tried (Exchange.enter (offer.registration now))
                  (offer.settings.registries.filter (·.registers)) found.exchange

def startsOfSubscription (h : Hub ε) (number : Nat) : List Registry.Settings :=
  match h.references[number]? with
  | none => []
  | some reference =>
      if reference.subscribed.isEmpty then
        tried (Exchange.follow reference.service (.reference number))
          (reference.settings.registries.filter (·.subscribes))
          (h.withBook number ((h.book number).updateAll [])).exchange
      else []

def startsOfBinding (h : Hub ε) (number : Nat) : List Registry.Settings :=
  match h.references[number]? with
  | none => []
  | some reference =>
      match reference.proxy, reference.settings.direct with
      | none, none => h.startsOfSubscription number
      | _, _ => []

def starts (h : Hub ε) : Deed ε → List Registry.Settings
  | .act (.turn (.announce offer now)) => h.startsOfAnnouncement offer now
  | .act (.turn (.bind reference)) => h.startsOfBinding reference
  | .act (.subscribe reference) => h.startsOfSubscription reference
  | .start registry => (h.exchange.settings? registry).toList
  | _ => []

def startsAlong (h : Hub ε) : List (Deed ε) → List Registry.Settings
  | [] => []
  | d :: rest => h.starts d ++ (h.deed d).startsAlong rest

theorem leads_announce (h : Hub ε) (number now : Nat) :
    Leads allowed h (h.startsOfAnnouncement number now) (h.announce number now).2 := by
  rw [startsOfAnnouncement, announce]
  cases h.offers[number]? with
  | none => exact (Calm.refl h).leads
  | some offer =>
      dsimp only
      split
      next => exact (Calm.refl h).leads
      next =>
        have chained := calm_chain h offer.context offer.settings.selection offer.custom
        rw [prepareOffer]
        generalize h.chain offer.context offer.settings.selection offer.custom = done at chained
        obtain ⟨failure | chain, built⟩ := done
        · exact chained.leads
        · have coded := chained.trans (calm_codec built offer.settings.codec)
          dsimp only [proceed]
          generalize built.codec offer.settings.codec = done at coded
          obtain ⟨failure | codec, found⟩ := done
          · exact coded.leads
          · have entered := Exchange.leads_enterAll allowed (offer.registration now)
              (offer.settings.registries.filter (·.registers)) found.exchange
            dsimp only [proceed, onExchange]
            generalize Exchange.enterAll _ _ found.exchange = done at entered
            obtain ⟨failure | numbers, y⟩ := done
            · exact coded.leading ⟨entered, rfl⟩
            · exact coded.leading ⟨entered, rfl⟩

theorem leads_subscribe (h : Hub ε) (number : Nat) :
    Leads allowed h (h.startsOfSubscription number) (h.subscribe number).2 := by
  rw [startsOfSubscription, subscribe]
  cases h.references[number]? with
  | none => exact (Calm.refl h).leads
  | some reference =>
      dsimp only
      split
      next =>
        have cleared := calm_withBook h number ((h.book number).updateAll [])
        have followed := Exchange.leads_followAll allowed reference.service
          (.reference number) (reference.settings.registries.filter (·.subscribes))
          (h.withBook number ((h.book number).updateAll [])).exchange
        rw [onExchange]
        generalize Exchange.followAll _ _ _ _ = done at followed
        obtain ⟨failure | list, y⟩ := done
        · exact cleared.leading ⟨followed, rfl⟩
        · exact cleared.leading ⟨followed, rfl⟩
      next => exact (Calm.refl h).leads

theorem calm_bind {number : Nat} {reference : Reference ε}
    (known : h.references[number]? = some reference) (unbound : reference.proxy = none) :
    Calm (h.fill number reference.settings.direct).2 (h.bind number).2 := by
  simp only [bind, known, unbound]
  exact proceed_state (.refl _) fun _ _ => calm_settle number _ (calm_buildProxy _ number reference)

theorem leads_bind (h : Hub ε) (number : Nat) :
    Leads allowed h (h.startsOfBinding number) (h.bind number).2 := by
  rw [startsOfBinding]
  cases known : h.references[number]? with
  | none =>
      rw [bind, known]
      exact (Calm.refl h).leads
  | some reference =>
      cases unbound : reference.proxy with
      | some proxy =>
          simp only [bind, known, unbound]
          exact (Calm.refl h).leads
      | none =>
          have bound := calm_bind known unbound
          cases listed : reference.settings.direct with
          | some list =>
              rw [listed, fill, seed] at bound
              simp only [unbound, listed]
              refine Calm.leads (.trans ?_ bound)
              cases (Reference.addresses list).mapM Provider.parse with
              | error failure => exact .refl h
              | ok providers => exact calm_withBook h number _
          | none =>
              rw [listed] at bound
              simp only [unbound, listed]
              refine Leads.calmly ?_ bound
              have subscribed : Leads allowed h (h.startsOfSubscription number)
                  (h.subscribe number).2 := leads_subscribe h number
              exact proceed_state (P := Leads allowed h (h.startsOfSubscription number)) subscribed
                fun _ _ => subscribed

theorem leads_act (h : Hub ε) {a : Act ε} (spared : a ≠ .destroy)
    (fits : ∀ d grows, a = .addRegistry d grows → allowed d) :
    Leads allowed h (h.starts (.act a)) (h.act a) := by
  cases a with
  | turn t =>
      cases t with
      | announce offer now => exact leads_announce h offer now
      | takeBack offer => exact (calm_takeBack h offer).leads
      | bind reference => exact leads_bind h reference
      | release reference => exact (calm_release h reference).leads
      | rescan registry => exact ⟨.calm (Exchange.calm_rescan _ registry), rfl⟩
  | subscribe reference => exact leads_subscribe h reference
  | cluster reference => exact (calm_cluster h reference).leads
  | addOffer s custom act => exact ⟨.calm (.refl _), rfl⟩
  | addReference s custom => exact ⟨.calm (Exchange.calm_addBook _), rfl⟩
  | addRegistry d grows => exact ⟨.define d (fits d grows rfl), rfl⟩
  | addFilter d => exact ⟨.calm (Exchange.calm_warn _ _), rfl⟩
  | addCodec d => exact ⟨.calm (Exchange.calm_warn _ _), rfl⟩
  | addBalancer d => exact ⟨.calm (Exchange.calm_warn _ _), rfl⟩
  | addListener hear => exact ⟨.calm (Exchange.calm_addListener _ hear), rfl⟩
  | listen registry service listener =>
      exact ⟨.calm (Exchange.calm_subscribe _ registry service (.listener listener)), rfl⟩
  | publish address id group provider =>
      exact ⟨.calm (Exchange.calm_publish _ address id group provider), rfl⟩
  | withdraw address id group provider =>
      exact ⟨.calm (Exchange.calm_withdraw _ address id group provider), rfl⟩
  | runNext limit =>
      rw [act, runNext]
      cases ran : h.exchange.runNext limit with
      | none => exact (Calm.refl h).leads
      | some y => exact ⟨Exchange.leads_runNext ran, rfl⟩
  | destroy => exact absurd rfl spared

def Fits (allowed : Definition (Registry.Pool ε) Registry.Settings Nat → Prop) (d : Deed ε) :
    Prop :=
  ∀ definition grows, d = .act (.addRegistry definition grows) → allowed definition

theorem leads_deed (h : Hub ε) {d : Deed ε} (spared : d ≠ .act .destroy) (fits : Fits allowed d) :
    Leads allowed h (h.starts d) (h.deed d) := by
  cases d with
  | act a =>
      exact leads_act h (fun same => spared (congrArg Deed.act same))
        fun definition grows same => fits definition grows (congrArg Deed.act same)
  | obtain settings => exact ⟨.obtain h.exchange settings, rfl⟩
  | start registry => exact ⟨.start h.exchange registry, rfl⟩

theorem leads_after (h : Hub ε) {deeds : List (Deed ε)} (spared : .act .destroy ∉ deeds)
    (fits : ∀ d ∈ deeds, Fits allowed d) :
    Leads allowed h (h.startsAlong deeds) (h.after deeds) := by
  induction deeds generalizing h with
  | nil => exact (Calm.refl h).leads
  | cons d rest ih =>
      obtain ⟨first, later⟩ := List.forall_mem_cons.mp fits
      have step := leads_deed h (fun same => spared (same ▸ List.mem_cons_self)) first
      exact step.trans (ih (h.deed d) (fun listed => spared (List.mem_cons_of_mem _ listed)) later)

end Hub

end Switchboard
