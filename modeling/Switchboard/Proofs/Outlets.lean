import Switchboard.Proofs.Subscriptions

/-! What is done through the table of registries with settings of the memory protocol. The table
leads to a memory registry with just these settings, which is built where there is none, so that a
provider comes and goes, and a reference follows and leaves, at the address of the settings. Only to
start such a registry may fail. -/
namespace Switchboard.Exchange

open Registry (Registration Memory memoryProtocol memoryDefinition)

variable {ε : Type} {x y : Exchange ε} {settings : Registry.Settings}

/-- Memory registries are built as they come with the program, and the table leads from settings of
their protocol to a memory registry with these settings. -/
structure Tabled (x : Exchange ε) : Prop where
  grow : x.definitions.Grow
  defined : x.definitions.definitions.get? memoryProtocol = some memoryDefinition
  outlets : ∀ settings number, settings.protocol = memoryProtocol →
    x.entry? settings = some number → x.outlet? number = some settings

theorem Tabled.same (tabled : x.Tabled) (table : y.table = x.table)
    (definitions : y.definitions = x.definitions)
    (outlets : ∀ number settings, x.outlet? number = some settings →
      y.outlet? number = some settings) : y.Tabled where
  grow := definitions ▸ tabled.grow
  defined := definitions ▸ tabled.defined
  outlets settings number memory found := by
    rw [ entry?, table] at found
    exact outlets number settings (tabled.outlets settings number memory found)

theorem table_deliver (x : Exchange ε) (d : Delivery) : (x.deliver d).table = x.table := by
  unfold deliver
  split
  · rfl
  · split <;> rfl

theorem table_deliverAll (x : Exchange ε) (deliveries : List Delivery) :
    (x.deliverAll deliveries).table = x.table := by
  induction deliveries generalizing x with
  | nil => rfl
  | cons d rest ih => exact (ih (x.deliver d)).trans (table_deliver x d)

theorem Tabled.deliver (tabled : x.Tabled) (d : Delivery) : (x.deliver d).Tabled :=
  tabled.same (table_deliver x d) (definitions_deliver x d) fun registry outlet known => by
    rw [outlet?, registry?_deliver]
    exact known

theorem Tabled.commit (tabled : x.Tabled) (address : String)
    (change : Registry.Store × List Delivery) : (x.commit address change).Tabled :=
  tabled.same (table_deliverAll _ _) (definitions_commit x address change)
    fun registry _ known => (outlet?_commit x address change registry).trans known

theorem Tabled.join (tabled : x.Tabled) {registry : Nat} {outlet : Registry.Settings}
    {state : Memory} (found : x.registry? registry = some ⟨outlet, .memory state⟩) (id : String)
    (subscriber : Subscriber) : (x.join registry outlet state id subscriber).Tabled := by
  have listed : (x.withMemory registry outlet
      { state with subscriptions := state.subscriptions ++ [(id, subscriber)] }).Tabled :=
    tabled.same rfl rfl fun other _ known => (outlet?_withMemory found _ other).trans known
  exact listed.commit _ _

theorem Tabled.dismiss (tabled : x.Tabled) {registry : Nat} {outlet : Registry.Settings}
    {state : Memory} (found : x.registry? registry = some ⟨outlet, .memory state⟩) (id : String)
    (subscriber : Subscriber) : (x.dismiss registry outlet state id subscriber).Tabled :=
  tabled.same rfl rfl fun other _ known => (outlet?_dismiss found subscriber other).trans known

theorem Tabled.rescan (tabled : x.Tabled) (registry : Nat) : (x.rescan registry).Tabled := by
  rw [Exchange.rescan]
  split
  next settings state _ =>
    exact List.foldlRecOn state.subscriptions _ (motive := Tabled) tabled
      fun _ before _ _ => before.deliver _
  next => exact tabled

theorem table_startRescan (x : Exchange ε) (number : Nat) (settings : Registry.Settings)
    (state : Memory) (period : Nat) :
    (x.startRescan number settings state period).2.table = x.table ∧
    (x.startRescan number settings state period).2.definitions = x.definitions := by
  rw [startRescan]
  split
  · exact ⟨rfl, rfl⟩
  · exact ⟨rfl, rfl⟩

theorem table_start (x : Exchange ε) (number : Nat) :
    (x.start number).2.table = x.table ∧ (x.start number).2.definitions = x.definitions := by
  rw [start]
  split
  next => exact ⟨rfl, rfl⟩
  next => exact ⟨rfl, rfl⟩
  next =>
    split
    next => exact ⟨rfl, rfl⟩
    next =>
      dsimp only
      split
      next => exact ⟨rfl, rfl⟩
      next => exact table_startRescan _ _ _ _ _

theorem Tabled.start (tabled : x.Tabled) (number : Nat) : (x.start number).2.Tabled :=
  tabled.same (table_start x number).1 (table_start x number).2 (quiet_start x number).outlets

theorem exists_memory_of_outlet? {number : Nat} (known : x.outlet? number = some settings) :
    ∃ state, x.registry? number = some ⟨settings, .memory state⟩ := by
  obtain ⟨⟨own, state | behaviour⟩, found, outlet⟩ := Option.bind_eq_some_iff.mp known
  · obtain rfl : own = settings := Option.some.inj outlet
    exact ⟨state, found⟩
  · cases outlet

theorem find_append (x : Exchange ε) (settings other : Registry.Settings) (number : Nat)
    (absent : x.entry? settings = none) :
    entry? { x with table := x.table ++ [(settings, number)] } other =
      if settings = other then some number else x.entry? other := by
  have last : ([(settings, number)] : List (Registry.Settings × Nat)).find? (·.1 == other) =
      if settings = other then some (settings, number) else none := by
    by_cases same : settings = other <;> simp [same]
  rw [ entry?, entry?, List.find?_append, last]
  by_cases same : settings = other
  · subst same
    rw [Option.map_eq_none_iff.mp absent]
    simp
  · simp [same]

def withOutlet (x : Exchange ε) (settings : Registry.Settings) : Exchange ε :=
  { x with
    pool := { x.pool with registries := x.pool.registries ++ [⟨settings, .memory .new⟩] }
    table := x.table ++ [(settings, x.pool.registries.length)] }

theorem quiet_withOutlet (x : Exchange ε) (settings : Registry.Settings) :
    Quiet x (x.withOutlet settings) :=
  quiet_grown rfl rfl rfl rfl fun registry member => by
    rw [List.mem_singleton.mp member]
    rfl

theorem outlet?_withOutlet (x : Exchange ε) (settings : Registry.Settings) :
    (x.withOutlet settings).outlet? x.pool.registries.length = some settings := by
  have last : registry? (x.withOutlet settings) x.pool.registries.length =
      some ⟨settings, .memory .new⟩ := List.getElem?_concat_length
  exact outlet?_of_memory last

theorem Tabled.withOutlet (tabled : x.Tabled) (absent : x.entry? settings = none) :
    (x.withOutlet settings).Tabled where
  grow := tabled.grow
  defined := tabled.defined
  outlets other number memory found := by
    have led := (x.find_append settings other _ absent).symm.trans found
    split at led
    next same =>
      obtain rfl := Option.some.inj led
      exact same ▸ outlet?_withOutlet x settings
    next => exact (quiet_withOutlet x settings).outlets _ _ (tabled.outlets other number memory led)

theorem obtain_memory (tabled : x.Tabled) (memory : settings.protocol = memoryProtocol) :
    ∃ number y, x.obtain settings = (.ok number, y) ∧ Quiet x y ∧ y.Tabled ∧
      y.outlet? number = some settings := by
  cases entry : x.entry? settings with
  | some number =>
      exact ⟨number, x, by rw [Exchange.obtain, entry], .refl x, tabled,
        tabled.outlets settings number memory entry⟩
  | none =>
      have built : x.definitions.get settings.protocol settings x.pool =
          ⟨.ok x.pool.registries.length, x.definitions, (x.withOutlet settings).pool⟩ := by
        rw [Catalog.get, memory, tabled.defined]
        rfl
      have opened := quiet_withOutlet x settings
      have still := tabled.withOutlet entry
      rw [Exchange.obtain, entry, built]
      dsimp only
      split
      · exact ⟨_, _, rfl, opened.trans (quiet_warn _ _), still.same rfl rfl fun _ _ known => known,
          outlet?_withOutlet x settings⟩
      · exact ⟨_, _, rfl, opened, still, outlet?_withOutlet x settings⟩

theorem ready_memory (tabled : x.Tabled) (memory : settings.protocol = memoryProtocol) :
    ∃ y, Quiet x y ∧ y.Tabled ∧ ((∃ failure, x.ready settings = (.error failure, y)) ∨
      ∃ number, x.ready settings = (.ok number, y) ∧ y.outlet? number = some settings) := by
  obtain ⟨number, y, got, quiet, still, known⟩ := obtain_memory tabled memory
  have started := quiet_start y number
  refine ⟨(y.start number).2, quiet.trans started, still.start number, ?_⟩
  have kept := started.outlets number settings known
  rw [ready, got, proceed]
  generalize y.start number = done at kept
  obtain ⟨failure | value, z⟩ := done
  · exact .inl ⟨failure, rfl⟩
  · exact .inr ⟨number, rfl, kept⟩

theorem enterAll_memory (tabled : x.Tabled) (memory : settings.protocol = memoryProtocol)
    (announces : settings.registers = true) (r : Registration) :
    ∃ y, Quiet x y ∧ y.Tabled ∧ ((∃ failure, enterAll r [settings] x = (.error failure, y)) ∨
      ∃ number, y.outlet? number = some settings ∧ enterAll r [settings] x =
        (.ok [number], y.publish settings.address r.service.dataId r.group r.provider)) := by
  obtain ⟨y, quiet, still, ⟨failure, failed⟩ | ⟨number, got, known⟩⟩ := ready_memory tabled memory
  · refine ⟨y.warn [.announcementFailed r.service.dataId failure], quiet.trans (quiet_warn _ _),
      still.same rfl rfl fun _ _ known => known, .inl ⟨failure, ?_⟩⟩
    simp only [enterAll, tryAll, enter, failed, proceed, leaveAll, List.foldl_nil]
  · obtain ⟨state, found⟩ := exists_memory_of_outlet? known
    refine ⟨y, quiet, still, .inr ⟨number, known, ?_⟩⟩
    simp only [enterAll, tryAll, enter, got, proceed, register, found, announces, if_true]

theorem follow_memory (tabled : x.Tabled) (memory : settings.protocol = memoryProtocol)
    (allows : settings.subscribes = true) (service : Service) (subscriber : Subscriber) :
    ∃ y, Quiet x y ∧ y.Tabled ∧
      ((∃ failure, x.ready settings = (.error failure, y) ∧
        follow service subscriber settings x = (.error failure, y)) ∨
      ∃ number state, x.ready settings = (.ok number, y) ∧
        y.registry? number = some ⟨settings, .memory state⟩ ∧
        follow service subscriber settings x =
          (.ok ⟨number, (y.store settings.address).snapshot service.dataId⟩,
            y.join number settings state service.dataId subscriber)) := by
  obtain ⟨y, quiet, still, ⟨failure, failed⟩ | ⟨number, got, known⟩⟩ := ready_memory tabled memory
  · refine ⟨y, quiet, still, .inl ⟨failure, failed, ?_⟩⟩
    rw [follow, failed, proceed]
  · obtain ⟨state, found⟩ := exists_memory_of_outlet? known
    refine ⟨y, quiet, still, .inr ⟨number, state, got, found, ?_⟩⟩
    simp only [follow, got, proceed, subscribe, found, allows, if_true]
    rfl

theorem followAll_memory (tabled : x.Tabled) (memory : settings.protocol = memoryProtocol)
    (allows : settings.subscribes = true) (service : Service) (subscriber : Subscriber) :
    ∃ y, Quiet x y ∧ y.Tabled ∧
      ((∃ failure, followAll service subscriber [settings] x = (.error failure, y)) ∨
      ∃ number state, y.registry? number = some ⟨settings, .memory state⟩ ∧
        followAll service subscriber [settings] x =
          (.ok [⟨number, (y.store settings.address).snapshot service.dataId⟩],
            y.join number settings state service.dataId subscriber)) := by
  obtain ⟨y, quiet, still, ⟨failure, -, failed⟩ | ⟨number, state, -, found, followed⟩⟩ :=
    follow_memory tabled memory allows service subscriber
  · refine ⟨y, quiet, still, .inl ⟨failure, ?_⟩⟩
    simp only [followAll, tryAll, failed, partAll, List.map_nil, List.foldl_nil]
  · refine ⟨y, quiet, still, .inr ⟨number, state, found, ?_⟩⟩
    simp only [followAll, tryAll, followed]

theorem leaveAll_memory {number : Nat} (known : x.outlet? number = some settings)
    (announces : settings.registers = true) (r : Registration) :
    leaveAll r [number] x = x.withdraw settings.address r.service.dataId r.group r.provider := by
  obtain ⟨state, found⟩ := exists_memory_of_outlet? known
  simp only [leaveAll, List.foldl_cons, List.foldl_nil, leave, unregister, found, announces,
    if_true]

theorem partAll_memory {number : Nat} (known : x.outlet? number = some settings)
    (service : Service) (subscriber : Subscriber) :
    ∃ state, x.registry? number = some ⟨settings, .memory state⟩ ∧
      partAll service subscriber [number] x =
        x.dismiss number settings state service.dataId subscriber := by
  obtain ⟨state, found⟩ := exists_memory_of_outlet? known
  refine ⟨state, found, ?_⟩
  simp only [partAll, List.foldl_cons, List.foldl_nil, part, unsubscribe, found]
  rfl

end Switchboard.Exchange
