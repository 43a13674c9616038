import Switchboard.Proofs.Deeds

/-! The end of a hub. When a hub is destroyed for the first time, its table of registries is empty
afterwards and no task is started, and so it remains while offers are taken back and references
released. To destroy it again does nothing. A registry that is asked for later, and the task that it
starts, therefore stay for good. -/
namespace Switchboard

namespace Exchange

variable {ε : Type} {x y z : Exchange ε}

/-- What is in the table stays there, and a task that is started stays so. -/
structure Retains (x y : Exchange ε) : Prop where
  table : x.table ⊆ y.table
  orderly : x.tasks.Orderly → y.tasks.Orderly
  started : ∀ task, x.tasks.isStarted task = true → y.tasks.isStarted task = true

theorem Retains.trans (first : Retains x y) (second : Retains y z) : Retains x z where
  table := List.Subset.trans first.table second.table
  orderly orderly := second.orderly (first.orderly orderly)
  started task began := second.started task (first.started task began)

theorem retains_of_tasks (table : x.table ⊆ y.table) (tasks : y.tasks = x.tasks) : Retains x y where
  table := table
  orderly orderly := tasks ▸ orderly
  started _ began := tasks ▸ began

theorem tasks_obtain (x : Exchange ε) (settings : Registry.Settings) :
    (x.obtain settings).2.tasks = x.tasks := by
  have comes := x.obtain_comes settings
  generalize x.obtain settings = got at comes
  obtain ⟨answer, y⟩ := got
  dsimp only at comes ⊢
  cases comes <;> rfl

theorem table_obtain (x : Exchange ε) (settings : Registry.Settings) :
    x.table ⊆ (x.obtain settings).2.table := by
  have comes := x.obtain_comes settings
  generalize x.obtain settings = got at comes
  obtain ⟨answer, y⟩ := got
  dsimp only at comes ⊢
  cases comes with
  | entered => exact List.Subset.refl _
  | undefined => exact List.Subset.refl _
  | kept => exact List.subset_append_left _ _
  | failed => exact List.Subset.refl _
  | built => exact List.subset_append_left _ _

theorem retains_start (x : Exchange ε) (number : Nat) : Retains x (x.start number).2 := by
  have begins := x.begins_start number
  generalize (x.start number).2 = y at begins
  cases begins with
  | missing => exact retains_of_tasks (List.Subset.refl _) rfl
  | foreign => exact retains_of_tasks (List.Subset.refl _) rfl
  | again => exact retains_of_tasks (List.Subset.refl _) rfl
  | plain => exact retains_of_tasks (List.Subset.refl _) rfl
  | scanning settings state found fresh period asked =>
      have positive := Registry.Settings.scanPeriod?_pos asked
      refine ⟨List.Subset.refl _, fun orderly => orderly.launch _ _ _ _ _, fun task began => ?_⟩
      refine (Timetable.isStarted_launch x.tasks _ _ _ positive _ task).trans ?_
      split
      · rfl
      · exact began

variable {allowed : Definition (Registry.Pool ε) Registry.Settings Nat → Prop}
  {log : List Registry.Settings}

theorem Leads.retains (leads : Leads allowed x log y) : Retains x y := by
  induction leads with
  | calm calm => exact retains_of_tasks (by rw [calm.table]; exact List.Subset.refl _) calm.tasks
  | define d => exact retains_of_tasks (List.Subset.refl _) rfl
  | obtain x settings => exact retains_of_tasks (table_obtain x settings) (tasks_obtain x settings)
  | start x number => exact retains_start x number
  | wake x task =>
      exact ⟨List.Subset.refl _, fun orderly => orderly.wake task,
        fun other began => (x.tasks.isStarted_wake task other).trans began⟩
  | trans _ _ first second => exact first.trans second

theorem tasks_foldl_forget (entries : List (String × Subscriber)) (address : String)
    (x : Exchange ε) :
    (entries.foldl (fun y entry => y.forget address entry.1 entry.2) x).tasks = x.tasks := by
  induction entries generalizing x with
  | nil => rfl
  | cons entry rest ih => exact ih (x.forget address entry.1 entry.2)

theorem tasks_destroy (still : ∀ task, x.tasks.isStarted task = false) (number : Nat) :
    (x.destroy number).2.tasks = x.tasks := by
  rw [destroy]
  split
  next => rfl
  next => rfl
  next settings state _ =>
    refine (tasks_foldl_forget state.subscriptions settings.address _).trans ?_
    cases state.rescan with
    | none => rfl
    | some task => exact congrArg Prod.snd (Timetable.stop_of_not_isStarted (still task))

theorem tasks_retire (still : ∀ task, x.tasks.isStarted task = false)
    (settings : Registry.Settings) (number : Nat) :
    (x.retire settings number).tasks = x.tasks := by
  have gone := tasks_destroy (x := x.withWorld (x.hooks.foldl
    (fun world hook => hook.before settings world) x.world)) still number
  rw [retire]
  generalize (x.withWorld _).destroy number = done at gone
  obtain ⟨failure | value, y⟩ := done
  · exact gone
  · exact gone

theorem tasks_destroyAll (still : ∀ task, x.tasks.isStarted task = false) :
    x.destroyAll.tasks = x.tasks :=
  List.foldlRecOn x.table _ (motive := fun y : Exchange ε => y.tasks = x.tasks) rfl
    fun _ before entry _ => (tasks_retire (before ▸ still) entry.1 entry.2).trans before

/-- Behind every entry in a store there is one of the registries with the given numbers. -/
def CoveredBy (numbers : List Nat) (x : Exchange ε) : Prop :=
  ∀ address id subscriber, subscriber ∈ (x.store address).subscribersOf id →
    ∃ number ∈ numbers, ∃ outlet, x.outlet? number = some outlet ∧ outlet.address = address ∧
      (id, subscriber) ∈ x.roll number

theorem mem_store_foldl_forget {entries : List (String × Subscriber)} {place address id : String}
    {subscriber : Subscriber}
    (entry : subscriber ∈ ((entries.foldl
      (fun y entry => y.forget place entry.1 entry.2) x).store address).subscribersOf id) :
    subscriber ∈ (x.store address).subscribersOf id ∧
      (place = address → (id, subscriber) ∉ entries) := by
  induction entries generalizing x with
  | nil => exact ⟨entry, fun _ => List.not_mem_nil⟩
  | cons first rest ih =>
      obtain ⟨left, others⟩ := ih entry
      obtain ⟨before, different⟩ := mem_store_forget_iff.mp left
      refine ⟨before, fun here listed => ?_⟩
      rcases List.mem_cons.mp listed with rfl | later
      · exact different ⟨here, rfl, rfl⟩
      · exact others here later

variable {number : Nat} {numbers : List Nat}

theorem CoveredBy.tail (covered : CoveredBy (number :: numbers) x)
    (closed : x.outlet? number = none) : CoveredBy numbers x := by
  intro address id subscriber entry
  obtain ⟨n, listed, outlet, known, rest⟩ := covered address id subscriber entry
  refine ⟨n, (List.mem_cons.mp listed).resolve_left fun same => ?_, outlet, known, rest⟩
  rw [same, closed] at known
  cases known

theorem CoveredBy.destroy (covered : CoveredBy (number :: numbers) x) :
    CoveredBy numbers (x.destroy number).2 := by
  rw [Exchange.destroy]
  split
  next absent => exact covered.tail (outlet?_of_missing absent)
  next settings behaviour found => exact covered.tail (outlet?_of_foreign found)
  next settings state found =>
    have cleared : ∀ w : Exchange ε, w.pool = x.pool → w.stores = x.stores →
        CoveredBy numbers ((state.subscriptions.foldl
          (fun y entry => y.forget settings.address entry.1 entry.2) w).withMemory number
            settings .new) := by
      intro w pool stores address id subscriber entry
      obtain ⟨before, gone⟩ := mem_store_foldl_forget entry
      rw [store, stores] at before
      obtain ⟨n, listed, outlet, known, here, noted⟩ := covered address id subscriber before
      have still : ∀ other, registry? (state.subscriptions.foldl
          (fun y entry => y.forget settings.address entry.1 entry.2) w) other =
            x.registry? other := fun other => by
        rw [ registry?_foldl_forget, registry?, pool, registry?]
      have different : n ≠ number := by
        rintro rfl
        obtain rfl := Option.some.inj ((outlet?_of_memory found).symm.trans known)
        rw [roll, found] at noted
        exact gone here noted
      have later := registry?_withMemory ((still number).trans found) settings .new n
      rw [if_neg (Ne.symm different), still] at later
      refine ⟨n, (List.mem_cons.mp listed).resolve_left different, outlet, ?_, here, ?_⟩
      · rw [outlet?, later]
        exact known
      · rw [roll, later]
        exact noted
    dsimp only
    cases state.rescan with
    | none => exact cleared x rfl rfl
    | some task => exact cleared _ rfl rfl

theorem CoveredBy.retire (settings : Registry.Settings)
    (covered : CoveredBy (number :: numbers) x) :
    CoveredBy numbers (x.retire settings number) := by
  have gone := CoveredBy.destroy (x := x.withWorld (x.hooks.foldl
    (fun world hook => hook.before settings world) x.world)) covered
  rw [Exchange.retire]
  generalize (x.withWorld _).destroy number = done at gone
  obtain ⟨failure | value, y⟩ := done
  · exact gone
  · exact gone

theorem CoveredBy.subscribersOf_destroyAll (covered : CoveredBy (x.table.map (·.2)) x)
    (address id : String) : (x.destroyAll.store address).subscribersOf id = [] := by
  have each : ∀ (entries : List (Registry.Settings × Nat)) (y : Exchange ε),
      CoveredBy (entries.map (·.2)) y → CoveredBy []
        (entries.foldl (fun exchange entry => exchange.retire entry.1 entry.2) y) := by
    intro entries
    induction entries with
    | nil => exact fun _ covered => covered
    | cons entry rest ih => exact fun y covered => ih _ (covered.retire entry.1)
  refine List.eq_nil_iff_forall_not_mem.mpr fun subscriber entry => ?_
  obtain ⟨number, absurd, -⟩ :=
    each x.table { x with table := [] } covered address id subscriber entry
  cases absurd

end Exchange

/-- What ends the use of a hub. -/
def Deed.Ends {ε : Type} : Deed ε → Prop
  | .act (.turn (.takeBack _)) => True
  | .act (.turn (.release _)) => True
  | .act .destroy => True
  | _ => False

namespace Hub

open Exchange (Retains)

variable {ε : Type} {h g : Hub ε}

structure ShutDown (h : Hub ε) : Prop where
  table : h.exchange.table = []
  startedCount : h.exchange.tasks.startedCount = 0

theorem ShutDown.calm (shut : ShutDown h) (calm : Calm h g) : ShutDown g where
  table := calm.exchange.table.trans shut.table
  startedCount := by
    rw [calm.exchange.tasks]
    exact shut.startedCount

theorem destroy_of_destroyed (gone : h.destroyed = true) : h.destroy = h := by
  rw [destroy, if_pos gone]

theorem destroyed_destroy (h : Hub ε) : h.destroy.destroyed = true := by
  rw [destroy]
  split
  next gone => exact gone
  next => rfl

theorem shutDown_destroy (fresh : h.destroyed = false) (orderly : h.exchange.tasks.Orderly) :
    ShutDown h.destroy := by
  have stopped : h.exchange.tasks.stopAll.Orderly := orderly.stopAll
  have still : ∀ task, h.exchange.tasks.stopAll.isStarted task = false :=
    orderly.isStarted_stopAll
  rw [destroy, if_neg (by rw [fresh]; exact Bool.false_ne_true)]
  refine ⟨(Exchange.lasts_destroyAll _).table, ?_⟩
  have tasks := Exchange.tasks_destroyAll
    (x := { h.exchange with tasks := h.exchange.tasks.stopAll }) still
  rw [tasks]
  exact stopped.startedCount_eq_zero_iff.mpr still

theorem subscribersOf_destroy (fresh : h.destroyed = false)
    (covered : h.exchange.CoveredBy (h.exchange.table.map (·.2))) (address id : String) :
    (h.destroy.exchange.store address).subscribersOf id = [] := by
  rw [destroy, if_neg (by rw [fresh]; exact Bool.false_ne_true)]
  exact Exchange.CoveredBy.subscribersOf_destroyAll
    (x := { h.exchange with tasks := h.exchange.tasks.stopAll }) covered address id

theorem destroyed_deed (gone : h.destroyed = true) (d : Deed ε) :
    (h.deed d).destroyed = true ∧ Retains h.exchange (h.deed d).exchange := by
  by_cases again : d = .act .destroy
  · rw [again, deed, act, destroy_of_destroyed gone]
    exact ⟨gone, Exchange.retains_of_tasks (List.Subset.refl _) rfl⟩
  · have leads : Leads (fun _ => True) h (h.starts d) (h.deed d) :=
      leads_deed h again fun _ _ _ => trivial
    exact ⟨leads.destroyed.trans gone, leads.exchange.retains⟩

theorem destroyed_after (gone : h.destroyed = true) (deeds : List (Deed ε)) :
    (h.after deeds).destroyed = true ∧ Retains h.exchange (h.after deeds).exchange :=
  List.foldlRecOn deeds deed
    (motive := fun g : Hub ε => g.destroyed = true ∧ Retains h.exchange g.exchange)
    ⟨gone, Exchange.retains_of_tasks (List.Subset.refl _) rfl⟩ fun _ before d _ =>
      have step := destroyed_deed before.1 d
      ⟨step.1, before.2.trans step.2⟩

theorem ShutDown.deed (shut : ShutDown h) (gone : h.destroyed = true) {d : Deed ε}
    (ends : d.Ends) : ShutDown (h.deed d) := by
  unfold Deed.Ends at ends
  split at ends
  next offer => exact shut.calm (calm_takeBack h offer)
  next reference => exact shut.calm (calm_release h reference)
  next =>
    rw [Hub.deed, act, destroy_of_destroyed gone]
    exact shut
  next => exact ends.elim

theorem ShutDown.after (shut : ShutDown h) (gone : h.destroyed = true) {deeds : List (Deed ε)}
    (ends : ∀ d ∈ deeds, d.Ends) : ShutDown (h.after deeds) :=
  (List.foldlRecOn deeds Hub.deed
    (motive := fun g : Hub ε => g.destroyed = true ∧ ShutDown g) ⟨gone, shut⟩
    fun _ before d listed =>
      ⟨(destroyed_deed before.1 d).1, before.2.deed before.1 (ends d listed)⟩).2

/-- The first end of a hub empties its table and stops its tasks, and both stay so as long as it is
only used to its end. Any other end changes nothing, and what comes after the first one stays. -/
theorem first_destroy_shuts_down {settings : Settings} {world : ε} {deeds : List (Deed ε)}
    (spared : .act .destroy ∉ deeds) {h : Hub ε}
    (ended : h = ((Hub.new settings world).after deeds).destroy) :
    ShutDown h ∧
    (∀ later : List (Deed ε), (∀ d ∈ later, d.Ends) → ShutDown (h.after later)) ∧
    (∀ later : List (Deed ε), (h.after later).destroy = h.after later) ∧
    ∀ later more : List (Deed ε),
      (h.after later).exchange.table ⊆ ((h.after later).after more).exchange.table ∧
      ∀ task, (h.after later).exchange.tasks.isStarted task = true →
        ((h.after later).after more).exchange.tasks.isStarted task = true := by
  have leads : Leads (fun _ => True) (Hub.new settings world) _ _ :=
    leads_after _ spared fun _ _ _ _ _ => trivial
  have orderly := leads.exchange.retains.orderly Timetable.orderly_empty
  have shut : ShutDown h := ended ▸ shutDown_destroy leads.destroyed orderly
  have gone : h.destroyed = true := ended ▸ destroyed_destroy _
  have staying : ∀ later, (h.after later).destroyed = true := fun later =>
    (destroyed_after gone later).1
  refine ⟨shut, fun _ ends => shut.after gone ends,
    fun later => destroy_of_destroyed (staying later), fun later more => ?_⟩
  have retains := (destroyed_after (staying later) more).2
  exact ⟨retains.table, retains.started⟩

/-- A memory registry that pushes everything again each minute. -/
def minutely : Registry.Settings :=
  { Registry.Settings.new Registry.memoryProtocol "center" with
    parameters := .ofList [(Registry.Settings.scanPeriodKey, "60000")] }

def scanning : List (Deed Unit) := [.obtain minutely, .start 0]

theorem first_destroy_shuts_down_scanning :
    ((Hub.new Settings.default ()).after scanning).exchange.tasks.startedCount = 1 ∧
    ShutDown ((Hub.new Settings.default ()).after scanning).destroy ∧
    ∀ more : List (Deed Unit),
      (minutely, 1) ∈ ((((Hub.new Settings.default ()).after scanning).destroy.after
        [.obtain minutely, .start 1]).after more).exchange.table := by
  have spared : .act .destroy ∉ scanning := by simp [scanning]
  obtain ⟨shut, -, -, stays⟩ := first_destroy_shuts_down spared
    (rfl : ((Hub.new Settings.default ()).after scanning).destroy = _)
  have entered : (((Hub.new Settings.default ()).after scanning).destroy.after
      [.obtain minutely, .start 1]).exchange.table = [(minutely, 1)] := by rfl
  refine ⟨by decide, shut, fun more => ?_⟩
  have kept := (stays [.obtain minutely, .start 1] more).1
  rw [entered] at kept
  exact kept List.mem_cons_self

def scanned : Reference.Settings :=
  ⟨"com.demo.Echo", "", "bolt", "", [minutely], none, "", rotationName, Codec.jsonName, none⟩

/-- A hub that was destroyed and has since bound a reference whose registry pushes again. -/
def revived : Hub Unit := ((Hub.new Settings.default ()).destroy.addReference scanned []).2

/-- What a reference that is bound after the end of its hub has started outlives the next end. -/
theorem second_destroy_shuts_nothing_down :
    ¬∀ deeds : List (Deed Unit),
      ShutDown ((Hub.new Settings.default ()).after (deeds ++ [.act .destroy])) := by
  intro always
  have known : revived.references[0]? =
      some ⟨scanned, ⟨"com.demo.Echo", "bolt", "", ""⟩, [], [], none⟩ := rfl
  have bound : Calm (revived.fill 0 none).2 (revived.bind 0).2 := calm_bind known rfl
  have again : (revived.bind 0).2.destroy = (revived.bind 0).2 :=
    destroy_of_destroyed (bound.destroyed.trans rfl)
  have started : (revived.bind 0).2.exchange.tasks.startedCount = 1 := by
    rw [bound.exchange.tasks]
    rfl
  have shut := always [.act .destroy, .act (.addReference scanned []), .act (.turn (.bind 0))]
  simp only [after, List.cons_append, List.nil_append, List.foldl_cons, List.foldl_nil, deed, act,
    turn] at shut
  rw [← revived, again] at shut
  exact absurd (started.symm.trans shut.startedCount) Nat.one_ne_zero

end Hub

end Switchboard
