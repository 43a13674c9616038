import Switchboard.Proofs.Outlets
import Switchboard.Proofs.Prepared
import Switchboard.Proofs.Shutdown

/-! One task for each memory registry that asks for it. As long as memory registries are built by
the definition that a hub comes with, each of them is in the table under its own settings and knows
whether it was started. So whoever starts it and however often, one task belongs to the settings,
and there are as many tasks as settings that ask for one among those that were started. When the hub
is destroyed they all stop, and nobody is subscribed any more. -/
namespace Switchboard

theorem getElem?_concat_eq_some_iff {α : Type} {list : List α} {last item : α} {n : Nat} :
    (list ++ [last])[n]? = some item ↔ list[n]? = some item ∨ n = list.length ∧ item = last := by
  rcases Nat.lt_trichotomy n list.length with below | rfl | beyond
  · simp [List.getElem?_append_left below, Nat.ne_of_lt below]
  · simp [eq_comm]
  · have outside : (list ++ [last]).length ≤ n := List.length_append ▸ beyond
    simp [List.getElem?_eq_none outside, List.getElem?_eq_none (Nat.le_of_lt beyond),
      Nat.ne_of_gt beyond]

namespace Registry

variable {ε : Type} {s : Settings}

theorem Settings.scanPeriod?_eq_some_iff {period : Nat} : s.scanPeriod? = some period ↔
    ∃ text, s.parameters.get? scanPeriodKey = some text ∧
      Text.readWhole Text.bound64 (Text.trimChars text.toList) = .ok period ∧ 0 < period := by
  simp only [scanPeriod?, Option.filter_eq_some_iff, Option.bind_eq_some_iff,
    Text.whole?_eq_some_iff, decide_eq_true_eq]
  constructor
  · rintro ⟨⟨text, held, read⟩, positive⟩
    exact ⟨text, held, read, positive⟩
  · rintro ⟨text, held, read, positive⟩
    exact ⟨⟨text, held, read⟩, positive⟩

/-- Settings of a memory registry with a parameter that is, between blanks, a positive number of at
most 64 bits. -/
structure Settings.Rescans (s : Settings) : Prop where
  protocol : s.protocol = memoryProtocol
  period : ∃ text period, s.parameters.get? scanPeriodKey = some text ∧
    Text.readWhole Text.bound64 (Text.trimChars text.toList) = .ok period ∧ 0 < period

theorem Settings.rescans_iff :
    s.Rescans ↔ s.protocol = memoryProtocol ∧ s.scanPeriod?.isSome = true := by
  rw [Option.isSome_iff_exists]
  simp only [scanPeriod?_eq_some_iff]
  constructor
  · rintro ⟨protocol, text, period, rest⟩
    exact ⟨protocol, period, text, rest⟩
  · rintro ⟨protocol, period, text, rest⟩
    exact ⟨protocol, text, period, rest⟩

instance : DecidablePred Settings.Rescans := fun _ => decidable_of_iff _ Settings.rescans_iff.symm

theorem registries_buildForeign {make : Settings → ε → Outcome (Foreign ε) × ε} {pool : Pool ε}
    {number : Nat} (built : (buildForeign make s pool).1 = .ok number) :
    ∃ behaviour, (buildForeign make s pool).2.registries =
      pool.registries ++ [⟨s, .foreign behaviour⟩] := by
  dsimp only [buildForeign] at built ⊢
  split at built
  next => cases built
  next behaviour world _ => exact ⟨behaviour, rfl⟩

structure Outside (d : Definition (Pool ε) Settings Nat) : Prop where
  key : d.key ≠ memoryProtocol
  build : ∃ make, d.build = buildForeign make

end Registry

namespace Exchange

open Registry (Memory Outside memoryProtocol memoryDefinition buildForeign)

variable {ε : Type} {x y z : Exchange ε} {log : List Registry.Settings}
  {settings : Registry.Settings} {number : Nat}

/-! ### The tasks -/

/-- The settings that ask for a task, among those that were started. -/
def scans (log : List Registry.Settings) : Finset Registry.Settings :=
  log.toFinset.filter Registry.Settings.Rescans

theorem scans_concat (log : List Registry.Settings) (settings : Registry.Settings) :
    scans (log ++ [settings]) =
      if settings.Rescans then insert settings (scans log) else scans log := by
  have union : (log ++ [settings]).toFinset = insert settings log.toFinset := by
    ext other
    simp
  rw [scans, union, Finset.filter_insert]
  rfl

structure Ticking (log : List Registry.Settings) (t : Timetable Nat) : Prop where
  orderly : t.Orderly
  started : ∀ task < t.tasks.length, t.isStarted task = true
  size : t.tasks.length = (scans log).card

namespace Ticking

variable {t : Timetable Nat}

theorem startedCount (ticking : Ticking log t) : t.startedCount = (scans log).card := by
  have all : ((Finset.range t.tasks.length).filter fun task => t.isStarted task = true) =
      Finset.range t.tasks.length :=
    Finset.filter_true_of_mem fun task below => ticking.started task (Finset.mem_range.mp below)
  rw [ticking.orderly.startedCount_eq_card, all, Finset.card_range, ticking.size]

theorem wake (ticking : Ticking log t) (task : Nat) : Ticking log (t.wake task) where
  orderly := ticking.orderly.wake task
  started other below := by
    rw [(t.lasts_wake task).size] at below
    exact (t.isStarted_wake task other).trans (ticking.started other below)
  size := (t.lasts_wake task).size.trans ticking.size

theorem note (ticking : Ticking log t) (known : settings.Rescans → settings ∈ log) :
    Ticking (log ++ [settings]) t where
  orderly := ticking.orderly
  started := ticking.started
  size := by
    rw [scans_concat]
    split
    next rescans =>
      have listed : settings ∈ scans log :=
        Finset.mem_filter.mpr ⟨List.mem_toFinset.mpr (known rescans), rescans⟩
      rw [Finset.insert_eq_of_mem listed, ticking.size]
    next => exact ticking.size

theorem launch (ticking : Ticking log t) (rescans : settings.Rescans) (fresh : settings ∉ log)
    (name : String) (pace : Timetable.Pace) (delay : Nat) {period : Nat} (positive : 0 < period)
    (job : Nat) : Ticking (log ++ [settings]) (t.launch name pace delay period job) where
  orderly := ticking.orderly.launch name pace delay period job
  started task below := by
    rw [t.length_launch name pace delay positive] at below
    rw [t.isStarted_launch name pace delay positive]
    split
    next => rfl
    next other => exact ticking.started task (by omega)
  size := by
    have absent : settings ∉ scans log := fun listed =>
      fresh (List.mem_toFinset.mp (Finset.mem_filter.mp listed).1)
    rw [t.length_launch name pace delay positive, scans_concat, if_pos rescans,
      Finset.card_insert_of_notMem absent, ticking.size]

end Ticking

/-! ### The registries -/

/-- Memory registries are built by the first definition, and other ones by definitions of their
own. -/
structure Undisturbed (c : Registry.Definitions ε) : Prop where
  memory : c.definitions.get? memoryProtocol = some memoryDefinition
  outside : ∀ key d, c.definitions.get? key = some d → key ≠ memoryProtocol →
    ∃ make, d.build = buildForeign make

theorem undisturbed_definitions : Undisturbed (Registry.definitions ε) where
  memory := rfl
  outside key d found other := by
    rw [Registry.definitions, Catalog.get?_register_of_ne _ (Ne.symm other)] at found
    cases found

theorem Undisturbed.same {c e : Registry.Definitions ε} (undisturbed : Undisturbed c)
    (definitions : e.definitions = c.definitions) : Undisturbed e :=
  ⟨definitions ▸ undisturbed.memory, definitions ▸ undisturbed.outside⟩

theorem Undisturbed.register {c : Registry.Definitions ε} (undisturbed : Undisturbed c)
    {d : Definition (Registry.Pool ε) Registry.Settings Nat} (outside : Outside d) :
    Undisturbed (c.register d).catalog where
  memory := (c.get?_register_of_ne outside.key).trans undisturbed.memory
  outside key e found other := by
    rcases c.get?_register_cases d key with same | ⟨-, taken⟩
    · exact undisturbed.outside key e (same ▸ found) other
    · exact Option.some.inj (taken.symm.trans found) ▸ outside.build

theorem Undisturbed.grow {c : Registry.Definitions ε} (undisturbed : Undisturbed c) : c.Grow := by
  intro key d found
  by_cases own : key = memoryProtocol
  · rw [own, undisturbed.memory] at found
    exact Option.some.inj found ▸ Registry.grows_buildMemory
  · obtain ⟨make, build⟩ := undisturbed.outside key d found own
    rw [build]
    exact Registry.grows_buildForeign make

/-- What comes with new settings in the table: for those of a memory registry one that is not
started, and for other ones at most a registry of their protocol. -/
structure Adds (settings : Registry.Settings) (number : Nat) (x y : Exchange ε) : Prop where
  table : y.table = x.table ++ [(settings, number)]
  before : ∀ (n : Nat) (mode : Registry.Settings × Option Bool),
    x.modes[n]? = some mode → y.modes[n]? = some mode
  inside : settings.protocol = memoryProtocol → y.modes[number]? = some (settings, some false)
  new : ∀ (n : Nat) (own : Registry.Settings) (flag : Option Bool), y.modes[n]? = some (own, flag) →
    x.modes[n]? = some (own, flag) ∨ own = settings ∧
      (flag = none ∧ settings.protocol ≠ memoryProtocol ∨
        n = number ∧ flag = some false ∧ settings.protocol = memoryProtocol)

theorem adds_of_kept (foreign : settings.protocol ≠ memoryProtocol)
    (table : y.table = x.table ++ [(settings, number)]) (modes : y.modes = x.modes) :
    Adds settings number x y where
  table := table
  before _ _ found := modes ▸ found
  inside memory := absurd memory foreign
  new _ _ _ found := .inl (modes ▸ found)

theorem adds_of_memory (memory : settings.protocol = memoryProtocol)
    (next : number = x.modes.length) (table : y.table = x.table ++ [(settings, number)])
    (modes : y.modes = x.modes ++ [(settings, some false)]) : Adds settings number x y where
  table := table
  before _ _ found := modes ▸ getElem?_concat_eq_some_iff.mpr (.inl found)
  inside _ := by rw [modes, next, List.getElem?_concat_length]
  new n own flag found := by
    rw [modes] at found
    rcases getElem?_concat_eq_some_iff.mp found with old | ⟨here, same⟩
    · exact .inl old
    · obtain ⟨rfl, rfl⟩ := Prod.mk.inj same
      exact .inr ⟨rfl, .inr ⟨here.trans next.symm, rfl, memory⟩⟩

theorem adds_of_foreign (foreign : settings.protocol ≠ memoryProtocol)
    (table : y.table = x.table ++ [(settings, number)])
    (modes : y.modes = x.modes ++ [(settings, none)]) : Adds settings number x y where
  table := table
  before _ _ found := modes ▸ getElem?_concat_eq_some_iff.mpr (.inl found)
  inside memory := absurd memory foreign
  new n own flag found := by
    rw [modes] at found
    rcases getElem?_concat_eq_some_iff.mp found with old | ⟨-, same⟩
    · exact .inl old
    · obtain ⟨rfl, rfl⟩ := Prod.mk.inj same
      exact .inr ⟨rfl, .inl ⟨rfl, foreign⟩⟩

/-- Each memory registry is in the table under its settings, and is started just if these are among
those that were started. -/
structure Listing (log : List Registry.Settings) (x : Exchange ε) : Prop where
  undisturbed : Undisturbed x.definitions
  nodup : (x.table.map (·.1)).Nodup
  kinds : ∀ (number : Nat) (own : Registry.Settings) (flag : Option Bool),
    x.modes[number]? = some (own, flag) → (flag.isSome = true ↔ own.protocol = memoryProtocol)
  listed : ∀ (number : Nat) (own : Registry.Settings) (started : Bool),
    x.modes[number]? = some (own, some started) → (own, number) ∈ x.table
  entered : ∀ (own : Registry.Settings) (number : Nat), (own, number) ∈ x.table →
    own.protocol = memoryProtocol → ∃ started : Bool, x.modes[number]? = some (own, some started)
  started_iff : ∀ (number : Nat) (own : Registry.Settings) (started : Bool),
    x.modes[number]? = some (own, some started) → (started = true ↔ own ∈ log)
  known : ∀ own ∈ log, own.protocol = memoryProtocol → own ∈ x.table.map (·.1)

namespace Listing

theorem same (listing : Listing log x) (undisturbed : Undisturbed y.definitions)
    (table : y.table = x.table) (modes : y.modes = x.modes) : Listing log y where
  undisturbed := undisturbed
  nodup := table ▸ listing.nodup
  kinds := modes ▸ listing.kinds
  listed := by
    rw [table, modes]
    exact listing.listed
  entered := by
    rw [table, modes]
    exact listing.entered
  started_iff := modes ▸ listing.started_iff
  known := table ▸ listing.known

theorem note (listing : Listing log x)
    (known : settings.protocol = memoryProtocol → settings ∈ log) :
    Listing (log ++ [settings]) x where
  undisturbed := listing.undisturbed
  nodup := listing.nodup
  kinds := listing.kinds
  listed := listing.listed
  entered := listing.entered
  started_iff number own started found := by
    rw [listing.started_iff number own started found, List.mem_append, List.mem_singleton]
    refine ⟨Or.inl, fun either => either.elim id fun same => ?_⟩
    exact same ▸ known (same ▸ (listing.kinds number own _ found).mp rfl)
  known own noted memory := by
    rcases List.mem_append.mp noted with before | last
    · exact listing.known own before memory
    · obtain rfl := List.mem_singleton.mp last
      exact listing.known own (known memory) memory

theorem start (listing : Listing log x) {flag : Bool}
    (found : x.modes[number]? = some (settings, some flag))
    (definitions : y.definitions = x.definitions) (table : y.table = x.table)
    (modes : y.modes = x.modes.set number (settings, some true)) :
    Listing (log ++ [settings]) y := by
  have below : number < x.modes.length := (List.getElem?_eq_some_iff.mp found).1
  have memory : settings.protocol = memoryProtocol :=
    (listing.kinds number settings _ found).mp rfl
  have entry := listing.listed number settings flag found
  have now : ∀ (other : Nat) (mode : Registry.Settings × Option Bool),
      y.modes[other]? = some mode → other = number ∧ mode = (settings, some true) ∨
        other ≠ number ∧ x.modes[other]? = some mode := by
    intro other mode known
    rw [modes] at known
    rcases eq_or_ne number other with rfl | elsewhere
    · rw [List.getElem?_set_self below] at known
      exact .inl ⟨rfl, (Option.some.inj known).symm⟩
    · rw [List.getElem?_set_ne elsewhere] at known
      exact .inr ⟨elsewhere.symm, known⟩
  constructor
  case undisturbed => exact definitions ▸ listing.undisturbed
  case nodup => exact table ▸ listing.nodup
  case kinds =>
    intro other own state known
    rcases now other _ known with ⟨-, same⟩ | ⟨-, old⟩
    · obtain ⟨rfl, rfl⟩ := Prod.mk.inj same
      exact ⟨fun _ => memory, fun _ => rfl⟩
    · exact listing.kinds other own state old
  case listed =>
    intro other own state known
    rw [table]
    rcases now other _ known with ⟨rfl, same⟩ | ⟨-, old⟩
    · exact (Prod.mk.inj same).1 ▸ entry
    · exact listing.listed other own state old
  case entered =>
    intro own other there protocol
    rw [table] at there
    obtain ⟨state, old⟩ := listing.entered own other there protocol
    rw [modes]
    rcases eq_or_ne number other with rfl | elsewhere
    · rw [found, Option.some.injEq, Prod.mk.injEq] at old
      exact ⟨true, by rw [List.getElem?_set_self below, old.1]⟩
    · exact ⟨state, by rw [List.getElem?_set_ne elsewhere, old]⟩
  case started_iff =>
    intro other own state known
    rw [List.mem_append, List.mem_singleton]
    rcases now other _ known with ⟨-, same⟩ | ⟨elsewhere, old⟩
    · obtain ⟨rfl, flag⟩ := Prod.mk.inj same
      exact ⟨fun _ => .inr rfl, fun _ => Option.some.inj flag⟩
    · rw [listing.started_iff other own state old]
      refine ⟨Or.inl, fun either => either.resolve_right fun same => elsewhere ?_⟩
      -- Two registries with the same settings would be two entries under one key.
      have twin := listing.listed other own state old
      exact congrArg Prod.snd (List.inj_on_of_nodup_map listing.nodup twin entry same)
  case known =>
    intro own noted protocol
    rw [table]
    rcases List.mem_append.mp noted with before | last
    · exact listing.known own before protocol
    · exact List.mem_singleton.mp last ▸ List.mem_map_of_mem entry

theorem enter (listing : Listing log x) (absent : x.entry? settings = none)
    (undisturbed : Undisturbed y.definitions) (adds : Adds settings number x y) :
    Listing log y := by
  have unlisted : settings ∉ x.table.map (·.1) := entry?_eq_none_iff.mp absent
  constructor
  case undisturbed => exact undisturbed
  case nodup =>
    rw [adds.table, List.map_append, List.map_singleton, ← List.concat_eq_append]
    exact .concat unlisted listing.nodup
  case kinds =>
    intro n own flag found
    rcases adds.new n own flag found with old | ⟨rfl, ⟨rfl, foreign⟩ | ⟨-, rfl, memory⟩⟩
    · exact listing.kinds n own flag old
    · exact ⟨nofun, fun memory => absurd memory foreign⟩
    · exact ⟨fun _ => memory, fun _ => rfl⟩
  case listed =>
    intro n own started found
    rw [adds.table]
    rcases adds.new n own _ found with old | ⟨rfl, ⟨absurd, -⟩ | ⟨rfl, -, -⟩⟩
    · exact List.mem_append_left _ (listing.listed n own started old)
    · cases absurd
    · exact List.mem_append_right _ List.mem_cons_self
  case entered =>
    intro own n there memory
    rw [adds.table, List.mem_append, List.mem_singleton, Prod.mk.injEq] at there
    rcases there with old | ⟨rfl, rfl⟩
    · obtain ⟨started, found⟩ := listing.entered own n old memory
      exact ⟨started, adds.before n _ found⟩
    · exact ⟨false, adds.inside memory⟩
  case started_iff =>
    intro n own started found
    rcases adds.new n own _ found with old | ⟨rfl, ⟨absurd, -⟩ | ⟨-, flag, memory⟩⟩
    · exact listing.started_iff n own started old
    · cases absurd
    · obtain rfl := Option.some.inj flag
      exact ⟨nofun, fun noted => absurd (listing.known own noted memory) unlisted⟩
  case known =>
    intro own noted memory
    rw [adds.table, List.map_append]
    exact List.mem_append_left _ (listing.known own noted memory)

theorem obtain (listing : Listing log x) (settings : Registry.Settings) :
    Listing log (x.obtain settings).2 := by
  have comes := x.obtain_comes settings
  generalize x.obtain settings = got at comes
  obtain ⟨answer, y⟩ := got
  dsimp only at comes ⊢
  have own : settings.protocol = memoryProtocol → ∀ d,
      x.definitions.definitions.get? settings.protocol = some d → d = memoryDefinition :=
    fun memory d inForce =>
      Option.some.inj (inForce.symm.trans (memory ▸ listing.undisturbed.memory))
  have foreign : settings.protocol ≠ memoryProtocol → ∀ d,
      x.definitions.definitions.get? settings.protocol = some d →
        ∃ make, d.build = buildForeign make :=
    fun other d inForce => listing.undisturbed.outside _ d inForce other
  cases comes with
  | entered => exact listing
  | undefined => exact listing
  | kept d number absent inForce single =>
      refine listing.enter absent listing.undisturbed (adds_of_kept (fun memory => ?_) rfl rfl)
      rw [own memory d inForce] at single
      cases single
  | failed d failure absent inForce unkept fails =>
      refine listing.same listing.undisturbed rfl (congrArg (List.map Registry.mode) ?_)
      by_cases memory : settings.protocol = memoryProtocol
      · rw [own memory d inForce] at fails
        cases fails
      · obtain ⟨make, build⟩ := foreign memory d inForce
        rw [build] at fails ⊢
        exact (Registry.buildsAnew_foreign "" 0 false make).failed settings x.pool failure fails
  | built d number absent inForce unkept builds =>
      by_cases memory : settings.protocol = memoryProtocol
      · obtain rfl := own memory d inForce
        obtain rfl := (Except.ok.inj builds).symm
        exact listing.enter absent listing.undisturbed
          (adds_of_memory memory (List.length_map _).symm rfl List.map_append)
      · obtain ⟨make, build⟩ := foreign memory d inForce
        rw [build] at builds ⊢
        obtain ⟨behaviour, made⟩ := Registry.registries_buildForeign builds
        refine listing.enter absent (listing.undisturbed.same ?_) (adds_of_foreign memory rfl
          ((congrArg (List.map Registry.mode) made).trans List.map_append))
        dsimp only [withEntry, warn]
        split <;> rfl

theorem readied (listing : Listing log x) (memory : settings.protocol = memoryProtocol) :
    x.readied settings = [settings] := by
  have later := listing.obtain settings
  have comes := x.obtain_comes settings
  have inForce := listing.undisturbed.memory
  rw [← memory] at inForce
  rw [Exchange.readied]
  generalize x.obtain settings = got at later comes
  obtain ⟨answer, y⟩ := got
  dsimp only at later comes
  have given : ∀ number, (settings, number) ∈ y.table →
      (y.settings? number).toList = [settings] := by
    intro number there
    obtain ⟨started, found⟩ := later.entered settings number there memory
    rw [getElem?_modes] at found
    obtain ⟨r, known, mode⟩ := Option.map_eq_some_iff.mp found
    rw [ settings?, known, Option.map_some, ← r.fst_mode, mode, Option.toList_some]
  cases comes with
  | entered number entry => exact given number (mem_table_of_entry entry)
  | undefined absent unknown =>
      rw [Catalog.contains, Dictionary.contains, inForce] at unknown
      cases unknown
  | kept d number absent own single =>
      obtain rfl := Option.some.inj (inForce.symm.trans own)
      cases single
  | failed d failure absent own unkept fails =>
      obtain rfl := Option.some.inj (inForce.symm.trans own)
      cases fails
  | built d number => exact given number (List.mem_append_right _ List.mem_cons_self)

end Listing

/-! ### Runs -/

/-- The registries and the tasks are as the settings say that were started, and every entry in a
store is one of a registry. -/
structure Ledger (log : List Registry.Settings) (x : Exchange ε) : Prop where
  listing : Listing log x
  ticking : Ticking log x.tasks
  covered : x.Covered

namespace Ledger

theorem new (world : ε) : Ledger [] (Exchange.new world) where
  listing :=
    { undisturbed := undisturbed_definitions
      nodup := List.nodup_nil
      kinds := fun _ _ _ found => by cases found
      listed := fun _ _ _ found => by cases found
      entered := fun _ _ there => absurd there List.not_mem_nil
      started_iff := fun _ _ _ found => by cases found
      known := fun _ noted => absurd noted List.not_mem_nil }
  ticking := ⟨Timetable.orderly_empty, fun _ below => absurd below (Nat.not_lt_zero _), rfl⟩
  covered _ _ _ entry := absurd entry List.not_mem_nil

theorem calm (ledger : Ledger log x) (calm : Calm x y) : Ledger log y where
  listing := ledger.listing.same (calm.definitions ▸ ledger.listing.undisturbed) calm.table
    calm.modes
  ticking := calm.tasks ▸ ledger.ticking
  covered := calm.covered ledger.covered

theorem define (ledger : Ledger log x)
    {d : Definition (Registry.Pool ε) Registry.Settings Nat} (outside : Outside d) :
    Ledger log (x.define d) where
  listing := ledger.listing.same (ledger.listing.undisturbed.register outside) rfl rfl
  ticking := ledger.ticking
  covered := ledger.covered.of_same rfl fun _ _ => rfl

theorem obtain (ledger : Ledger log x) (settings : Registry.Settings) :
    Ledger log (x.obtain settings).2 where
  listing := ledger.listing.obtain settings
  ticking := by
    have tasks : (x.obtain settings).2.tasks = x.tasks := tasks_obtain x settings
    exact tasks ▸ ledger.ticking
  covered := ledger.covered.quiet (quiet_obtain ledger.listing.undisturbed.grow settings)

theorem start (ledger : Ledger log x) (number : Nat) :
    Ledger (log ++ (x.settings? number).toList) (x.start number).2 := by
  have covered : (x.start number).2.Covered := ledger.covered.quiet (quiet_start x number)
  have begins := x.begins_start number
  generalize (x.start number).2 = y at covered begins
  have mode : ∀ r, x.registry? number = some r →
      x.settings? number = some r.settings ∧ x.modes[number]? = some r.mode := by
    intro r found
    exact ⟨by rw [ settings?, found]; rfl, by rw [getElem?_modes, found]; rfl⟩
  cases begins with
  | missing absent =>
      rw [ settings?, absent]
      exact (List.append_nil log).symm ▸ ledger
  | foreign settings behaviour found =>
      obtain ⟨own, mode⟩ := mode _ found
      have other : settings.protocol ≠ memoryProtocol := fun memory =>
        absurd ((ledger.listing.kinds number settings none mode).mpr memory) (by simp)
      rw [own]
      exact
        { listing := (ledger.listing.note fun memory => absurd memory other).same
            ledger.listing.undisturbed rfl rfl
          ticking := ledger.ticking.note fun rescans => absurd rescans.protocol other
          covered := covered }
  | again settings state found started =>
      obtain ⟨own, mode⟩ := mode _ found
      have noted : settings ∈ log :=
        (ledger.listing.started_iff number settings _ mode).mp started
      rw [own]
      exact
        { listing := ledger.listing.note fun _ => noted
          ticking := ledger.ticking.note fun _ => noted
          covered := covered }
  | plain settings state found fresh unasked =>
      obtain ⟨own, mode⟩ := mode _ found
      rw [own]
      exact
        { listing := ledger.listing.start mode rfl rfl (modes_withMemory x number settings _)
          ticking := ledger.ticking.note fun rescans => by
            have asked := (Registry.Settings.rescans_iff.mp rescans).2
            rw [unasked] at asked
            cases asked
          covered := covered }
  | scanning settings state found fresh period asked =>
      obtain ⟨own, mode⟩ := mode _ found
      have protocol : settings.protocol = memoryProtocol :=
        (ledger.listing.kinds number settings _ mode).mp rfl
      have rescans : settings.Rescans :=
        Registry.Settings.rescans_iff.mpr ⟨protocol, by rw [asked]; rfl⟩
      have unnoted : settings ∉ log := fun noted => by
        have started := (ledger.listing.started_iff number settings _ mode).mpr noted
        rw [fresh] at started
        cases started
      rw [own]
      exact
        { listing := ledger.listing.start mode rfl rfl (modes_withMemory _ number settings _)
          ticking := ledger.ticking.launch rescans unnoted _ _ _
            (Registry.Settings.scanPeriod?_pos asked) _
          covered := covered }

theorem wake (ledger : Ledger log x) (task : Nat) :
    Ledger log { x with tasks := x.tasks.wake task } where
  listing := ledger.listing.same ledger.listing.undisturbed rfl rfl
  ticking := ledger.ticking.wake task
  covered := ledger.covered.of_same rfl fun _ _ => rfl

theorem leads {more : List Registry.Settings} (ledger : Ledger log x)
    (leads : Leads Outside x more y) : Ledger (log ++ more) y := by
  induction leads generalizing log with
  | calm calm => exact (List.append_nil log).symm ▸ ledger.calm calm
  | define d outside => exact (List.append_nil log).symm ▸ ledger.define outside
  | obtain x settings => exact (List.append_nil log).symm ▸ ledger.obtain settings
  | start x number => exact ledger.start number
  | wake x task => exact (List.append_nil log).symm ▸ ledger.wake task
  | trans _ _ first second => exact List.append_assoc log _ _ ▸ second (first ledger)

theorem coveredBy (ledger : Ledger log x) : x.CoveredBy (x.table.map (·.2)) := by
  intro address id subscriber entry
  obtain ⟨number, outlet, known, rest⟩ := ledger.covered address id subscriber entry
  obtain ⟨state, found⟩ := exists_memory_of_outlet? known
  have mode : x.modes[number]? = some (outlet, some state.started) := by
    rw [getElem?_modes, found]
    rfl
  exact ⟨number, List.mem_map_of_mem (ledger.listing.listed number outlet _ mode), outlet, known,
    rest⟩

end Ledger

end Exchange

namespace Hub

open Registry (Outside)

variable {ε : Type}

/-- There is one started task for each of the settings of memory registries that were started and
ask for one; who is given a memory registry starts it under the settings asked for. The first end of
the hub stops all tasks, empties the table and ends every subscription. -/
theorem one_task_for_each_rescan {settings : Settings} {world : ε} {deeds : List (Deed ε)}
    (spared : .act .destroy ∉ deeds) (fits : ∀ d ∈ deeds, Fits Outside d) {h : Hub ε}
    (reached : h = (Hub.new settings world).after deeds) :
    h.exchange.tasks.startedCount =
      (((Hub.new settings world).startsAlong deeds).toFinset.filter
        Registry.Settings.Rescans).card ∧
    (∀ s : Registry.Settings, s.protocol = Registry.memoryProtocol → h.exchange.readied s = [s]) ∧
    h.destroy.exchange.tasks.startedCount = 0 ∧
    h.destroy.exchange.table = [] ∧
    ∀ address id, (h.destroy.exchange.store address).subscribersOf id = [] := by
  have leads := leads_after (Hub.new settings world) spared fits
  rw [← reached] at leads
  have ledger := (Exchange.Ledger.new world).leads leads.exchange
  rw [List.nil_append] at ledger
  have fresh : h.destroyed = false := leads.destroyed
  have shut := shutDown_destroy fresh ledger.ticking.orderly
  exact ⟨ledger.ticking.startedCount, fun s memory => ledger.listing.readied memory,
    shut.startedCount, shut.table, subscribersOf_destroy fresh ledger.coveredBy⟩

/-- Another registry at the same address, whose period stands between blanks, and one that pushes
nothing again by itself. -/
def padded : Registry.Settings :=
  { minutely with parameters := .ofList [(Registry.Settings.scanPeriodKey, " +500 ")] }

def unhurried : Registry.Settings :=
  { minutely with parameters := .ofList [(Registry.Settings.scanPeriodKey, "0")] }

/-- Registries that are started by themselves, some twice, and one of them for a reference. -/
def errands : List (Deed Unit) :=
  [.obtain minutely, .start 0, .obtain padded, .start 1, .start 0, .obtain unhurried, .start 2,
    .start 1, .act (.addReference scanned []), .act (.turn (.bind 0))]

theorem one_task_for_each_rescan_shared :
    (Hub.new Settings.default ()).startsAlong errands =
      [minutely, padded, minutely, unhurried, padded, minutely] ∧
    ((Hub.new Settings.default ()).after errands).exchange.tasks.startedCount = 2 := by
  have log : (Hub.new Settings.default ()).startsAlong errands =
      [minutely, padded, minutely, unhurried, padded, minutely] := by rfl
  have spared : .act .destroy ∉ errands := by simp [errands]
  have fits : ∀ d ∈ errands, Fits Outside d := by simp [errands, Fits]
  have counted := (one_task_for_each_rescan spared fits
    (rfl : (Hub.new Settings.default ()).after errands = _)).1
  rw [log] at counted
  exact ⟨log, counted.trans (by decide)⟩

end Hub

end Switchboard
