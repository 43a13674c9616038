import Switchboard.Proofs.Deeds
import Switchboard.Proofs.Outlets

/-! Where the registries of the table stand. As long as definitions give memory registries to
settings of the memory protocol alone, each of them anew and at the address asked for, no entry of
the table leads to a memory registry at another address, whatever is done with a hub. -/
namespace Switchboard

def Catalog.Keyed {ε α τ : Type} (P : Definition ε α τ → Prop) (c : Catalog ε α τ) : Prop :=
  ∀ key d, c.definitions.get? key = some d → d.key = key ∧ P d

theorem Catalog.Keyed.register {ε α τ : Type} {P : Definition ε α τ → Prop}
    {c : Catalog ε α τ} (keyed : c.Keyed P) {d : Definition ε α τ} (own : P d) :
    (c.register d).catalog.Keyed P := by
  intro key e found
  rcases c.get?_register_cases d key with same | ⟨rfl, taken⟩
  · exact keyed key e (same.symm.trans found)
  · obtain rfl := Option.some.inj (taken.symm.trans found)
    exact ⟨rfl, own⟩

theorem Catalog.kept_of_register {ε α τ : Type} (c : Catalog ε α τ) (d : Definition ε α τ)
    {key : String} {thing : τ} (kept : (c.register d).catalog.kept.get? key = some thing) :
    c.kept.get? key = some thing := by
  rw [register] at kept
  split at kept
  · exact kept
  · split at kept
    · exact kept
    · rw [Dictionary.get?_erase] at kept
      split at kept
      · cases kept
      · exact kept

namespace Registry

variable {ε : Type}

/-- Settings may lead to a registry that is no memory registry, or to one at their own address if
they are of the memory protocol. -/
def IsAt (r : Registry ε) (s : Settings) : Prop :=
  ∀ outlet, r.outlet? = some outlet → s.protocol = memoryProtocol ∧ outlet.address = s.address

theorem isAt_of_foreign {r : Registry ε} (foreign : r.outlet? = none) (s : Settings) : r.IsAt s :=
  fun _ known => by cases foreign.symm.trans known

/-- A definition whose registries are there, where they were asked for, and never the same memory
registry twice. -/
structure BuildsInPlace (d : Definition (Pool ε) Settings Nat) : Prop where
  grows : Grows d.build
  gives : ∀ settings pool number, settings.protocol = d.key →
    (d.build settings pool).1 = .ok number →
      ∃ r, (d.build settings pool).2.registries[number]? = some r ∧ r.IsAt settings ∧
        (d.single = true → r.outlet? = none)

theorem buildsInPlace_memory : BuildsInPlace (memoryDefinition (ε := ε)) where
  grows := grows_buildMemory
  gives settings pool number protocol built := by
    obtain rfl := Except.ok.inj built
    refine ⟨⟨settings, .memory .new⟩, List.getElem?_concat_length, fun outlet known => ?_, nofun⟩
    obtain rfl := Option.some.inj known
    exact ⟨protocol, rfl⟩

theorem buildsInPlace_foreign (key : String) (order : Int) (single : Bool)
    (make : Settings → ε → Outcome (Foreign ε) × ε) :
    BuildsInPlace ⟨key, order, single, buildForeign make⟩ where
  grows := grows_buildForeign make
  gives settings pool number _ built := by
    obtain ⟨rfl, -⟩ := (buildsAnew_foreign key order single make).built settings pool number built
    dsimp only [buildForeign] at built ⊢
    split at built
    next => cases built
    next behaviour world made =>
      exact ⟨⟨settings, .foreign behaviour⟩, List.getElem?_concat_length,
        isAt_of_foreign rfl settings, fun _ => rfl⟩

end Registry

namespace Exchange

open Registry (BuildsInPlace Registration Memory memoryProtocol)

variable {ε : Type} {x y z : Exchange ε} {log : List Registry.Settings}
  {settings : Registry.Settings} {number : Nat}

/-- Registries keep their numbers, and memory registries their settings. -/
def Stays (x y : Exchange ε) : Prop :=
  ∀ number r, x.registry? number = some r →
    ∃ q, y.registry? number = some q ∧ q.outlet? = r.outlet?

namespace Stays

theorem refl (x : Exchange ε) : Stays x x := fun _ r known => ⟨r, known, rfl⟩

theorem trans (first : Stays x y) (second : Stays y z) : Stays x z := by
  intro number r known
  obtain ⟨q, still, same⟩ := first number r known
  obtain ⟨p, last, equal⟩ := second number q still
  exact ⟨p, last, equal.trans same⟩

theorem of_same (same : ∀ number, y.registry? number = x.registry? number) : Stays x y :=
  fun number r known => ⟨r, (same number).trans known, rfl⟩

theorem of_append {more : List (Registry ε)}
    (registries : y.pool.registries = x.pool.registries ++ more) : Stays x y := by
  intro number r known
  refine ⟨r, ?_, rfl⟩
  rw [ registry?, registries, List.getElem?_append_left (List.getElem?_eq_some_iff.mp known).1]
  exact known

theorem of_modes (modes : y.modes = x.modes) : Stays x y := by
  intro number r known
  have mode : y.modes[number]? = some r.mode := by
    rw [modes, getElem?_modes, known]
    rfl
  rw [getElem?_modes] at mode
  obtain ⟨q, found, same⟩ := Option.map_eq_some_iff.mp mode
  refine ⟨q, found, ?_⟩
  obtain ⟨own, state | behaviour⟩ := q <;> obtain ⟨other, old | foreign⟩ := r <;>
    simp_all [Registry.mode, Registry.outlet?]

theorem withMemory {old : Memory} (found : x.registry? number = some ⟨settings, .memory old⟩)
    (state : Memory) : Stays x (x.withMemory number settings state) := by
  intro other r known
  rw [ registry?_withMemory found]
  split
  next same =>
    obtain rfl := Option.some.inj (found.symm.trans (same ▸ known))
    exact ⟨_, rfl, rfl⟩
  next => exact ⟨r, known, rfl⟩

end Stays

theorem stays_start (x : Exchange ε) (number : Nat) : Stays x (x.start number).2 := by
  have begins := x.begins_start number
  generalize (x.start number).2 = y at begins
  cases begins with
  | missing => exact .refl x
  | foreign => exact .of_same fun _ => rfl
  | again => exact .refl x
  | plain settings state found => exact .withMemory found _
  | scanning settings state found => exact .withMemory found _

theorem stays_destroy (x : Exchange ε) (number : Nat) : Stays x (x.destroy number).2 := by
  rw [destroy]
  split
  next => exact .refl x
  next => exact .of_same fun _ => rfl
  next settings state found =>
    have left : ∀ w : Exchange ε, w.pool = x.pool → Stays x ((state.subscriptions.foldl
        (fun y entry => y.forget settings.address entry.1 entry.2) w).withMemory number
          settings .new) := by
      intro w pool
      have still : ∀ other, registry? (state.subscriptions.foldl
          (fun y entry => y.forget settings.address entry.1 entry.2) w) other =
            x.registry? other := fun other => by
        rw [ registry?_foldl_forget, registry?, pool, registry?]
      exact .trans (.of_same still) (.withMemory ((still number).trans found) _)
    dsimp only
    cases state.rescan with
    | none => exact left x rfl
    | some task => exact left _ rfl

theorem stays_retire (x : Exchange ε) (settings : Registry.Settings) (number : Nat) :
    Stays x (x.retire settings number) := by
  have gone := stays_destroy (x.withWorld (x.hooks.foldl
    (fun world hook => hook.before settings world) x.world)) number
  rw [retire]
  generalize (x.withWorld _).destroy number = done at gone
  obtain ⟨failure | value, y⟩ := done
  · exact gone
  · exact gone

theorem stays_destroyAll (x : Exchange ε) : Stays x x.destroyAll :=
  List.foldlRecOn x.table _ (motive := Stays x) (.of_same fun _ => rfl)
    fun _ before entry _ => before.trans (stays_retire _ entry.1 entry.2)

/-- Every entry of the table leads to a registry that its settings may lead to, and so will every
entry to come. -/
structure InPlace (x : Exchange ε) : Prop where
  builds : x.definitions.Keyed BuildsInPlace
  kept : ∀ key number, x.definitions.kept.get? key = some number →
    ∃ r, x.registry? number = some r ∧ r.outlet? = none
  table : ∀ entry ∈ x.table, ∃ r, x.registry? entry.2 = some r ∧ r.IsAt entry.1

namespace InPlace

theorem grow (inPlace : x.InPlace) : x.definitions.Grow := fun key d found =>
  (inPlace.builds key d found).2.grows

theorem new (world : ε) : (Exchange.new world).InPlace where
  builds := Catalog.Keyed.register (fun _ _ found => by cases found) Registry.buildsInPlace_memory
  kept _ _ found := nomatch found
  table _ listed := absurd listed List.not_mem_nil

theorem stays (inPlace : x.InPlace) (stays : Stays x y) (table : y.table ⊆ x.table)
    (definitions : y.definitions = x.definitions) : y.InPlace where
  builds := definitions ▸ inPlace.builds
  kept key number found := by
    rw [definitions] at found
    obtain ⟨r, known, foreign⟩ := inPlace.kept key number found
    obtain ⟨q, still, same⟩ := stays number r known
    exact ⟨q, still, same.trans foreign⟩
  table entry listed := by
    obtain ⟨r, known, isAt⟩ := inPlace.table entry (table listed)
    obtain ⟨q, still, same⟩ := stays entry.2 r known
    exact ⟨q, still, fun outlet found => isAt outlet (same.symm.trans found)⟩

theorem define (inPlace : x.InPlace) {d : Definition (Registry.Pool ε) Registry.Settings Nat}
    (fits : BuildsInPlace d) : (x.define d).InPlace where
  builds := inPlace.builds.register fits
  kept key number found := inPlace.kept key number (x.definitions.kept_of_register d found)
  table := inPlace.table

theorem withEntry (inPlace : x.InPlace) {r : Registry ε} (known : x.registry? number = some r)
    (isAt : r.IsAt settings) : (x.withEntry settings number).InPlace where
  builds := inPlace.builds
  kept := inPlace.kept
  table entry listed := by
    rcases List.mem_append.mp listed with before | last
    · exact inPlace.table entry before
    · obtain rfl := List.mem_singleton.mp last
      exact ⟨r, known, isAt⟩

theorem obtain (inPlace : x.InPlace) (settings : Registry.Settings) :
    (x.obtain settings).2.InPlace := by
  have comes := x.obtain_comes settings
  generalize x.obtain settings = got at comes
  obtain ⟨answer, y⟩ := got
  dsimp only at comes ⊢
  cases comes with
  | entered => exact inPlace
  | undefined => exact inPlace
  | kept d number absent inForce single known =>
      obtain ⟨r, there, foreign⟩ := inPlace.kept settings.protocol number known
      exact inPlace.withEntry there (Registry.isAt_of_foreign foreign settings)
  | failed d failure absent inForce =>
      obtain ⟨more, registries, -⟩ := (inPlace.builds _ d inForce).2.grows settings x.pool
      exact inPlace.stays (.of_append registries) (List.Subset.refl _) rfl
  | built d number absent inForce unkept builds =>
      obtain ⟨own, fits⟩ := inPlace.builds _ d inForce
      obtain ⟨more, registries, -⟩ := fits.grows settings x.pool
      obtain ⟨r, there, isAt, plural⟩ := fits.gives settings x.pool number own.symm builds
      have grown : InPlace { x with pool := (d.build settings x.pool).2 } :=
        inPlace.stays (.of_append registries) (List.Subset.refl _) rfl
      refine InPlace.withEntry ?_ there isAt
      cases single : d.single with
      | false => exact grown
      | true =>
          refine ⟨grown.builds, fun key other found => ?_, grown.table⟩
          rw [if_pos rfl, Catalog.keep, Dictionary.get?_insert] at found
          split at found
          · obtain rfl := Option.some.inj found
            exact ⟨r, there, plural single⟩
          · exact grown.kept key other found

theorem leads (inPlace : x.InPlace) (leads : Leads BuildsInPlace x log y) : y.InPlace := by
  induction leads with
  | calm calm =>
      exact inPlace.stays (.of_modes calm.modes) (fun _ listed => calm.table ▸ listed)
        calm.definitions
  | define d fits => exact inPlace.define fits
  | obtain x settings => exact inPlace.obtain settings
  | start x number =>
      obtain ⟨table, definitions⟩ := table_start x number
      exact inPlace.stays (stays_start x number) (fun _ listed => table ▸ listed) definitions
  | wake x task => exact inPlace.stays (.of_same fun _ => rfl) (List.Subset.refl _) rfl
  | trans _ _ first second => exact second (first inPlace)

theorem destroyAll (inPlace : x.InPlace) : x.destroyAll.InPlace := by
  have lasts := lasts_destroyAll x
  exact inPlace.stays (stays_destroyAll x)
    (fun _ listed => absurd (lasts.table ▸ listed) List.not_mem_nil) lasts.definitions

theorem outlet (inPlace : x.InPlace) (entered : (settings, number) ∈ x.table)
    {outlet : Registry.Settings} (known : x.outlet? number = some outlet) :
    settings.protocol = memoryProtocol ∧ outlet.address = settings.address := by
  obtain ⟨r, found, isAt⟩ := inPlace.table (settings, number) entered
  rw [outlet?, found] at known
  exact isAt outlet known

end InPlace

theorem mem_table_obtain (got : x.obtain settings = (.ok number, y)) :
    (settings, number) ∈ y.table := by
  have comes := x.obtain_comes settings
  rw [got] at comes
  cases comes with
  | entered _ entry => exact mem_table_of_entry entry
  | kept => exact List.mem_append_right _ List.mem_cons_self
  | built => exact List.mem_append_right _ List.mem_cons_self

theorem mem_table_ready (got : x.ready settings = (.ok number, y)) :
    (settings, number) ∈ y.table := by
  cases obtained : x.obtain settings with
  | mk answer found =>
    rw [ready, obtained] at got
    cases answer with
    | error failure => cases got
    | ok other =>
        have table := (table_start found other).1
        rw [proceed] at got
        generalize found.start other = begun at got table
        obtain ⟨failure | value, started⟩ := begun
        · cases got
        · cases got
          exact table ▸ mem_table_obtain obtained

theorem mem_table_enter {r : Registration} (entered : enter r settings x = (.ok number, y)) :
    (settings, number) ∈ y.table := by
  cases got : x.ready settings with
  | mk answer started =>
    rw [enter, got] at entered
    cases answer with
    | error failure => cases entered
    | ok other =>
        have table := (calm_register started other r).table
        rw [proceed] at entered
        generalize started.register other r = registered at entered table
        obtain ⟨failure | value, after⟩ := registered
        · cases entered
        · cases entered
          exact table ▸ mem_table_ready got

end Exchange

namespace Hub

open Registry (BuildsInPlace)

variable {ε : Type} {h : Hub ε}

theorem inPlace_deed (inPlace : h.exchange.InPlace) {d : Deed ε} (fits : Fits BuildsInPlace d) :
    (h.deed d).exchange.InPlace := by
  by_cases ends : d = .act .destroy
  · rw [ends, deed, act, destroy]
    split
    · exact inPlace
    · exact Exchange.InPlace.destroyAll
        (x := { h.exchange with tasks := h.exchange.tasks.stopAll })
        (inPlace.stays (.of_same fun _ => rfl) (List.Subset.refl _) rfl)
  · exact inPlace.leads (leads_deed h ends fits).exchange

/-- Whatever is done with a new hub, its registries are in place. -/
theorem inPlace_after (settings : Settings) (world : ε) {deeds : List (Deed ε)}
    (fits : ∀ d ∈ deeds, Fits BuildsInPlace d) :
    ((Hub.new settings world).after deeds).exchange.InPlace :=
  List.foldlRecOn deeds deed (motive := fun g : Hub ε => g.exchange.InPlace)
    (Exchange.InPlace.new world) fun _ before d listed => inPlace_deed before (fits d listed)

end Hub

end Switchboard
