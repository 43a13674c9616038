import Mathlib.Data.Finset.Card
import Mathlib.Data.List.Nodup
import Switchboard.Exchange.Table
import Switchboard.Proofs.Catalog

/-! One registry for each settings. Whoever asks for a registry with settings for which one was
handed out gets the same again, whatever definitions have come since, until all registries are
destroyed. For any other settings a registry is built that nobody else has, or the failure of the
definition in force is passed on and the next call tries again. -/
namespace Switchboard

namespace Registry

variable {ε : Type}

structure Settings.Agree (s t : Settings) : Prop where
  protocol : s.protocol = t.protocol
  address : s.address = t.address
  timeout : s.timeout = t.timeout
  registers : s.registers = t.registers
  subscribes : s.subscribes = t.subscribes
  parameters : ∀ key, s.parameters.get? key = t.parameters.get? key

theorem Settings.agree_iff {s t : Settings} : s.Agree t ↔ s = t := by
  constructor
  · intro agree
    cases s
    cases t
    obtain ⟨rfl, rfl, rfl, rfl, rfl, parameters⟩ := agree
    obtain rfl := Dictionary.ext_get? parameters
    rfl
  · rintro rfl
    exact ⟨rfl, rfl, rfl, rfl, rfl, fun _ => rfl⟩

/-- A definition whose factory builds a registry that nobody has yet, or fails and builds none. -/
structure BuildsAnew (d : Definition (Pool ε) Settings Nat) : Prop where
  built : ∀ settings pool number, (d.build settings pool).1 = .ok number →
    number = pool.registries.length ∧
      ∃ registry, (d.build settings pool).2.registries = pool.registries ++ [registry]
  failed : ∀ settings pool failure, (d.build settings pool).1 = .error failure →
    (d.build settings pool).2.registries = pool.registries

theorem buildsAnew_memory : BuildsAnew (memoryDefinition (ε := ε)) where
  built settings pool number built := ⟨(Except.ok.inj built).symm, ⟨settings, .memory .new⟩, rfl⟩
  failed _ _ _ failed := by cases failed

theorem buildsAnew_foreign (key : String) (order : Int) (single : Bool)
    (make : Settings → ε → Outcome (Foreign ε) × ε) :
    BuildsAnew ⟨key, order, single, buildForeign make⟩ := by
  constructor
  · intro settings pool number built
    dsimp only [buildForeign] at built ⊢
    split at built
    next => cases built
    next behaviour world made =>
      exact ⟨(Except.ok.inj built).symm, ⟨settings, .foreign behaviour⟩, rfl⟩
  · intro settings pool failure failed
    dsimp only [buildForeign] at failed ⊢
    split at failed
    next => rfl
    next => cases failed

structure Prototype (d : Definition (Pool ε) Settings Nat) : Prop extends BuildsAnew d where
  plural : d.single = false

theorem prototypes_definitions : (definitions ε).Every Prototype :=
  Catalog.Every.register (fun _ _ found => by cases found) ⟨buildsAnew_memory, rfl⟩

def Foreign.idle : Foreign ε where
  start world := (.ok true, world)
  register _ world := (.ok (), world)
  unregister _ world := (.ok (), world)
  subscribe _ _ world := ⟨.ok [], [], world⟩
  unsubscribe _ _ world := (.ok (), world)
  destroy world := (.ok (), world)

end Registry

namespace Exchange

variable {ε : Type} {x y z : Exchange ε}

/-- Nothing comes into the table or goes from it, and no registry is built. -/
structure Lasts (x y : Exchange ε) : Prop where
  table : y.table = x.table
  definitions : y.definitions = x.definitions
  hooks : y.hooks = x.hooks
  size : y.pool.registries.length = x.pool.registries.length

theorem Lasts.refl (x : Exchange ε) : Lasts x x := ⟨rfl, rfl, rfl, rfl⟩

theorem Lasts.trans (first : Lasts x y) (second : Lasts y z) : Lasts x z :=
  ⟨second.table.trans first.table, second.definitions.trans first.definitions,
    second.hooks.trans first.hooks, second.size.trans first.size⟩

theorem lasts_foldl {α : Type} {f : Exchange ε → α → Exchange ε} (step : ∀ y a, Lasts y (f y a))
    (items : List α) (x : Exchange ε) : Lasts x (items.foldl f x) := by
  induction items generalizing x with
  | nil => exact .refl x
  | cons item rest ih => exact (step x item).trans (ih (f x item))

theorem lasts_withWorld (x : Exchange ε) (world : ε) : Lasts x (x.withWorld world) :=
  ⟨rfl, rfl, rfl, rfl⟩

theorem warn_nil (x : Exchange ε) : x.warn [] = x := by
  rw [warn, List.append_nil]

theorem lasts_warn (x : Exchange ε) (warnings : List Warning) : Lasts x (x.warn warnings) :=
  ⟨rfl, rfl, rfl, rfl⟩

theorem lasts_forget (x : Exchange ε) (address dataId : String) (subscriber : Subscriber) :
    Lasts x (x.forget address dataId subscriber) :=
  ⟨rfl, rfl, rfl, rfl⟩

theorem lasts_destroy (x : Exchange ε) (number : Nat) : Lasts x (x.destroy number).2 := by
  rw [destroy]
  split
  next => exact .refl x
  next => exact lasts_withWorld x _
  next settings state _ =>
    have left := lasts_foldl
      (fun (y : Exchange ε) (entry : String × Subscriber) =>
        lasts_forget y settings.address entry.1 entry.2)
      state.subscriptions
    refine Lasts.trans ?_ ((left _).trans ⟨rfl, rfl, rfl, List.length_set⟩)
    split <;> exact ⟨rfl, rfl, rfl, rfl⟩

theorem lasts_retire (x : Exchange ε) (settings : Registry.Settings) (number : Nat) :
    Lasts x (x.retire settings number) := by
  have gone : Lasts x ((x.withWorld (x.hooks.foldl
      (fun world hook => hook.before settings world) x.world)).destroy number).2 :=
    (lasts_withWorld x _).trans (lasts_destroy _ number)
  rw [retire]
  generalize (x.withWorld _).destroy number = done at gone
  obtain ⟨failure | value, y⟩ := done
  · exact (gone.trans (lasts_warn y _)).trans (lasts_withWorld _ _)
  · exact gone.trans (lasts_withWorld _ _)

theorem lasts_destroyAll (x : Exchange ε) : Lasts { x with table := [] } x.destroyAll :=
  lasts_foldl (fun y entry => lasts_retire y entry.1 entry.2) x.table _

/-! ### What a request may come to -/

def withEntry (x : Exchange ε) (settings : Registry.Settings) (number : Nat) : Exchange ε :=
  { x with table := x.table ++ [(settings, number)] }.warn
    (if quietSize < x.table.length + 1 then [.manyRegistries (x.table.length + 1)] else [])

theorem mem_table_of_entry {settings : Registry.Settings} {number : Nat}
    (entry : x.entry? settings = some number) : (settings, number) ∈ x.table := by
  obtain ⟨⟨own, other⟩, first, rfl⟩ := Option.map_eq_some_iff.mp entry
  obtain rfl : own = settings := by simpa using List.find?_some first
  exact List.mem_of_find?_eq_some first

theorem entry?_eq_some_iff (nodup : (x.table.map (·.1)).Nodup) {settings : Registry.Settings}
    {number : Nat} : x.entry? settings = some number ↔ (settings, number) ∈ x.table := by
  constructor
  · exact mem_table_of_entry
  · intro entered
    cases first : x.table.find? (·.1 == settings) with
    | none => exact absurd (List.find?_eq_none.mp first _ entered) (by simp)
    | some entry =>
        have same : entry.1 = settings := by simpa using List.find?_some first
        have one := List.inj_on_of_nodup_map nodup (List.mem_of_find?_eq_some first) entered same
        rw [ entry?, first, one]
        rfl

theorem entry?_eq_none_iff {settings : Registry.Settings} :
    x.entry? settings = none ↔ settings ∉ x.table.map (·.1) := by
  rw [ entry?, Option.map_eq_none_iff, List.find?_eq_none, List.mem_map]
  constructor
  · rintro differ ⟨entry, entered, rfl⟩
    exact differ entry entered (beq_self_eq_true _)
  · intro absent entry entered same
    exact absent ⟨entry, entered, beq_iff_eq.mp same⟩

inductive Comes (x : Exchange ε) (settings : Registry.Settings) :
    Outcome Nat → Exchange ε → Prop where
  | entered (number : Nat) (entry : x.entry? settings = some number) :
      Comes x settings (.ok number) x
  | undefined (absent : x.entry? settings = none)
      (unknown : x.definitions.contains settings.protocol = false) :
      Comes x settings (.error (.missingExtension x.definitions.capability settings.protocol)) x
  | kept (d : Definition (Registry.Pool ε) Registry.Settings Nat) (number : Nat)
      (absent : x.entry? settings = none)
      (inForce : x.definitions.definitions.get? settings.protocol = some d)
      (single : d.single = true)
      (known : x.definitions.kept.get? settings.protocol = some number) :
      Comes x settings (.ok number) (x.withEntry settings number)
  | failed (d : Definition (Registry.Pool ε) Registry.Settings Nat) (failure : Failure)
      (absent : x.entry? settings = none)
      (inForce : x.definitions.definitions.get? settings.protocol = some d)
      (unkept : d.single = true → x.definitions.kept.get? settings.protocol = none)
      (fails : (d.build settings x.pool).1 = .error failure) :
      Comes x settings (.error failure) { x with pool := (d.build settings x.pool).2 }
  | built (d : Definition (Registry.Pool ε) Registry.Settings Nat) (number : Nat)
      (absent : x.entry? settings = none)
      (inForce : x.definitions.definitions.get? settings.protocol = some d)
      (unkept : d.single = true → x.definitions.kept.get? settings.protocol = none)
      (builds : (d.build settings x.pool).1 = .ok number) :
      Comes x settings (.ok number)
        (withEntry { x with
          definitions :=
            if d.single then x.definitions.keep settings.protocol (.ok number) else x.definitions
          pool := (d.build settings x.pool).2 } settings number)

theorem obtain_of_entry {settings : Registry.Settings} {number : Nat}
    (entry : x.entry? settings = some number) : x.obtain settings = (.ok number, x) := by
  rw [Exchange.obtain, entry]

theorem obtain_of_error {settings : Registry.Settings} (absent : x.entry? settings = none)
    {failure : Failure} {c : Registry.Definitions ε} {pool : Registry.Pool ε}
    (found : x.definitions.get settings.protocol settings x.pool = ⟨.error failure, c, pool⟩) :
    x.obtain settings = (.error failure, { x with definitions := c, pool := pool }) := by
  rw [Exchange.obtain, absent, found]

theorem obtain_of_ok {settings : Registry.Settings} (absent : x.entry? settings = none)
    {number : Nat} {c : Registry.Definitions ε} {pool : Registry.Pool ε}
    (found : x.definitions.get settings.protocol settings x.pool = ⟨.ok number, c, pool⟩) :
    x.obtain settings =
      (.ok number, withEntry { x with definitions := c, pool := pool } settings number) := by
  rw [Exchange.obtain, absent, found]
  simp only [withEntry, List.length_append, List.length_singleton]
  split
  · rfl
  · rw [warn_nil]

theorem obtain_comes (x : Exchange ε) (settings : Registry.Settings) :
    Comes x settings (x.obtain settings).1 (x.obtain settings).2 := by
  cases entry : x.entry? settings with
  | some number =>
      rw [obtain_of_entry entry]
      exact .entered number entry
  | none =>
      cases inForce : x.definitions.definitions.get? settings.protocol with
      | none =>
          have unknown : x.definitions.contains settings.protocol = false := by
            rw [Catalog.contains, Dictionary.contains, inForce, Option.isSome_none]
          rw [obtain_of_error entry (x.definitions.get_of_missing unknown settings x.pool)]
          exact .undefined entry unknown
      | some d =>
          by_cases known : d.single = true ∧
              ∃ number, x.definitions.kept.get? settings.protocol = some number
          · obtain ⟨single, number, kept⟩ := known
            rw [obtain_of_ok entry (Catalog.get_of_kept inForce single kept settings x.pool)]
            exact .kept d number entry inForce single kept
          · have unkept : d.single = true → x.definitions.kept.get? settings.protocol = none :=
              fun single => Option.eq_none_iff_forall_ne_some.mpr
                fun number kept => known ⟨single, number, kept⟩
            have found := Catalog.get_of_unkept inForce unkept settings x.pool
            cases made : (d.build settings x.pool).1 with
            | error failure =>
                simp only [made, Catalog.keep, ite_self] at found
                rw [obtain_of_error entry found]
                exact .failed d failure entry inForce unkept made
            | ok number =>
                rw [made] at found
                rw [obtain_of_ok entry found]
                exact .built d number entry inForce unkept made

/-! ### Runs -/

def define (x : Exchange ε) (d : Definition (Registry.Pool ε) Registry.Settings Nat) :
    Exchange ε :=
  { x with definitions := (x.definitions.register d).catalog }.warn
    (x.definitions.register d).warnings

/-- A request for a registry: its settings, its answer, and if a registry was built for it. -/
structure Request where
  settings : Registry.Settings
  answer : Outcome Nat
  built : Bool

def Request.of (x : Exchange ε) (settings : Registry.Settings) : Request :=
  ⟨settings, (x.obtain settings).1,
    decide (x.pool.registries.length < (x.obtain settings).2.pool.registries.length)⟩

inductive Use (ε : Type) where
  | obtain (settings : Registry.Settings)
  | define (d : Definition (Registry.Pool ε) Registry.Settings Nat)
  | stir (world : ε)
  | destroyAll

structure Record (ε : Type) where
  exchange : Exchange ε
  requests : List Request

def Record.use (r : Record ε) : Use ε → Record ε
  | .obtain settings => ⟨(r.exchange.obtain settings).2, r.requests ++ [.of r.exchange settings]⟩
  | .define d => ⟨r.exchange.define d, r.requests⟩
  | .stir world => ⟨r.exchange.withWorld world, r.requests⟩
  | .destroyAll => ⟨r.exchange.destroyAll, []⟩

def Record.after (r : Record ε) (uses : List (Use ε)) : Record ε := uses.foldl .use r

def Given (requests : List Request) (settings : Registry.Settings) (number : Nat) : Prop :=
  ∃ r ∈ requests, r.settings = settings ∧ r.answer = .ok number

theorem given_concat_iff {requests : List Request} {r : Request} {settings : Registry.Settings}
    {number : Nat} : Given (requests ++ [r]) settings number ↔
      Given requests settings number ∨ r.settings = settings ∧ r.answer = .ok number := by
  simp [Given, List.mem_append, or_and_right, exists_or]

theorem Given.append {requests : List Request} {settings : Registry.Settings} {number : Nat}
    (given : Given requests settings number) (more : List Request) :
    Given (requests ++ more) settings number := by
  obtain ⟨r, asked, own⟩ := given
  exact ⟨r, List.mem_append_left _ asked, own⟩

def served (requests : List Request) : List Registry.Settings :=
  (requests.filter (·.answer.isOk)).map (·.settings)

theorem mem_served_iff {requests : List Request} {settings : Registry.Settings} :
    settings ∈ served requests ↔ ∃ number, Given requests settings number := by
  rw [served, List.mem_map]
  constructor
  · rintro ⟨r, asked, rfl⟩
    obtain ⟨member, answered⟩ := List.mem_filter.mp asked
    cases answer : r.answer with
    | error failure =>
        rw [answer] at answered
        cases answered
    | ok number => exact ⟨number, r, member, rfl, answer⟩
  · rintro ⟨number, r, member, rfl, answer⟩
    exact ⟨r, List.mem_filter.mpr ⟨member, by rw [answer]; rfl⟩, rfl⟩

/-- The table has an entry for just the settings for which a registry was handed out. -/
structure Tally (requests : List Request) (x : Exchange ε) : Prop where
  nodup : (x.table.map (·.1)).Nodup
  mem_iff : ∀ settings number, (settings, number) ∈ x.table ↔ Given requests settings number

theorem tally_nil (empty : x.table = []) : Tally [] x := by
  constructor <;> simp [empty, Given]

variable {requests : List Request} {settings : Registry.Settings}

namespace Tally

theorem same (tally : Tally requests x) (table : y.table = x.table) : Tally requests y :=
  ⟨table ▸ tally.nodup, table ▸ tally.mem_iff⟩

theorem entry?_eq_some_iff (tally : Tally requests x) {number : Nat} :
    x.entry? settings = some number ↔ Given requests settings number :=
  (Exchange.entry?_eq_some_iff tally.nodup).trans (tally.mem_iff settings number)

theorem entry?_eq_none_iff (tally : Tally requests x) :
    x.entry? settings = none ↔ settings ∉ served requests := by
  rw [mem_served_iff, ← Option.not_isSome_iff_eq_none, Option.isSome_iff_exists]
  simp only [tally.entry?_eq_some_iff]

theorem concat (tally : Tally requests x) {r : Request} (table : y.table = x.table)
    (known : ∀ number, r.answer = .ok number → (r.settings, number) ∈ x.table) :
    Tally (requests ++ [r]) y := by
  refine ⟨table ▸ tally.nodup, fun settings number => ?_⟩
  rw [table, given_concat_iff, tally.mem_iff]
  constructor
  · exact Or.inl
  · rintro (before | ⟨rfl, answer⟩)
    · exact before
    · exact (tally.mem_iff _ _).mp (known number answer)

theorem enter (tally : Tally requests x) {r : Request} {number : Nat}
    (absent : x.entry? r.settings = none) (answer : r.answer = .ok number)
    (table : y.table = x.table ++ [(r.settings, number)]) : Tally (requests ++ [r]) y := by
  constructor
  · rw [table, List.map_append, List.map_singleton, ← List.concat_eq_append]
    exact .concat (Exchange.entry?_eq_none_iff.mp absent) tally.nodup
  · intro settings other
    rw [table, List.mem_append, given_concat_iff, tally.mem_iff, List.mem_singleton,
      Prod.mk.injEq, answer, Except.ok.injEq, eq_comm (a := settings), eq_comm (a := other)]

theorem comes (tally : Tally requests x) {r : Request} (comes : Comes x r.settings r.answer y) :
    Tally (requests ++ [r]) y := by
  generalize answer : r.answer = given at comes
  cases comes with
  | entered number entry =>
      refine tally.concat rfl fun other handed => ?_
      obtain rfl := Except.ok.inj (answer.symm.trans handed)
      exact mem_table_of_entry entry
  | undefined => exact tally.concat rfl fun _ handed => by cases answer.symm.trans handed
  | kept d number absent => exact tally.enter absent answer rfl
  | failed => exact tally.concat rfl fun _ handed => by cases answer.symm.trans handed
  | built d number absent => exact tally.enter absent answer rfl

theorem use {r : Record ε} (tally : Tally r.requests r.exchange) (u : Use ε) :
    Tally (r.use u).requests (r.use u).exchange := by
  cases u with
  | obtain settings => exact tally.comes (r.exchange.obtain_comes settings)
  | define d => exact tally.same rfl
  | stir world => exact tally.same rfl
  | destroyAll => exact tally_nil (lasts_destroyAll r.exchange).table

theorem after {r : Record ε} (tally : Tally r.requests r.exchange) (uses : List (Use ε)) :
    Tally (r.after uses).requests (r.after uses).exchange :=
  List.foldlRecOn uses _ (motive := fun r : Record ε => Tally r.requests r.exchange) tally
    fun _ before u _ => before.use u

end Tally

/-! ### Prototypes -/

/-- What becomes of a request for a registry after earlier ones, if registries are built anew each
time: the answer, and the exchange afterwards. -/
inductive Meets (earlier : List Request) (x : Exchange ε) (settings : Registry.Settings) :
    Outcome Nat → Exchange ε → Prop where
  | shared (r : Request) (number : Nat) (asked : r ∈ earlier) (agree : r.settings.Agree settings)
      (answer : r.answer = .ok number) : Meets earlier x settings (.ok number) x
  | undefined (first : settings ∉ served earlier)
      (unknown : x.definitions.contains settings.protocol = false) :
      Meets earlier x settings
        (.error (.missingExtension x.definitions.capability settings.protocol)) x
  | failed (d : Definition (Registry.Pool ε) Registry.Settings Nat) (failure : Failure)
      (first : settings ∉ served earlier)
      (inForce : x.definitions.definitions.get? settings.protocol = some d)
      (fails : (d.build settings x.pool).1 = .error failure) :
      Meets earlier x settings (.error failure) { x with pool := (d.build settings x.pool).2 }
  | built (d : Definition (Registry.Pool ε) Registry.Settings Nat) (number : Nat)
      (first : settings ∉ served earlier)
      (inForce : x.definitions.definitions.get? settings.protocol = some d)
      (builds : (d.build settings x.pool).1 = .ok number) :
      Meets earlier x settings (.ok number)
        (withEntry { x with pool := (d.build settings x.pool).2 } settings number)

/-- One registry for each settings, among some requests and for the next one. -/
structure Shares (requests : List Request) (x : Exchange ε) : Prop where
  same_iff : ∀ first ∈ requests, ∀ second ∈ requests, ∀ m n, first.answer = .ok m →
    second.answer = .ok n → (m = n ↔ first.settings.Agree second.settings)
  once : ((requests.filter (·.built)).map (·.settings)).Nodup
  size : x.table.length = (served requests).toFinset.card
  next : ∀ settings, Meets requests x settings (x.obtain settings).1 (x.obtain settings).2

/-- No two entries of the table have one registry, and each was built for its settings. -/
structure Apart (requests : List Request) (x : Exchange ε) : Prop where
  tally : Tally requests x
  numbers : (x.table.map (·.2)).Nodup
  below : ∀ number ∈ x.table.map (·.2), number < x.pool.registries.length
  builds : (requests.filter (·.built)).map (·.settings) = x.table.map (·.1)
  prototypes : x.definitions.Every Registry.Prototype

theorem apart_nil (empty : x.table = []) (prototypes : x.definitions.Every Registry.Prototype) :
    Apart [] x := by
  refine ⟨tally_nil empty, ?_, ?_, ?_, prototypes⟩ <;> simp [empty]

namespace Apart

theorem meets (apart : Apart requests x) (settings : Registry.Settings) :
    Meets requests x settings (x.obtain settings).1 (x.obtain settings).2 := by
  have comes := x.obtain_comes settings
  generalize x.obtain settings = got at comes
  obtain ⟨answer, y⟩ := got
  dsimp only at comes ⊢
  cases comes with
  | entered number entry =>
      obtain ⟨r, asked, own, answer⟩ := apart.tally.entry?_eq_some_iff.mp entry
      exact .shared r number asked (Registry.Settings.agree_iff.mpr own) answer
  | undefined absent unknown =>
      exact .undefined (apart.tally.entry?_eq_none_iff.mp absent) unknown
  | kept d number absent inForce single =>
      rw [(apart.prototypes _ d inForce).plural] at single
      cases single
  | failed d failure absent inForce unkept fails =>
      exact .failed d failure (apart.tally.entry?_eq_none_iff.mp absent) inForce fails
  | built d number absent inForce unkept builds =>
      rw [(apart.prototypes _ d inForce).plural]
      exact .built d number (apart.tally.entry?_eq_none_iff.mp absent) inForce builds

theorem concat (apart : Apart requests x) {r : Request} (tally : Tally (requests ++ [r]) y)
    (table : y.table = x.table) (definitions : y.definitions = x.definitions)
    (size : y.pool.registries.length = x.pool.registries.length) (unbuilt : r.built = false) :
    Apart (requests ++ [r]) y where
  tally := tally
  numbers := table ▸ apart.numbers
  below := by rw [table, size]; exact apart.below
  builds := by rw [table, ← apart.builds]; simp [unbuilt]
  prototypes := definitions ▸ apart.prototypes

theorem enter (apart : Apart requests x) {r : Request} (tally : Tally (requests ++ [r]) y)
    (table : y.table = x.table ++ [(r.settings, x.pool.registries.length)])
    (definitions : y.definitions = x.definitions)
    (size : y.pool.registries.length = x.pool.registries.length + 1) (built : r.built = true) :
    Apart (requests ++ [r]) y where
  tally := tally
  numbers := by
    rw [table, List.map_append, List.map_singleton, ← List.concat_eq_append]
    exact .concat (fun held => Nat.lt_irrefl _ (apart.below _ held)) apart.numbers
  below := by
    intro number held
    rw [table, List.map_append, List.map_singleton, List.mem_append, List.mem_singleton] at held
    rw [size]
    rcases held with before | rfl
    · exact Nat.lt_succ_of_lt (apart.below number before)
    · exact Nat.lt_succ_self _
  builds := by rw [table, List.map_append, ← apart.builds]; simp [built]
  prototypes := definitions ▸ apart.prototypes

theorem obtain (apart : Apart requests x) (settings : Registry.Settings) :
    Apart (requests ++ [.of x settings]) (x.obtain settings).2 := by
  have tally := apart.tally.comes (r := .of x settings) (x.obtain_comes settings)
  have meets := apart.meets settings
  have built : (Request.of x settings).built =
      decide (x.pool.registries.length < (x.obtain settings).2.pool.registries.length) := rfl
  generalize x.obtain settings = got at tally meets built
  obtain ⟨answer, y⟩ := got
  dsimp only at tally meets built ⊢
  cases meets with
  | shared => exact apart.concat tally rfl rfl rfl (by simpa using built)
  | undefined => exact apart.concat tally rfl rfl rfl (by simpa using built)
  | failed d failure first inForce fails =>
      have anew := (apart.prototypes _ d inForce).failed settings x.pool failure fails
      have size := congrArg List.length anew
      exact apart.concat tally rfl rfl size (by simpa [size] using built)
  | built d number first inForce builds =>
      obtain ⟨rfl, registry, more⟩ :=
        (apart.prototypes _ d inForce).built settings x.pool number builds
      have size : (d.build settings x.pool).2.registries.length =
          x.pool.registries.length + 1 := by rw [more, List.length_append, List.length_singleton]
      exact apart.enter tally rfl rfl size (by simpa [withEntry, warn, size] using built)

theorem use {r : Record ε} (apart : Apart r.requests r.exchange) {u : Use ε}
    (defines : ∀ d, u = .define d → Registry.Prototype d) :
    Apart (r.use u).requests (r.use u).exchange := by
  cases u with
  | obtain settings => exact apart.obtain settings
  | define d =>
      exact ⟨apart.tally.same rfl, apart.numbers, apart.below, apart.builds,
        apart.prototypes.register (defines d rfl)⟩
  | stir world =>
      exact ⟨apart.tally.same rfl, apart.numbers, apart.below, apart.builds, apart.prototypes⟩
  | destroyAll =>
      have lasts := lasts_destroyAll r.exchange
      exact apart_nil lasts.table (lasts.definitions ▸ apart.prototypes)

theorem after {r : Record ε} (apart : Apart r.requests r.exchange) {uses : List (Use ε)}
    (defines : ∀ d, .define d ∈ uses → Registry.Prototype d) :
    Apart (r.after uses).requests (r.after uses).exchange :=
  List.foldlRecOn uses _ (motive := fun r : Record ε => Apart r.requests r.exchange) apart
    fun _ before _ listed => before.use fun d same => defines d (same ▸ listed)

theorem shares (apart : Apart requests x) : Shares requests x where
  same_iff first one second two m n handed given := by
    have here := (apart.tally.mem_iff _ _).mpr ⟨first, one, rfl, handed⟩
    have there := (apart.tally.mem_iff _ _).mpr ⟨second, two, rfl, given⟩
    rw [Registry.Settings.agree_iff]
    constructor
    · rintro rfl
      exact congrArg Prod.fst (List.inj_on_of_nodup_map apart.numbers here there rfl)
    · intro same
      exact congrArg Prod.snd (List.inj_on_of_nodup_map apart.tally.nodup here there same)
  once := apart.builds ▸ apart.tally.nodup
  size := by
    have all : (served requests).toFinset = (x.table.map (·.1)).toFinset := by
      ext settings
      rw [List.mem_toFinset, List.mem_toFinset, mem_served_iff, List.mem_map]
      simp [← apart.tally.mem_iff]
    rw [all, List.toFinset_card_of_nodup apart.tally.nodup, List.length_map]
  next := apart.meets

end Apart

/-- As long as all definitions build their registries anew, there is one registry for each settings,
whatever happens to the exchange. -/
theorem one_registry_per_settings (x : Exchange ε)
    (prototypes : x.definitions.Every Registry.Prototype) (unused : x.table = [])
    (uses : List (Use ε)) (defines : ∀ d, .define d ∈ uses → Registry.Prototype d) :
    Shares (Record.after ⟨x, []⟩ uses).requests (Record.after ⟨x, []⟩ uses).exchange :=
  (Apart.after (r := ⟨x, []⟩) (apart_nil unused prototypes) defines).shares

/-- A protocol of registries that do nothing, which can be built while the surroundings are up. -/
def fragile (order : Int) : Definition (Registry.Pool Bool) Registry.Settings Nat :=
  ⟨"zookeeper", order, false, Registry.buildForeign fun _ up =>
    (if up then .ok Registry.Foreign.idle else .error (.registry "zookeeper" "no session"), up)⟩

/-- A factory that fails first, another definition that takes over, and a protocol that nobody has
defined. -/
def fragileUses : List (Use Bool) :=
  [.define (fragile 0), .obtain (.new "zookeeper" "north"), .stir true,
    .obtain (.new "zookeeper" "north"), .define (fragile 1), .obtain (.new "zookeeper" "north"),
    .obtain (.new "zookeeper" "south"), .obtain (.new "nacos" "south")]

theorem one_registry_per_settings_fragile :
    (Record.after ⟨.new false, []⟩ fragileUses).requests.map (·.answer) =
        [.error (.registry "zookeeper" "no session"), .ok 0, .ok 0, .ok 1,
          .error (.missingExtension "registry" "nacos")] ∧
      Shares (Record.after ⟨.new false, []⟩ fragileUses).requests
        (Record.after ⟨.new false, []⟩ fragileUses).exchange := by
  have prototype : ∀ order, Registry.Prototype (fragile order) := fun order =>
    ⟨Registry.buildsAnew_foreign _ _ _ _, rfl⟩
  refine ⟨by rfl, one_registry_per_settings _ Registry.prototypes_definitions rfl _ ?_⟩
  intro d listed
  simp only [fragileUses, List.mem_cons, Use.define.injEq, reduceCtorEq, false_or, or_false,
    List.not_mem_nil] at listed
  rcases listed with rfl | rfl
  · exact prototype 0
  · exact prototype 1

end Exchange

end Switchboard
