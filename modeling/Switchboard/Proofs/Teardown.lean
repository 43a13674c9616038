import Switchboard.Proofs.Sharing

/-! The end of the registries. To destroy all of them is to go through the table once: for each
entry the hooks are called, then the registry is destroyed, then the hooks are called again. So a
registry is destroyed as often as there are settings for which it was handed out, and it has one end
only if nobody shares it. Registries that are built once for a protocol and kept are shared, and
they are handed out again when they have been destroyed. -/
namespace Switchboard

/-- Things of a key are built once and kept. -/
def Catalog.Keeps {ε α τ : Type} (c : Catalog ε α τ) (key : String) : Prop :=
  ∃ d, c.definitions.get? key = some d ∧ d.single = true

namespace Exchange

variable {ε : Type} {x y : Exchange ε}

/-! ### The calls -/

inductive Call (ε : Type) where
  | before (hook : Hook ε) (settings : Registry.Settings)
  | destroy (settings : Registry.Settings) (number : Nat)
  | after (hook : Hook ε) (settings : Registry.Settings)

def complaint (x : Exchange ε) : Call ε → List Warning
  | .destroy settings number =>
      match (x.destroy number).1 with
      | .ok () => []
      | .error failure => [.destroyFailed settings.protocol settings.address failure]
  | _ => []

def carryOut (x : Exchange ε) : Call ε → Exchange ε
  | .before hook settings => x.withWorld (hook.before settings x.world)
  | .destroy settings number =>
      (x.destroy number).2.warn (x.complaint (.destroy settings number))
  | .after hook settings => x.withWorld (hook.after settings x.world)

def complaints : Exchange ε → List (Call ε) → List Warning
  | _, [] => []
  | x, call :: rest => x.complaint call ++ complaints (x.carryOut call) rest

def ending (hooks : List (Hook ε)) (entry : Registry.Settings × Nat) : List (Call ε) :=
  hooks.map (.before · entry.1) ++ .destroy entry.1 entry.2 :: hooks.map (.after · entry.1)

def teardown (x : Exchange ε) : List (Call ε) := x.table.flatMap (ending x.hooks)

def destroyed (calls : List (Call ε)) : List Nat :=
  calls.filterMap fun
    | .destroy _ number => some number
    | _ => none

theorem foldl_before (hooks : List (Hook ε)) (settings : Registry.Settings) (x : Exchange ε) :
    (hooks.map (.before · settings)).foldl carryOut x =
      x.withWorld (hooks.foldl (fun world hook => hook.before settings world) x.world) := by
  induction hooks generalizing x with
  | nil => rfl
  | cons hook rest ih => exact ih (x.carryOut (.before hook settings))

theorem foldl_after (hooks : List (Hook ε)) (settings : Registry.Settings) (x : Exchange ε) :
    (hooks.map (.after · settings)).foldl carryOut x =
      x.withWorld (hooks.foldl (fun world hook => hook.after settings world) x.world) := by
  induction hooks generalizing x with
  | nil => rfl
  | cons hook rest ih => exact ih (x.carryOut (.after hook settings))

theorem retire_eq (x : Exchange ε) (settings : Registry.Settings) (number : Nat) :
    x.retire settings number = (ending x.hooks (settings, number)).foldl carryOut x := by
  have lasts := lasts_destroy (x.withWorld
    (x.hooks.foldl (fun world hook => hook.before settings world) x.world)) number
  rw [ending, List.foldl_append, List.foldl_cons, foldl_before, foldl_after, carryOut, complaint,
    retire]
  generalize (x.withWorld _).destroy number = done at lasts
  have hooks : done.2.hooks = x.hooks := lasts.hooks
  obtain ⟨failure | value, y⟩ := done <;> dsimp only at hooks
  · simp only [warn, hooks]
  · simp only [warn_nil, hooks]

theorem destroyAll_eq (x : Exchange ε) :
    x.destroyAll = x.teardown.foldl carryOut { x with table := [] } := by
  have each : ∀ (entries : List (Registry.Settings × Nat)) (y : Exchange ε), y.hooks = x.hooks →
      entries.foldl (fun exchange entry => exchange.retire entry.1 entry.2) y =
        (entries.flatMap (ending x.hooks)).foldl carryOut y := by
    intro entries
    induction entries with
    | nil => exact fun _ _ => rfl
    | cons entry rest ih =>
        intro y hooks
        rw [List.foldl_cons, List.flatMap_cons, List.foldl_append, ← hooks, ← retire_eq, hooks]
        exact ih _ ((lasts_retire y entry.1 entry.2).hooks.trans hooks)
  exact each x.table { x with table := [] } rfl

theorem warnings_destroy (x : Exchange ε) (number : Nat) :
    (x.destroy number).2.warnings = x.warnings := by
  rw [destroy]
  split
  next => rfl
  next => rfl
  next settings state _ =>
    have forgets : ∀ (subscriptions : List (String × Subscriber)) (y : Exchange ε),
        (subscriptions.foldl
          (fun exchange entry => exchange.forget settings.address entry.1 entry.2) y).warnings =
          y.warnings := by
      intro subscriptions
      induction subscriptions with
      | nil => exact fun _ => rfl
      | cons entry rest ih => exact fun y => ih (y.forget settings.address entry.1 entry.2)
    refine (forgets state.subscriptions _).trans ?_
    split <;> rfl

theorem warnings_carryOut (x : Exchange ε) (call : Call ε) :
    (x.carryOut call).warnings = x.warnings ++ x.complaint call := by
  cases call with
  | before hook settings => exact (List.append_nil _).symm
  | destroy settings number => rw [carryOut, warn, warnings_destroy]
  | after hook settings => exact (List.append_nil _).symm

theorem warnings_foldl_carryOut (calls : List (Call ε)) (x : Exchange ε) :
    (calls.foldl carryOut x).warnings = x.warnings ++ complaints x calls := by
  induction calls generalizing x with
  | nil => exact (List.append_nil _).symm
  | cons call rest ih =>
      rw [List.foldl_cons, ih, warnings_carryOut, complaints, List.append_assoc]

theorem level_complaints (calls : List (Call ε)) (x : Exchange ε) :
    ∀ warning ∈ complaints x calls, warning.level = .error := by
  induction calls generalizing x with
  | nil => simp [complaints]
  | cons call rest ih =>
      intro warning said
      rcases List.mem_append.mp said with own | later
      · cases call with
        | before => cases own
        | destroy settings number =>
            rw [complaint] at own
            split at own
            · cases own
            · rw [List.mem_singleton.mp own, Warning.level]
        | after => cases own
      · exact ih _ warning later

theorem destroyed_teardown (x : Exchange ε) : destroyed x.teardown = x.table.map (·.2) := by
  have one : ∀ entry, destroyed (ending x.hooks entry) = [entry.2] := by
    intro entry
    simp [destroyed, ending, List.filterMap_append, List.filterMap_map]
  rw [teardown, destroyed, List.filterMap_flatMap, List.map_eq_flatMap]
  exact congrArg (x.table.flatMap ·) (funext one)

theorem mem_teardown_iff {settings : Registry.Settings} {number : Nat} :
    .destroy settings number ∈ x.teardown ↔ (settings, number) ∈ x.table := by
  simp [teardown, ending]

/-! ### Whose end comes how often -/

def takers (requests : List Request) (number : Nat) : List Registry.Settings :=
  (requests.filter fun r => r.answer.toOption = some number).map (·.settings)

variable {requests past : List Request} {settings : Registry.Settings} {number bound : Nat}

theorem mem_takers_iff : settings ∈ takers requests number ↔ Given requests settings number := by
  have answered : ∀ r : Request, r.answer.toOption = some number ↔ r.answer = .ok number := by
    intro r
    cases r.answer <;> simp [Except.toOption]
  simp [takers, Given, answered, and_assoc, and_comm]

/-- What becomes of the registries that were handed out for some requests. -/
structure Ends (requests : List Request) (x : Exchange ε) : Prop where
  calls : x.destroyAll = x.teardown.foldl carryOut { x with table := [] }
  mem_iff : ∀ settings number,
    .destroy settings number ∈ x.teardown ↔ Given requests settings number
  count : ∀ number,
    (destroyed x.teardown).count number = (takers requests number).toFinset.card
  emptied : x.destroyAll.table = []
  warned : x.destroyAll.warnings =
    x.warnings ++ complaints { x with table := [] } x.teardown
  errors : ∀ warning ∈ complaints { x with table := [] } x.teardown, warning.level = .error

theorem Tally.count (tally : Tally requests x) (number : Nat) :
    (x.table.map (·.2)).count number = (takers requests number).toFinset.card := by
  have nodup : ((x.table.filter (·.2 == number)).map (·.1)).Nodup :=
    tally.nodup.sublist (List.filter_sublist.map _)
  have same : (takers requests number).toFinset =
      ((x.table.filter (·.2 == number)).map (·.1)).toFinset := by
    ext settings
    rw [List.mem_toFinset, List.mem_toFinset, mem_takers_iff, ← tally.mem_iff, List.mem_map]
    constructor
    · intro entered
      exact ⟨(settings, number), List.mem_filter.mpr ⟨entered, beq_self_eq_true number⟩, rfl⟩
    · rintro ⟨⟨_, other⟩, kept, rfl⟩
      obtain ⟨entered, own⟩ := List.mem_filter.mp kept
      exact beq_iff_eq.mp own ▸ entered
  rw [same, List.toFinset_card_of_nodup nodup, List.length_map, List.count_eq_countP,
    List.countP_map, List.countP_eq_length_filter]
  rfl

theorem Tally.ends (tally : Tally requests x) : Ends requests x where
  calls := x.destroyAll_eq
  mem_iff settings number := mem_teardown_iff.trans (tally.mem_iff settings number)
  count number := by rw [destroyed_teardown, tally.count]
  emptied := (lasts_destroyAll x).table
  warned := by rw [destroyAll_eq, warnings_foldl_carryOut]
  errors := level_complaints _ _

/-! ### Whose registry is shared -/

def Use.Asks : Use ε → Prop
  | .obtain _ => True
  | .stir _ => True
  | _ => False

/-- The registries that were handed out since the beginning, under definitions that stay. All
registries with a number below the bound were there before those in the table were handed out. -/
structure Held (c : Registry.Definitions ε) (past : List Request) (bound : Nat)
    (x : Exchange ε) : Prop where
  definitions : x.definitions.definitions = c.definitions
  below : ∀ settings number, Given past settings number → number < x.pool.registries.length
  kept_iff : ∀ protocol, c.Keeps protocol → ∀ number,
    (x.definitions.kept.get? protocol = some number ↔
      ∃ settings, settings.protocol = protocol ∧ Given past settings number)
  alone : ∀ first second number, Given past first number → Given past second number →
    first = second ∨ first.protocol = second.protocol ∧ c.Keeps first.protocol
  entered : ∀ settings number, (settings, number) ∈ x.table → Given past settings number
  bound_le : bound ≤ x.pool.registries.length
  renewed : ∀ settings number, (settings, number) ∈ x.table → number < bound →
    c.Keeps settings.protocol

variable {c : Registry.Definitions ε}

theorem held_nil (unused : x.table = []) (unkept : x.definitions.kept = .empty) :
    Held x.definitions [] 0 x := by
  constructor <;> simp [unused, unkept, Given]

namespace Held

theorem congr (held : Held c past bound x) {more : List Request}
    (same : ∀ settings number, Given more settings number ↔ Given past settings number)
    (definitions : y.definitions = x.definitions) (table : y.table = x.table)
    (size : y.pool.registries.length = x.pool.registries.length) : Held c more bound y where
  definitions := definitions ▸ held.definitions
  below settings number given := size ▸ held.below settings number ((same _ _).mp given)
  kept_iff := by simpa only [definitions, same] using held.kept_iff
  alone := by simpa only [same] using held.alone
  entered := by simpa only [table, same] using held.entered
  bound_le := size ▸ held.bound_le
  renewed := table ▸ held.renewed

theorem give (held : Held c past bound x) {r : Request} (answer : r.answer = .ok number)
    (definitions : y.definitions.definitions = x.definitions.definitions)
    (kept : ∀ protocol, c.Keeps protocol → y.definitions.kept.get? protocol =
      if r.settings.protocol = protocol then some number else x.definitions.kept.get? protocol)
    (table : y.table = x.table ++ [(r.settings, number)])
    (grown : x.pool.registries.length ≤ y.pool.registries.length)
    (present : number < y.pool.registries.length)
    (shared : ∀ settings, Given past settings number →
      settings.protocol = r.settings.protocol ∧ c.Keeps settings.protocol)
    (same : c.Keeps r.settings.protocol → ∀ settings other, Given past settings other →
      settings.protocol = r.settings.protocol → other = number)
    (renewed : number < bound → c.Keeps r.settings.protocol) :
    Held c (past ++ [r]) bound y := by
  have given_iff : ∀ settings other, Given (past ++ [r]) settings other ↔
      Given past settings other ∨ r.settings = settings ∧ number = other := by
    intro settings other
    rw [given_concat_iff, answer, Except.ok.injEq]
  constructor
  case definitions => exact definitions.trans held.definitions
  case below =>
    intro settings other given
    rcases (given_iff _ _).mp given with before | ⟨-, rfl⟩
    · exact Nat.lt_of_lt_of_le (held.below settings other before) grown
    · exact present
  case kept_iff =>
    intro protocol keeps other
    rw [kept protocol keeps]
    simp only [given_iff]
    split
    next own =>
      constructor
      · intro found
        exact ⟨r.settings, own, Or.inr ⟨rfl, Option.some.inj found⟩⟩
      · rintro ⟨settings, of, before | ⟨-, rfl⟩⟩
        · rw [same (own ▸ keeps) settings other before (of.trans own.symm)]
        · rfl
    next foreign =>
      rw [held.kept_iff protocol keeps]
      constructor
      · rintro ⟨settings, of, before⟩
        exact ⟨settings, of, Or.inl before⟩
      · rintro ⟨settings, of, before | ⟨rfl, -⟩⟩
        · exact ⟨settings, of, before⟩
        · exact absurd of foreign
  case alone =>
    intro first second other one two
    rcases (given_iff _ _).mp one with before | ⟨rfl, rfl⟩
    · rcases (given_iff _ _).mp two with early | ⟨rfl, rfl⟩
      · exact held.alone first second other before early
      · exact Or.inr (shared first before)
    · rcases (given_iff _ _).mp two with early | ⟨rfl, -⟩
      · obtain ⟨of, keeps⟩ := shared second early
        exact Or.inr ⟨of.symm, of ▸ keeps⟩
      · exact Or.inl rfl
  case entered =>
    intro settings other listed
    rw [table, List.mem_append, List.mem_singleton, Prod.mk.injEq] at listed
    rw [given_iff]
    rcases listed with before | ⟨rfl, rfl⟩
    · exact Or.inl (held.entered settings other before)
    · exact Or.inr ⟨rfl, rfl⟩
  case bound_le => exact held.bound_le.trans grown
  case renewed =>
    intro settings other listed old
    rw [table, List.mem_append, List.mem_singleton, Prod.mk.injEq] at listed
    rcases listed with before | ⟨rfl, rfl⟩
    · exact held.renewed settings other before old
    · exact renewed old

theorem give_kept (held : Held c past bound x) {r : Request} (answer : r.answer = .ok number)
    (keeps : c.Keeps r.settings.protocol)
    (kept : x.definitions.kept.get? r.settings.protocol = some number) :
    Held c (past ++ [r]) bound (x.withEntry r.settings number) := by
  have old := held.kept_iff _ keeps
  obtain ⟨taker, of, taken⟩ := (old number).mp kept
  refine held.give answer rfl (fun protocol _ => ?_) rfl (Nat.le_refl _) (held.below _ _ taken)
    (fun settings given => ?_) (fun _ settings other given own => ?_) fun _ => keeps
  · split
    next own => exact own ▸ kept
    next => rfl
  · have own : settings.protocol = r.settings.protocol := by
      rcases held.alone _ _ _ given taken with rfl | ⟨also, -⟩
      · exact of
      · exact also.trans of
    exact ⟨own, own ▸ keeps⟩
  · exact Option.some.inj (((old other).mpr ⟨settings, own, given⟩).symm.trans kept)

theorem give_built (held : Held c past bound x) {r : Request} (answer : r.answer = .ok number)
    {d : Definition (Registry.Pool ε) Registry.Settings Nat} (anew : Registry.BuildsAnew d)
    (inForce : c.definitions.get? r.settings.protocol = some d)
    (unkept : d.single = true → x.definitions.kept.get? r.settings.protocol = none)
    (builds : (d.build r.settings x.pool).1 = .ok number) :
    Held c (past ++ [r]) bound
      (withEntry { x with
        definitions :=
          if d.single then x.definitions.keep r.settings.protocol (.ok number) else x.definitions
        pool := (d.build r.settings x.pool).2 } r.settings number) := by
  obtain ⟨rfl, registry, more⟩ := anew.built r.settings x.pool number builds
  have size : (d.build r.settings x.pool).2.registries.length = x.pool.registries.length + 1 := by
    rw [more, List.length_append, List.length_singleton]
  have single : c.Keeps r.settings.protocol → d.single = true := by
    rintro ⟨e, defined, single⟩
    exact Option.some.inj (defined.symm.trans inForce) ▸ single
  have unknown : ∀ settings, ¬ Given past settings x.pool.registries.length :=
    fun settings given => Nat.lt_irrefl _ (held.below settings _ given)
  refine held.give answer ?_ (fun protocol keeps => ?_) rfl ?_ ?_
    (fun settings given => absurd given (unknown settings))
    (fun keeps settings other given own => ?_) fun old => ?_
  · dsimp only [withEntry, warn]
    split <;> rfl
  · dsimp only [withEntry, warn]
    split
    next => exact Dictionary.get?_insert ..
    next plural =>
      -- A definition in force that keeps nothing is not one of this protocol.
      refine (if_neg fun own => plural (single ?_)).symm
      exact own ▸ keeps
  · exact Nat.le_of_lt (size ▸ Nat.lt_succ_self _)
  · exact size ▸ Nat.lt_succ_self _
  · have kept := (held.kept_iff _ keeps other).mpr ⟨settings, own, given⟩
    rw [unkept (single keeps)] at kept
    cases kept
  · exact absurd old (Nat.not_lt.mpr held.bound_le)

theorem comes (held : Held c past bound x) (anew : c.Every Registry.BuildsAnew) {r : Request}
    (comes : Comes x r.settings r.answer y) : Held c (past ++ [r]) bound y := by
  have known : (∀ number, r.answer = .ok number → Given past r.settings number) →
      ∀ settings number, Given (past ++ [r]) settings number ↔ Given past settings number := by
    intro before settings number
    rw [given_concat_iff]
    exact ⟨Or.rec id fun ⟨own, answer⟩ => own ▸ before number answer, Or.inl⟩
  generalize answer : r.answer = given at comes
  cases comes with
  | entered number entry =>
      refine held.congr (known fun other handed => ?_) rfl rfl rfl
      obtain rfl := Except.ok.inj (answer.symm.trans handed)
      exact held.entered _ _ (mem_table_of_entry entry)
  | undefined =>
      exact held.congr (known fun _ handed => by cases answer.symm.trans handed) rfl rfl rfl
  | kept d number absent inForce single kept =>
      exact held.give_kept answer ⟨d, held.definitions ▸ inForce, single⟩ kept
  | failed d failure absent inForce unkept fails =>
      have none := (anew _ d (held.definitions ▸ inForce)).failed r.settings x.pool failure fails
      exact held.congr (known fun _ handed => by cases answer.symm.trans handed) rfl rfl
        (congrArg List.length none)
  | built d number absent inForce unkept builds =>
      have defined := held.definitions ▸ inForce
      exact held.give_built answer (anew _ d defined) defined unkept builds

theorem use {r : Record ε} (held : Held c (past ++ r.requests) bound r.exchange)
    (anew : c.Every Registry.BuildsAnew) {u : Use ε} (asks : u.Asks) :
    Held c (past ++ (r.use u).requests) bound (r.use u).exchange := by
  cases u with
  | obtain settings =>
      rw [Record.use, ← List.append_assoc]
      exact held.comes anew (r.exchange.obtain_comes settings)
  | stir world => exact held.congr (fun _ _ => Iff.rfl) rfl rfl rfl
  | define d => exact asks.elim
  | destroyAll => exact asks.elim

theorem after {r : Record ε} (held : Held c (past ++ r.requests) bound r.exchange)
    (anew : c.Every Registry.BuildsAnew) {uses : List (Use ε)} (asks : ∀ u ∈ uses, u.Asks) :
    Held c (past ++ (r.after uses).requests) bound (r.after uses).exchange :=
  List.foldlRecOn uses _
    (motive := fun r : Record ε => Held c (past ++ r.requests) bound r.exchange) held
    fun _ before u listed => before.use anew (asks u listed)

theorem destroyAll (held : Held c past bound x) :
    Held c (past ++ []) x.pool.registries.length x.destroyAll := by
  have lasts := lasts_destroyAll x
  rw [List.append_nil]
  constructor
  case definitions => exact lasts.definitions ▸ held.definitions
  case below => exact lasts.size ▸ held.below
  case kept_iff => exact lasts.definitions ▸ held.kept_iff
  case alone => exact held.alone
  case entered => simp [lasts.table]
  case bound_le => exact Nat.le_of_eq lasts.size.symm
  case renewed => simp [lasts.table]

theorem once_iff (held : Held c requests bound x) (tally : Tally requests x) :
    (∀ settings number, Given requests settings number →
      (destroyed x.teardown).count number = 1) ↔
    ∀ first ∈ served requests, ∀ second ∈ served requests, first.protocol = second.protocol →
      c.Keeps first.protocol → first.Agree second := by
  constructor
  · intro once first one second two of keeps
    obtain ⟨number, given⟩ := mem_served_iff.mp one
    obtain ⟨other, also⟩ := mem_served_iff.mp two
    -- Both settings have the registry that is kept for their protocol.
    have kept := (held.kept_iff _ keeps number).mpr ⟨first, rfl, given⟩
    have again := (held.kept_iff _ keeps other).mpr ⟨second, of.symm, also⟩
    obtain rfl : number = other := Option.some.inj (kept.symm.trans again)
    have single := (tally.ends.count number).symm.trans (once first number given)
    have all := Finset.card_le_one.mp (Nat.le_of_eq single)
    exact Registry.Settings.agree_iff.mpr
      (all first (List.mem_toFinset.mpr (mem_takers_iff.mpr given))
        second (List.mem_toFinset.mpr (mem_takers_iff.mpr also)))
  · intro agree settings number given
    rw [tally.ends.count, Finset.card_eq_one]
    refine ⟨settings, Finset.eq_singleton_iff_unique_mem.mpr
      ⟨List.mem_toFinset.mpr (mem_takers_iff.mpr given), fun other taken => ?_⟩⟩
    have also := mem_takers_iff.mp (List.mem_toFinset.mp taken)
    rcases held.alone other settings number also given with same | ⟨of, keeps⟩
    · exact same
    · exact Registry.Settings.agree_iff.mp
        (agree other (mem_served_iff.mpr ⟨number, also⟩) settings
          (mem_served_iff.mpr ⟨number, given⟩) of keeps)

theorem obtain_of_keeps (held : Held c past bound x) (keeps : c.Keeps settings.protocol)
    {taker : Registry.Settings} (given : Given past taker number)
    (of : taker.protocol = settings.protocol) : (x.obtain settings).1 = .ok number := by
  have kept := (held.kept_iff _ keeps number).mpr ⟨taker, of, given⟩
  obtain ⟨d, defined, single⟩ := keeps
  have comes := x.obtain_comes settings
  generalize x.obtain settings = got at comes
  obtain ⟨answer, y⟩ := got
  dsimp only at comes ⊢
  cases comes with
  | entered other entry =>
      have own := held.entered settings other (mem_table_of_entry entry)
      have also := (held.kept_iff _ ⟨d, defined, single⟩ other).mpr ⟨settings, rfl, own⟩
      rw [Option.some.inj (also.symm.trans kept)]
  | undefined absent unknown =>
      rw [Catalog.contains, Dictionary.contains, held.definitions, defined] at unknown
      cases unknown
  | kept e other absent inForce _ known => rw [Option.some.inj (known.symm.trans kept)]
  | failed e failure absent inForce unkept | built e other absent inForce unkept =>
      obtain rfl := Option.some.inj (defined.symm.trans (held.definitions ▸ inForce))
      rw [unkept single] at kept
      cases kept

theorem keeps_of_again {later : List Request} (held : Held c (past ++ later) bound x)
    (tally : Tally later x) {taker : Registry.Settings} (given : Given past taker number)
    (old : number < bound) (again : Given later settings number) :
    c.Keeps settings.protocol ∧ taker.protocol = settings.protocol := by
  have listed := (tally.mem_iff settings number).mpr again
  refine ⟨held.renewed settings number listed old, ?_⟩
  rcases held.alone taker settings number (given.append later)
    (held.entered settings number listed) with rfl | ⟨of, -⟩
  · rfl
  · exact of

theorem again_iff {later : List Request} (held : Held c (past ++ later) bound x)
    (tally : Tally later x) (anew : c.Every Registry.BuildsAnew)
    (before : ∀ settings number, Given past settings number → number < bound) :
    (∃ taker number, Given past taker number ∧ (x.obtain settings).1 = .ok number) ↔
      c.Keeps settings.protocol ∧ ∃ taker ∈ served past, taker.protocol = settings.protocol := by
  constructor
  · rintro ⟨taker, number, given, answer⟩
    -- The new request is entered, so that the invariant tells where its registry comes from.
    have comes : Comes x (Request.of x settings).settings (Request.of x settings).answer
      (x.obtain settings).2 := x.obtain_comes settings
    have next := held.comes anew comes
    rw [List.append_assoc] at next
    obtain ⟨keeps, of⟩ := next.keeps_of_again (tally.comes comes) given
      (before taker number given) (given_concat_iff.mpr (Or.inr ⟨rfl, answer⟩))
    exact ⟨keeps, taker, mem_served_iff.mpr ⟨number, given⟩, of⟩
  · rintro ⟨keeps, taker, served, of⟩
    obtain ⟨number, given⟩ := mem_served_iff.mp served
    exact ⟨taker, number, given, held.obtain_of_keeps keeps (given.append later) of⟩

end Held

/-- When all registries that were handed out are destroyed, each of them has one end just if no two
settings of a protocol share one that is kept. Whatever is kept is handed out again afterwards. -/
theorem destroyed_once_iff (x : Exchange ε) (anew : x.definitions.Every Registry.BuildsAnew)
    (unused : x.table = []) (unkept : x.definitions.kept = .empty) (uses : List (Use ε))
    (asks : ∀ u ∈ uses, u.Asks) :
    let r := Record.after ⟨x, []⟩ uses
    Ends r.requests r.exchange ∧
    ((∀ settings number, Given r.requests settings number →
        (destroyed r.exchange.teardown).count number = 1) ↔
      ∀ first ∈ served r.requests, ∀ second ∈ served r.requests,
        first.protocol = second.protocol → x.definitions.Keeps first.protocol →
          first.Agree second) ∧
    ∀ later : List (Use ε), (∀ u ∈ later, u.Asks) → ∀ settings,
      ((∃ taker number, Given r.requests taker number ∧
          ((Record.after ⟨r.exchange.destroyAll, []⟩ later).exchange.obtain settings).1 =
            .ok number) ↔
        x.definitions.Keeps settings.protocol ∧
          ∃ taker ∈ served r.requests, taker.protocol = settings.protocol) := by
  intro r
  have tally : Tally r.requests r.exchange := (tally_nil unused).after (r := ⟨x, []⟩) uses
  have unheld : Held x.definitions ([] ++ []) 0 x := held_nil unused unkept
  have held : Held x.definitions r.requests 0 r.exchange :=
    unheld.after (r := ⟨x, []⟩) anew asks
  refine ⟨tally.ends, held.once_iff tally, fun later asksLater settings => ?_⟩
  have emptied : Tally [] r.exchange.destroyAll := tally_nil (lasts_destroyAll _).table
  exact (held.destroyAll.after (r := ⟨r.exchange.destroyAll, []⟩) anew asksLater).again_iff
    (emptied.after (r := ⟨_, []⟩) later) anew held.below

/-- One registry for all settings of a protocol. It counts in the surroundings how often it is
destroyed. -/
def common : Definition (Registry.Pool Nat) Registry.Settings Nat :=
  ⟨"zookeeper", 0, true, Registry.buildForeign fun _ count =>
    (.ok { Registry.Foreign.idle with destroy := fun count => (.ok (), count + 1) }, count)⟩

def communal : Exchange Nat := (new 0).define common

theorem anew_communal : communal.definitions.Every Registry.BuildsAnew :=
  Catalog.Every.register
    (fun key d defined => (Registry.prototypes_definitions key d defined).toBuildsAnew)
    (Registry.buildsAnew_foreign ..)

/-- One registry that is not kept and one that is, with one taker each. -/
def unshared : Record Nat :=
  Record.after ⟨communal, []⟩ [.obtain (.new "memory" "center"), .obtain (.new "zookeeper" "north")]

theorem destroyed_once_iff_unshared :
    (∀ settings number, Given unshared.requests settings number →
      (destroyed unshared.exchange.teardown).count number = 1) ∧
    ∃ taker number, Given unshared.requests taker number ∧
      (unshared.exchange.destroyAll.obtain (.new "zookeeper" "south")).1 = .ok number := by
  obtain ⟨-, once, again⟩ := destroyed_once_iff communal anew_communal rfl rfl
    [.obtain (.new "memory" "center"), .obtain (.new "zookeeper" "north")] (by simp [Use.Asks])
  have takers : served unshared.requests = [.new "memory" "center", .new "zookeeper" "north"] := rfl
  refine ⟨once.mpr fun first one second two of _ => Registry.Settings.agree_iff.mpr ?_,
    (again [] (by simp) _).mpr ⟨⟨common, rfl, rfl⟩, .new "zookeeper" "north", ?_, rfl⟩⟩
  · rw [← unshared, takers] at one two
    simp only [List.mem_cons, List.not_mem_nil, or_false] at one two
    rcases one with rfl | rfl <;> rcases two with rfl | rfl
    · rfl
    · exact absurd of (by decide)
    · exact absurd of (by decide)
    · rfl
  · rw [← unshared, takers]
    exact List.mem_cons_of_mem _ (List.mem_singleton_self _)

/-- A registry that is kept, with two takers. -/
def shared : Record Nat :=
  Record.after ⟨communal, []⟩
    [.obtain (.new "zookeeper" "north"), .obtain (.new "zookeeper" "south")]

theorem destroyed_twice :
    ¬ (∀ settings number, Given shared.requests settings number →
      (destroyed shared.exchange.teardown).count number = 1) ∧
    shared.exchange.destroyAll.world = 2 ∧
    (shared.exchange.destroyAll.obtain (.new "zookeeper" "north")).1 = .ok 0 := by
  refine ⟨fun once => ?_, rfl, rfl⟩
  have given : Given shared.requests (.new "zookeeper" "north") 0 :=
    ⟨_, List.mem_cons_self, rfl, rfl⟩
  have twice : destroyed shared.exchange.teardown = [0, 0] := rfl
  have single := once _ 0 given
  rw [twice] at single
  exact absurd single (by decide)

end Exchange

end Switchboard
