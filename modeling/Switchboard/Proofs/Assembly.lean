import Mathlib.Data.List.Permutation
import Switchboard.Filter.Chain
import Switchboard.Proofs.Catalog
import Switchboard.Proofs.Overrides

/-! How a chain is put together. First every filter of the catalog is looked up, selected or not,
and then the selection takes its filters from these. A selection names no filter twice, so nothing
is looked up again, and what it names beside these is missing from the catalog. -/
namespace Switchboard

namespace Chain

variable {ε : Type} {context : Context}

theorem getAll_of_failure {before after : List (String × Outcome (Filter ε))} {key : String}
    {failure : Failure} (succeed : ∀ entry ∈ before, ∃ filter, entry.2 = .ok filter)
    (catalog : Catalog ε Context (Filter ε)) (world : ε) (keys : List String)
    (h : catalog.lookUps context world keys = before ++ (key, .error failure) :: after) :
    (getAll context catalog world keys).outcome = .error failure := by
  induction keys generalizing catalog world before with
  | nil => simp [Catalog.lookUps] at h
  | cons first rest ih =>
      rw [Catalog.lookUps] at h
      cases before with
      | nil =>
          obtain ⟨rfl, fails⟩ := Prod.mk.inj (List.cons.inj h).1
          simp only [getAll, fails]
      | cons entry others =>
          obtain ⟨same, onward⟩ := List.cons.inj h
          obtain ⟨filter, found⟩ := succeed entry List.mem_cons_self
          have answer : (catalog.get first context world).outcome = .ok filter := by
            rw [← found, ← same]
          have fails := ih (fun other member => succeed other (List.mem_cons_of_mem _ member))
            _ _ onward
          simp only [getAll, answer, fails]
          rfl

theorem getAll_of_success {filterOf : String → Filter ε}
    (catalog : Catalog ε Context (Filter ε)) (world : ε) {keys : List String}
    (distinct : keys.Nodup)
    (h : catalog.lookUps context world keys = keys.map fun key => (key, .ok (filterOf key))) :
    (getAll context catalog world keys).outcome = .ok (keys.map fun key => (key, filterOf key)) ∧
    (getAll context catalog world keys).catalog.definitions = catalog.definitions ∧
    (getAll context catalog world keys).catalog.capability = catalog.capability ∧
    (getAll context catalog world keys).world =
      catalog.construct context (keys.filter catalog.builds) world := by
  induction keys generalizing catalog world with
  | nil => exact ⟨rfl, rfl, rfl, rfl⟩
  | cons key rest ih =>
      obtain ⟨fresh, others⟩ := List.nodup_cons.mp distinct
      rw [Catalog.lookUps, List.map_cons] at h
      obtain ⟨same, onward⟩ := List.cons.inj h
      have answer : (catalog.get key context world).outcome = .ok (filterOf key) :=
        (Prod.mk.inj same).2
      obtain ⟨found, definitions, capability, built⟩ := ih _ _ others onward
      have pending : rest.filter (catalog.get key context world).catalog.builds =
          rest.filter catalog.builds := by
        refine List.filter_congr fun other member => ?_
        exact catalog.builds_get_of_ne (by rintro rfl; exact fresh member) context world
      simp only [getAll, answer, found]
      refine ⟨rfl, ?_, ?_, ?_⟩
      · rw [definitions, catalog.get_definitions]
      · rw [capability, catalog.get_capability]
      · rw [built, pending, Catalog.construct_congr (catalog.get_definitions key context world),
          catalog.construct_get, List.filter_cons]

def Knows (catalog : Catalog ε Context (Filter ε)) (filterOf : String → Filter ε)
    (known : List (String × Filter ε)) (key : String) : Prop :=
  known.find? (fun entry => entry.1 == key) =
    if catalog.contains key then some (key, filterOf key) else none

theorem Knows.without {catalog : Catalog ε Context (Filter ε)} {filterOf : String → Filter ε}
    {known : List (String × Filter ε)} {key other : String}
    (h : Knows catalog filterOf known other) (different : key ≠ other) :
    Knows catalog filterOf (known.filter fun entry => entry.1 != key) other := by
  unfold Knows at h ⊢
  rw [← h, List.find?_filter]
  congr 1
  funext entry
  by_cases same : entry.1 = other
  · simp [same, Ne.symm different]
  · simp [same]

theorem knows_map (catalog : Catalog ε Context (Filter ε)) (filterOf : String → Filter ε)
    (key : String) :
    Knows catalog filterOf (catalog.keys.map fun key => (key, filterOf key)) key := by
  have found : ∀ keys : List String,
      (keys.map fun key => (key, filterOf key)).find? (fun entry => entry.1 == key) =
        if key ∈ keys then some (key, filterOf key) else none := by
    intro keys
    induction keys with
    | nil => rfl
    | cons first rest ih =>
        by_cases same : first = key
        · simp [same]
        · simp [same, Ne.symm same, ih]
  unfold Knows
  simp only [found, catalog.mem_keys_iff]

theorem choose_of_known {catalog : Catalog ε Context (Filter ε)} {filterOf : String → Filter ε}
    {known : List (String × Filter ε)} {keys : List String} (distinct : keys.Nodup)
    (knows : ∀ key ∈ keys, Knows catalog filterOf known key)
    (registered : ∀ key ∈ keys, catalog.contains key = true) (world : ε) :
    choose context known catalog world keys = ⟨.ok (keys.map filterOf), catalog, world⟩ := by
  induction keys generalizing known with
  | nil => rfl
  | cons key rest ih =>
      obtain ⟨fresh, others⟩ := List.nodup_cons.mp distinct
      have found := knows key List.mem_cons_self
      rw [Knows, if_pos (registered key List.mem_cons_self)] at found
      have onward := ih others
        (fun other member => (knows other (List.mem_cons_of_mem _ member)).without
          (by rintro rfl; exact fresh member))
        fun other member => registered other (List.mem_cons_of_mem _ member)
      rw [choose, found]
      simp only [onward]
      rfl

theorem choose_of_missing {catalog : Catalog ε Context (Filter ε)} {filterOf : String → Filter ε}
    {known : List (String × Filter ε)} {before after : List String} {key : String}
    (distinct : (before ++ key :: after).Nodup)
    (knows : ∀ name ∈ before ++ key :: after, Knows catalog filterOf known name)
    (registered : ∀ name ∈ before, catalog.contains name = true)
    (missing : catalog.contains key = false) (world : ε) :
    (choose context known catalog world (before ++ key :: after)).outcome =
      .error (.missingExtension catalog.capability key) := by
  induction before generalizing known with
  | nil =>
      have absent := knows key List.mem_cons_self
      rw [Knows, missing] at absent
      rw [List.nil_append, choose, absent]
      simp only [catalog.get_of_missing missing]
      rfl
  | cons name rest ih =>
      obtain ⟨fresh, others⟩ := List.nodup_cons.mp distinct
      have found := knows name List.mem_cons_self
      rw [Knows, if_pos (registered name List.mem_cons_self)] at found
      have onward := ih others
        (fun other member => (knows other (List.mem_cons_of_mem _ member)).without
          (by rintro rfl; exact fresh member))
        fun other member => registered other (List.mem_cons_of_mem _ member)
      rw [List.cons_append, choose, found]
      simp only [onward]
      rfl

/-- The keys that a selection makes of those whose filters are active on the side of the context. -/
def chosenKeys (catalog : Catalog ε Context (Filter ε)) (context : Context) (selection : String)
    (filterOf : String → Filter ε) : List String :=
  Overrides.apply (catalog.keys.filter fun key => (filterOf key).isActive context.side) selection

theorem selected_map (catalog : Catalog ε Context (Filter ε)) (selection : String)
    (filterOf : String → Filter ε) :
    selected context selection (catalog.keys.map fun key => (key, filterOf key)) =
      chosenKeys catalog context selection filterOf := by
  rw [selected, chosenKeys, List.filter_map, List.map_map]
  congr 1
  exact List.map_id _

theorem nodup_chosenKeys (catalog : Catalog ε Context (Filter ε)) (selection : String)
    (filterOf : String → Filter ε) : (chosenKeys catalog context selection filterOf).Nodup :=
  Overrides.nodup_apply (catalog.nodup_keys.filter _) selection

variable {catalog : Catalog ε Context (Filter ε)} {world : ε}

theorem build_of_failure (selection : String) (custom : List (Filter ε)) {failure : Failure}
    (h : (getAll context catalog world catalog.keys).outcome = .error failure) :
    (build catalog context selection custom world).outcome = .error failure := by
  simp only [build, h]

theorem build_of_success {filterOf : String → Filter ε}
    (h : catalog.lookUps context world catalog.keys =
      catalog.keys.map fun key => (key, .ok (filterOf key)))
    (selection : String) (custom : List (Filter ε)) :
    ∃ known, known.definitions = catalog.definitions ∧ known.capability = catalog.capability ∧
      (∀ key, Knows known filterOf (catalog.keys.map fun key => (key, filterOf key)) key) ∧
      let chosen := choose context (catalog.keys.map fun key => (key, filterOf key)) known
        (catalog.construct context (catalog.keys.filter catalog.builds) world)
        (chosenKeys catalog context selection filterOf)
      (build catalog context selection custom world).outcome =
          chosen.outcome.map (fun filters => ⟨context.side, arrange context (filters ++ custom)⟩) ∧
        (build catalog context selection custom world).world = chosen.world := by
  obtain ⟨found, definitions, capability, built⟩ := getAll_of_success catalog world
    catalog.nodup_keys h
  refine ⟨_, definitions, capability, fun key => ?_, ?_⟩
  · have knows := knows_map catalog filterOf key
    rwa [Knows, Catalog.contains, ← definitions] at knows
  · simp only [build, found, built, selected_map, and_self]

theorem arrange_sorted (context : Context) (filters : List (Filter ε)) :
    StablySorted (·.order) (filters.filter (·.loads context)) (arrange context filters) :=
  StablySorted.mergeSort _ _

/-- A chain is built from the keys of the catalog in their order. The first look-up that fails ends
it; if none fails, the first chosen key that is missing does; and if none is missing, the chain has
the chosen filters and the custom ones, those that load, stably sorted. Then the factories that had
to be called have been called once each, and those of things built anew were among them. -/
theorem build_assembles (catalog : Catalog ε Context (Filter ε)) (context : Context)
    (selection : String) (custom : List (Filter ε)) (world : ε) :
    (∀ key, key ∈ catalog.keys ↔ catalog.contains key = true) ∧
    (catalog.keys.Pairwise fun first second => ∀ d e, catalog.definitions.get? first = some d →
      catalog.definitions.get? second = some e →
        d.order < e.order ∨ d.order = e.order ∧ first < second) ∧
    (∀ before key failure after,
      catalog.lookUps context world catalog.keys = before ++ (key, .error failure) :: after →
      (∀ entry ∈ before, ∃ filter, entry.2 = .ok filter) →
        (build catalog context selection custom world).outcome = .error failure) ∧
    ∀ filterOf : String → Filter ε,
      catalog.lookUps context world catalog.keys =
        catalog.keys.map (fun key => (key, .ok (filterOf key))) →
      (∀ before key after,
        chosenKeys catalog context selection filterOf = before ++ key :: after →
        (∀ name ∈ before, catalog.contains name = true) → catalog.contains key = false →
          (build catalog context selection custom world).outcome =
            .error (.missingExtension catalog.capability key)) ∧
      ((∀ name ∈ chosenKeys catalog context selection filterOf, catalog.contains name = true) →
        (∃ chain, (build catalog context selection custom world).outcome = .ok chain ∧
          chain.side = context.side ∧ chain.names = chain.filters.map (·.name) ∧
          StablySorted (·.order)
            (((chosenKeys catalog context selection filterOf).map filterOf ++ custom).filter
              (·.loads context))
            chain.filters) ∧
        (build catalog context selection custom world).world =
          catalog.construct context (catalog.keys.filter catalog.builds) world ∧
        ∀ key d, catalog.definitions.get? key = some d → d.single = false →
          (catalog.keys.filter catalog.builds).count key = 1) := by
  refine ⟨catalog.mem_keys_iff, catalog.keys_ascending, ?_, fun filterOf succeed => ?_⟩
  · intro before key failure after tried succeed
    exact build_of_failure selection custom (getAll_of_failure succeed catalog world _ tried)
  · obtain ⟨known, definitions, capability, knows, built, left⟩ :=
      build_of_success succeed selection custom
    have distinct : (chosenKeys catalog context selection filterOf).Nodup :=
      nodup_chosenKeys catalog selection filterOf
    have registered : ∀ key, known.contains key = catalog.contains key := fun key => by
      rw [Catalog.contains, definitions, Catalog.contains]
    refine ⟨fun before key after parts present missing => ?_, fun present => ?_⟩
    · rw [built, parts, choose_of_missing (parts ▸ distinct) (fun name _ => knows name)
        (fun name member => (registered name).trans (present name member))
        ((registered key).trans missing), capability]
      rfl
    · rw [choose_of_known distinct (fun name _ => knows name)
        (fun name member => (registered name).trans (present name member))] at built left
      refine ⟨⟨_, built, rfl, rfl, arrange_sorted context _⟩, left, fun key d defined anew => ?_⟩
      have builds : catalog.builds key = true := by
        simp [Catalog.builds, defined, anew]
      have member : key ∈ catalog.keys := (catalog.mem_keys_iff key).mpr (by
        simp [Catalog.contains, Dictionary.contains, defined])
      exact List.count_eq_one_of_mem (catalog.nodup_keys.filter _)
        (List.mem_filter.mpr ⟨member, builds⟩)

def passing (name : String) (order : Int) (onConsumer : Bool) : Filter (List String) where
  name := name
  order := order
  onConsumer := onConsumer
  onProvider := false
  loads := fun context => context.appName ≠ name
  act := fun request world => .ask request world .finish

def noting (name : String) (place order : Int) (onConsumer : Bool) :
    Definition (List String) Context (Filter (List String)) where
  key := name
  order := place
  single := false
  build := fun _ world => (.ok (passing name order onConsumer), world ++ [name])

def noted : Catalog (List String) Context (Filter (List String)) where
  capability := "filter"
  definitions := .ofList ([noting "meter" 2 10 true, noting "auth" 2 10 true,
    noting "trace" 1 (-5) false].map fun d => (d.key, d))
  kept := .empty

def shop : Context := ⟨.consumer, ⟨"echo", "bolt", "", "shop"⟩, "shop"⟩

def notedFilter (name : String) : Filter (List String) :=
  passing name (if name = "trace" then -5 else 10) (name != "trace")

/-- A selection that takes one filter out and in again and adds an inactive one twice. -/
def reselected : String := "-auth, trace; trace, auth"

theorem build_assembles_reselected :
    (build noted shop reselected [passing "shop" 0 true, passing "last" 10 true] []).world =
      ["trace", "auth", "meter"] ∧
    ∃ chain,
      (build noted shop reselected [passing "shop" 0 true, passing "last" 10 true] []).outcome =
        .ok chain ∧
      StablySorted (·.order) [notedFilter "meter", notedFilter "trace", notedFilter "auth",
        passing "last" 10 true] chain.filters := by
  have keys : noted.keys = ["trace", "auth", "meter"] := by cbv
  have chosen : chosenKeys noted shop reselected notedFilter = ["meter", "trace", "auth"] := by
    rw [chosenKeys, keys]
    decide
  have succeed : noted.lookUps shop [] noted.keys =
      noted.keys.map fun key => (key, .ok (notedFilter key)) := by
    rw [keys]
    rfl
  have present : ∀ name ∈ chosenKeys noted shop reselected notedFilter,
      noted.contains name = true := by
    rw [chosen]
    decide
  obtain ⟨⟨chain, built, -, -, sorted⟩, left, -⟩ :=
    ((build_assembles noted shop reselected [passing "shop" 0 true, passing "last" 10 true]
      []).2.2.2 notedFilter succeed).2 present
  refine ⟨?_, chain, built, ?_⟩
  · rw [left, keys]
    decide
  · rw [chosen] at sorted
    exact sorted

end Chain

end Switchboard
