import Switchboard.Catalog
import Switchboard.Filter
import Switchboard.Overrides

/-! Chains of filters. A chain takes the filters of a catalog that are active on its side, edits
their list with an override string, appends custom filters, leaves out those that do not load, and
sorts the rest by their order. The filter of the lowest order is the outermost one. -/
namespace Switchboard

structure Chain (ε : Type) where
  side : Side
  filters : List (Filter ε)

namespace Chain

variable {σ ε : Type}

def names (c : Chain ε) : List String := c.filters.map (·.name)

def invoke (view : View σ ε) (c : Chain ε) (terminal : Invoker σ) : Invoker σ :=
  c.filters.foldr (Filter.link c.side view) terminal

structure Built (ε τ : Type) where
  outcome : Outcome τ
  catalog : Catalog ε Context (Filter ε)
  world : ε

def getAll (context : Context) (catalog : Catalog ε Context (Filter ε)) (world : ε) :
    List String → Built ε (List (String × Filter ε))
  | [] => ⟨.ok [], catalog, world⟩
  | key :: rest =>
      let found := catalog.get key context world
      match found.outcome with
      | .error failure => ⟨.error failure, found.catalog, found.world⟩
      | .ok filter =>
          let others := getAll context found.catalog found.world rest
          { others with outcome := others.outcome.map ((key, filter) :: ·) }

/-- The keys of the filters that are active on the side of the context, edited. -/
def selected (context : Context) (selection : String) (known : List (String × Filter ε)) :
    List String :=
  Overrides.apply ((known.filter fun entry => entry.2.isActive context.side).map (·.1)) selection

/-- The filters of a selection. One that is known already is taken, not looked up again. -/
def choose (context : Context) (known : List (String × Filter ε))
    (catalog : Catalog ε Context (Filter ε)) (world : ε) :
    List String → Built ε (List (Filter ε))
  | [] => ⟨.ok [], catalog, world⟩
  | key :: rest =>
      match known.find? (·.1 == key) with
      | some (_, filter) =>
          let others := choose context (known.filter (·.1 != key)) catalog world rest
          { others with outcome := others.outcome.map (filter :: ·) }
      | none =>
          let found := catalog.get key context world
          match found.outcome with
          | .error failure => ⟨.error failure, found.catalog, found.world⟩
          | .ok filter =>
              let others := choose context known found.catalog found.world rest
              { others with outcome := others.outcome.map (filter :: ·) }

def arrange (context : Context) (filters : List (Filter ε)) : List (Filter ε) :=
  (filters.filter (·.loads context)).mergeSort fun first second => first.order ≤ second.order

def build (catalog : Catalog ε Context (Filter ε)) (context : Context) (selection : String)
    (custom : List (Filter ε)) (world : ε) : Built ε (Chain ε) :=
  let known := getAll context catalog world catalog.keys
  match known.outcome with
  | .error failure => ⟨.error failure, known.catalog, known.world⟩
  | .ok entries =>
      let chosen :=
        choose context entries known.catalog known.world (selected context selection entries)
      { chosen with
        outcome := chosen.outcome.map fun filters =>
          ⟨context.side, arrange context (filters ++ custom)⟩ }

end Chain

end Switchboard
