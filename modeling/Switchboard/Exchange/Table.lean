import Switchboard.Exchange.Registries

/-! The table of registries. Whoever asks for a registry gets the one that was built for equal
settings, until all of them are destroyed. -/
namespace Switchboard.Exchange

variable {ε : Type}

/-- How many registries may be in use without a warning. -/
def quietSize : Nat := 3

def entry? (x : Exchange ε) (settings : Registry.Settings) : Option Nat :=
  (x.table.find? (·.1 == settings)).map (·.2)

def obtain (x : Exchange ε) (settings : Registry.Settings) : Outcome Nat × Exchange ε :=
  match x.entry? settings with
  | some number => (.ok number, x)
  | none =>
      let found := x.definitions.get settings.protocol settings x.pool
      let built := { x with definitions := found.catalog, pool := found.world }
      match found.outcome with
      | .error failure => (.error failure, built)
      | .ok number =>
          let table := x.table ++ [(settings, number)]
          let added := { built with table := table }
          (.ok number,
            if quietSize < table.length then added.warn [.manyRegistries table.length] else added)

/-- Destroys one registry between the hooks. If it cannot be destroyed, there is a warning. -/
def retire (x : Exchange ε) (settings : Registry.Settings) (number : Nat) : Exchange ε :=
  let ready := x.withWorld (x.hooks.foldl (fun world hook => hook.before settings world) x.world)
  let (outcome, gone) := ready.destroy number
  let noted := match outcome with
    | .ok () => gone
    | .error failure => gone.warn [.destroyFailed settings.protocol settings.address failure]
  noted.withWorld (noted.hooks.foldl (fun world hook => hook.after settings world) noted.world)

/-- Empties the table and destroys its registries, each with its own settings. -/
def destroyAll (x : Exchange ε) : Exchange ε :=
  x.table.foldl (fun exchange entry => exchange.retire entry.1 entry.2) { x with table := [] }

end Switchboard.Exchange
