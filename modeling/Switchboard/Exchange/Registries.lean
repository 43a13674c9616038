import Switchboard.Exchange

/-! What the registries of an exchange do, by their number. A memory registry announces and takes
back providers, and subscribes, only where its settings allow it. -/
namespace Switchboard.Exchange

open Registry (Registration Memory Foreign)

variable {ε : Type}

def registry? (x : Exchange ε) (number : Nat) : Option (Registry ε) := x.pool.registries[number]?

def settings? (x : Exchange ε) (number : Nat) : Option Registry.Settings :=
  (x.registry? number).map (·.settings)

def addressOf (x : Exchange ε) (number : Nat) : String :=
  ((x.settings? number).map (·.address)).getD ""

def withMemory (x : Exchange ε) (number : Nat) (settings : Registry.Settings) (state : Memory) :
    Exchange ε :=
  { x with
    pool := { x.pool with registries := x.pool.registries.set number ⟨settings, .memory state⟩ } }

def outside {α : Type} (x : Exchange ε) (act : ε → Outcome α × ε) : Outcome α × Exchange ε :=
  let (outcome, world) := act x.world
  (outcome, x.withWorld world)

def missing {α : Type} (x : Exchange ε) : Outcome α × Exchange ε :=
  (.error (.internal "there is no such registry"), x)

def rescanName (address : String) : String := "memory-registry-rescan-" ++ address

def startRescan (x : Exchange ε) (number : Nat) (settings : Registry.Settings) (state : Memory)
    (period : Nat) : Outcome Bool × Exchange ε :=
  match x.tasks.create (rescanName settings.address) .fixedDelay period period number with
  | (.error failure, _) => (.error failure, x)
  | (.ok task, tasks) =>
      (.ok true,
        { x with tasks := tasks.start task }.withMemory number settings
          { state with rescan := some task })

def start (x : Exchange ε) (number : Nat) : Outcome Bool × Exchange ε :=
  match x.registry? number with
  | none => x.missing
  | some ⟨_, .foreign behaviour⟩ => x.outside behaviour.start
  | some ⟨settings, .memory state⟩ =>
      if state.started then (.ok true, x)
      else
        let after := x.withMemory number settings { state with started := true }
        match settings.scanPeriod? with
        | none => (.ok true, after)
        | some period => after.startRescan number settings { state with started := true } period

def register (x : Exchange ε) (number : Nat) (r : Registration) : Outcome Unit × Exchange ε :=
  match x.registry? number with
  | none => x.missing
  | some ⟨_, .foreign behaviour⟩ => x.outside (behaviour.register r)
  | some ⟨settings, .memory _⟩ =>
      (.ok (),
        if settings.registers then
          x.publish settings.address r.service.dataId r.group r.provider
        else x)

def unregister (x : Exchange ε) (number : Nat) (r : Registration) : Outcome Unit × Exchange ε :=
  match x.registry? number with
  | none => x.missing
  | some ⟨_, .foreign behaviour⟩ => x.outside (behaviour.unregister r)
  | some ⟨settings, .memory _⟩ =>
      (.ok (),
        if settings.registers then
          x.withdraw settings.address r.service.dataId r.group r.provider
        else x)

/-- Subscribes through a registry. What it holds has been delivered when it answers. -/
def subscribe (x : Exchange ε) (number : Nat) (service : Service) (subscriber : Subscriber) :
    Outcome (List Group) × Exchange ε :=
  match x.registry? number with
  | none => x.missing
  | some ⟨_, .foreign behaviour⟩ =>
      let answer := behaviour.subscribe service subscriber x.world
      (answer.outcome, (x.withWorld answer.world).deliverAll
        (answer.pushes.map (⟨subscriber, service.dataId, ·⟩)))
  | some ⟨settings, .memory state⟩ =>
      if settings.subscribes then
        let store := x.store settings.address
        let joined := x.withMemory number settings
          { state with subscriptions := state.subscriptions ++ [(service.dataId, subscriber)] }
        (.ok (store.snapshot service.dataId),
          joined.commit settings.address (store.subscribe service.dataId subscriber))
      else (.ok [], x)

def forget (x : Exchange ε) (address dataId : String) (subscriber : Subscriber) : Exchange ε :=
  x.withStore address ((x.store address).unsubscribe dataId subscriber)

def unsubscribe (x : Exchange ε) (number : Nat) (service : Service) (subscriber : Subscriber) :
    Outcome Unit × Exchange ε :=
  match x.registry? number with
  | none => x.missing
  | some ⟨_, .foreign behaviour⟩ => x.outside (behaviour.unsubscribe service subscriber)
  | some ⟨settings, .memory state⟩ =>
      (.ok (),
        (x.forget settings.address service.dataId subscriber).withMemory number settings
          { state with
            subscriptions := state.subscriptions.filter (· ≠ (service.dataId, subscriber)) })

/-- Destroys a registry. A memory registry can be started again afterwards. -/
def destroy (x : Exchange ε) (number : Nat) : Outcome Unit × Exchange ε :=
  match x.registry? number with
  | none => x.missing
  | some ⟨_, .foreign behaviour⟩ => x.outside behaviour.destroy
  | some ⟨settings, .memory state⟩ =>
      let stopped := match state.rescan with
        | some task => { x with tasks := (x.tasks.stop task).2 }
        | none => x
      let left := state.subscriptions.foldl
        (fun exchange entry => exchange.forget settings.address entry.1 entry.2) stopped
      (.ok (), left.withMemory number settings .new)

/-- Pushes everything again to the subscribers of a memory registry. -/
def rescan (x : Exchange ε) (number : Nat) : Exchange ε :=
  match x.registry? number with
  | some ⟨settings, .memory state⟩ =>
      state.subscriptions.foldl (fun exchange entry =>
        exchange.deliver ((exchange.store settings.address).resync entry.1 entry.2)) x
  | _ => x

def runNext (x : Exchange ε) (limit : Nat) : Option (Exchange ε) :=
  match x.tasks.upcoming with
  | none => none
  | some (task, due) =>
      if limit < due then none
      else
        let awake := { x with tasks := x.tasks.wake task }
        match x.tasks.task? task with
        | some entry => some (awake.rescan entry.job)
        | none => some awake

end Switchboard.Exchange
