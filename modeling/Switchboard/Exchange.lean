import Switchboard.Catalog
import Switchboard.Filter
import Switchboard.Registry
import Switchboard.Timetable

/-! The exchange: all registries of a program with what they share. Registries have numbers in the
order in which they were built. The table says which registry belongs to which settings. Pushes go
to the address books, which have numbers as well, and to listeners outside. -/
namespace Switchboard

structure Hook (ε : Type) where
  before : Registry.Settings → ε → ε
  after : Registry.Settings → ε → ε

abbrev Listener (ε : Type) := String → Push → ε → ε

namespace Registry

/-- All registries built so far, and the surroundings in which they are built. -/
structure Pool (ε : Type) where
  registries : List (Registry ε)
  world : ε

variable {ε : Type}

def Pool.add (p : Pool ε) (registry : Registry ε) : Nat × Pool ε :=
  (p.registries.length, { p with registries := p.registries ++ [registry] })

abbrev Definitions (ε : Type) := Catalog (Pool ε) Settings Nat

def buildMemory (settings : Settings) (pool : Pool ε) : Outcome Nat × Pool ε :=
  let (number, after) := pool.add ⟨settings, .memory .new⟩
  (.ok number, after)

def buildForeign (make : Settings → ε → Outcome (Foreign ε) × ε) (settings : Settings)
    (pool : Pool ε) : Outcome Nat × Pool ε :=
  match make settings pool.world with
  | (.error failure, world) => (.error failure, { pool with world := world })
  | (.ok behaviour, world) =>
      let (number, after) := { pool with world := world }.add ⟨settings, .foreign behaviour⟩
      (.ok number, after)

/-- Memory registries are built anew for each settings. -/
def memoryDefinition : Definition (Pool ε) Settings Nat :=
  ⟨memoryProtocol, 0, false, buildMemory⟩

def definitions (ε : Type) : Definitions ε :=
  ((Catalog.new "registry").register memoryDefinition).catalog

end Registry

structure Exchange (ε : Type) where
  definitions : Registry.Definitions ε
  pool : Registry.Pool ε
  table : List (Registry.Settings × Nat)
  hooks : List (Hook ε)
  stores : Dictionary Registry.Store
  tasks : Timetable Nat
  books : List Book
  listeners : List (Listener ε)
  warnings : List Warning

/-- Goes on with a result, unless it is a failure. -/
def proceed {σ α β : Type} (done : Outcome α × σ) (next : α → σ → Outcome β × σ) :
    Outcome β × σ :=
  match done with
  | (.ok value, state) => next value state
  | (.error failure, state) => (.error failure, state)

namespace Exchange

variable {ε : Type}

def new (world : ε) : Exchange ε :=
  ⟨Registry.definitions ε, ⟨[], world⟩, [], [], .empty, .empty, [], [], []⟩

def view (ε : Type) : View (Exchange ε) ε where
  get x := x.pool.world
  put world x := { x with pool := { x.pool with world := world } }
  get_put _ _ := rfl
  put_get _ := rfl
  put_put _ _ _ := rfl

def world (x : Exchange ε) : ε := x.pool.world

def withWorld (x : Exchange ε) (world : ε) : Exchange ε := (view ε).put world x

def warn (x : Exchange ε) (warnings : List Warning) : Exchange ε :=
  { x with warnings := x.warnings ++ warnings }

def store (x : Exchange ε) (address : String) : Registry.Store := x.stores.getD address .empty

def withStore (x : Exchange ε) (address : String) (store : Registry.Store) : Exchange ε :=
  { x with stores := x.stores.insert address store }

def book (x : Exchange ε) (number : Nat) : Book := x.books.getD number .empty

def withBook (x : Exchange ε) (number : Nat) (book : Book) : Exchange ε :=
  { x with books := x.books.set number book }

def deliver (x : Exchange ε) (d : Delivery) : Exchange ε :=
  match d.subscriber with
  | .reference number => x.withBook number ((x.book number).receive d.push)
  | .listener number =>
      match x.listeners[number]? with
      | some hear => x.withWorld (hear d.dataId d.push x.world)
      | none => x

def deliverAll (x : Exchange ε) (deliveries : List Delivery) : Exchange ε :=
  deliveries.foldl deliver x

/-- Takes over a changed store and delivers what the change says. -/
def commit (x : Exchange ε) (address : String) (change : Registry.Store × List Delivery) :
    Exchange ε :=
  (x.withStore address change.1).deliverAll change.2

def publish (x : Exchange ε) (address dataId group : String) (provider : Provider) : Exchange ε :=
  x.commit address ((x.store address).publish dataId group provider)

def withdraw (x : Exchange ε) (address dataId group : String) (provider : Provider) :
    Exchange ε :=
  x.commit address ((x.store address).withdraw dataId group provider)

def addListener (x : Exchange ε) (hear : Listener ε) : Nat × Exchange ε :=
  (x.listeners.length, { x with listeners := x.listeners ++ [hear] })

def addBook (x : Exchange ε) : Nat × Exchange ε :=
  (x.books.length, { x with books := x.books ++ [Book.empty] })

def addHook (x : Exchange ε) (hook : Hook ε) : Exchange ε := { x with hooks := x.hooks ++ [hook] }

end Exchange

end Switchboard
