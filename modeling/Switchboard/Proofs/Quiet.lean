import Switchboard.Exchange.Membership
import Switchboard.Proofs.Catalog
import Switchboard.Proofs.Following

/-! What goes on in an exchange without a change of the address space. Registries are built and
started, surroundings change and warnings are noted, but each store and each book stays as it is, no
registry moves to another address and nobody subscribes. To register, to subscribe and to undo
either of them is quiet, or it is one change of one store. -/
namespace Switchboard

namespace Registry

variable {ε : Type}

def outlet? (r : Registry ε) : Option Settings :=
  match r.backend with
  | .memory _ => some r.settings
  | .foreign _ => none

def roll (r : Registry ε) : List (String × Subscriber) :=
  match r.backend with
  | .memory state => state.subscriptions
  | .foreign _ => []

/-- To build a registry leaves the others as they are, and nobody has subscribed to the new ones. -/
def Grows (build : Settings → Pool ε → Outcome Nat × Pool ε) : Prop :=
  ∀ settings pool, ∃ more, (build settings pool).2.registries = pool.registries ++ more ∧
    ∀ registry ∈ more, registry.roll = []

theorem grows_buildMemory : Grows (buildMemory (ε := ε)) := fun settings _ =>
  ⟨[⟨settings, .memory .new⟩], rfl, fun registry member => by
    rw [List.mem_singleton.mp member]; rfl⟩

theorem grows_buildForeign (make : Settings → ε → Outcome (Foreign ε) × ε) :
    Grows (buildForeign make) := by
  intro settings pool
  rw [buildForeign]
  split
  next => exact ⟨[], (List.append_nil _).symm, fun _ member => absurd member List.not_mem_nil⟩
  next behaviour world made =>
    exact ⟨[⟨settings, .foreign behaviour⟩], rfl, fun registry member => by
      rw [List.mem_singleton.mp member]; rfl⟩

def Definitions.Grow (c : Definitions ε) : Prop :=
  ∀ key d, c.definitions.get? key = some d → Grows d.build

theorem Definitions.Grow.get {c : Definitions ε} (grow : c.Grow) (key : String)
    (settings : Settings) (pool : Pool ε) :
    ∃ more, (c.get key settings pool).world.registries = pool.registries ++ more ∧
      ∀ registry ∈ more, registry.roll = [] := by
  have nothing : ∃ more, pool.registries = pool.registries ++ more ∧
      ∀ registry ∈ more, registry.roll = [] :=
    ⟨[], (List.append_nil _).symm, fun _ member => absurd member List.not_mem_nil⟩
  rw [Catalog.get]
  split
  next => exact nothing
  next d defined =>
    have built := grow key d defined settings pool
    split
    · split
      · exact nothing
      · exact built
    · exact built

theorem Definitions.Grow.register {c : Definitions ε} (grow : c.Grow)
    (d : Definition (Pool ε) Settings Nat) (grows : Grows d.build) :
    Definitions.Grow (c.register d).catalog :=
  Catalog.Every.register (P := fun d => Grows d.build) grow grows

theorem grow_definitions : (definitions ε).Grow := by
  refine Definitions.Grow.register (fun key d found => ?_) _ grows_buildMemory
  exact absurd found (by simp [Catalog.new])

end Registry

theorem proceed_state {σ α β : Type} {P : σ → Prop} {done : Outcome α × σ}
    {next : α → σ → Outcome β × σ} (first : P done.2)
    (second : ∀ value, done.1 = .ok value → P (next value done.2).2) :
    P (proceed done next).2 := by
  obtain ⟨failure | value, state⟩ := done
  · exact first
  · exact second value rfl

namespace Exchange

open Registry (Registration Memory)

variable {ε : Type}

def outlet? (x : Exchange ε) (number : Nat) : Option Registry.Settings :=
  (x.registry? number).bind Registry.outlet?

def roll (x : Exchange ε) (number : Nat) : List (String × Subscriber) :=
  ((x.registry? number).map Registry.roll).getD []

/-- Stores, books and subscriptions are the same after as before, and each memory registry has kept
its settings. -/
structure Quiet (x y : Exchange ε) : Prop where
  stores : y.stores = x.stores
  books : y.books = x.books
  outlets : ∀ number settings, x.outlet? number = some settings → y.outlet? number = some settings
  rolls : ∀ number, y.roll number = x.roll number
  definitions : y.definitions.definitions = x.definitions.definitions

namespace Quiet

variable {x y z : Exchange ε}

theorem refl (x : Exchange ε) : Quiet x x := ⟨rfl, rfl, fun _ _ same => same, fun _ => rfl, rfl⟩

theorem trans (first : Quiet x y) (second : Quiet y z) : Quiet x z where
  stores := second.stores.trans first.stores
  books := second.books.trans first.books
  outlets number settings known :=
    second.outlets number settings (first.outlets number settings known)
  rolls number := (second.rolls number).trans (first.rolls number)
  definitions := second.definitions.trans first.definitions

theorem store (quiet : Quiet x y) (address : String) : y.store address = x.store address := by
  rw [Exchange.store, quiet.stores, Exchange.store]

theorem book (quiet : Quiet x y) (number : Nat) : y.book number = x.book number := by
  rw [Exchange.book, quiet.books, Exchange.book]

theorem grow (quiet : Quiet x y) (grow : x.definitions.Grow) : y.definitions.Grow := by
  intro key d found
  rw [quiet.definitions] at found
  exact grow key d found

end Quiet

theorem quiet_withWorld (x : Exchange ε) (world : ε) : Quiet x (x.withWorld world) :=
  ⟨rfl, rfl, fun _ _ same => same, fun _ => rfl, rfl⟩

theorem quiet_warn (x : Exchange ε) (warnings : List Warning) : Quiet x (x.warn warnings) :=
  ⟨rfl, rfl, fun _ _ same => same, fun _ => rfl, rfl⟩

theorem registry?_withMemory {x : Exchange ε} {number : Nat} {r : Registry ε}
    (h : x.registry? number = some r) (settings : Registry.Settings) (state : Memory)
    (other : Nat) : registry? (x.withMemory number settings state) other =
      if number = other then some ⟨settings, .memory state⟩ else x.registry? other := by
  obtain ⟨below, -⟩ := List.getElem?_eq_some_iff.mp h
  simp only [ registry?, withMemory, List.getElem?_set, below, if_true]

theorem outlet?_withMemory {x : Exchange ε} {number : Nat} {settings : Registry.Settings}
    {old : Memory} (h : x.registry? number = some ⟨settings, .memory old⟩) (state : Memory)
    (other : Nat) : (x.withMemory number settings state).outlet? other = x.outlet? other := by
  rw [outlet?, registry?_withMemory h]
  split
  next same => rw [← same, outlet?, h]; rfl
  next => rfl

theorem roll_withMemory {x : Exchange ε} {number : Nat} {settings : Registry.Settings}
    {old : Memory} (h : x.registry? number = some ⟨settings, .memory old⟩) (state : Memory)
    (other : Nat) : (x.withMemory number settings state).roll other =
      if number = other then state.subscriptions else x.roll other := by
  rw [roll, registry?_withMemory h]
  split <;> rfl

theorem quiet_withMemory {x : Exchange ε} {number : Nat} {settings : Registry.Settings}
    {old state : Memory} (h : x.registry? number = some ⟨settings, .memory old⟩)
    (same : state.subscriptions = old.subscriptions) :
    Quiet x (x.withMemory number settings state) where
  stores := rfl
  books := rfl
  outlets other _ known := (outlet?_withMemory h state other).trans known
  rolls other := by
    rw [roll_withMemory h]
    split
    next own => rw [same, ← own, roll, h]; rfl
    next => rfl
  definitions := rfl

theorem quiet_grown {x y : Exchange ε} {more : List (Registry ε)} (stores : y.stores = x.stores)
    (books : y.books = x.books)
    (definitions : y.definitions.definitions = x.definitions.definitions)
    (registries : y.pool.registries = x.pool.registries ++ more)
    (unused : ∀ registry ∈ more, registry.roll = []) : Quiet x y := by
  have kept : ∀ number r, x.registry? number = some r → y.registry? number = some r := by
    intro number r known
    rw [ registry?, registries, List.getElem?_append_left (List.getElem?_eq_some_iff.mp known).1]
    exact known
  refine ⟨stores, books, fun number settings known => ?_, fun number => ?_, definitions⟩
  · obtain ⟨r, found, outlet⟩ := Option.bind_eq_some_iff.mp known
    exact Option.bind_eq_some_iff.mpr ⟨r, kept number r found, outlet⟩
  · cases found : x.registry? number with
    | some r => rw [roll, kept number r found, roll, found]
    | none =>
        have beyond : x.pool.registries.length ≤ number := List.getElem?_eq_none_iff.mp found
        rw [roll, roll, found, registry?, registries, List.getElem?_append_right beyond]
        cases new : more[number - x.pool.registries.length]? with
        | none => rfl
        | some r => exact unused r (List.mem_of_getElem? new)

theorem quiet_obtain {x : Exchange ε} (grow : x.definitions.Grow) (settings : Registry.Settings) :
    Quiet x (x.obtain settings).2 := by
  obtain ⟨more, registries, unused⟩ := grow.get settings.protocol settings x.pool
  have defined := x.definitions.get_definitions settings.protocol settings x.pool
  rw [obtain]
  split
  next => exact .refl x
  next =>
    dsimp only
    split
    next => exact quiet_grown rfl rfl defined registries unused
    next number built =>
      have added : ∀ table, Quiet x
          { x with
            definitions := (x.definitions.get settings.protocol settings x.pool).catalog
            pool := (x.definitions.get settings.protocol settings x.pool).world
            table := table } :=
        fun table => quiet_grown rfl rfl defined registries unused
      split
      · exact (added _).trans (quiet_warn _ _)
      · exact added _

theorem quiet_outside {α : Type} (x : Exchange ε) (act : ε → Outcome α × ε) :
    Quiet x (x.outside act).2 := quiet_withWorld x _

theorem quiet_startRescan {x : Exchange ε} {number : Nat} {settings : Registry.Settings}
    {old state : Memory} (h : x.registry? number = some ⟨settings, .memory old⟩)
    (same : state.subscriptions = old.subscriptions) (period : Nat) :
    Quiet x (x.startRescan number settings state period).2 := by
  rw [startRescan]
  split
  next => exact .refl x
  next task tasks _ =>
    have timed : Quiet x { x with tasks := tasks.start task } :=
      ⟨rfl, rfl, fun _ _ known => known, fun _ => rfl, rfl⟩
    have still : registry? { x with tasks := tasks.start task } number =
        some ⟨settings, .memory old⟩ := h
    exact timed.trans (quiet_withMemory still same)

theorem quiet_start (x : Exchange ε) (number : Nat) : Quiet x (x.start number).2 := by
  rw [start]
  split
  next => exact .refl x
  next => exact quiet_outside x _
  next settings state found =>
    split
    next => exact .refl x
    next =>
      have started : Quiet x (x.withMemory number settings { state with started := true }) :=
        quiet_withMemory found rfl
      dsimp only
      split
      next => exact started
      next period _ =>
        have now : registry? (x.withMemory number settings { state with started := true }) number =
            some ⟨settings, .memory { state with started := true }⟩ := by
          rw [ registry?_withMemory found, if_pos rfl]
        exact started.trans (quiet_startRescan now rfl period)

theorem quiet_ready {x : Exchange ε} (grow : x.definitions.Grow) (settings : Registry.Settings) :
    Quiet x (x.ready settings).2 := by
  have obtained := quiet_obtain grow settings
  refine proceed_state obtained fun number _ => ?_
  have started := obtained.trans (quiet_start _ number)
  exact proceed_state started fun _ _ => started

theorem outlet?_of_memory {x : Exchange ε} {number : Nat} {settings : Registry.Settings}
    {state : Memory} (h : x.registry? number = some ⟨settings, .memory state⟩) :
    x.outlet? number = some settings := by
  rw [outlet?, h]
  rfl

theorem outlet?_of_foreign {x : Exchange ε} {number : Nat} {settings : Registry.Settings}
    {behaviour : Registry.Foreign ε}
    (h : x.registry? number = some ⟨settings, .foreign behaviour⟩) : x.outlet? number = none := by
  rw [outlet?, h]
  rfl

theorem outlet?_of_missing {x : Exchange ε} {number : Nat} (h : x.registry? number = none) :
    x.outlet? number = none := by
  rw [outlet?, h]
  rfl

theorem registry?_deliver (x : Exchange ε) (d : Delivery) (number : Nat) :
    registry? (x.deliver d) number = x.registry? number := by
  unfold deliver
  split
  · rfl
  · split <;> rfl

theorem definitions_deliver (x : Exchange ε) (d : Delivery) :
    (x.deliver d).definitions = x.definitions := by
  unfold deliver
  split
  · rfl
  · split <;> rfl

theorem registry?_deliverAll (x : Exchange ε) (deliveries : List Delivery) (number : Nat) :
    registry? (x.deliverAll deliveries) number = x.registry? number := by
  induction deliveries generalizing x with
  | nil => rfl
  | cons d rest ih => exact (ih (x.deliver d)).trans ( registry?_deliver x d number)

theorem definitions_deliverAll (x : Exchange ε) (deliveries : List Delivery) :
    (x.deliverAll deliveries).definitions = x.definitions := by
  induction deliveries generalizing x with
  | nil => rfl
  | cons d rest ih => exact (ih (x.deliver d)).trans (definitions_deliver x d)

theorem outlet?_commit (x : Exchange ε) (address : String)
    (change : Registry.Store × List Delivery) (number : Nat) :
    (x.commit address change).outlet? number = x.outlet? number := by
  rw [outlet?, commit, registry?_deliverAll]
  rfl

theorem definitions_commit (x : Exchange ε) (address : String)
    (change : Registry.Store × List Delivery) :
    (x.commit address change).definitions = x.definitions := definitions_deliverAll _ _

theorem register_cases (x : Exchange ε) (number : Nat) (r : Registration) :
    (∃ outlet, x.outlet? number = some outlet ∧ outlet.registers = true ∧
      x.register number r =
        (.ok (), x.publish outlet.address r.service.dataId r.group r.provider)) ∨
    Quiet x (x.register number r).2 := by
  rw [register]
  split
  next => exact .inr (.refl x)
  next settings behaviour found => exact .inr (quiet_outside x _)
  next settings state found =>
    by_cases allowed : settings.registers = true
    · exact .inl ⟨settings, outlet?_of_memory found, allowed, by rw [if_pos allowed]⟩
    · rw [if_neg allowed]
      exact .inr (.refl x)

theorem unregister_cases (x : Exchange ε) (number : Nat) (r : Registration) :
    (∃ outlet, x.outlet? number = some outlet ∧ outlet.registers = true ∧
      x.unregister number r =
        (.ok (), x.withdraw outlet.address r.service.dataId r.group r.provider)) ∨
    (Quiet x (x.unregister number r).2 ∧
      ∀ outlet, x.outlet? number = some outlet → outlet.registers = false) := by
  rw [unregister]
  split
  next found =>
    refine .inr ⟨.refl x, fun outlet known => ?_⟩
    rw [outlet?_of_missing found] at known
    cases known
  next settings behaviour found =>
    refine .inr ⟨quiet_outside x _, fun outlet known => ?_⟩
    rw [outlet?_of_foreign found] at known
    cases known
  next settings state found =>
    by_cases allowed : settings.registers = true
    · exact .inl ⟨settings, outlet?_of_memory found, allowed, by rw [if_pos allowed]⟩
    · rw [if_neg allowed]
      refine .inr ⟨.refl x, fun outlet known => ?_⟩
      rw [outlet?_of_memory found] at known
      exact Option.some.inj known ▸ Bool.eq_false_iff.mpr allowed

theorem enter_cases {x : Exchange ε} (grow : x.definitions.Grow) (r : Registration)
    (settings : Registry.Settings) :
    (∃ number outlet y, Quiet x y ∧ y.outlet? number = some outlet ∧ outlet.registers = true ∧
      enter r settings x =
        (.ok number, y.publish outlet.address r.service.dataId r.group r.provider)) ∨
    Quiet x (enter r settings x).2 := by
  have begun := quiet_ready grow settings
  rw [enter]
  generalize x.ready settings = done at begun
  obtain ⟨failure | number, y⟩ := done
  · exact .inr begun
  · rcases y.register_cases number r with ⟨outlet, known, allowed, published⟩ | quiet
    · refine .inl ⟨number, outlet, y, begun, known, allowed, ?_⟩
      rw [proceed, published, proceed]
    · have registered := begun.trans quiet
      rw [proceed]
      exact .inr (proceed_state registered fun _ _ => registered)

theorem leave_cases (x : Exchange ε) (r : Registration) (number : Nat) :
    (∃ outlet, x.outlet? number = some outlet ∧ outlet.registers = true ∧
      leave r x number = x.withdraw outlet.address r.service.dataId r.group r.provider) ∨
    (Quiet x (leave r x number) ∧
      ∀ outlet, x.outlet? number = some outlet → outlet.registers = false) := by
  rw [leave]
  rcases x.unregister_cases number r with ⟨outlet, known, allowed, withdrawn⟩ | ⟨quiet, silent⟩
  · exact .inl ⟨outlet, known, allowed, by rw [withdrawn]⟩
  · refine .inr ⟨?_, silent⟩
    generalize x.unregister number r = done at quiet
    obtain ⟨failure | value, y⟩ := done
    · exact quiet.trans (quiet_warn y _)
    · exact quiet

end Exchange

end Switchboard
