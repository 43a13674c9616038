import Switchboard.Proofs.Roster

/-! What a binding that fails leaves in the book. The subscriptions end, but nobody takes back what
the registries have told before the failure, nor the direct group that was made of a list. Beside
the operations that subscribe, it is followed here what they tell the subscriber, and a book that is
left is one that has taken just these pushes. -/
namespace Switchboard

namespace Exchange

open Registry (memoryProtocol)

variable {ε : Type} {x y : Exchange ε} {number : Nat}

def answers (x : Exchange ε) (registry : Nat) (service : Service) (subscriber : Subscriber) :
    List Push :=
  match x.registry? registry with
  | none => []
  | some ⟨_, .foreign behaviour⟩ => (behaviour.subscribe service subscriber x.world).pushes
  | some ⟨settings, .memory _⟩ =>
      if settings.subscribes then ((x.store settings.address).snapshot service.dataId).map .set
      else []

def toldBy (service : Service) (subscriber : Subscriber) (settings : Registry.Settings)
    (x : Exchange ε) : List Push :=
  match x.ready settings with
  | (.ok registry, ready) => ready.answers registry service subscriber
  | (.error _, _) => []

/-- What attempts to subscribe tell the subscriber, up to the first one that fails. -/
def toldByAll (service : Service) (subscriber : Subscriber) :
    List Registry.Settings → Exchange ε → List Push
  | [], _ => []
  | settings :: rest, x =>
      toldBy service subscriber settings x ++
        match follow service subscriber settings x with
        | (.ok _, after) => toldByAll service subscriber rest after
        | (.error _, _) => []

theorem pushesTo_own (subscriber : Subscriber) (dataId : String) (pushes : List Push) :
    pushesTo subscriber (pushes.map (⟨subscriber, dataId, ·⟩)) = pushes := by
  induction pushes with
  | nil => rfl
  | cons push rest ih =>
      rw [pushesTo, List.map_cons, List.filter_cons_of_pos (by simp), List.map_cons, ← pushesTo, ih]

theorem book_withBook (held : number < x.books.length) (b : Book) :
    (x.withBook number b).book number = b := by
  rw [book, withBook, List.getD_eq_getElem?_getD, List.getElem?_set_self held]
  rfl

theorem book_subscribe (known : number < x.books.length) (registry : Nat) (service : Service) :
    (x.subscribe registry service (.reference number)).2.book number =
      (x.answers registry service (.reference number)).foldl Book.receive (x.book number) := by
  cases found : x.registry? registry with
  | none =>
      rw [subscribe, answers, found]
      rfl
  | some r =>
      obtain ⟨settings, state | behaviour⟩ := r
      · rw [subscribe, answers, found]
        dsimp only
        split
        next =>
          refine (book_commit (x.withMemory registry settings _) settings.address _ known).trans ?_
          rw [Registry.Store.pushesTo_subscribe]
          rfl
        next => rfl
      · rw [subscribe, answers, found]
        dsimp only
        refine (book_deliverAll
          (x.withWorld (behaviour.subscribe service (.reference number) x.world).world) _
          known).trans ?_
        rw [pushesTo_own]
        rfl

theorem book_follow (grow : x.definitions.Grow) (known : number < x.books.length)
    (service : Service) (settings : Registry.Settings) :
    (follow service (.reference number) settings x).2.book number =
      (toldBy service (.reference number) settings x).foldl Book.receive (x.book number) := by
  have quiet := quiet_ready grow settings
  rw [follow, toldBy]
  generalize x.ready settings = done at quiet
  obtain ⟨failure | registry, ready⟩ := done
  · exact quiet.book number
  · have told : (ready.subscribe registry service (.reference number)).2.book number =
        (ready.answers registry service (.reference number)).foldl Book.receive
          (x.book number) := by
      rw [book_subscribe (quiet.books ▸ known), quiet.book]
    rw [proceed]
    exact proceed_state (P := fun z : Exchange ε => z.book number = _) told fun _ _ => told

theorem book_tryAll (grow : x.definitions.Grow) (known : number < x.books.length)
    (service : Service) (settings : List Registry.Settings) :
    (tryAll (follow service (.reference number)) settings x).2.book number =
      (toldByAll service (.reference number) settings x).foldl Book.receive (x.book number) := by
  induction settings generalizing x with
  | nil => rfl
  | cons first rest ih =>
      have own := book_follow grow known service first
      -- To any other reference this is foreign: the definitions stay and no book is lost.
      have spared : Spares (number + 1) x (follow service (.reference number) first x).2 :=
        spares_follow grow service (by simp) first
      rw [tryAll, toldByAll, List.foldl_append, ← own]
      generalize follow service (.reference number) first x = done at spared
      obtain ⟨failure | followed, after⟩ := done
      · rfl
      · exact ih (spared.grow grow) (Nat.lt_of_lt_of_le known spared.held)

theorem books_partAll (x : Exchange ε) (service : Service) (subscriber : Subscriber)
    (registries : List Nat) : (partAll service subscriber registries x).books = x.books := by
  refine List.foldlRecOn registries _ (motive := fun y : Exchange ε => y.books = x.books) rfl
    fun y before registry _ => ?_
  rcases y.part_cases registry service subscriber with ⟨outlet, state, -, dismissed⟩ | ⟨quiet, -⟩
  · rw [dismissed]
    exact before
  · rw [quiet.books]
    exact before

theorem book_followAll (grow : x.definitions.Grow) (known : number < x.books.length)
    (service : Service) (settings : List Registry.Settings) :
    (followAll service (.reference number) settings x).2.book number =
      (toldByAll service (.reference number) settings x).foldl Book.receive (x.book number) := by
  rw [← book_tryAll grow known, followAll]
  generalize tryAll (follow service (.reference number)) settings x = walk
  obtain ⟨⟨followed, failure⟩, y⟩ := walk
  cases failure with
  | none => rfl
  | some failure => rw [book, books_partAll, book]

theorem toldBy_memory (tabled : x.Tabled) (service : Service) (number : Nat)
    {settings : Registry.Settings} (memory : settings.protocol = memoryProtocol)
    (allows : settings.subscribes = true) :
    ∃ y, y.Tabled ∧ (∀ address, Steady address x y) ∧
      ((∃ failure, follow service (.reference number) settings x = (.error failure, y) ∧
        toldBy service (.reference number) settings x = []) ∨
      ∃ followed, follow service (.reference number) settings x = (.ok followed, y) ∧
        toldBy service (.reference number) settings x =
          ((x.store settings.address).snapshot service.dataId).map .set) := by
  obtain ⟨y, quiet, still, ⟨failure, refused, failed⟩ | ⟨registry, state, got, found, followed⟩⟩ :=
    follow_memory tabled memory allows service (.reference number)
  · refine ⟨y, still, fun _ => quiet.steady, .inl ⟨failure, failed, ?_⟩⟩
    rw [toldBy, refused]
  · refine ⟨y.join registry settings state service.dataId (.reference number),
      still.join found _ _, fun _ => quiet.steady.trans (steady_join found _ _),
      .inr ⟨_, followed, ?_⟩⟩
    simp only [toldBy, got, answers, found, allows, if_true]
    rw [quiet.store]

theorem toldByAll_memory (tabled : x.Tabled) (service : Service) (number : Nat)
    {settings : List Registry.Settings}
    (memory : ∀ s ∈ settings, s.protocol = memoryProtocol ∧ s.subscribes = true) :
    ∃ reached, reached <+: settings ∧ toldByAll service (.reference number) settings x =
      reached.flatMap fun s => ((x.store s.address).snapshot service.dataId).map .set := by
  induction settings generalizing x with
  | nil => exact ⟨[], List.nil_prefix, rfl⟩
  | cons first rest ih =>
      obtain ⟨ofMemory, allows⟩ := memory first List.mem_cons_self
      obtain ⟨y, still, steady, ⟨failure, failed, silent⟩ | ⟨followed, done, told⟩⟩ :=
        toldBy_memory tabled service number ofMemory allows
      · exact ⟨[], List.nil_prefix, by rw [toldByAll, failed, silent]; rfl⟩
      · obtain ⟨reached, begins, later⟩ :=
          ih still fun s member => memory s (List.mem_cons_of_mem _ member)
        refine ⟨first :: reached, (List.prefix_cons_inj first).mpr begins, ?_⟩
        rw [toldByAll, done, told]
        dsimp only
        rw [later, List.flatMap_cons]
        simp only [snapshot_of_services (steady _).services]

end Exchange

namespace Hub

open Exchange (toldByAll)
open Registry (memoryProtocol)

variable {ε : Type} {number : Nat} {h after : Hub ε} {r : Reference ε}

theorem books_cluster (h : Hub ε) (number : Nat) :
    (h.cluster number).2.exchange.books = h.exchange.books := by
  rw [cluster]
  split
  · rfl
  · refine proceed_state (P := fun g : Hub ε => g.exchange.books = h.exchange.books) rfl
      fun balancer _ => ?_
    exact proceed_state (P := fun g : Hub ε => g.exchange.books = h.exchange.books) rfl
      fun codec _ => rfl

theorem books_buildProxy (h : Hub ε) (number : Nat) (reference : Reference ε) :
    (h.buildProxy number reference).2.exchange.books = h.exchange.books := by
  have clustered := h.books_cluster number
  refine proceed_state (P := fun g : Hub ε => g.exchange.books = h.exchange.books) clustered
    fun cluster _ => ?_
  exact proceed_state (P := fun g : Hub ε => g.exchange.books = h.exchange.books) clustered
    fun chain _ => clustered

theorem books_unsubscribe (h : Hub ε) (number : Nat) :
    (h.unsubscribe number).exchange.books = h.exchange.books := by
  rw [Hub.unsubscribe]
  split
  · rfl
  · exact Exchange.books_partAll _ _ _ _

theorem book_of_books {g : Hub ε} (same : g.exchange.books = h.exchange.books) (number : Nat) :
    g.book number = h.book number := by
  rw [Hub.book, Hub.book, Exchange.book, same]
  rfl

def told (h : Hub ε) (number : Nat) (r : Reference ε) : List Push :=
  toldByAll r.service (.reference number) (r.settings.registries.filter (·.subscribes))
    (h.exchange.withBook number ((h.book number).updateAll []))

def filled (h : Hub ε) (number : Nat) (r : Reference ε) : Book :=
  match r.settings.direct with
  | some list =>
      match (Reference.addresses list).mapM Provider.parse with
      | .error _ => h.book number
      | .ok providers => (h.book number).update (Group.prepare ⟨Group.directName, providers⟩)
  | none =>
      if r.subscribed.isEmpty then
        (h.told number r).foldl Book.receive ((h.book number).updateAll [])
      else h.book number

theorem Paired.below (paired : Paired h) (known : h.references[number]? = some r) :
    number < h.exchange.books.length :=
  Nat.lt_of_lt_of_le (List.getElem?_eq_some_iff.mp known).1 paired.held

theorem book_subscribe (paired : Paired h) (known : h.references[number]? = some r) :
    (h.subscribe number).2.book number =
      if r.subscribed.isEmpty then
        (h.told number r).foldl Book.receive ((h.book number).updateAll [])
      else h.book number := by
  have below := paired.below known
  split
  next empty =>
    have noted := List.isEmpty_iff.mp empty
    have followed := Exchange.book_followAll
      (x := h.exchange.withBook number ((h.book number).updateAll [])) paired.grow
      (by rwa [Exchange.withBook, List.length_set]) r.service
      (r.settings.registries.filter (·.subscribes))
    rw [Exchange.book_withBook below] at followed
    rw [subscribe_eq known noted rfl]
    exact proceed_state (P := fun g : Hub ε => g.book number = _) followed fun _ _ => followed
  next noted => simp [Hub.subscribe, known, noted]

theorem book_fill (paired : Paired h) (known : h.references[number]? = some r) :
    (h.fill number r.settings.direct).2.book number = h.filled number r := by
  rw [filled]
  cases r.settings.direct with
  | none =>
      have subscribed := book_subscribe paired known
      exact proceed_state (P := fun g : Hub ε => g.book number = _) subscribed fun _ _ => subscribed
  | some list =>
      rw [Hub.fill, seed]
      dsimp only
      cases (Reference.addresses list).mapM Provider.parse with
      | error failure => rfl
      | ok providers => exact Exchange.book_withBook (paired.below known) _

theorem book_bind_failed (paired : Paired h) (known : h.references[number]? = some r)
    {failure : Failure} (failed : h.bind number = (.error failure, after)) :
    after.book number = h.filled number r := by
  cases unbound : r.proxy with
  | some proxy =>
      simp only [Hub.bind, known, unbound] at failed
      cases failed
  | none =>
      have begun := book_fill paired known
      simp only [Hub.bind, known, unbound] at failed
      generalize h.fill number r.settings.direct = done at failed begun
      obtain ⟨refused | value, g⟩ := done
      · obtain ⟨-, rfl⟩ := Prod.mk.inj failed
        exact begun
      · rw [proceed] at failed
        have built := (book_of_books (books_buildProxy g number r) number).trans begun
        generalize g.buildProxy number r = last at failed built
        obtain ⟨refused | proxy, k⟩ := last
        · obtain ⟨-, rfl⟩ := Prod.mk.inj failed
          exact (book_of_books (k.books_unsubscribe number) number).trans built
        · rw [settle] at failed
          split at failed
          · obtain ⟨-, rfl⟩ := Prod.mk.inj failed
            exact built
          · cases failed

/-- When a binding has failed in whatever run, the book has what its filling has brought before: the
direct group of a list that could be read, or all that the registries have told up to the first of
them that refused. Memory registries have told what their stores held. -/
theorem bind_failed_leaves_told {settings : Settings} {world : ε} {acts : List (Act ε)}
    {failure : Failure}
    (known : ((Hub.new settings world).run acts).references[number]? = some r)
    (failed : ((Hub.new settings world).run acts).bind number = (.error failure, after)) :
    after.book number = ((Hub.new settings world).run acts).filled number r ∧
    (((Hub.new settings world).run acts).exchange.Tabled → r.settings.direct = none →
      r.subscribed = [] →
      (∀ s ∈ r.settings.registries, s.subscribes = true → s.protocol = memoryProtocol) →
      ∃ reached, reached <+: r.settings.registries.filter (·.subscribes) ∧
        after.book number =
          (reached.flatMap fun s =>
            ((((Hub.new settings world).run acts).exchange.store s.address).snapshot
              r.service.dataId).map .set).foldl Book.receive
                ((((Hub.new settings world).run acts).book number).updateAll [])) := by
  have left := book_bind_failed (paired_run settings world acts) known failed
  refine ⟨left, fun tabled direct empty memory => ?_⟩
  have cleared : (((Hub.new settings world).run acts).exchange.withBook number
      ((((Hub.new settings world).run acts).book number).updateAll [])).Tabled :=
    tabled.same rfl rfl fun _ _ known => known
  have sources : ∀ s ∈ r.settings.registries.filter (·.subscribes),
      s.protocol = memoryProtocol ∧ s.subscribes = true := fun s member => by
    obtain ⟨listed, allows⟩ := List.mem_filter.mp member
    exact ⟨memory s listed allows, allows⟩
  obtain ⟨reached, begins, told⟩ := Exchange.toldByAll_memory cleared r.service number sources
  refine ⟨reached, begins, left.trans ?_⟩
  rw [filled, direct, empty]
  exact congrArg (List.foldl Book.receive _) told

def misled (direct : Option String) : Reference.Settings :=
  ⟨"com.demo.Echo", "", "bolt", "", [Registry.Settings.new memoryProtocol "center"], direct,
    "missing", rotationName, Codec.jsonName, none⟩

def misleading (direct : Option String) : List (Act Unit) :=
  [.addReference (misled direct) [],
    .publish "center" "com.demo.Echo@bolt" "blue" (Follower.weighing "100")]

theorem bind_failed_leaves_told_misled :
    (((Hub.new Settings.default ()).run (misleading none)).bind 0).2.book 0 =
      ((((Hub.new Settings.default ()).run (misleading none)).book 0).updateAll []).receive
        (.set ⟨"blue", [Follower.weighing "100"]⟩) := by
  have refused : (((Hub.new Settings.default ()).run (misleading none)).bind 0).1 =
      .error (.missingExtension "filter" "missing") := by cbv
  have known : ((Hub.new Settings.default ()).run (misleading none)).references[0]? =
      some ⟨misled none, ⟨"com.demo.Echo", "bolt", "", ""⟩, [], [], none⟩ := by cbv
  have told : ((Hub.new Settings.default ()).run (misleading none)).told 0
      ⟨misled none, ⟨"com.demo.Echo", "bolt", "", ""⟩, [], [], none⟩ =
        [.set ⟨"blue", [Follower.weighing "100"]⟩] := by cbv
  have left := (bind_failed_leaves_told known (Prod.ext refused rfl :
    ((Hub.new Settings.default ()).run (misleading none)).bind 0 = (_, _))).1
  rw [left, filled, told]
  rfl

/-- The book had no provider before a binding that failed, and has one afterwards, from the registry
or from the list. -/
theorem bind_failed_keeps_addresses :
    (((Hub.new Settings.default ()).run (misleading none)).bind 0).1 =
        .error (.missingExtension "filter" "missing") ∧
      (((Hub.new Settings.default ()).run (misleading none)).book 0).size = 0 ∧
      ((((Hub.new Settings.default ()).run (misleading none)).bind 0).2.book 0).size = 1 ∧
    (((Hub.new Settings.default ()).run (misleading (some "bolt://10.0.0.1:12200"))).bind 0).1 =
        .error (.missingExtension "filter" "missing") ∧
      (((Hub.new Settings.default ()).run
        (misleading (some "bolt://10.0.0.1:12200"))).book 0).size = 0 ∧
      ((((Hub.new Settings.default ()).run
        (misleading (some "bolt://10.0.0.1:12200"))).bind 0).2.book 0).size = 1 := by
  refine ⟨?_, ?_, ?_, ?_, ?_, ?_⟩ <;> cbv

end Hub

end Switchboard
