import Switchboard.Proofs.Following

/-! A book that follows stores at several addresses, whose groups have different names. Single
changes and subscriptions leave the groups of other addresses as they are. A full push does not: it
empties every named group that its own store does not have. What an address had published is gone
from the book until it is published again or the address makes a full push itself. -/
namespace Switchboard.Follower

open Registry (Store)

variable {ε : Type} (f : Follower)

def restores (address group : String) (identity : Identity) (event : Event) : Bool :=
  event == .resync address || (f.published address group identity event).isSome

/-- Whether the book shows what is live under an identity after an event, if it did or did not show
it before. -/
def sees (address group : String) (identity : Identity) (seen : Bool) (event : Event) : Bool :=
  match event with
  | .resync other => other == address
  | _ => seen || f.restores address group identity event

def visible (address group : String) (events : List Event) (identity : Identity) : Bool :=
  events.foldl (f.sees address group identity) true

/-- Another address has made a full push, and since then nothing has brought back what is live under
the identity. -/
def Erased (address group : String) (identity : Identity) (events : List Event) : Prop :=
  ∃ before other after, events = before ++ .resync other :: after ∧ other ≠ address ∧
    ∀ event ∈ after, f.restores address group identity event = false

/-- What may happen while the book follows addresses with groups of their own: at these addresses
only absent providers are published, each address in its own groups, and only these addresses make
full pushes. -/
def Allowed (addresses : List String) (owner : String → String) (x : Exchange ε) : Event → Prop
  | .publish address id group provider => id = f.dataId → address ∈ addresses →
      owner group = address ∧
        ∀ known ∈ f.live x address group, known.identity ≠ provider.identity
  | .withdraw _ _ _ _ => True
  | .resync address => address ∈ addresses
  | .follow _ | .part _ | .clear => False

def Owned (addresses : List String) (owner : String → String) (x : Exchange ε) : Prop :=
  ∀ address ∈ addresses, ∀ group, owner group ≠ address → f.live x address group = []

/-- The book follows each of the addresses once, and shows in a group what is live there at its
address under the seen identities. -/
structure Mirrors (addresses : List String) (owner : String → String)
    (seen : String → Identity → Bool) (x : Exchange ε) : Prop where
  ready : f.Ready x
  counted : ∀ address, f.times x address = if address ∈ addresses then 1 else 0
  shows : ∀ group, group ≠ Group.directName → f.shown x group =
    if owner group ∈ addresses then
      ((f.live x (owner group) group).filter (seen group ·.identity)).map Provider.prepare
    else []

variable {f} {x : Exchange ε} {addresses : List String} {owner : String → String}
  {seen : String → Identity → Bool}

theorem sees_eq_false_iff (address group : String) (identity : Identity) (seen : Bool)
    (event : Event) : f.sees address group identity seen event = false ↔
      (∃ other, event = .resync other ∧ other ≠ address) ∨
        seen = false ∧ f.restores address group identity event = false := by
  cases event <;> simp [sees, restores, published]

theorem erased_cons_iff (address group : String) (identity : Identity) (event : Event)
    (rest : List Event) : f.Erased address group identity (event :: rest) ↔
      (∃ other, event = .resync other ∧ other ≠ address) ∧
          (∀ later ∈ rest, f.restores address group identity later = false) ∨
        f.Erased address group identity rest := by
  constructor
  · rintro ⟨before, other, after, parts, foreign, quiet⟩
    cases before with
    | nil =>
        obtain ⟨rfl, rfl⟩ := List.cons.inj parts
        exact .inl ⟨⟨other, rfl, foreign⟩, quiet⟩
    | cons head tail => exact .inr ⟨tail, other, after, (List.cons.inj parts).2, foreign, quiet⟩
  · rintro (⟨⟨other, rfl, foreign⟩, quiet⟩ | ⟨before, other, after, rfl, foreign, quiet⟩)
    · exact ⟨[], other, rest, rfl, foreign, quiet⟩
    · exact ⟨event :: before, other, after, rfl, foreign, quiet⟩

theorem foldl_sees_eq_false_iff (address group : String) (events : List Event)
    (identity : Identity) (seen : Bool) :
    events.foldl (f.sees address group identity) seen = false ↔
      (seen = false ∧ ∀ event ∈ events, f.restores address group identity event = false) ∨
        f.Erased address group identity events := by
  induction events generalizing seen with
  | nil => simp [Erased]
  | cons event rest ih =>
      rw [List.foldl_cons, ih, sees_eq_false_iff, erased_cons_iff, List.forall_mem_cons,
        or_and_right, or_assoc, or_left_comm, and_assoc]

theorem visible_eq_false_iff (address group : String) (events : List Event) (identity : Identity) :
    f.visible address group events identity = false ↔ f.Erased address group identity events := by
  rw [visible, foldl_sees_eq_false_iff]
  simp

theorem Owned.act (owned : f.Owned addresses owner x) {event : Event}
    (allowed : f.Allowed addresses owner x event) :
    f.Owned addresses owner (f.act x event) := by
  intro address followed group foreign
  have empty := owned address followed group foreign
  cases event with
  | publish place id name provider =>
      rw [Follower.act, live_publish]
      split
      next here =>
        obtain ⟨rfl, own, rfl⟩ := here
        exact absurd (allowed own followed).1 foreign
      next => exact empty
  | withdraw place id name provider =>
      rw [Follower.act, live_withdraw, empty]
      split <;> rfl
  | resync place => rw [live_resync]; exact empty
  | follow place => exact allowed.elim
  | part place => exact allowed.elim
  | clear => exact allowed.elim

theorem Mirrors.shown_publish (mirrors : f.Mirrors addresses owner seen x)
    {place id group : String} {provider : Provider}
    (allowed : f.Allowed addresses owner x (.publish place id group provider)) {name : String}
    (named : name ≠ Group.directName) :
    f.shown (x.publish place id group provider) name =
      if owner name ∈ addresses then
        ((f.live (x.publish place id group provider) (owner name) name).filter fun known =>
          f.sees (owner name) name known.identity (seen name known.identity)
            (.publish place id group provider)).map Provider.prepare
      else [] := by
  rw [mirrors.ready.shown_publish _ _ _ _ named, mirrors.shows name named, live_publish]
  -- What reaches the book is published at the group's own address, all else changes neither side.
  by_cases told : (id = f.dataId ∧ group = name) ∧ place ∈ addresses
  · obtain ⟨⟨own, rfl⟩, followed⟩ := told
    obtain ⟨rfl, absent⟩ := allowed own followed
    rw [if_pos followed, if_pos followed, if_pos ⟨own, rfl⟩, if_pos ⟨rfl, own, rfl⟩,
      Store.settle_of_absent absent, mirrors.counted, if_pos followed, List.filter_append,
      List.map_append]
    have kept : ∀ known ∈ f.live x (owner group) group,
        seen group known.identity = f.sees (owner group) group known.identity
          (seen group known.identity) (.publish (owner group) id group provider) := by
      intro known member
      simp [sees, restores, published, Ne.symm (absent known member)]
    have added : f.sees (owner group) group provider.identity (seen group provider.identity)
        (.publish (owner group) id group provider) = true := by
      simp [sees, restores, published, own]
    rw [List.filter_congr kept]
    simp [added]
  · have nothing : (if id = f.dataId ∧ group = name then
        List.replicate (f.times x place) provider.prepare else []) = [] := by
      split
      next own => rw [mirrors.counted, if_neg fun followed => told ⟨own, followed⟩]; rfl
      next => rfl
    rw [nothing, List.append_nil]
    by_cases followed : owner name ∈ addresses
    · have elsewhere : ¬(place = owner name ∧ id = f.dataId ∧ group = name) :=
        fun here => told ⟨here.2, here.1 ▸ followed⟩
      rw [if_pos followed, if_pos followed, if_neg elsewhere]
      refine congrArg _ (List.filter_congr fun known _ => ?_)
      have silent : f.published (owner name) name known.identity
          (.publish place id group provider) = none :=
        if_neg fun here => elsewhere ⟨here.1, here.2.1, here.2.2.1⟩
      simp [sees, restores, silent]
    · rw [if_neg followed, if_neg followed]

theorem Mirrors.shown_withdraw (mirrors : f.Mirrors addresses owner seen x)
    (owned : f.Owned addresses owner x) (place id group : String) (provider : Provider)
    {name : String} (named : name ≠ Group.directName) :
    f.shown (x.withdraw place id group provider) name =
      if owner name ∈ addresses then
        ((f.live (x.withdraw place id group provider) (owner name) name).filter fun known =>
          seen name known.identity).map Provider.prepare
      else [] := by
  rw [mirrors.ready.shown_withdraw, mirrors.shows name named, live_withdraw]
  split
  next told =>
    obtain ⟨own, rfl, counted, known, held, same⟩ := told
    have followed : place ∈ addresses := Decidable.of_not_not fun unfollowed =>
      counted ((mirrors.counted place).trans (if_neg unfollowed))
    have home : owner group = place := Decidable.of_not_not fun foreign =>
      absurd (owned place followed group foreign ▸ held) List.not_mem_nil
    rw [home, if_pos followed, if_pos followed, if_pos ⟨rfl, own, rfl⟩,
      ← Group.map_prepare_without, Group.without_singleton, Group.without_singleton,
      List.filter_filter, List.filter_filter]
    refine congrArg _ (List.filter_congr fun known _ => Bool.and_comm _ _)
  next untold =>
    split
    next followed =>
      split
      next here =>
        obtain ⟨rfl, own, rfl⟩ := here
        have counted : f.times x (owner group) ≠ 0 := by
          rw [mirrors.counted, if_pos followed]
          exact Nat.one_ne_zero
        have absent : ∀ known ∈ f.live x (owner group) group,
            known.identity ≠ provider.identity := fun known held same =>
          untold ⟨own, rfl, counted, known, held, same⟩
        have same : Group.without (f.live x (owner group) group) [provider] =
            f.live x (owner group) group := by
          rw [Group.without_singleton]
          exact List.filter_eq_self.mpr fun known held => by simpa using absent known held
        rw [same]
      next => rfl
    next => rfl

theorem Mirrors.shown_resync (mirrors : f.Mirrors addresses owner seen x)
    (owned : f.Owned addresses owner x) {place : String} (followed : place ∈ addresses)
    {name : String} (named : name ≠ Group.directName) :
    f.shown (f.act x (.resync place)) name =
      if owner name ∈ addresses then
        ((f.live x (owner name) name).filter fun _ => place == owner name).map Provider.prepare
      else [] := by
  rw [mirrors.ready.shown_resync place named]
  by_cases home : owner name = place
  · rw [home, if_pos followed, beq_self_eq_true, List.filter_true]
  · rw [owned place followed name home, beq_eq_false_iff_ne.mpr (Ne.symm home)]
    simp

theorem Mirrors.act (mirrors : f.Mirrors addresses owner seen x)
    (owned : f.Owned addresses owner x) {event : Event}
    (allowed : f.Allowed addresses owner x event) :
    f.Mirrors addresses owner
      (fun group identity => f.sees (owner group) group identity (seen group identity) event)
      (f.act x event) := by
  refine ⟨mirrors.ready.step event, fun address => ?_, fun name named => ?_⟩
  · cases event with
    | publish place id group provider => exact (times_publish ..).trans (mirrors.counted address)
    | withdraw place id group provider => exact (times_withdraw ..).trans (mirrors.counted address)
    | resync place => exact (times_resync ..).trans (mirrors.counted address)
    | follow place => exact allowed.elim
    | part place => exact allowed.elim
    | clear => exact allowed.elim
  · cases event with
    | publish place id group provider => exact mirrors.shown_publish allowed named
    | withdraw place id group provider =>
        have quiet : ∀ identity, f.sees (owner name) name identity (seen name identity)
            (.withdraw place id group provider) = seen name identity := fun identity => by
          simp [sees, restores, published]
        simp only [quiet]
        exact mirrors.shown_withdraw owned place id group provider named
    | resync place =>
        simp only [live_resync]
        exact mirrors.shown_resync owned allowed named
    | follow place => exact allowed.elim
    | part place => exact allowed.elim
    | clear => exact allowed.elim

theorem Mirrors.run (mirrors : f.Mirrors addresses owner seen x)
    (owned : f.Owned addresses owner x) {events : List Event}
    (allowed : f.Along (f.Allowed addresses owner) x events) :
    f.Mirrors addresses owner
      (fun group identity =>
        events.foldl (f.sees (owner group) group identity) (seen group identity))
      (f.run x events) := by
  induction events generalizing x seen with
  | nil => exact mirrors
  | cons event rest ih => exact ih (mirrors.act owned allowed.1) (owned.act allowed.1) allowed.2

theorem snapshot_follow (address other : String) :
    ((f.act x (.follow address)).store other).snapshot f.dataId =
      (x.store other).snapshot f.dataId := by
  rw [act, Exchange.store_commit_eq]
  split
  next same => rw [← same]; rfl
  next => rfl

theorem Mirrors.follow (mirrors : f.Mirrors addresses owner (fun _ _ => true) x) {address : String}
    (fresh : address ∉ addresses)
    (named : ∀ group ∈ (x.store address).snapshot f.dataId, owner group.name = address) :
    f.Mirrors (addresses ++ [address]) owner (fun _ _ => true) (f.act x (.follow address)) := by
  refine ⟨mirrors.ready.step _, fun other => ?_, fun name isNamed => ?_⟩
  · rw [times_follow, mirrors.counted]
    by_cases same : address = other
    · rw [if_pos same, if_neg (same ▸ fresh), if_pos (by simp [same])]
    · rw [if_neg same]
      simp [Ne.symm same]
  · rw [mirrors.ready.shown_follow, live_follow, List.filter_true]
    split
    next found =>
      obtain ⟨group, member, rfl⟩ := found
      rw [named group member, if_pos (by simp)]
    next absent =>
      rw [mirrors.shows name isNamed, List.filter_true]
      by_cases home : owner name = address
      · rw [home, if_neg fresh, live_of_unnamed absent]
        simp
      · simp [home]

theorem Mirrors.followAll {more : List String}
    (mirrors : f.Mirrors addresses owner (fun _ _ => true) x)
    (distinct : (addresses ++ more).Nodup)
    (named : ∀ address ∈ more, ∀ group ∈ (x.store address).snapshot f.dataId,
      owner group.name = address) :
    f.Mirrors (addresses ++ more) owner (fun _ _ => true) (f.run x (more.map .follow)) := by
  induction more generalizing addresses x with
  | nil => rw [List.append_nil]; exact mirrors
  | cons address rest ih =>
      have split : addresses ++ address :: rest = (addresses ++ [address]) ++ rest := by simp
      have fresh : address ∉ addresses := fun member =>
        (List.nodup_append.mp distinct).2.2 address member address List.mem_cons_self rfl
      rw [split] at distinct ⊢
      refine ih (mirrors.follow fresh (named address List.mem_cons_self)) distinct ?_
      intro other member group
      rw [snapshot_follow]
      exact named other (List.mem_cons_of_mem _ member) group

theorem Owned.of_named (named : ∀ address ∈ addresses,
    ∀ group ∈ (x.store address).snapshot f.dataId, owner group.name = address) :
    f.Owned addresses owner x := fun address member _ foreign =>
  live_of_unnamed fun ⟨known, held, same⟩ => foreign (same ▸ named address member known held)

theorem live_followAll (more : List String) (address group : String) :
    f.live (f.run x (more.map .follow)) address group = f.live x address group := by
  induction more generalizing x with
  | nil => rfl
  | cons first rest ih => exact ih.trans (live_follow first address group)

/-- A book is emptied, begins to follow addresses with groups of their own, and is told what
happens there. A group shows what its address holds, but for what a full push of another address
has erased. -/
theorem shown_unless_erased (ready : f.Ready x) (unfollowed : ∀ address, f.times x address = 0)
    (distinct : addresses.Nodup)
    (named : ∀ address ∈ addresses, ∀ group ∈ (x.store address).snapshot f.dataId,
      owner group.name = address)
    {events : List Event}
    (allowed : f.Along (f.Allowed addresses owner) (f.run x (.clear :: addresses.map .follow))
      events)
    {group : String} (isNamed : group ≠ Group.directName) :
    (f.shown (f.run x (.clear :: addresses.map .follow ++ events)) group =
      if owner group ∈ addresses then
        ((f.live (f.run x (.clear :: addresses.map .follow ++ events)) (owner group) group).filter
          fun known => f.visible (owner group) group events known.identity).map Provider.prepare
      else []) ∧
    ∀ identity, f.visible (owner group) group events identity = false ↔
      f.Erased (owner group) group identity events := by
  have start : f.Mirrors [] owner (fun _ _ => true) (f.act x .clear) :=
    { ready := ready.step .clear
      counted := fun address => (unfollowed address).trans (by simp)
      shows := fun name isNamed => by rw [ready.shown_clear isNamed]; simp }
  have following : f.Mirrors addresses owner (fun _ _ => true)
      (f.run x (.clear :: addresses.map .follow)) := start.followAll distinct named
  have owned : f.Owned addresses owner (f.run x (.clear :: addresses.map .follow)) := by
    intro address member name foreign
    exact (live_followAll addresses address name).trans
      (Owned.of_named named address member name foreign)
  refine ⟨?_, f.visible_eq_false_iff (owner group) group events⟩
  rw [run_append]
  exact (following.run owned allowed).shows group isNamed

def separate : List Event :=
  [.publish "north" "com.demo.Echo@bolt" "blue" (weighing "100"),
    .publish "south" "com.demo.Echo@bolt" "green" (weighing "50")]

def pushed : List Event :=
  [.resync "north",
    .publish "south" "com.demo.Echo@bolt" "green" (Provider.new "10.0.0.2" 1 "bolt")]

def colour (group : String) : String := if group = "green" then "south" else "north"

theorem shown_unless_erased_pushed :
    onlyBook.shown (onlyBook.run (onlyBook.run (Exchange.new ()).addBook.2 separate)
      (.clear :: ["north", "south"].map .follow ++ pushed)) "green" =
        [Provider.new "10.0.0.2" 1 "bolt"] ∧
    onlyBook.Erased "south" "green" (weighing "50").identity pushed := by
  have ready : onlyBook.Ready (Exchange.new ()).addBook.2 :=
    ⟨by decide, fun _ _ _ => List.not_mem_nil⟩
  have unfollowed : ∀ address,
      onlyBook.times (onlyBook.run (Exchange.new ()).addBook.2 separate) address = 0 :=
    fun address => (times_publish ..).trans (times_publish ..)
  have named : ∀ address ∈ ["north", "south"], ∀ group ∈ ((onlyBook.run
      (Exchange.new ()).addBook.2 separate).store address).snapshot onlyBook.dataId,
      colour group.name = address := by decide
  have allowed : onlyBook.Along (onlyBook.Allowed ["north", "south"] colour)
      (onlyBook.run (onlyBook.run (Exchange.new ()).addBook.2 separate)
        (.clear :: ["north", "south"].map .follow)) pushed :=
    ⟨List.mem_cons_self, fun _ _ => ⟨by decide, by decide⟩, trivial⟩
  have shows := shown_unless_erased (ready.run separate) unfollowed (by decide) named allowed
    (show "green" ≠ Group.directName by decide)
  refine ⟨shows.1.trans (by decide), (shows.2 _).mp (by decide)⟩

/-- A full push of one registry empties the group that another one has delivered. -/
theorem emptied_by_rescan :
    let bound := (boundTo (onlyBook.run (Exchange.new ()) separate)
      [.new Registry.memoryProtocol "north", .new Registry.memoryProtocol "south"]).exchange
    (bound.book 0).members "green" = [weighing "50"] ∧
    ((bound.rescan 0).store "south").members "com.demo.Echo@bolt" "green" = [weighing "50"] ∧
    ((bound.rescan 0).book 0).members "green" = [] := by
  refine ⟨?_, ?_, ?_⟩ <;> cbv

end Switchboard.Follower
