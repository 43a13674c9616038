import Switchboard.Proofs.Following

/-! When a book shows a provider twice. A store looks for a provider before it adds one, a book
appends what it is told. So a book keeps its groups free of repetitions exactly as long as each
publication reaches it at most once and is of a provider that it does not show yet: to publish a
live provider anew, to follow an address twice or to publish one provider at two followed addresses
shows it twice. As long as this is avoided, the one entry is what was published last. -/
namespace Switchboard

/-- No two providers of the list have the same identity. -/
def Distinct (list : List Provider) : Prop := (list.map (·.identity)).Nodup

namespace Distinct

open Registry.Store (settle)

variable {list : List Provider} {provider : Provider}

theorem identities_settle (provider : Provider) (list : List Provider) :
    (settle provider list).map (·.identity) =
      if provider.identity ∈ list.map (·.identity) then list.map (·.identity)
      else list.map (·.identity) ++ [provider.identity] := by
  induction list with
  | nil => rfl
  | cons known rest ih =>
      rw [settle]
      by_cases same : known.identity = provider.identity
      · simp [same]
      · rw [if_neg same, List.map_cons, ih]
        by_cases later : provider.identity ∈ rest.map (·.identity)
        · simp [later]
        · simp [later, Ne.symm same]

theorem settled (distinct : Distinct list) (provider : Provider) :
    Distinct (settle provider list) := by
  rw [Distinct, identities_settle]
  split
  next => exact distinct
  next absent =>
    refine List.nodup_append.mpr ⟨distinct, by simp, ?_⟩
    intro identity member other last same
    exact absent (List.mem_singleton.mp last ▸ same ▸ member)

theorem without (distinct : Distinct list) (others : List Provider) :
    Distinct (Group.without list others) :=
  distinct.sublist (List.filter_sublist.map _)

theorem map_prepare_iff : Distinct (list.map Provider.prepare) ↔ Distinct list := by
  simp only [Distinct, List.map_map, Function.comp_def, Provider.identity_prepare]

theorem append_replicate_iff (distinct : Distinct list) (count : Nat) :
    Distinct (list ++ List.replicate count provider) ↔
      (count ≠ 0 → count = 1 ∧ ∀ known ∈ list, known.identity ≠ provider.identity) := by
  have base : (list.map (·.identity)).Nodup := distinct
  rw [Distinct, List.map_append, List.map_replicate, List.nodup_append]
  match count with
  | 0 => simp [base]
  | 1 => simp [base]
  | count + 2 => simp [List.replicate_succ]

theorem mem_settle_iff (distinct : Distinct list) {known : Provider} :
    known ∈ settle provider list ↔
      known = provider ∨ known ∈ list ∧ known.identity ≠ provider.identity := by
  induction list with
  | nil => simp [settle]
  | cons first rest ih =>
      obtain ⟨fresh, others⟩ := List.nodup_cons.mp distinct
      rw [settle]
      by_cases same : first.identity = provider.identity
      · have later : ∀ known ∈ rest, known.identity ≠ provider.identity :=
          fun known member equal =>
            fresh (List.mem_map.mpr ⟨known, member, equal.trans same.symm⟩)
        rw [if_pos same, List.mem_cons, List.mem_cons]
        constructor
        · rintro (rfl | member)
          · exact .inl rfl
          · exact .inr ⟨.inr member, later known member⟩
        · rintro (rfl | ⟨rfl | member, different⟩)
          · exact .inl rfl
          · exact absurd same different
          · exact .inr member
      · rw [if_neg same, List.mem_cons, List.mem_cons, ih others]
        constructor
        · rintro (rfl | rfl | ⟨member, different⟩)
          · exact .inr ⟨.inl rfl, same⟩
          · exact .inl rfl
          · exact .inr ⟨.inr member, different⟩
        · rintro (rfl | ⟨rfl | member, different⟩)
          · exact .inr (.inl rfl)
          · exact .inl rfl
          · exact .inr (.inr ⟨member, different⟩)

end Distinct

namespace Follower

variable {ε : Type} (f : Follower)

/-- If an event publishes something that is told to the book, it is told once and is of a provider
that the book does not show. -/
def Fresh (x : Exchange ε) : Event → Prop
  | .publish address id group provider =>
      id = f.dataId → group ≠ Group.directName → f.times x address ≠ 0 →
        f.times x address = 1 ∧ ∀ known ∈ f.shown x group, known.identity ≠ provider.identity
  | _ => True

/-- If an event publishes something that is told to the book, it is told once and is of a provider
that is live at no followed address. -/
def Absent (x : Exchange ε) : Event → Prop
  | .publish address id group provider =>
      id = f.dataId → group ≠ Group.directName → f.times x address ≠ 0 →
        f.times x address = 1 ∧ ∀ other, f.times x other ≠ 0 →
          ∀ known ∈ f.live x other group, known.identity ≠ provider.identity
  | _ => True

/-- The book does not cease to follow an address, and full pushes come from followed ones. -/
def Stays (x : Exchange ε) : Event → Prop
  | .part _ => False
  | .resync address => f.times x address ≠ 0
  | _ => True

/-- What was published last under an identity in a group at an address. -/
def latest (address group : String) (identity : Identity) (events : List Event) :
    Option Provider :=
  events.reverse.findSome? (f.published address group identity)

def Backed (x : Exchange ε) : Prop :=
  ∀ group, group ≠ Group.directName → ∀ entry ∈ f.shown x group, ∃ address,
    f.times x address ≠ 0 ∧ ∃ known ∈ f.live x address group, entry = known.prepare

variable {f} {x : Exchange ε}

theorem distinct_live_act (stores : ∀ address group, Distinct (f.live x address group))
    (event : Event) (address group : String) : Distinct (f.live (f.act x event) address group) := by
  cases event with
  | publish place id name provider =>
      rw [act, live_publish]
      split
      · exact (stores address group).settled provider
      · exact stores address group
  | withdraw place id name provider =>
      rw [act, live_withdraw]
      split
      · exact (stores address group).without _
      · exact stores address group
  | follow place => rw [live_follow]; exact stores address group
  | part place => rw [live_part]; exact stores address group
  | resync place => rw [live_resync]; exact stores address group
  | clear => exact stores address group

theorem Ready.distinct_act_iff (ready : f.Ready x)
    (stores : ∀ address group, Distinct (f.live x address group))
    (book : ∀ group, group ≠ Group.directName → Distinct (f.shown x group)) (event : Event) :
    (∀ group, group ≠ Group.directName → Distinct (f.shown (f.act x event) group)) ↔
      f.Fresh x event := by
  cases event with
  | publish address id group provider =>
      have told : ∀ name, name ≠ Group.directName →
          (Distinct (f.shown (f.act x (.publish address id group provider)) name) ↔
            (id = f.dataId → group = name → f.times x address ≠ 0 →
              f.times x address = 1 ∧
                ∀ known ∈ f.shown x name, known.identity ≠ provider.identity)) := by
        intro name named
        rw [act, ready.shown_publish _ _ _ _ named]
        by_cases own : id = f.dataId ∧ group = name
        · rw [if_pos own, (book name named).append_replicate_iff, Provider.identity_prepare]
          exact ⟨fun once _ _ => once, fun once => once own.1 own.2⟩
        · rw [if_neg own, List.append_nil]
          exact ⟨fun _ same here => absurd ⟨same, here⟩ own, fun _ => book name named⟩
      constructor
      · exact fun after own named => (told group named).mp (after group named) own rfl
      · exact fun fresh name named => (told name named).mpr fun own here =>
          here ▸ fresh own (here ▸ named)
  | withdraw address id group provider =>
      refine iff_of_true (fun name named => ?_) trivial
      rw [act, ready.shown_withdraw]
      split
      · exact (book name named).without _
      · exact book name named
  | follow address =>
      refine iff_of_true (fun name named => ?_) trivial
      rw [ready.shown_follow]
      split
      · exact Distinct.map_prepare_iff.mpr (stores address name)
      · exact book name named
  | part address => exact iff_of_true book trivial
  | resync address =>
      refine iff_of_true (fun name named => ?_) trivial
      rw [ready.shown_resync address named]
      exact Distinct.map_prepare_iff.mpr (stores address name)
  | clear =>
      refine iff_of_true (fun name named => ?_) trivial
      rw [ready.shown_clear named]
      exact List.nodup_nil

theorem Ready.distinct_run_iff (ready : f.Ready x)
    (stores : ∀ address group, Distinct (f.live x address group))
    (book : ∀ group, group ≠ Group.directName → Distinct (f.shown x group))
    (events : List Event) :
    (∀ before, before <+: events → ∀ group, group ≠ Group.directName →
      Distinct (f.shown (f.run x before) group)) ↔ f.Along f.Fresh x events := by
  induction events generalizing x with
  | nil =>
      refine iff_of_true (fun before start => ?_) trivial
      rw [List.prefix_nil.mp start]
      exact book
  | cons event rest ih =>
      -- Freshness decides about the next state only if this one shows no provider twice.
      have first := ready.distinct_act_iff stores book event
      constructor
      · intro always
        have next := always [event] ⟨rest, rfl⟩
        refine ⟨first.mp next, (ih (ready.step event) (distinct_live_act stores event) next).mp ?_⟩
        exact fun before start => always (event :: before) (List.cons_prefix_cons.mpr ⟨rfl, start⟩)
      · rintro ⟨fresh, onward⟩ before start
        have next := first.mpr fresh
        cases before with
        | nil => exact book
        | cons head tail =>
            obtain ⟨rfl, later⟩ := List.cons_prefix_cons.mp start
            exact (ih (ready.step _) (distinct_live_act stores _) next).mpr onward tail later

theorem Backed.act (ready : f.Ready x)
    (stores : ∀ address group, Distinct (f.live x address group)) (backed : f.Backed x)
    {event : Event} (fresh : f.Fresh x event) (stays : f.Stays x event) :
    f.Backed (f.act x event) := by
  intro name named entry member
  cases event with
  | publish place id group provider =>
      simp only [Follower.act, times_publish, live_publish] at member ⊢
      rw [ready.shown_publish _ _ _ _ named] at member
      rcases List.mem_append.mp member with old | new
      · obtain ⟨address, followed, known, held, rfl⟩ := backed name named entry old
        refine ⟨address, followed, known, ?_, rfl⟩
        split
        next here =>
          obtain ⟨rfl, own, rfl⟩ := here
          -- The store replaces only what has the published identity, and no old entry has it.
          have other := (fresh own named followed).2 _ old
          rw [Provider.identity_prepare] at other
          exact (Distinct.mem_settle_iff (stores _ _)).mpr (.inr ⟨held, other⟩)
        next => exact held
      · split at new
        next here =>
          obtain ⟨count, rfl⟩ := List.mem_replicate.mp new
          refine ⟨place, count, provider, ?_, rfl⟩
          rw [if_pos ⟨rfl, here⟩]
          exact (Distinct.mem_settle_iff (stores _ _)).mpr (.inl rfl)
        next => simp at new
  | withdraw place id group provider =>
      simp only [Follower.act, times_withdraw, live_withdraw] at member ⊢
      rw [ready.shown_withdraw] at member
      split at member
      next told =>
        rw [Group.without_singleton, List.mem_filter] at member
        obtain ⟨address, followed, known, held, rfl⟩ := backed name named entry member.1
        refine ⟨address, followed, known, ?_, rfl⟩
        split
        · rw [Group.without_singleton, List.mem_filter]
          simpa [held, Provider.identity_prepare] using member.2
        · exact held
      next untold =>
        obtain ⟨address, followed, known, held, rfl⟩ := backed name named entry member
        refine ⟨address, followed, known, ?_, rfl⟩
        split
        next here =>
          obtain ⟨rfl, own, rfl⟩ := here
          rw [Group.without_singleton, List.mem_filter]
          have other : known.identity ≠ provider.identity := fun same =>
            untold ⟨own, rfl, followed, known, held, same⟩
          exact ⟨held, by simpa using other⟩
        next => exact held
  | follow place =>
      rw [ready.shown_follow] at member
      simp only [live_follow, times_follow]
      split at member
      next =>
        obtain ⟨known, held, rfl⟩ := List.mem_map.mp member
        exact ⟨place, by simp, known, held, rfl⟩
      next =>
        obtain ⟨address, followed, rest⟩ := backed name named entry member
        exact ⟨address, by split <;> omega, rest⟩
  | part place => exact stays.elim
  | resync place =>
      rw [ready.shown_resync place named] at member
      simp only [live_resync, times_resync]
      obtain ⟨known, held, rfl⟩ := List.mem_map.mp member
      exact ⟨place, stays, known, held, rfl⟩
  | clear =>
      rw [ready.shown_clear named] at member
      simp at member

theorem Backed.run (ready : f.Ready x)
    (stores : ∀ address group, Distinct (f.live x address group)) (backed : f.Backed x)
    {events : List Event}
    (steady : f.Along (fun y event => f.Fresh y event ∧ f.Stays y event) x events) :
    f.Backed (f.run x events) := by
  induction events generalizing x with
  | nil => exact backed
  | cons event rest ih =>
      obtain ⟨⟨fresh, stays⟩, onward⟩ := steady
      exact ih (ready.step event) (distinct_live_act stores event)
        (backed.act ready stores fresh stays) onward

theorem Backed.fresh_of_absent (backed : f.Backed x) {event : Event}
    (absent : f.Absent x event) : f.Fresh x event := by
  cases event with
  | publish address id group provider =>
      intro own named followed
      obtain ⟨once, nowhere⟩ := absent own named followed
      refine ⟨once, fun entry member same => ?_⟩
      obtain ⟨other, alsoFollowed, known, held, rfl⟩ := backed group named entry member
      rw [Provider.identity_prepare] at same
      exact nowhere other alsoFollowed known held same
  | withdraw => trivial
  | follow => trivial
  | part => trivial
  | resync => trivial
  | clear => trivial

theorem Backed.fresh_run (ready : f.Ready x)
    (stores : ∀ address group, Distinct (f.live x address group)) (backed : f.Backed x)
    {events : List Event}
    (careful : f.Along (fun y event => f.Absent y event ∧ f.Stays y event) x events) :
    f.Along (fun y event => f.Fresh y event ∧ f.Stays y event) x events := by
  induction events generalizing x with
  | nil => trivial
  | cons event rest ih =>
      obtain ⟨⟨absent, stays⟩, onward⟩ := careful
      have fresh := backed.fresh_of_absent absent
      exact ⟨⟨fresh, stays⟩, ih (ready.step event) (distinct_live_act stores event)
        (backed.act ready stores fresh stays) onward⟩

theorem published_of_live (stores : ∀ address group, Distinct (f.live x address group))
    (event : Event) {address group : String} {provider : Provider}
    (live : provider ∈ f.live (f.act x event) address group) :
    f.published address group provider.identity event = some provider ∨
      f.published address group provider.identity event = none ∧
        provider ∈ f.live x address group := by
  cases event with
  | publish place id name other =>
      rw [act, live_publish] at live
      rw [published]
      split at live
      next here =>
        rcases (Distinct.mem_settle_iff (stores address group)).mp live with rfl | ⟨held, differs⟩
        · exact .inl (if_pos ⟨here.1, here.2.1, here.2.2, rfl⟩)
        · exact .inr ⟨if_neg fun same => differs same.2.2.2.symm, held⟩
      next elsewhere =>
        exact .inr ⟨if_neg fun same => elsewhere ⟨same.1, same.2.1, same.2.2.1⟩, live⟩
  | withdraw place id name other =>
      rw [act, live_withdraw] at live
      split at live
      · exact .inr ⟨rfl, (List.mem_filter.mp live).1⟩
      · exact .inr ⟨rfl, live⟩
  | follow place => exact .inr ⟨rfl, live_follow (x := x) place address group ▸ live⟩
  | part place => exact .inr ⟨rfl, live_part (x := x) place address group ▸ live⟩
  | resync place => exact .inr ⟨rfl, live_resync (x := x) place address group ▸ live⟩
  | clear => exact .inr ⟨rfl, live⟩

theorem latest_of_live (stores : ∀ address group, Distinct (f.live x address group))
    (events : List Event) {address group : String} {provider : Provider}
    (live : provider ∈ f.live (f.run x events) address group) :
    f.latest address group provider.identity events = some provider ∨
      f.latest address group provider.identity events = none ∧
        provider ∈ f.live x address group := by
  induction events generalizing x with
  | nil => exact .inr ⟨rfl, live⟩
  | cons event rest ih =>
      have joined : f.latest address group provider.identity (event :: rest) =
          (f.latest address group provider.identity rest).or
            (f.published address group provider.identity event) := by
        rw [latest, List.reverse_cons, List.findSome?_append, latest]
        simp
      rw [joined]
      rcases ih (distinct_live_act stores event) live with last | ⟨later, held⟩
      · exact .inl (by rw [last, Option.some_or])
      · rw [later, Option.none_or]
        exact published_of_live stores event held

/-- A book whose named groups are empty follows addresses and is told what happens there. No group
of it ever shows a provider twice if and only if each publication is fresh when it comes. While the
book stays with what it follows, it is enough that what is published is live nowhere, and each entry
is live at an address that it follows and is what was published last there under its identity. -/
theorem shows_once_iff_fresh (ready : f.Ready x)
    (stores : ∀ address group, Distinct (f.live x address group))
    (vacant : ∀ group, group ≠ Group.directName → f.shown x group = []) (events : List Event) :
    ((∀ before, before <+: events → ∀ group, group ≠ Group.directName →
        ((f.shown (f.run x before) group).map (·.identity)).Nodup) ↔
      f.Along f.Fresh x events) ∧
    (f.Along (fun y event => f.Absent y event ∧ f.Stays y event) x events →
      f.Along (fun y event => f.Fresh y event ∧ f.Stays y event) x events) ∧
    (f.Along (fun y event => f.Fresh y event ∧ f.Stays y event) x events →
      ∀ group, group ≠ Group.directName → ∀ entry ∈ f.shown (f.run x events) group,
        ∃ address provider, f.times (f.run x events) address ≠ 0 ∧
          provider ∈ f.live (f.run x events) address group ∧ entry = provider.prepare ∧
          (f.latest address group provider.identity events = some provider ∨
            f.latest address group provider.identity events = none ∧
              provider ∈ f.live x address group)) := by
  have distinct : ∀ group, group ≠ Group.directName → Distinct (f.shown x group) :=
    fun group named => by rw [vacant group named]; exact List.nodup_nil
  have backed : f.Backed x := fun group named entry member => by
    rw [vacant group named] at member
    exact absurd member List.not_mem_nil
  refine ⟨ready.distinct_run_iff stores distinct events, backed.fresh_run ready stores,
    fun steady group named entry member => ?_⟩
  obtain ⟨address, followed, provider, held, same⟩ :=
    backed.run ready stores steady group named entry member
  exact ⟨address, provider, followed, held, same, latest_of_live stores events held⟩

/-- A provider is live when the book begins to follow, goes, and comes back under another weight. -/
def returning : List Event :=
  [.publish "center" "com.demo.Echo@bolt" "blue" (weighing "100"), .follow "center",
    .withdraw "center" "com.demo.Echo@bolt" "blue" (weighing "100"),
    .publish "center" "com.demo.Echo@bolt" "blue" (weighing "50"), .resync "center"]

theorem shows_once_iff_fresh_returning :
    onlyBook.shown (onlyBook.run (Exchange.new ()).addBook.2 returning) "blue" = [weighing "50"] ∧
    ((onlyBook.shown (onlyBook.run (Exchange.new ()).addBook.2 returning) "blue").map
      (·.identity)).Nodup ∧
    ∃ address provider, weighing "50" = provider.prepare ∧
      onlyBook.latest address "blue" provider.identity returning = some provider := by
  have ready : onlyBook.Ready (Exchange.new ()).addBook.2 :=
    ⟨by decide, fun _ _ _ => List.not_mem_nil⟩
  have once := shows_once_iff_fresh ready (fun _ _ => List.nodup_nil)
    (fun group named => Book.members_named _ named) returning
  have steady : onlyBook.Along (fun y event => onlyBook.Fresh y event ∧ onlyBook.Stays y event)
      (Exchange.new ()).addBook.2 returning := by
    refine ⟨?before, ⟨trivial, trivial⟩, ⟨trivial, trivial⟩, ?after, ?resynced, trivial⟩
    case before => exact ⟨fun _ _ unfollowed => absurd rfl unfollowed, trivial⟩
    case after => exact ⟨fun _ _ _ => ⟨by decide, by decide⟩, trivial⟩
    case resynced => exact ⟨trivial, show onlyBook.times _ "center" ≠ 0 by decide⟩
  have shown : onlyBook.shown (onlyBook.run (Exchange.new ()).addBook.2 returning) "blue" =
      [weighing "50"] := by decide
  have fresh : onlyBook.Along onlyBook.Fresh (Exchange.new ()).addBook.2 returning :=
    steady.mono fun _ _ both => both.1
  refine ⟨shown, once.1.mpr fresh returning List.prefix_rfl "blue" (by decide), ?_⟩
  obtain ⟨address, provider, -, -, same, last⟩ :=
    once.2.2 steady "blue" (by decide) (weighing "50") (by rw [shown]; exact List.mem_cons_self)
  exact ⟨address, provider, same, last.resolve_right fun before => absurd before.2 List.not_mem_nil⟩

/-- A live provider is published anew. -/
def renewed : Exchange Unit :=
  onlyBook.run (boundTo (Exchange.new ()) [.new Registry.memoryProtocol "center"]).exchange
    [.publish "center" "com.demo.Echo@bolt" "blue" (weighing "100"),
      .publish "center" "com.demo.Echo@bolt" "blue" (weighing "50")]

/-- A provider is published where the reference has subscribed under two settings. -/
def repeated : Exchange Unit :=
  let first := Registry.Settings.new Registry.memoryProtocol "center"
  let second := { first with timeout := 7000 }
  onlyBook.run (boundTo (Exchange.new ()) [first, second]).exchange
    [.publish "center" "com.demo.Echo@bolt" "blue" (weighing "100")]

/-- The store keeps one entry, the book shows the provider twice. -/
theorem shown_twice :
    (renewed.store "center").members "com.demo.Echo@bolt" "blue" = [weighing "50"] ∧
    (renewed.book 0).members "blue" = [weighing "100", weighing "50"] ∧
    (repeated.store "center").members "com.demo.Echo@bolt" "blue" = [weighing "100"] ∧
    (repeated.book 0).members "blue" = [weighing "100", weighing "100"] := by
  refine ⟨?_, ?_, ?_, ?_⟩ <;> cbv

end Follower

end Switchboard
