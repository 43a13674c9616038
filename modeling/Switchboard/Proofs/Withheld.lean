import Switchboard.Proofs.Contents
import Switchboard.Proofs.Distinct

/-! Providers that operations have taken out of service, and the calls that may reach them
nevertheless. A book keeps a publication until the provider is withdrawn or the whole store is
pushed, and beginning a warm-up overwrites the status. So there are two ways around a status: an
older publication that still stands, and attributes of a warm-up beside the status. There is no
third one. -/
namespace Switchboard

namespace Provider

/-- Operations have taken the provider out of service. -/
def Suspended (p : Provider) : Prop := p.status = .disabled ∨ p.status = .paused

instance (p : Provider) : Decidable p.Suspended := inferInstanceAs (Decidable (_ ∨ _))

theorem isCandidate_iff (p : Provider) (now : Nat) : p.isCandidate now = true ↔ ¬p.Suspended := by
  rw [Suspended, ← p.isCandidate_eq_false_iff now, Bool.not_eq_false]

theorem isCandidate_prepare_iff (p : Provider) (now : Nat) :
    p.prepare.isCandidate now = true ↔ ¬p.Suspended ∨ p.warmup?.isSome := by
  rw [isCandidate_iff, prepare]
  cases read : p.warmup? with
  | none => simp
  | some w => simp [Suspended, begin]

end Provider

theorem Book.exists_mem_candidates_iff {b : Book} (tidy : b.Tidy) (now : Nat)
    (entry : Provider) :
    entry ∈ b.candidates now ↔ (∃ name, entry ∈ b.members name) ∧ entry.isCandidate now = true := by
  rw [candidates, List.mem_filter, List.mem_flatMap]
  exact and_congr_left fun _ => exists_mem_groups_iff tidy entry

namespace Follower

open Registry (Store)

variable {ε : Type} (f : Follower)

/-- What an event brings into a group of the book: what is published there, and what is live when a
store is pushed group by group or as a whole. -/
def Brings (address group : String) (p : Provider) (x : Exchange ε) : Event → Prop
  | .publish place id name provider =>
      place = address ∧ id = f.dataId ∧ name = group ∧ provider = p
  | .follow place | .resync place => place = address ∧ p ∈ f.live x address group
  | _ => False

/-- What the book has had in a group under an identity is gone after an event. Each publication in
the direct group replaces the whole group. -/
def Sweeps (address group : String) (identity : Identity) : Event → Prop
  | .publish place id name _ =>
      place = address ∧ id = f.dataId ∧ name = group ∧ group = Group.directName
  | .withdraw place id name provider =>
      place = address ∧ id = f.dataId ∧ name = group ∧ provider.identity = identity
  | .follow place | .resync place => place = address
  | _ => False

def opening (address : String) : List Event := [.clear, .follow address]

/-- A provider was brought into a group of the book, and nothing has swept it out since then. -/
def Stands (address group : String) (p : Provider) (x : Exchange ε) (events : List Event) : Prop :=
  ∃ before event after, events = before ++ event :: after ∧
    f.Brings address group p (f.run x before) event ∧
    ∀ later ∈ after, ¬f.Sweeps address group p.identity later

/-- Providers come and go at any address, and one address makes full pushes. -/
def Serves (address : String) : Event → Prop
  | .publish .. | .withdraw .. => True
  | .resync place => place = address
  | _ => False

/-- Wherever a provider that is live in a group is published there anew, what the book has of it is
swept out, by this event or by a later one. -/
def Refreshed (address group : String) (identity : Identity) (x : Exchange ε)
    (events : List Event) : Prop :=
  ∀ before p after, events = before ++ .publish address f.dataId group p :: after →
    p.identity = identity →
    (∃ known ∈ f.live (f.run x before) address group, known.identity = identity) →
    ∃ event ∈ .publish address f.dataId group p :: after, f.Sweeps address group identity event

/-- The book follows one address, once, and shows nothing that is not live there under its identity,
be it with other attributes. -/
structure Tracks (address : String) (x : Exchange ε) : Prop where
  ready : f.Ready x
  counted : ∀ place, f.times x place = if place = address then 1 else 0
  tidy : (x.book f.number).Tidy
  stores : ∀ place group, Distinct (f.live x place group)
  known : ∀ group, ∀ entry ∈ f.shown x group,
    ∃ p ∈ f.live x address group, p.identity = entry.identity

variable {f} {x : Exchange ε} {address group : String} {p : Provider} {events : List Event}

theorem stands_concat_iff {event : Event} :
    f.Stands address group p x (events ++ [event]) ↔
      f.Brings address group p (f.run x events) event ∨
        f.Stands address group p x events ∧ ¬f.Sweeps address group p.identity event := by
  constructor
  · rintro ⟨before, own, after, parts, brought, kept⟩
    rcases List.eq_nil_or_concat after with rfl | ⟨middle, last, rfl⟩
    · obtain ⟨rfl, same⟩ := List.append_inj' parts rfl
      obtain rfl := List.singleton_inj.mp same
      exact .inl brought
    · rw [List.concat_eq_append, ← List.cons_append, ← List.append_assoc] at parts
      obtain ⟨rfl, same⟩ := List.append_inj' parts rfl
      obtain rfl := List.singleton_inj.mp same
      refine .inr ⟨⟨before, own, middle, rfl, brought, fun later member => ?_⟩, ?_⟩
      · exact kept later (by simp [member])
      · exact kept event (by simp)
  · rintro (brought | ⟨⟨before, own, after, rfl, brought, kept⟩, stays⟩)
    · exact ⟨events, event, [], rfl, brought, fun later none => absurd none List.not_mem_nil⟩
    · refine ⟨before, own, after ++ [event], by simp, brought, fun later member => ?_⟩
      rcases List.mem_append.mp member with old | last
      · exact kept later old
      · exact List.mem_singleton.mp last ▸ stays

theorem stands_begin_iff :
    f.Stands address group p x (opening address) ↔ p ∈ f.live x address group := by
  rw [show opening address = [.clear] ++ [.follow address] from rfl, stands_concat_iff]
  refine ⟨?_, fun held => .inl ⟨rfl, held⟩⟩
  rintro (⟨-, held⟩ | ⟨-, gone⟩)
  · exact held
  · exact absurd rfl gone

theorem Refreshed.of_concat {identity : Identity} {event : Event}
    (refreshed : f.Refreshed address group identity x (events ++ [event]))
    (kept : ¬f.Sweeps address group identity event) :
    f.Refreshed address group identity x events := by
  rintro before q after rfl same held
  obtain ⟨later, member, sweeps⟩ := refreshed before q (after ++ [event]) (by simp) same held
  refine ⟨later, ?_, sweeps⟩
  rw [← List.cons_append] at member
  exact (List.mem_append.mp member).resolve_right fun last =>
    kept (List.mem_singleton.mp last ▸ sweeps)

theorem refreshed_concat_resync (identity : Identity) :
    f.Refreshed address group identity x (events ++ [.resync address]) := by
  rintro before q after parts - -
  rcases List.eq_nil_or_concat after with rfl | ⟨middle, last, rfl⟩
  · cases List.singleton_inj.mp (List.append_inj' parts rfl).2
  · rw [List.concat_eq_append, ← List.cons_append, ← List.append_assoc] at parts
    obtain rfl := List.singleton_inj.mp (List.append_inj' parts rfl).2
    exact ⟨.resync address, by simp, rfl⟩

theorem run_concat (event : Event) :
    f.run x (events ++ [event]) = f.act (f.run x events) event := by
  rw [run_append]
  rfl

theorem Ready.shown_resync_direct (ready : f.Ready x) (address : String) :
    f.shown (f.act x (.resync address)) Group.directName =
      if ∃ group ∈ (x.store address).snapshot f.dataId, group.name = Group.directName then
        (f.live x address Group.directName).map Provider.prepare
      else f.shown x Group.directName := by
  have told : (f.act x (.resync address)).book f.number =
      (x.book f.number).updateAll (((x.store address).snapshot f.dataId).map Group.prepare) := by
    rw [act, Exchange.book_deliver _ _ ready.known, subscriber, Store.resync, if_pos rfl]
    rfl
  rw [shown, told, Book.updateAll, Exchange.members_foldl_snapshot, live]
  rfl

theorem live_of_brings (stores : ∀ place group, Distinct (f.live x place group)) {event : Event}
    (brought : f.Brings address group p x event) :
    p ∈ f.live (f.act x event) address group := by
  cases event with
  | publish place id name provider =>
      obtain ⟨rfl, rfl, rfl, rfl⟩ := brought
      rw [act, live_publish, if_pos ⟨rfl, rfl, rfl⟩]
      exact (Distinct.mem_settle_iff (stores _ _)).mpr (.inl rfl)
  | follow place => rw [live_follow]; exact brought.2
  | resync place => rw [live_resync]; exact brought.2
  | withdraw | part | clear => exact brought.elim

namespace Tracks

theorem book_announce (tracks : f.Tracks address x) (place id : String) (s : Store) (push : Push) :
    (x.commit place (s, (x.store place).announce id push)).book f.number =
      if place = address ∧ id = f.dataId then (x.book f.number).receive push
      else x.book f.number := by
  rw [tracks.ready.book_announce, tracks.counted]
  by_cases here : place = address <;> by_cases own : id = f.dataId <;> simp [here, own]

theorem mem_shown_publish (tracks : f.Tracks address x) (place id name : String)
    (provider entry : Provider) :
    entry ∈ f.shown (f.act x (.publish place id name provider)) group ↔
      (∃ p, f.Brings address group p x (.publish place id name provider) ∧ entry = p.prepare) ∨
        entry ∈ f.shown x group ∧
          ¬f.Sweeps address group entry.identity (.publish place id name provider) := by
  rw [shown, act, Exchange.publish, Store.publish, tracks.book_announce]
  simp only [Brings, Sweeps]
  by_cases own : place = address ∧ id = f.dataId
  · rw [if_pos own, Book.members_receive_add tracks.tidy]
    by_cases here : name = group
    · rw [if_pos ⟨here, List.cons_ne_nil _ _⟩, List.mem_append, List.map_singleton,
        List.mem_singleton]
      by_cases direct : group = Group.directName
      · simp [own.1, own.2, here, direct]
      · simp [own.1, own.2, here, direct, shown, or_comm]
    · simp [here, shown]
  · rw [if_neg own]
    simp [← and_assoc, own, shown]

theorem mem_shown_withdraw (tracks : f.Tracks address x) (place id name : String)
    (provider entry : Provider) :
    entry ∈ f.shown (f.act x (.withdraw place id name provider)) group ↔
      entry ∈ f.shown x group ∧
        ¬f.Sweeps address group entry.identity (.withdraw place id name provider) := by
  rw [act, tracks.ready.shown_withdraw]
  simp only [Sweeps]
  split
  next told =>
    obtain ⟨own, here, followed, -⟩ := told
    have there : place = address := by
      by_contra other
      exact followed ((tracks.counted place).trans (if_neg other))
    rw [Group.without_singleton, List.mem_filter, decide_eq_true_eq, ne_comm]
    simp only [own, here, there, true_and, ne_eq]
  next untold =>
    refine (and_iff_left_of_imp fun member => ?_).symm
    -- What is not live here is not shown, so a withdrawal that nobody is told takes nothing out.
    rintro ⟨rfl, own, here, same⟩
    obtain ⟨p, held, equal⟩ := tracks.known group entry member
    have followed : f.times x place ≠ 0 := by simp [tracks.counted]
    exact untold ⟨own, here, followed, p, held, equal.trans same.symm⟩

theorem mem_shown_resync (tracks : f.Tracks address x) (entry : Provider) :
    entry ∈ f.shown (f.act x (.resync address)) group ↔
      ∃ p ∈ f.live x address group, entry = p.prepare := by
  have pushed : f.shown (f.act x (.resync address)) group =
      (f.live x address group).map Provider.prepare := by
    by_cases direct : group = Group.directName
    · subst direct
      rw [tracks.ready.shown_resync_direct]
      split
      next => rfl
      next absent =>
        have none := live_of_unnamed absent
        rw [none, List.map_nil, List.eq_nil_iff_forall_not_mem]
        intro entry member
        obtain ⟨p, held, -⟩ := tracks.known _ entry member
        exact absurd held (none ▸ List.not_mem_nil)
    · exact tracks.ready.shown_resync address direct
  simp only [pushed, List.mem_map, eq_comm]

theorem mem_shown_act (tracks : f.Tracks address x) {event : Event} (serves : Serves address event)
    (entry : Provider) :
    entry ∈ f.shown (f.act x event) group ↔
      (∃ p, f.Brings address group p x event ∧ entry = p.prepare) ∨
        entry ∈ f.shown x group ∧ ¬f.Sweeps address group entry.identity event := by
  cases event with
  | publish place id name provider => exact tracks.mem_shown_publish ..
  | withdraw place id name provider =>
      rw [tracks.mem_shown_withdraw]
      simp only [Brings, false_and, exists_false, false_or]
  | resync place =>
      obtain rfl : place = address := serves
      rw [tracks.mem_shown_resync]
      simp only [Brings, Sweeps, true_and, not_true_eq_false, and_false, or_false]
  | follow | part | clear => exact serves.elim

theorem tidy_act (tracks : f.Tracks address x) {event : Event} (serves : Serves address event) :
    ((f.act x event).book f.number).Tidy := by
  cases event with
  | publish place id name provider =>
      rw [act, Exchange.publish, Store.publish, tracks.book_announce]
      split
      · exact tracks.tidy.receive _
      · exact tracks.tidy
  | withdraw place id name provider =>
      rw [act, Exchange.withdraw]
      rcases (x.store place).withdraw_cases id name provider with ⟨kept, -⟩ | ⟨taken, -⟩
      · rw [kept, Exchange.book_commit x place _ tracks.ready.known]
        exact tracks.tidy
      · rw [taken, tracks.book_announce]
        split
        · exact tracks.tidy.receive _
        · exact tracks.tidy
  | resync place =>
      rw [act, Exchange.book_deliver _ _ tracks.ready.known]
      split
      · exact tracks.tidy.receive _
      · exact tracks.tidy
  | follow | part | clear => exact serves.elim

theorem live_act {event : Event} (tracks : f.Tracks address x) (serves : Serves address event)
    {identity : Identity} (kept : ¬f.Sweeps address group identity event)
    (held : ∃ p ∈ f.live x address group, p.identity = identity) :
    ∃ p ∈ f.live (f.act x event) address group, p.identity = identity := by
  obtain ⟨p, member, rfl⟩ := held
  cases event with
  | publish place id name provider =>
      rw [act, live_publish]
      split
      · by_cases same : p.identity = provider.identity
        · exact ⟨provider, (Distinct.mem_settle_iff (tracks.stores _ _)).mpr (.inl rfl), same.symm⟩
        · exact ⟨p, (Distinct.mem_settle_iff (tracks.stores _ _)).mpr (.inr ⟨member, same⟩), rfl⟩
      · exact ⟨p, member, rfl⟩
  | withdraw place id name provider =>
      rw [act, live_withdraw]
      refine ⟨p, ?_, rfl⟩
      split
      next here =>
        rw [Group.without_singleton, List.mem_filter]
        exact ⟨member, decide_eq_true fun same => kept ⟨here.1, here.2.1, here.2.2, same.symm⟩⟩
      next => exact member
  | resync place => rw [live_resync]; exact ⟨p, member, rfl⟩
  | follow | part | clear => exact serves.elim

theorem act (tracks : f.Tracks address x) {event : Event} (serves : Serves address event) :
    f.Tracks address (f.act x event) where
  ready := tracks.ready.step event
  counted place := by
    rw [← tracks.counted place]
    cases event with
    | publish => exact times_publish ..
    | withdraw => exact times_withdraw ..
    | resync => exact times_resync ..
    | follow | part | clear => exact serves.elim
  tidy := tracks.tidy_act serves
  stores := distinct_live_act tracks.stores event
  known group entry member := by
    rcases (tracks.mem_shown_act serves entry).mp member with ⟨p, brought, rfl⟩ | ⟨old, kept⟩
    · exact ⟨p, live_of_brings tracks.stores brought, p.identity_prepare.symm⟩
    · exact tracks.live_act serves kept (tracks.known group entry old)

theorem run (tracks : f.Tracks address x) (serves : ∀ event ∈ events, Serves address event) :
    f.Tracks address (f.run x events) := by
  induction events generalizing x with
  | nil => exact tracks
  | cons event rest ih =>
      obtain ⟨first, others⟩ := List.forall_mem_cons.mp serves
      exact ih (tracks.act first) others

theorem book_clear (ready : f.Ready x) :
    (f.act x .clear).book f.number = (x.book f.number).updateAll [] := by
  simp [Follower.act, Exchange.book, Exchange.withBook, ready.known]

theorem shown_clear (ready : f.Ready x) (vacant : (x.book f.number).direct.members = [])
    (group : String) :
    f.shown (f.act x .clear) group = [] := by
  by_cases direct : group = Group.directName
  · rw [direct, shown, book_clear ready, Book.members_direct, Book.direct_updateAll _ (by simp),
      vacant]
  · exact ready.shown_clear direct

theorem begin (address : String) (ready : f.Ready x) (tidy : (x.book f.number).Tidy)
    (vacant : (x.book f.number).direct.members = []) (unfollowed : ∀ place, f.times x place = 0)
    (stores : ∀ place group, Distinct (f.live x place group)) :
    f.Tracks address (f.run x (opening address)) ∧
      ∀ group, f.shown (f.run x (opening address)) group =
        (f.live x address group).map Provider.prepare := by
  have cleared := ready.step .clear
  have shows : ∀ group, f.shown (f.run x (opening address)) group =
      (f.live x address group).map Provider.prepare := by
    intro group
    refine (cleared.shown_follow address group).trans ?_
    split
    next => rfl
    next absent =>
      have none : f.live x address group = [] := live_of_unnamed absent
      rw [shown_clear ready vacant, none, List.map_nil]
  have kept : ∀ place group,
      f.live (f.run x (opening address)) place group = f.live x place group :=
    fun place group => live_follow (x := f.act x .clear) address place group
  refine ⟨⟨cleared.step (.follow address), fun place => ?_, ?_, fun place group => ?_,
    fun group entry member => ?_⟩, shows⟩
  · refine (times_follow (x := f.act x .clear) address place).trans ?_
    rw [show f.times (f.act x .clear) place = 0 from unfollowed place]
    by_cases same : place = address
    · rw [if_pos same, if_pos same.symm]
    · rw [if_neg same, if_neg (Ne.symm same)]
  · have told := Exchange.book_commit (f.act x .clear) address
      (((f.act x .clear).store address).subscribe f.dataId f.subscriber) cleared.known
    rw [book_clear ready] at told
    exact told ▸ (tidy.updateAll []).foldl_receive _
  · rw [kept]
    exact stores place group
  · rw [shows] at member
    obtain ⟨p, held, rfl⟩ := List.mem_map.mp member
    exact ⟨p, kept address group ▸ held, p.identity_prepare.symm⟩

end Tracks

theorem mem_shown_iff_stands (group : String) (ready : f.Ready x) (tidy : (x.book f.number).Tidy)
    (vacant : (x.book f.number).direct.members = []) (unfollowed : ∀ place, f.times x place = 0)
    (stores : ∀ place group, Distinct (f.live x place group))
    (serves : ∀ event ∈ events, Serves address event) (entry : Provider) :
    entry ∈ f.shown (f.run x (opening address ++ events)) group ↔
      ∃ p, f.Stands address group p x (opening address ++ events) ∧
        entry = p.prepare := by
  obtain ⟨tracks, shows⟩ := Tracks.begin address ready tidy vacant unfollowed stores
  induction events using List.reverseRecOn with
  | nil =>
      rw [List.append_nil, shows, List.mem_map]
      exact exists_congr fun p => and_congr stands_begin_iff.symm eq_comm
  | append_singleton events event ih =>
      obtain ⟨others, last⟩ := List.forall_mem_append.mp serves
      have now := tracks.run others
      rw [← run_append] at now
      rw [← List.append_assoc, run_concat, now.mem_shown_act (last event (by simp)), ih others]
      simp only [stands_concat_iff, or_and_right, exists_or]
      refine or_congr_right ⟨?_, ?_⟩
      · rintro ⟨⟨p, stands, rfl⟩, kept⟩
        exact ⟨p, ⟨stands, p.identity_prepare ▸ kept⟩, rfl⟩
      · rintro ⟨p, ⟨stands, kept⟩, rfl⟩
        exact ⟨⟨p, stands, rfl⟩, p.identity_prepare.symm ▸ kept⟩

theorem live_of_stands (begun : f.Tracks address (f.run x (opening address)))
    (serves : ∀ event ∈ events, Serves address event)
    (refreshed : f.Refreshed address group p.identity x (opening address ++ events))
    (stands : f.Stands address group p x (opening address ++ events)) :
    p ∈ f.live (f.run x (opening address ++ events)) address group := by
  induction events using List.reverseRecOn with
  | nil =>
      show p ∈ f.live (f.act (f.act x .clear) (.follow address)) address group
      rw [live_follow]
      exact (stands_begin_iff (x := x)).mp stands
  | append_singleton events event ih =>
      obtain ⟨others, last⟩ := List.forall_mem_append.mp serves
      have now := begun.run others
      rw [← run_append] at now
      rw [← List.append_assoc] at refreshed stands ⊢
      rw [run_concat]
      rcases stands_concat_iff.mp stands with brought | ⟨stood, kept⟩
      · exact live_of_brings now.stores brought
      have held := ih others (refreshed.of_concat kept) stood
      cases event with
      | publish place id name q =>
          rw [act, live_publish]
          split
          next here =>
            obtain ⟨rfl, rfl, rfl⟩ := here
            refine (Distinct.mem_settle_iff (now.stores _ _)).mpr (.inr ⟨held, fun same => ?_⟩)
            obtain ⟨later, member, sweeps⟩ := refreshed _ q [] rfl same.symm ⟨p, held, rfl⟩
            exact kept (List.mem_singleton.mp member ▸ sweeps)
          next => exact held
      | withdraw place id name q =>
          rw [act, live_withdraw]
          split
          next here =>
            rw [Group.without_singleton, List.mem_filter]
            exact ⟨held, decide_eq_true fun same => kept ⟨here.1, here.2.1, here.2.2, same.symm⟩⟩
          next => exact held
      | resync place => exact absurd (last _ (List.mem_singleton_self _)) kept
      | follow | part | clear => exact (last _ (List.mem_singleton_self _)).elim

theorem exists_candidate_iff (ready : f.Ready x) (tidy : (x.book f.number).Tidy)
    (vacant : (x.book f.number).direct.members = []) (unfollowed : ∀ place, f.times x place = 0)
    (stores : ∀ place group, Distinct (f.live x place group))
    (serves : ∀ event ∈ events, Serves address event) (identity : Identity) (now : Nat) :
    (∃ entry ∈ ((f.run x (opening address ++ events)).book f.number).candidates now,
        entry.identity = identity) ↔
      ∃ group p, p.identity = identity ∧
        f.Stands address group p x (opening address ++ events) ∧
        (¬p.Suspended ∨ p.warmup?.isSome) := by
  have tracks : f.Tracks address (f.run x (opening address ++ events)) := by
    rw [run_append]
    exact (Tracks.begin address ready tidy vacant unfollowed stores).1.run serves
  have shown := fun group =>
    mem_shown_iff_stands group ready tidy vacant unfollowed stores serves
  simp only [Book.exists_mem_candidates_iff tracks.tidy]
  constructor
  · rintro ⟨entry, ⟨⟨group, member⟩, serving⟩, rfl⟩
    obtain ⟨p, stands, rfl⟩ := (shown group entry).mp member
    exact ⟨group, p, p.identity_prepare.symm, stands, (p.isCandidate_prepare_iff now).mp serving⟩
  · rintro ⟨group, p, rfl, stands, serving⟩
    have member := (shown group p.prepare).mpr ⟨p, stands, rfl⟩
    exact ⟨p.prepare, ⟨⟨group, member⟩, (p.isCandidate_prepare_iff now).mpr serving⟩,
      p.identity_prepare⟩

/-- A book is emptied and follows one address, where providers come and go. Calls may go to a
provider exactly if a publication of it stands in some group that is not suspended or has a warm-up
before it. So a suspended provider gets no calls if it has no attributes of a warm-up and if,
wherever it was published anew while it was live, a full push or a withdrawal came later. -/
theorem candidate_iff_stands (ready : f.Ready x) (tidy : (x.book f.number).Tidy)
    (vacant : (x.book f.number).direct.members = []) (unfollowed : ∀ place, f.times x place = 0)
    (stores : ∀ place group, Distinct (f.live x place group))
    (serves : ∀ event ∈ events, Serves address event) (identity : Identity) (now : Nat) :
    ((∃ entry ∈ ((f.run x (opening address ++ events)).book f.number).candidates now,
        entry.identity = identity) ↔
      ∃ group p, p.identity = identity ∧
        f.Stands address group p x (opening address ++ events) ∧
        (¬p.Suspended ∨ p.warmup?.isSome)) ∧
    ((∀ group, f.Refreshed address group identity x (opening address ++ events)) →
      (∀ group, ∀ p ∈ f.live (f.run x (opening address ++ events)) address group,
        p.identity = identity → p.Suspended ∧ p.warmup? = none) →
      ∀ entry ∈ ((f.run x (opening address ++ events)).book f.number).candidates now,
        entry.identity ≠ identity) := by
  have begun := (Tracks.begin address ready tidy vacant unfollowed stores).1
  have chosen := exists_candidate_iff ready tidy vacant unfollowed stores serves identity now
  refine ⟨chosen, fun refreshed withheld entry candidate same => ?_⟩
  obtain ⟨group, p, rfl, stands, serving⟩ := chosen.mp ⟨entry, candidate, same⟩
  have live := live_of_stands begun serves (refreshed group) stands
  obtain ⟨suspended, cold⟩ := withheld group p live rfl
  rcases serving with inService | warm
  · exact inService suspended
  · simp [cold] at warm

def inBlue (providers : List Provider) : List Event :=
  providers.map (.publish "center" "com.demo.Echo@bolt" "blue")

/-- A provider is suspended while it is live. It gets calls until the store is pushed. -/
theorem candidate_iff_stands_suspended :
    let x := (Exchange.new ()).addBook.2
    let published := inBlue [weighing "100", (weighing "100").withStatus .disabled]
    onlyBook.Ready x ∧ (∀ event ∈ published ++ [.resync "center"], Serves "center" event) ∧
      (∀ group, onlyBook.Refreshed "center" group (weighing "100").identity x
        (opening "center" ++ (published ++ [.resync "center"]))) ∧
      (∃ group p, p.identity = (weighing "100").identity ∧
        onlyBook.Stands "center" group p x (opening "center" ++ published) ∧
        (¬p.Suspended ∨ p.warmup?.isSome)) ∧
      ∀ entry ∈ ((onlyBook.run x (opening "center" ++
        (published ++ [.resync "center"]))).book 0).candidates 9,
          entry.identity ≠ (weighing "100").identity := by
  intro x published
  have ready : onlyBook.Ready x := ⟨by decide, fun _ _ _ => List.not_mem_nil⟩
  have stores : ∀ place group, Distinct (onlyBook.live x place group) :=
    fun _ _ => List.nodup_nil
  have serves : ∀ event ∈ published, Serves "center" event := by
    simp [published, inBlue, Serves]
  have pushes : ∀ event ∈ published ++ [.resync "center"], Serves "center" event := by
    simp [published, inBlue, Serves]
  have refreshed : ∀ group, onlyBook.Refreshed "center" group (weighing "100").identity x
      (opening "center" ++ (published ++ [.resync "center"])) := by
    intro group
    rw [← List.append_assoc]
    exact refreshed_concat_resync _
  have before := candidate_iff_stands ready rfl rfl (fun _ => rfl) stores serves
    (weighing "100").identity 9
  have after := candidate_iff_stands ready rfl rfl (fun _ => rfl) stores pushes
    (weighing "100").identity 9
  refine ⟨ready, pushes, refreshed, before.1.mp ?_, after.2 refreshed ?_⟩
  · exact ⟨weighing "100", by decide +kernel, rfl⟩
  · intro group p held same
    by_cases blue : group = "blue"
    · subst blue
      have kept : onlyBook.live (onlyBook.run x (opening "center" ++
          (published ++ [.resync "center"]))) "center" "blue" =
            [(weighing "100").withStatus .disabled] := by cbv
      rw [kept, List.mem_singleton] at held
      rw [held]
      decide
    · have others : onlyBook.live (onlyBook.run x (opening "center" ++
          (published ++ [.resync "center"]))) "center" group = [] := by
        simp only [opening, published, inBlue, List.map_cons, List.map_nil, List.cons_append,
          List.nil_append, run, List.foldl_cons, List.foldl_nil, live_resync]
        simp only [act, live_publish, Ne.symm blue, and_false, if_false]
        exact (live_follow (x := onlyBook.act x .clear) ..).trans rfl
      rw [others] at held
      exact absurd held List.not_mem_nil

def boundAfter (providers : List Provider) : Exchange Unit :=
  onlyBook.run (boundTo (Exchange.new ()) [.new Registry.memoryProtocol "center"]).exchange
    (inBlue providers)

/-- The store has one suspended entry, and calls may go to its provider: as it has attributes of a
warm-up, also when their time is over, or as an older publication still stands. -/
theorem candidate_though_suspended :
    let warm := Exchange.warming.withStatus .disabled
    let cold := (weighing "100").withStatus .disabled
    ((boundAfter [warm]).store "center").members "com.demo.Echo@bolt" "blue" = [warm] ∧
    ((boundAfter [warm]).book 0).candidates 500 = [warm.prepare] ∧
    ((boundAfter [warm]).book 0).candidates 2000 = [warm.prepare] ∧
    ((boundAfter [weighing "100", cold]).store "center").members "com.demo.Echo@bolt" "blue" =
      [cold] ∧
    ((boundAfter [weighing "100", cold]).book 0).candidates 0 = [weighing "100"] ∧
    warm.Suspended ∧ cold.Suspended := by
  refine ⟨?_, ?_, ?_, ?_, ?_, ?_, ?_⟩ <;> cbv

end Follower

end Switchboard
