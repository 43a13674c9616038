import Switchboard.Proofs.InPlace
import Switchboard.Proofs.Shutdown

/-! An announcement that fails leaves no trace. While it goes from registry to registry, the
provider stands at the end of its group in the stores reached so far and at the end of the group of
each book that is told. Taking it back at the registries reached removes it from each of these
stores, and each removal reaches the books that were told there. -/
namespace Switchboard

namespace Group

theorem without_append (first second others : List Provider) :
    without (first ++ second) others = without first others ++ without second others :=
  List.filter_append ..

theorem without_of_absent {members : List Provider} {provider : Provider}
    (h : ∀ known ∈ members, known.identity ≠ provider.identity) :
    without members [provider] = members := by
  rw [without_singleton]
  exact List.filter_eq_self.mpr fun known member => by simpa using h known member

theorem without_idem (members : List Provider) (provider : Provider) :
    without (without members [provider]) [provider] = without members [provider] := by
  simp only [without_singleton, List.filter_filter, Bool.and_self]

theorem without_replicate_prepare (provider : Provider) (count : Nat) :
    without (List.replicate count provider.prepare) [provider] = [] := by
  rw [without_singleton, List.filter_eq_nil_iff]
  intro known member
  rw [List.eq_of_mem_replicate member, Provider.identity_prepare]
  simp

end Group

namespace Registry.Store

theorem settle_append_of_absent {list : List Provider} {provider : Provider}
    (h : ∀ known ∈ list, known.identity ≠ provider.identity) :
    settle provider (list ++ [provider]) = list ++ [provider] := by
  induction list with
  | nil => rw [List.nil_append, settle, if_pos rfl]
  | cons known rest ih =>
      rw [List.cons_append, settle, if_neg (h known List.mem_cons_self),
        ih fun other member => h other (List.mem_cons_of_mem _ member)]

end Registry.Store

namespace Book

theorem members_appended (b : Book) {group : String} (named : group ≠ Group.directName)
    (name : String) (provider : Provider) (count : Nat) :
    ((List.replicate count (Push.add ⟨group, [provider]⟩)).foldl receive b).members name =
      b.members name ++
        if group = name then List.replicate count provider.prepare else [] := by
  induction count generalizing b with
  | zero => simp
  | succ count ih =>
      have pushed : (Group.mk group [provider]).prepare.name ≠ Group.directName := named
      rw [List.replicate_succ, List.foldl_cons, ih, receive, members_add _ pushed]
      by_cases same : group = name
      · simp [same, Group.prepare, List.replicate_succ]
      · simp [same, Group.prepare]

end Book

namespace Exchange

open Registry (Registration Store memoryProtocol)

variable {ε : Type}

/-- What one book shows while an announcement is under way. The book did not know the provider
before, so what it shows beside it is what it showed then, and it shows nothing else if it is told
nothing. -/
structure Shown (r : Registration) (before : Exchange ε) (places : List String) (number : Nat)
    (x : Exchange ε) : Prop where
  others : ∀ name, name ≠ r.group →
    (x.book number).members name = (before.book number).members name
  own : Group.without ((x.book number).members r.group) [r.provider] =
    (before.book number).members r.group
  untold : (∀ address ∈ places,
      .reference number ∉ (before.store address).subscribersOf r.service.dataId) →
    (x.book number).members r.group = (before.book number).members r.group

/-- What an announcement has changed so far: at some places the provider stands at the end of its
group, and everything else is as it was. -/
structure Trace (r : Registration) (before : Exchange ε) (places : List String) (x : Exchange ε) :
    Prop where
  members : ∀ address id group, (x.store address).members id group =
    (before.store address).members id group ++
      if address ∈ places ∧ id = r.service.dataId ∧ group = r.group then [r.provider] else []
  subscribers : ∀ address id,
    (x.store address).subscribersOf id = (before.store address).subscribersOf id
  known : x.books.length = before.books.length
  shown : r.group ≠ Group.directName → ∀ number < before.books.length,
    (∀ entry ∈ (before.book number).members r.group, entry.identity ≠ r.provider.identity) →
    Shown r before places number x

variable {r : Registration} {before x y : Exchange ε} {places : List String} {number : Nat}

theorem Trace.start (r : Registration) (x : Exchange ε) : Trace r x [] x where
  members address id group := by simp
  subscribers _ _ := rfl
  known := rfl
  shown _ _ _ absent := ⟨fun _ _ => rfl, Group.without_of_absent absent, fun _ => rfl⟩

theorem Trace.quiet (trace : Trace r before places x) (quiet : Quiet x y) :
    Trace r before places y where
  members address id group := by rw [quiet.store]; exact trace.members address id group
  subscribers address id := by rw [quiet.store]; exact trace.subscribers address id
  known := by rw [quiet.books]; exact trace.known
  shown named number below absent := by
    obtain ⟨others, own, untold⟩ := trace.shown named number below absent
    refine ⟨fun name other => ?_, ?_, fun silent => ?_⟩
    · rw [quiet.book]; exact others name other
    · rw [quiet.book]; exact own
    · rw [quiet.book]; exact untold silent

theorem Shown.publish (shown : Shown r before places number x) (trace : Trace r before places x)
    (below : number < before.books.length) (named : r.group ≠ Group.directName) (place : String) :
    Shown r before (place :: places) number
      (x.publish place r.service.dataId r.group r.provider) := by
  have told : ∀ name, ((x.publish place r.service.dataId r.group r.provider).book
      number).members name = (x.book number).members name ++
        if r.group = name then
          List.replicate (((before.store place).subscribersOf r.service.dataId).count
            (.reference number)) r.provider.prepare
        else [] := by
    intro name
    rw [Exchange.publish, book_commit x place _ (trace.known ▸ below), Store.publish,
      Store.pushesTo_announce, trace.subscribers, Book.members_appended _ named]
  refine ⟨fun name other => ?_, ?_, fun silent => ?_⟩
  · rw [told, if_neg (Ne.symm other), List.append_nil]
    exact shown.others name other
  · rw [told, if_pos rfl, Group.without_append, Group.without_replicate_prepare, List.append_nil]
    exact shown.own
  · rw [told, List.count_eq_zero.mpr (silent place List.mem_cons_self)]
    simpa using shown.untold fun address member => silent address (List.mem_cons_of_mem _ member)

theorem Trace.publish (trace : Trace r before places x) (place : String)
    (absent : ∀ entry ∈ (before.store place).members r.service.dataId r.group,
      entry.identity ≠ r.provider.identity) :
    Trace r before (place :: places)
      (x.publish place r.service.dataId r.group r.provider) where
  members address id group := by
    have live := Follower.live_publish (f := ⟨id, 0⟩) (x := x) place r.service.dataId r.group
      address group r.provider
    simp only [Follower.live, trace.members] at live
    rw [live]
    by_cases here : place = address ∧ r.service.dataId = id ∧ r.group = group
    · obtain ⟨rfl, rfl, rfl⟩ := here
      -- The provider is put in its own place, or at the end of a group that does not have it.
      have settled : Store.settle r.provider
          ((before.store place).members r.service.dataId r.group ++
          if place ∈ places then [r.provider] else []) =
          (before.store place).members r.service.dataId r.group ++ [r.provider] := by
        split
        · exact Store.settle_append_of_absent absent
        · rw [List.append_nil, Store.settle_of_absent absent]
      simpa using settled
    · rw [if_neg here]
      congr 1
      refine if_congr ⟨?_, ?_⟩ rfl rfl
      · exact fun there => ⟨List.mem_cons_of_mem _ there.1, there.2⟩
      · rintro ⟨member, rfl, rfl⟩
        refine ⟨(List.mem_cons.mp member).resolve_left fun same => here ⟨same.symm, rfl, rfl⟩,
          rfl, rfl⟩
  subscribers address id := by
    rw [Exchange.publish, store_commit_eq]
    split
    next same => rw [← same]; exact trace.subscribers place id
    next => exact trace.subscribers address id
  known := by rw [Exchange.publish, length_books_commit]; exact trace.known
  shown named number below fresh :=
    (trace.shown named number below fresh).publish trace below named place

theorem Trace.told_withdraw (trace : Trace r before places x) (known : number < x.books.length)
    {place : String} (reached : place ∈ places) (name : String) :
    ((x.withdraw place r.service.dataId r.group r.provider).book number).members name =
      if r.group = name ∧
          .reference number ∈ (before.store place).subscribersOf r.service.dataId then
        Group.without ((x.book number).members name) [r.provider]
      else (x.book number).members name := by
  have held := trace.members place r.service.dataId r.group
  rw [if_pos ⟨reached, rfl, rfl⟩] at held
  have present : ∃ entry ∈ (x.store place).members r.service.dataId r.group,
      entry.identity = r.provider.identity := ⟨r.provider, by simp [held], rfl⟩
  rw [Exchange.withdraw, Store.withdraw_of_held _ present, book_commit x place _ known,
    Store.pushesTo_announce, trace.subscribers, Book.members_told_delete]
  simp only [ne_eq, List.count_eq_zero, not_not]

theorem Shown.withdraw (shown : Shown r before places number x) (trace : Trace r before places x)
    (below : number < before.books.length) (place : String)
    (absent : ∀ entry ∈ (before.store place).members r.service.dataId r.group,
      entry.identity ≠ r.provider.identity) :
    Shown r before (places.filter (· ≠ place)) number
      (x.withdraw place r.service.dataId r.group r.provider) := by
  have known : number < x.books.length := trace.known ▸ below
  by_cases reached : place ∈ places
  · have told := trace.told_withdraw known reached
    refine ⟨fun name other => ?_, ?_, fun silent => ?_⟩
    · rw [told, if_neg fun both => other both.1.symm]
      exact shown.others name other
    · rw [told]
      split
      · rw [Group.without_idem]
        exact shown.own
      · exact shown.own
    · rw [told]
      split
      next => exact shown.own
      next untold =>
        refine shown.untold fun address member => ?_
        by_cases same : address = place
        · exact fun subscribed => untold ⟨rfl, same ▸ subscribed⟩
        · exact silent address (List.mem_filter.mpr ⟨member, by simpa using same⟩)
  · have held := trace.members place r.service.dataId r.group
    rw [if_neg fun there => reached there.1, List.append_nil] at held
    have unchanged : (x.withdraw place r.service.dataId r.group r.provider).book number =
        x.book number := by
      rw [Exchange.withdraw, Store.withdraw_of_absent _ (by rw [held]; exact absent),
        book_commit x place _ known]
      rfl
    refine ⟨fun name other => ?_, ?_, fun silent => ?_⟩
    · rw [unchanged]; exact shown.others name other
    · rw [unchanged]; exact shown.own
    · rw [unchanged]
      refine shown.untold fun address member => silent address (List.mem_filter.mpr ⟨member, ?_⟩)
      simpa using fun same : address = place => reached (same ▸ member)

theorem Trace.withdraw (trace : Trace r before places x) (place : String)
    (absent : ∀ entry ∈ (before.store place).members r.service.dataId r.group,
      entry.identity ≠ r.provider.identity) :
    Trace r before (places.filter (· ≠ place))
      (x.withdraw place r.service.dataId r.group r.provider) where
  members address id group := by
    have live := Follower.live_withdraw (f := ⟨id, 0⟩) (x := x) place r.service.dataId r.group
      address group r.provider
    simp only [Follower.live, trace.members] at live
    rw [live]
    by_cases here : place = address ∧ r.service.dataId = id ∧ r.group = group
    · obtain ⟨rfl, rfl, rfl⟩ := here
      have own : Group.without [r.provider] [r.provider] = [] := by simp [Group.without]
      rw [if_pos ⟨rfl, rfl, rfl⟩, Group.without_append, Group.without_of_absent absent]
      split <;> simp [own]
    · rw [if_neg here]
      congr 1
      refine if_congr ⟨?_, ?_⟩ rfl rfl
      · rintro ⟨member, rfl, rfl⟩
        refine ⟨List.mem_filter.mpr ⟨member, ?_⟩, rfl, rfl⟩
        simpa using fun same : address = place => here ⟨same.symm, rfl, rfl⟩
      · exact fun there => ⟨(List.mem_filter.mp there.1).1, there.2⟩
  subscribers address id := by
    rw [Exchange.withdraw, store_commit_eq]
    split
    next same => rw [Store.subscribersOf_withdraw, ← same]; exact trace.subscribers place id
    next => exact trace.subscribers address id
  known := by rw [Exchange.withdraw, length_books_commit]; exact trace.known
  shown named number below fresh :=
    (trace.shown named number below fresh).withdraw trace below place absent

/-- Each of the places is the address of a memory registry among the numbers that announces. -/
def Reaches (x : Exchange ε) (numbers : List Nat) (places : List String) : Prop :=
  ∀ address ∈ places, ∃ number ∈ numbers, ∃ outlet, x.outlet? number = some outlet ∧
    outlet.registers = true ∧ outlet.address = address

/-- The store of an address does not hold the provider of a registration in its group. -/
def Absent (x : Exchange ε) (r : Registration) (address : String) : Prop :=
  ∀ entry ∈ (x.store address).members r.service.dataId r.group,
    entry.identity ≠ r.provider.identity

variable {list : List Registry.Settings}

theorem Trace.enter (trace : Trace r before places x) (inPlace : x.InPlace)
    {settings : Registry.Settings}
    (absent : settings.protocol = memoryProtocol → before.Absent r settings.address) :
    (∀ number outlet, x.outlet? number = some outlet →
      (Exchange.enter r settings x).2.outlet? number = some outlet) ∧
    (Trace r before places (Exchange.enter r settings x).2 ∨
      ∃ number outlet, (Exchange.enter r settings x).1 = .ok number ∧
        (Exchange.enter r settings x).2.outlet? number = some outlet ∧ outlet.registers = true ∧
        Trace r before (outlet.address :: places) (Exchange.enter r settings x).2) := by
  have later : (Exchange.enter r settings x).2.InPlace := inPlace.leads (leads_enter r settings x)
  rcases enter_cases inPlace.grow r settings with
    ⟨number, outlet, y, quiet, known, allowed, entered⟩ | quiet
  · have outlets := outlet?_commit y outlet.address
      ((y.store outlet.address).publish r.service.dataId r.group r.provider)
    have still := (outlets number).trans known
    have listed := mem_table_enter entered
    rw [entered] at later ⊢
    obtain ⟨memory, here⟩ := later.outlet listed still
    refine ⟨fun other settings before => ?_, .inr ⟨number, outlet, rfl, still, allowed, ?_⟩⟩
    · exact (outlets other).trans (quiet.outlets other settings before)
    · exact (trace.quiet quiet).publish outlet.address (here ▸ absent memory)
  · exact ⟨quiet.outlets, .inl (trace.quiet quiet)⟩

theorem Trace.tryAll (trace : Trace r before places x) (inPlace : x.InPlace)
    (absent : ∀ s ∈ list, s.protocol = memoryProtocol → before.Absent r s.address) :
    (∀ number outlet, x.outlet? number = some outlet →
      (Exchange.tryAll (Exchange.enter r) list x).2.outlet? number = some outlet) ∧
    ∃ more, Trace r before (more ++ places) (Exchange.tryAll (Exchange.enter r) list x).2 ∧
      Reaches (Exchange.tryAll (Exchange.enter r) list x).2
        (Exchange.tryAll (Exchange.enter r) list x).1.done more := by
  induction list generalizing x places with
  | nil => exact ⟨fun _ _ known => known, [], trace, fun _ member => absurd member List.not_mem_nil⟩
  | cons first rest ih =>
      obtain ⟨own, others⟩ := List.forall_mem_cons.mp absent
      obtain ⟨kept, step⟩ := trace.enter inPlace own
      have later : (Exchange.enter r first x).2.InPlace := inPlace.leads (leads_enter r first x)
      rw [Exchange.tryAll]
      generalize Exchange.enter r first x = done at kept step later
      obtain ⟨failure | number, y⟩ := done
      · rcases step with same | ⟨_, _, ok, _⟩
        · exact ⟨kept, [], same, fun _ member => absurd member List.not_mem_nil⟩
        · cases ok
      · dsimp only
        rcases step with same | ⟨entered, outlet, ok, known, allowed, posted⟩
        · obtain ⟨outlets, more, last, reaches⟩ := ih same later others
          refine ⟨fun other settings known => outlets other settings (kept other settings known),
            more, last, fun address member => ?_⟩
          obtain ⟨other, isDone, rest⟩ := reaches address member
          exact ⟨other, List.mem_cons_of_mem _ isDone, rest⟩
        · obtain rfl : number = entered := by cases ok; rfl
          obtain ⟨outlets, more, last, reaches⟩ := ih posted later others
          refine ⟨fun other settings known => outlets other settings (kept other settings known),
            more ++ [outlet.address], by simpa using last, fun address member => ?_⟩
          rcases List.mem_append.mp member with later | this
          · obtain ⟨other, isDone, rest⟩ := reaches address later
            exact ⟨other, List.mem_cons_of_mem _ isDone, rest⟩
          · rw [List.mem_singleton.mp this]
            exact ⟨number, List.mem_cons_self, outlet, outlets number outlet known, allowed, rfl⟩

theorem entered_tryAll (r : Registration) (list : List Registry.Settings) (x : Exchange ε) :
    ∀ number ∈ (Exchange.tryAll (Exchange.enter r) list x).1.done,
      ∃ s ∈ list, (s, number) ∈ (Exchange.tryAll (Exchange.enter r) list x).2.table := by
  induction list generalizing x with
  | nil => exact fun _ absurd => by cases absurd
  | cons first rest ih =>
      rw [Exchange.tryAll]
      cases attempt : Exchange.enter r first x with
      | mk answer y =>
        cases answer with
        | error failure => exact fun _ absurd => by cases absurd
        | ok number =>
            have kept : y.table ⊆ (Exchange.tryAll (Exchange.enter r) rest y).2.table :=
              (leads_tryAll (fun _ => True) (leads_enter r) rest y).retains.table
            intro other done
            rcases List.mem_cons.mp done with rfl | later
            · exact ⟨first, List.mem_cons_self, kept (mem_table_enter attempt)⟩
            · obtain ⟨s, listed, entered⟩ := ih y other later
              exact ⟨s, List.mem_cons_of_mem _ listed, entered⟩

theorem Trace.leaveAll (trace : Trace r before places x) (inPlace : x.InPlace)
    (absent : ∀ s ∈ list, s.protocol = memoryProtocol → before.Absent r s.address)
    {numbers : List Nat} (entered : ∀ number ∈ numbers, ∃ s ∈ list, (s, number) ∈ x.table)
    (reaches : Reaches x numbers places) :
    Trace r before [] (Exchange.leaveAll r numbers x) := by
  induction numbers generalizing x places with
  | nil =>
      have nowhere : places = [] := List.eq_nil_iff_forall_not_mem.mpr fun address member => by
        obtain ⟨number, isDone, -⟩ := reaches address member
        exact absurd isDone List.not_mem_nil
      exact nowhere ▸ trace
  | cons number rest ih =>
      have calm := calm_leave r x number
      have later : (Exchange.leave r x number).InPlace := inPlace.leads (.calm calm)
      obtain ⟨⟨s, listed, there⟩, others⟩ := List.forall_mem_cons.mp entered
      rw [← calm.table] at others
      rw [Exchange.leaveAll, List.foldl_cons, ← Exchange.leaveAll]
      rcases x.leave_cases r number with ⟨outlet, known, allowed, withdrawn⟩ | ⟨quiet, silent⟩
      · rw [withdrawn] at later others ⊢
        obtain ⟨memory, here⟩ := inPlace.outlet there known
        refine ih (trace.withdraw outlet.address (here ▸ absent s listed memory)) later others
          fun address member => ?_
        obtain ⟨isPlace, other⟩ := List.mem_filter.mp member
        obtain ⟨holder, isDone, settings, found, announces, rfl⟩ := reaches address isPlace
        refine ⟨holder, (List.mem_cons.mp isDone).resolve_left fun same => ?_, settings, ?_,
          announces, rfl⟩
        · subst same
          rw [known] at found
          exact of_decide_eq_true other (congrArg _ (Option.some.inj found).symm)
        · exact (outlet?_commit x outlet.address _ holder).trans found
      · refine ih (trace.quiet quiet) later others fun address member => ?_
        obtain ⟨holder, isDone, settings, found, announces, same⟩ := reaches address member
        refine ⟨holder, (List.mem_cons.mp isDone).resolve_left fun first => ?_, settings,
          quiet.outlets holder settings found, announces, same⟩
        rw [silent settings (first ▸ found)] at announces
        cases announces

theorem Trace.enterAll {after : Exchange ε} (trace : Trace r before [] x) (inPlace : x.InPlace)
    (absent : ∀ s ∈ list, s.protocol = memoryProtocol → before.Absent r s.address)
    {failure : Failure} (failed : Exchange.enterAll r list x = (.error failure, after)) :
    Trace r before [] after := by
  obtain ⟨-, more, posted, reaches⟩ := trace.tryAll inPlace absent
  have entered := entered_tryAll r list x
  have later := inPlace.leads (leads_tryAll _ (leads_enter r) list x)
  rw [Exchange.enterAll] at failed
  generalize Exchange.tryAll (Exchange.enter r) list x = walk at failed posted reaches entered later
  obtain ⟨progress, y⟩ := walk
  rw [List.append_nil] at posted
  dsimp only at failed
  split at failed
  · cases failed
  · cases failed
    exact (posted.leaveAll later absent entered reaches).quiet (quiet_warn _ _)

end Exchange

namespace Hub

open Exchange (Trace)
open Registry (memoryProtocol)

variable {ε : Type}

theorem Trace.prepareOffer {h after : Hub ε} {offer : Offer ε} {now : Nat} {failure : Failure}
    (inPlace : h.exchange.InPlace)
    (absent : ∀ s ∈ offer.settings.registries, s.registers = true → s.protocol = memoryProtocol →
      h.exchange.Absent (offer.registration now) s.address)
    (failed : h.prepareOffer offer now = (.error failure, after)) :
    Trace (offer.registration now) h.exchange [] after.exchange ∧ after.offers = h.offers := by
  have start := Trace.start (offer.registration now) h.exchange
  have first := h.quiet_chain offer.context offer.settings.selection offer.custom
  have chained := h.calm_chain offer.context offer.settings.selection offer.custom
  have offers : (h.chain offer.context offer.settings.selection offer.custom).2.offers =
    h.offers := rfl
  rw [Hub.prepareOffer] at failed
  generalize h.chain offer.context offer.settings.selection offer.custom = built
    at first chained offers failed
  obtain ⟨cause | chain, h₁⟩ := built
  · cases failed
    exact ⟨start.quiet first, offers⟩
  have second := first.trans (h₁.quiet_codec offer.settings.codec)
  have coded := chained.trans (h₁.calm_codec offer.settings.codec)
  have kept : (h₁.codec offer.settings.codec).2.offers = h.offers := offers
  rw [proceed] at failed
  generalize h₁.codec offer.settings.codec = found at second coded kept failed
  obtain ⟨cause | codec, h₂⟩ := found
  · cases failed
    exact ⟨start.quiet second, kept⟩
  dsimp only [proceed, onExchange] at failed
  have targets : ∀ s ∈ offer.settings.registries.filter (·.registers),
      s.protocol = memoryProtocol → h.exchange.Absent (offer.registration now) s.address :=
    fun s listed => absent s (List.mem_filter.mp listed).1 (List.mem_filter.mp listed).2
  cases entered : Exchange.enterAll (offer.registration now)
      (offer.settings.registries.filter (·.registers)) h₂.exchange with
  | mk outcome y =>
    rw [entered] at failed
    cases outcome with
    | ok numbers => cases failed
    | error cause =>
        cases failed
        exact ⟨(start.quiet second).enterAll (inPlace.leads (.calm coded.exchange)) targets entered,
          kept⟩

/-- An announcement that fails leaves the offer unannounced and every store as it was, and every
book that did not show the provider in its group shows what it showed before, unless the provider
stood before in a store that the offer names. Its registries are at these stores, as those of any
hub are that has come about by deeds (`inPlace_after`). -/
theorem announce_failed_leaves_no_trace {h after : Hub ε} {number now : Nat} {failure : Failure}
    {offer : Offer ε} (inPlace : h.exchange.InPlace) (known : h.offers[number]? = some offer)
    (absent : ∀ s ∈ offer.settings.registries, s.registers = true → s.protocol = memoryProtocol →
      h.exchange.Absent (offer.registration now) s.address)
    (failed : h.announce number now = (.error failure, after)) :
    after.isAnnounced number = false ∧
    (∀ bytes, after.handle number bytes =
      (.error (.service offer.service.name "service is not exported"), after)) ∧
    (∀ address id group, (after.exchange.store address).members id group =
      (h.exchange.store address).members id group) ∧
    (offer.settings.group ≠ Group.directName → ∀ book < h.exchange.books.length,
      (∀ entry ∈ (h.exchange.book book).members offer.settings.group,
        entry.identity ≠ (offer.provider now).identity) →
      ∀ name, (after.exchange.book book).members name = (h.exchange.book book).members name) := by
  rw [Hub.announce, known] at failed
  dsimp only at failed
  split at failed
  · cases failed
  next unannounced =>
    cases prepared : h.prepareOffer offer now with
    | mk outcome middle =>
      rw [prepared] at failed
      cases outcome with
      | ok announcement => cases failed
      | error cause =>
          cases failed
          obtain ⟨trace, offers⟩ := Trace.prepareOffer inPlace absent prepared
          have still : after.offers[number]? = some offer := offers ▸ known
          have idle : offer.announced = none := Option.not_isSome_iff_eq_none.mp unannounced
          refine ⟨?_, fun bytes => ?_, fun address id group => ?_,
            fun named book below fresh name => ?_⟩
          · simp [isAnnounced, still, idle]
          · simp only [handle, still, idle]
          · simpa using trace.members address id group
          · have shown := trace.shown named book below fresh
            by_cases own : name = offer.settings.group
            · rw [own]
              exact shown.untold fun _ member => absurd member List.not_mem_nil
            · exact shown.others name own

/-- An offer that goes to one store under two settings and then to a registry of another protocol. -/
def straying : Offer.Settings :=
  let center := Registry.Settings.new memoryProtocol "center"
  ⟨"com.demo.Echo", "", "bolt", "", "10.0.0.2", 12200, 50, 0, 0, "blue",
    [center, { center with timeout := 7000 }, .new "zookeeper" "10.0.0.9:2181"], "", Codec.jsonName⟩

def stray : Offer Unit :=
  ⟨straying, ⟨"com.demo.Echo", "bolt", "", ""⟩, [], fun _ state => (.ok .empty, state), none⟩

/-- A protocol of registries that register nothing. -/
def noRoom : Definition (Registry.Pool Unit) Registry.Settings Nat :=
  ⟨"zookeeper", 0, false, Registry.buildForeign fun _ world =>
    (.ok { Registry.Foreign.idle with
      register := fun _ world => (.error (.registry "zookeeper" "no room"), world) }, world)⟩

/-- A book follows the store, which holds another provider. What the offer would register stands in
a store elsewhere. -/
def halfway : Hub Unit :=
  (Hub.new Settings.default ()).after
    [.act (.addRegistry noRoom (Registry.grows_buildForeign _)),
      .act (.addReference ⟨"com.demo.Echo", "", "bolt", "", [.new memoryProtocol "center"], none, "",
        rotationName, Codec.jsonName, none⟩ []),
      .act (.turn (.bind 0)),
      .act (.publish "center" "com.demo.Echo@bolt" "blue" (.new "10.0.0.1" 12200 "bolt")),
      .act (.publish "north" "com.demo.Echo@bolt" "blue" (.new "10.0.0.2" 12200 "bolt")),
      .act (.addOffer straying [] stray.act)]

theorem announce_failed_leaves_no_trace_halfway :
    (halfway.announce 0 5).1 = .error (.registry "zookeeper" "no room") ∧
    ((halfway.announce 0 5).2.exchange.store "center").members "com.demo.Echo@bolt" "blue" =
      [.new "10.0.0.1" 12200 "bolt"] ∧
    ((halfway.announce 0 5).2.exchange.store "north").members "com.demo.Echo@bolt" "blue" =
      [.new "10.0.0.2" 12200 "bolt"] ∧
    ((halfway.announce 0 5).2.exchange.book 0).members "blue" = [.new "10.0.0.1" 12200 "bolt"] := by
  have refused : (halfway.announce 0 5).1 = .error (.registry "zookeeper" "no room") := by
    cbv
  have inPlace : halfway.exchange.InPlace := by
    refine inPlace_after _ _ fun d listed definition grows same => ?_
    rcases List.mem_cons.mp (same ▸ listed) with first | later
    · cases first
      exact Registry.buildsInPlace_foreign _ _ _ _
    · simp at later
  have center : (halfway.exchange.store "center").members "com.demo.Echo@bolt" "blue" =
      [.new "10.0.0.1" 12200 "bolt"] := by cbv
  have north : (halfway.exchange.store "north").members "com.demo.Echo@bolt" "blue" =
      [.new "10.0.0.2" 12200 "bolt"] := by cbv
  have shown : (halfway.exchange.book 0).members "blue" = [.new "10.0.0.1" 12200 "bolt"] := by cbv
  have known : halfway.offers[0]? = some stray := by cbv
  have absent : ∀ s ∈ straying.registries, s.registers = true → s.protocol = memoryProtocol →
      halfway.exchange.Absent (stray.registration 5) s.address := by
    intro s listed _ memory entry member
    have named : ∀ s ∈ straying.registries, s.protocol = memoryProtocol → s.address = "center" := by
      decide
    have held : entry ∈ (halfway.exchange.store "center").members "com.demo.Echo@bolt" "blue" :=
      named s listed memory ▸ member
    rw [center] at held
    rw [List.mem_singleton.mp held]
    decide
  obtain ⟨-, -, stores, books⟩ := announce_failed_leaves_no_trace inPlace known absent
    (Prod.ext refused rfl : halfway.announce 0 5 = (_, (halfway.announce 0 5).2))
  have fresh : ∀ entry ∈ (halfway.exchange.book 0).members "blue",
      entry.identity ≠ (stray.provider 5).identity := by
    rw [shown]
    decide
  have below : 0 < halfway.exchange.books.length := by cbv
  exact ⟨refused, (stores "center" _ _).trans center, (stores "north" _ _).trans north,
    (books (by decide) 0 below fresh "blue").trans shown⟩

end Hub

end Switchboard
