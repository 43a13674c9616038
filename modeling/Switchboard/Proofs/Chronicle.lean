import Switchboard.Proofs.Distinct

/-! The chronicle of a store: all that was published and withdrawn, in its order. It alone decides
what the store holds. Of an identity in a group the last word counts, the members are in the order
in which they came and stayed, and each subscriber is told of every publication and of every
withdrawal that found something. -/
namespace Switchboard

namespace Registry

inductive Change where
  | publish (dataId group : String) (provider : Provider)
  | withdraw (dataId group : String) (provider : Provider)

namespace Change

def concerns (dataId group : String) (identity : Identity) : Change → Bool
  | publish id name p => decide (id = dataId ∧ name = group ∧ p.identity = identity)
  | withdraw id name p => decide (id = dataId ∧ name = group ∧ p.identity = identity)

def leaves : Change → Option Provider
  | publish _ _ p => some p
  | withdraw _ _ _ => none

end Change

variable {past history : List Change} {dataId group : String} {identity : Identity}
  {members : List Provider}

/-- What the last change about an identity in a group has left there. -/
def lastWord (history : List Change) (dataId group : String) (identity : Identity) :
    Option Provider :=
  (history.reverse.find? (·.concerns dataId group identity)).bind Change.leaves

/-- The change at a place in a history has published an identity that was not there, and since then
it has always been there. -/
structure Entered (history : List Change) (dataId group : String) (identity : Identity)
    (place : Nat) : Prop where
  published : ∃ p, history[place]? = some (.publish dataId group p) ∧ p.identity = identity
  absent : lastWord (history.take place) dataId group identity = none
  since : ∀ n, place < n → n ≤ history.length →
    (lastWord (history.take n) dataId group identity).isSome

/-- The members of a group as a history says. -/
structure Chronicled (history : List Change) (dataId group : String) (members : List Provider) :
    Prop where
  present : ∀ p, p ∈ members ↔ lastWord history dataId group p.identity = some p
  once : Distinct members
  entered : ∀ p ∈ members, ∃ place, Entered history dataId group p.identity place
  ordered : (members.map (·.identity)).Pairwise fun first second => ∀ one two,
    Entered history dataId group first one → Entered history dataId group second two → one < two

/-- What is to be told about a change after a history. -/
def Change.notice (past : List Change) : Change → List (String × Push)
  | publish dataId group p => [(dataId, .add ⟨group, [p]⟩)]
  | withdraw dataId group p =>
      if (lastWord past dataId group p.identity).isSome then [(dataId, .delete ⟨group, [p]⟩)]
      else []

def notices (past : List Change) : List Change → List (String × Push)
  | [] => []
  | change :: rest => change.notice past ++ notices (past ++ [change]) rest

theorem lastWord_concat (history : List Change) (change : Change) (dataId group : String)
    (identity : Identity) :
    lastWord (history ++ [change]) dataId group identity =
      if change.concerns dataId group identity then change.leaves
      else lastWord history dataId group identity := by
  rw [lastWord, List.reverse_append, List.reverse_singleton, List.singleton_append,
    List.find?_cons]
  cases change.concerns dataId group identity <;> rfl

theorem Entered.lt {place : Nat} (entered : Entered history dataId group identity place) :
    place < history.length := by
  obtain ⟨p, found, -⟩ := entered.published
  exact (List.getElem?_eq_some_iff.mp found).1

theorem Entered.isSome {place : Nat} (entered : Entered history dataId group identity place) :
    (lastWord history dataId group identity).isSome := by
  have now := entered.since history.length entered.lt (Nat.le_refl _)
  rwa [List.take_length] at now

theorem entered_concat (history : List Change) (change : Change) (dataId group : String)
    (identity : Identity) (place : Nat) :
    Entered (history ++ [change]) dataId group identity place ↔
      (Entered history dataId group identity place ∧
        (lastWord (history ++ [change]) dataId group identity).isSome) ∨
      (place = history.length ∧ lastWord history dataId group identity = none ∧
        ∃ p, change = .publish dataId group p ∧ p.identity = identity) := by
  constructor
  · intro entered
    obtain ⟨p, found, same⟩ := entered.published
    rcases Nat.lt_or_ge place history.length with before | last
    · rw [List.getElem?_append_left before] at found
      refine .inl ⟨⟨⟨p, found, same⟩, ?_, fun n after within => ?_⟩, entered.isSome⟩
      · have absent := entered.absent
        rwa [List.take_append_of_le_length (Nat.le_of_lt before)] at absent
      · have present := entered.since n after (by rw [List.length_append]; omega)
        rwa [List.take_append_of_le_length within] at present
    · have within := entered.lt
      rw [List.length_append, List.length_singleton] at within
      obtain rfl : place = history.length := by omega
      have absent := entered.absent
      rw [List.take_left] at absent
      rw [List.getElem?_concat_length] at found
      exact .inr ⟨rfl, absent, p, Option.some.inj found, same⟩
  · rintro (⟨entered, kept⟩ | ⟨rfl, absent, p, rfl, same⟩)
    · obtain ⟨p, found, same⟩ := entered.published
      refine ⟨⟨p, ?_, same⟩, ?_, fun n after within => ?_⟩
      · rwa [List.getElem?_append_left entered.lt]
      · rw [List.take_append_of_le_length (Nat.le_of_lt entered.lt)]
        exact entered.absent
      · rcases Nat.lt_or_ge history.length n with beyond | inside
        · rwa [List.take_of_length_le (by rw [List.length_append, List.length_singleton]; omega)]
        · rw [List.take_append_of_le_length inside]
          exact entered.since n after inside
    · refine ⟨⟨p, List.getElem?_concat_length, same⟩, ?_, fun n after within => ?_⟩
      · rwa [List.take_left]
      · rw [List.take_of_length_le (by rw [List.length_append, List.length_singleton]; omega),
          lastWord_concat, if_pos (by simp [Change.concerns, same])]
        rfl

def Change.edit (dataId group : String) (members : List Provider) : Change → List Provider
  | publish id name p => if id = dataId ∧ name = group then Store.settle p members else members
  | withdraw id name p =>
      if id = dataId ∧ name = group then Group.without members [p] else members

theorem lastWord_of_other {change : Change} (other : change.concerns dataId group identity = false)
    (history : List Change) :
    lastWord (history ++ [change]) dataId group identity =
      lastWord history dataId group identity := by
  rw [lastWord_concat, other]
  rfl

theorem lastWord_publish (history : List Change) (dataId group : String) (p : Provider)
    (identity : Identity) :
    lastWord (history ++ [.publish dataId group p]) dataId group identity =
      if p.identity = identity then some p else lastWord history dataId group identity := by
  rw [lastWord_concat]
  by_cases same : p.identity = identity <;> simp [Change.concerns, Change.leaves, same]

theorem lastWord_withdraw (history : List Change) (dataId group : String) (p : Provider)
    (identity : Identity) :
    lastWord (history ++ [.withdraw dataId group p]) dataId group identity =
      if p.identity = identity then none else lastWord history dataId group identity := by
  rw [lastWord_concat]
  by_cases same : p.identity = identity <;> simp [Change.concerns, Change.leaves, same]

namespace Chronicled

theorem isSome_iff (chronicled : Chronicled history dataId group members) (identity : Identity) :
    (lastWord history dataId group identity).isSome ↔
      identity ∈ members.map (·.identity) := by
  constructor
  · intro present
    obtain ⟨p, word⟩ := Option.isSome_iff_exists.mp present
    -- The last word about an identity is about a provider that has it.
    have same : p.identity = identity := by
      obtain ⟨change, found, left⟩ := Option.bind_eq_some_iff.mp word
      have about := List.find?_some found
      cases change with
      | publish id name q =>
          obtain rfl : q = p := Option.some.inj left
          exact (of_decide_eq_true about).2.2
      | withdraw id name q => cases left
    exact List.mem_map.mpr ⟨p, (chronicled.present p).mpr (same.symm ▸ word), same⟩
  · intro member
    obtain ⟨p, held, rfl⟩ := List.mem_map.mp member
    rw [(chronicled.present p).mp held]
    rfl

theorem entered_of_member (chronicled : Chronicled history dataId group members) {change : Change}
    (member : identity ∈ members.map (·.identity)) {place : Nat}
    (entered : Entered (history ++ [change]) dataId group identity place) :
    Entered history dataId group identity place := by
  rcases (entered_concat ..).mp entered with ⟨old, -⟩ | ⟨-, absent, -⟩
  · exact old
  · have present := (chronicled.isSome_iff identity).mpr member
    rw [absent] at present
    cases present

theorem ordered_concat (chronicled : Chronicled history dataId group members) (change : Change) :
    (members.map (·.identity)).Pairwise fun first second => ∀ one two,
      Entered (history ++ [change]) dataId group first one →
        Entered (history ++ [change]) dataId group second two → one < two :=
  chronicled.ordered.imp_of_mem fun inFirst inSecond before one two enteredFirst enteredSecond =>
    before one two (chronicled.entered_of_member inFirst enteredFirst)
      (chronicled.entered_of_member inSecond enteredSecond)

theorem other (chronicled : Chronicled history dataId group members) {change : Change}
    (others : ∀ identity, change.concerns dataId group identity = false) :
    Chronicled (history ++ [change]) dataId group members where
  present p := by rw [lastWord_of_other (others _), chronicled.present]
  once := chronicled.once
  entered p member := by
    obtain ⟨place, entered⟩ := chronicled.entered p member
    refine ⟨place, (entered_concat ..).mpr (.inl ⟨entered, ?_⟩)⟩
    rw [lastWord_of_other (others _)]
    exact entered.isSome
  ordered := chronicled.ordered_concat change

theorem publish (chronicled : Chronicled history dataId group members) (p : Provider) :
    Chronicled (history ++ [.publish dataId group p]) dataId group (Store.settle p members) where
  present q := by
    rw [Distinct.mem_settle_iff chronicled.once, lastWord_publish, chronicled.present]
    by_cases same : p.identity = q.identity
    · simp [same, eq_comm]
    · have other : q ≠ p := fun equal => same (equal ▸ rfl)
      simp [same, Ne.symm same, other]
  once := chronicled.once.settled p
  entered q member := by
    rcases (Distinct.mem_settle_iff chronicled.once).mp member with rfl | ⟨held, different⟩
    · by_cases known : (lastWord history dataId group q.identity).isSome
      · obtain ⟨r, held, same⟩ := List.mem_map.mp ((chronicled.isSome_iff _).mp known)
        obtain ⟨place, entered⟩ := chronicled.entered r held
        refine ⟨place, (entered_concat ..).mpr (.inl ⟨same ▸ entered, ?_⟩)⟩
        rw [lastWord_publish, if_pos rfl]
        rfl
      · exact ⟨_, (entered_concat ..).mpr
          (.inr ⟨rfl, Option.not_isSome_iff_eq_none.mp known, q, rfl, rfl⟩)⟩
    · obtain ⟨place, entered⟩ := chronicled.entered q held
      refine ⟨place, (entered_concat ..).mpr (.inl ⟨entered, ?_⟩)⟩
      rw [lastWord_publish, if_neg (Ne.symm different)]
      exact entered.isSome
  ordered := by
    rw [Distinct.identities_settle]
    split
    next => exact chronicled.ordered_concat _
    next absent =>
      -- An identity that was absent enters now, after all others.
      refine List.pairwise_append.mpr ⟨chronicled.ordered_concat _, List.pairwise_singleton _ _, ?_⟩
      intro first inFirst second last one two enteredFirst enteredSecond
      obtain rfl := List.mem_singleton.mp last
      have earlier := (chronicled.entered_of_member inFirst enteredFirst).lt
      rcases (entered_concat ..).mp enteredSecond with ⟨old, -⟩ | ⟨now, -⟩
      · exact absurd ((chronicled.isSome_iff _).mp old.isSome) absent
      · exact now ▸ earlier

theorem withdraw (chronicled : Chronicled history dataId group members) (p : Provider) :
    Chronicled (history ++ [.withdraw dataId group p]) dataId group
      (Group.without members [p]) where
  present q := by
    rw [Group.without_singleton, List.mem_filter, decide_eq_true_eq, lastWord_withdraw,
      chronicled.present]
    by_cases same : p.identity = q.identity
    · simp [same]
    · simp [same, Ne.symm same]
  once := chronicled.once.without [p]
  entered q member := by
    rw [Group.without_singleton, List.mem_filter, decide_eq_true_eq] at member
    obtain ⟨place, entered⟩ := chronicled.entered q member.1
    refine ⟨place, (entered_concat ..).mpr (.inl ⟨entered, ?_⟩)⟩
    rw [lastWord_withdraw, if_neg (Ne.symm member.2)]
    exact entered.isSome
  ordered := (chronicled.ordered_concat _).sublist (List.filter_sublist.map _)

theorem edit (chronicled : Chronicled history dataId group members) (change : Change) :
    Chronicled (history ++ [change]) dataId group (change.edit dataId group members) := by
  cases change with
  | publish id name p =>
      by_cases own : id = dataId ∧ name = group
      · obtain ⟨rfl, rfl⟩ := own
        rw [Change.edit, if_pos ⟨rfl, rfl⟩]
        exact chronicled.publish p
      · rw [Change.edit, if_neg own]
        exact chronicled.other fun identity =>
          decide_eq_false fun about => own ⟨about.1, about.2.1⟩
  | withdraw id name p =>
      by_cases own : id = dataId ∧ name = group
      · obtain ⟨rfl, rfl⟩ := own
        rw [Change.edit, if_pos ⟨rfl, rfl⟩]
        exact chronicled.withdraw p
      · rw [Change.edit, if_neg own]
        exact chronicled.other fun identity =>
          decide_eq_false fun about => own ⟨about.1, about.2.1⟩

end Chronicled

namespace Store

def apply (s : Store) : Change → Store × List Delivery
  | .publish dataId group p => s.publish dataId group p
  | .withdraw dataId group p => s.withdraw dataId group p

def after (s : Store) (changes : List Change) : Store :=
  changes.foldl (fun s change => (s.apply change).1) s

def told (s : Store) : List Change → List Delivery
  | [] => []
  | change :: rest => (s.apply change).2 ++ (s.apply change).1.told rest

def heard (subscriber : Subscriber) (deliveries : List Delivery) : List (String × Push) :=
  (deliveries.filter fun d => decide (d.subscriber = subscriber)).map fun d => (d.dataId, d.push)

/-- A store that holds what a history says: the groups under which something was ever published, and
in each of them the members. -/
structure Reflects (s : Store) (history : List Change) : Prop where
  groups : ∀ dataId group, group ∈ (s.groupsOf dataId).keys ↔
    ∃ p, .publish dataId group p ∈ history
  members : ∀ dataId group, Chronicled history dataId group (s.members dataId group)

variable {s : Store}

theorem members_apply (s : Store) (change : Change) (dataId group : String) :
    (s.apply change).1.members dataId group =
      change.edit dataId group (s.members dataId group) := by
  cases change with
  | publish id name p =>
      rw [apply, publish, members_replaceGroup, Change.edit]
      split
      next own => rw [own.1, own.2]
      next => rfl
  | withdraw id name p =>
      rw [apply, members_withdraw, Change.edit]

theorem subscribersOf_apply (s : Store) (change : Change) (dataId : String) :
    (s.apply change).1.subscribersOf dataId = s.subscribersOf dataId := by
  cases change with
  | publish id name p => rfl
  | withdraw id name p => exact s.subscribersOf_withdraw id name dataId p

theorem mem_keys_replaceGroup (s : Store) (id name dataId group : String)
    (members : List Provider) :
    group ∈ ((s.replaceGroup id name members).groupsOf dataId).keys ↔
      (id = dataId ∧ group = name) ∨ group ∈ (s.groupsOf dataId).keys := by
  rw [groupsOf_replaceGroup]
  by_cases own : id = dataId
  · rw [if_pos own, Dictionary.mem_keys_insert, own]
    simp
  · simp [own]

theorem mem_keys_withdraw (s : Store) (id name dataId group : String) (p : Provider) :
    group ∈ ((s.withdraw id name p).1.groupsOf dataId).keys ↔
      group ∈ (s.groupsOf dataId).keys := by
  rcases s.withdraw_cases id name p with ⟨kept, -⟩ | ⟨taken, stocked⟩
  · rw [kept]
  · rw [taken, mem_keys_replaceGroup, or_iff_right_of_imp]
    rintro ⟨rfl, rfl⟩
    rw [Dictionary.mem_keys_iff]
    exact Option.isSome_iff_ne_none.mpr fun missing =>
      stocked (s.members_eq_nil_of_unnamed missing)

theorem Reflects.apply (reflects : s.Reflects past) (change : Change) :
    (s.apply change).1.Reflects (past ++ [change]) where
  groups dataId group := by
    cases change with
    | publish id name p =>
        rw [Store.apply, publish, mem_keys_replaceGroup, reflects.groups]
        simp only [List.mem_append, List.mem_singleton, Change.publish.injEq]
        constructor
        · rintro (⟨rfl, rfl⟩ | ⟨q, published⟩)
          · exact ⟨p, .inr ⟨rfl, rfl, rfl⟩⟩
          · exact ⟨q, .inl published⟩
        · rintro ⟨q, published | ⟨rfl, rfl, -⟩⟩
          · exact .inr ⟨q, published⟩
          · exact .inl ⟨rfl, rfl⟩
    | withdraw id name p =>
        rw [Store.apply, mem_keys_withdraw, reflects.groups]
        simp
  members dataId group := by
    rw [members_apply]
    exact (reflects.members dataId group).edit change

theorem Reflects.after (reflects : s.Reflects past) (changes : List Change) :
    (s.after changes).Reflects (past ++ changes) := by
  induction changes generalizing s past with
  | nil => rwa [List.append_nil]
  | cons change rest ih =>
      have next := ih (reflects.apply change)
      rwa [List.append_assoc] at next

theorem reflects_empty : empty.Reflects [] where
  groups dataId group := by simp [empty, groupsOf, Dictionary.keys, Dictionary.empty,
    Dictionary.getD, Dictionary.get?, Entries.get?]
  members dataId group :=
    { present := fun p => by simp [members, empty, groupsOf, lastWord, Dictionary.getD]
      once := List.nodup_nil
      entered := fun p member => nomatch member
      ordered := List.Pairwise.nil }

theorem heard_announce (s : Store) (dataId : String) (push : Push) (subscriber : Subscriber) :
    heard subscriber (s.announce dataId push) =
      List.replicate ((s.subscribersOf dataId).count subscriber) (dataId, push) := by
  have pushes := s.pushesTo_announce dataId push subscriber
  rw [pushesTo] at pushes
  have same : ∀ d ∈ (s.announce dataId push).filter fun d => decide (d.subscriber = subscriber),
      (d.dataId, d.push) = (dataId, d.push) := by
    intro d member
    obtain ⟨_, -, rfl⟩ := List.mem_map.mp (List.mem_of_mem_filter member)
    rfl
  calc heard subscriber (s.announce dataId push)
      = (((s.announce dataId push).filter fun d => decide (d.subscriber = subscriber)).map
          (·.push)).map fun push => (dataId, push) := by
        rw [heard, List.map_congr_left same, List.map_map]
        rfl
    _ = List.replicate ((s.subscribersOf dataId).count subscriber) (dataId, push) := by
        rw [pushes, List.map_replicate]

theorem Reflects.heard_apply (reflects : s.Reflects past) (change : Change)
    (subscriber : Subscriber) :
    heard subscriber (s.apply change).2 = (change.notice past).flatMap fun notice =>
      List.replicate ((s.subscribersOf notice.1).count subscriber) notice := by
  cases change with
  | publish id name p =>
      rw [Change.notice, List.flatMap_singleton]
      exact s.heard_announce id _ subscriber
  | withdraw id name p =>
      have present := (reflects.members id name).isSome_iff p.identity
      rw [Store.apply, Change.notice]
      by_cases held : p.identity ∈ (s.members id name).map (·.identity)
      · rw [if_pos (present.mpr held), List.flatMap_singleton,
          withdraw_of_held s (List.mem_map.mp held)]
        exact s.heard_announce id _ subscriber
      · have absent : ∀ known ∈ s.members id name, known.identity ≠ p.identity :=
          fun known member same => held (List.mem_map.mpr ⟨known, member, same⟩)
        rw [if_neg (mt present.mp held), withdraw_of_absent s absent]
        rfl

theorem heard_append (subscriber : Subscriber) (deliveries others : List Delivery) :
    heard subscriber (deliveries ++ others) =
      heard subscriber deliveries ++ heard subscriber others := by
  rw [heard, List.filter_append, List.map_append]
  rfl

theorem Reflects.heard_told (reflects : s.Reflects past) (changes : List Change)
    (subscriber : Subscriber) :
    heard subscriber (s.told changes) = (notices past changes).flatMap fun notice =>
      List.replicate ((s.subscribersOf notice.1).count subscriber) notice := by
  induction changes generalizing s past with
  | nil => rfl
  | cons change rest ih =>
      have later := ih (reflects.apply change)
      simp only [subscribersOf_apply] at later
      rw [told, notices, heard_append, List.flatMap_append, later, reflects.heard_apply]

theorem names_ascending (s : Store) (dataId : String) :
    ((s.snapshot dataId).map (·.name)).Pairwise (· < ·) := by
  rw [names_snapshot, Dictionary.keys, List.pairwise_map]
  exact (s.groupsOf dataId).ascending

/-- A store after any changes, to which subscribers have come after some of them. Its groups are
those under which something was ever published, in ascending order, with the members that the
history of the changes says, and a subscriber is told what is to be told under each data id as often
as it is entered there. -/
theorem store_follows_changes (past changes : List Change)
    (subscribers : Dictionary (List Subscriber)) (dataId : String) :
    let s : Store := ⟨(empty.after past).services, subscribers⟩
    (((s.after changes).snapshot dataId).map (·.name)).Pairwise (· < ·) ∧
    (∀ group, group ∈ ((s.after changes).snapshot dataId).map (·.name) ↔
      ∃ p, .publish dataId group p ∈ past ++ changes) ∧
    (∀ group, Chronicled (past ++ changes) dataId group
      (Group.membersIn ((s.after changes).snapshot dataId) group)) ∧
    ∀ subscriber, heard subscriber (s.told changes) =
      (notices past changes).flatMap fun notice =>
        List.replicate ((s.subscribersOf notice.1).count subscriber) notice := by
  intro s
  have before : (empty.after past).Reflects past := reflects_empty.after past
  have reflects : s.Reflects past := ⟨before.groups, before.members⟩
  have now := reflects.after changes
  refine ⟨names_ascending _ dataId, fun group => ?_, fun group => ?_, reflects.heard_told changes⟩
  · rw [names_snapshot]
    exact now.groups dataId group
  · rw [membersIn_snapshot]
    exact now.members dataId group

/-- What was withdrawn and is published again comes after what has stayed. -/
example : (((empty.after [.publish "echo" "blue" (.new "10.0.0.1" 1 "bolt"),
    .publish "echo" "blue" (.new "10.0.0.1" 2 "bolt"),
    .withdraw "echo" "blue" (.new "10.0.0.1" 1 "bolt"),
    .publish "echo" "blue" (.new "10.0.0.1" 1 "bolt")]).members "echo" "blue").map
      (·.identity.port)) = [2, 1] := by decide

end Store

end Registry

end Switchboard
