import Switchboard.Proofs.Attended
import Switchboard.Proofs.Chronicle
import Switchboard.Proofs.Contents

/-! What a full push makes of a book that shows something else. The named groups that are known are
emptied first and the groups of the store written over them afterwards, so nothing that was in them
matters: the book has the groups of the store, and beside them empty ones under names that it knew.
A push of the same groups then finds nothing to change. -/
namespace Switchboard

namespace Contents

theorem lastListed_cons (g : Group) (rest : List Group) (name : String) :
    lastListed (g :: rest) name =
      (lastListed rest name).or (if g.name = name then some g.members else none) := by
  rw [lastListed, List.reverse_cons, List.find?_append, Option.map_or, ← lastListed,
    List.find?_singleton]
  by_cases same : g.name = name <;> simp [same]

theorem lastListed_entries {entries : Entries (List Provider)} (ascending : entries.Ascending)
    (name : String) :
    lastListed (entries.map fun entry => ⟨entry.1, entry.2⟩) name = entries.get? name := by
  induction entries with
  | nil => rfl
  | cons entry rest ih =>
      obtain ⟨key, members⟩ := entry
      obtain ⟨below, tail⟩ := List.pairwise_cons.mp ascending
      rw [List.map_cons, lastListed_cons, ih tail, Entries.get?]
      by_cases same : key = name
      · subst same
        rw [Entries.get?_eq_none_of_below below, if_pos rfl, Option.none_or]
      · rw [if_neg same, Option.or_none, if_neg same]

end Contents

namespace Book

open Contents (lastListed)

variable {b : Book} {groups : List Group}

theorem named_update {g : Group} (indirect : g.name ≠ Group.directName) (b : Book) :
    (b.update g).named = b.named.insert g.name g := by
  rw [update, if_neg (mt g.isDirect_iff.mp indirect)]

theorem named_foldl_update (indirect : ∀ g ∈ groups, g.name ≠ Group.directName) (b : Book)
    (name : String) :
    (groups.foldl update b).named.get? name =
      ((lastListed groups name).map (Group.mk name)).or (b.named.get? name) := by
  induction groups using List.reverseRecOn with
  | nil => rfl
  | append_singleton groups g ih =>
      obtain ⟨others, last⟩ := List.forall_mem_append.mp indirect
      rw [List.foldl_append, List.foldl_cons, List.foldl_nil,
        named_update (last g List.mem_cons_self), Dictionary.get?_insert, ih others,
        Contents.lastListed_concat]
      split
      next same => exact same ▸ rfl
      next => rfl

theorem prepared_indirect (indirect : ∀ g ∈ groups, g.name ≠ Group.directName) :
    ∀ g ∈ groups.map Group.prepare, g.name ≠ Group.directName := by
  rintro _ member
  obtain ⟨g, listed, rfl⟩ := List.mem_map.mp member
  exact indirect g listed

theorem named_receive_full (indirect : ∀ g ∈ groups, g.name ≠ Group.directName) (b : Book)
    (name : String) :
    (b.receive (.full groups)).named.get? name =
      ((lastListed groups name).map fun members => (Group.mk name members).prepare).or
        ((b.named.get? name).map fun _ => .empty name) := by
  rw [receive, updateAll, named_foldl_update (prepared_indirect indirect),
    Contents.lastListed_map_prepare, Dictionary.get?_mapValues, Option.map_map]
  rfl

theorem direct_receive_full (indirect : ∀ g ∈ groups, g.name ≠ Group.directName) (b : Book) :
    (b.receive (.full groups)).direct = b.direct :=
  b.direct_updateAll (prepared_indirect indirect)

theorem ext_named {first second : Book}
    (named : ∀ name, first.named.get? name = second.named.get? name)
    (direct : first.direct = second.direct) : first = second := by
  obtain ⟨groups, list⟩ := first
  obtain ⟨others, same⟩ := second
  obtain rfl := Dictionary.ext_get? named
  obtain rfl := direct
  rfl

theorem receive_full_receive_full (indirect : ∀ g ∈ groups, g.name ≠ Group.directName)
    (b : Book) :
    (b.receive (.full groups)).receive (.full groups) = b.receive (.full groups) := by
  refine ext_named (fun name => ?_) ?_
  · rw [named_receive_full indirect, named_receive_full indirect]
    cases lastListed groups name with
    | some members => rfl
    | none => cases b.named.get? name <;> rfl
  · rw [direct_receive_full indirect]

structure Healed (s : Registry.Store) (dataId : String) (before after : Book) : Prop where
  held : ∀ name members, (s.groupsOf dataId).get? name = some members →
    after.named.get? name = some (Group.mk name members).prepare
  emptied : ∀ name, name ∈ before.named.keys → name ∉ (s.groupsOf dataId).keys →
    after.named.get? name = some (.empty name)
  known : ∀ name, name ∈ after.named.keys ↔
    name ∈ before.named.keys ∨ name ∈ (s.groupsOf dataId).keys
  members : ∀ name, name ≠ Group.directName →
    after.members name = (s.members dataId name).map Provider.prepare
  direct : after.direct = before.direct

variable {s : Registry.Store} {dataId : String}

theorem ne_directName_of_mem_snapshot
    (indirect : (s.groupsOf dataId).get? Group.directName = none) :
    ∀ g ∈ s.snapshot dataId, g.name ≠ Group.directName := by
  intro g listed same
  have found := (s.exists_name_snapshot_iff dataId _).mp ⟨g, listed, same⟩
  rw [indirect] at found
  cases found

theorem named_receive_snapshot (indirect : (s.groupsOf dataId).get? Group.directName = none)
    (b : Book) (name : String) :
    (b.receive (.full (s.snapshot dataId))).named.get? name =
      (((s.groupsOf dataId).get? name).map fun members => (Group.mk name members).prepare).or
        ((b.named.get? name).map fun _ => .empty name) := by
  rw [named_receive_full (ne_directName_of_mem_snapshot indirect), Registry.Store.snapshot,
    Contents.lastListed_entries (s.groupsOf dataId).ascending]
  rfl

theorem healed_receive (indirect : (s.groupsOf dataId).get? Group.directName = none) (b : Book) :
    Healed s dataId b (b.receive (.full (s.snapshot dataId))) where
  held name members found := by
    rw [named_receive_snapshot indirect, found]
    rfl
  emptied name known missing := by
    rw [Dictionary.mem_keys_iff] at known missing
    obtain ⟨list, found⟩ := Option.isSome_iff_exists.mp known
    rw [named_receive_snapshot indirect, Option.not_isSome_iff_eq_none.mp missing, found]
    rfl
  known name := by
    simp only [Dictionary.mem_keys_iff, named_receive_snapshot indirect, Option.isSome_or,
      Option.isSome_map, Bool.or_eq_true]
    exact or_comm
  members name other := by
    rw [members_named _ other, named_receive_snapshot indirect,
      Registry.Store.members, Dictionary.getD]
    cases (s.groupsOf dataId).get? name with
    | some members => rfl
    | none => cases b.named.get? name <;> rfl
  direct := direct_receive_full (ne_directName_of_mem_snapshot indirect) b

end Book

namespace Registry.Store

theorem indirect_after {changes : List Change} {dataId : String}
    (indirect : ∀ p, .publish dataId Group.directName p ∉ changes) :
    ((empty.after changes).groupsOf dataId).get? Group.directName = none := by
  rw [← Option.not_isSome_iff_eq_none, ← Dictionary.mem_keys_iff,
    (reflects_empty.after changes).groups]
  rintro ⟨p, published⟩
  exact indirect p published

end Registry.Store

namespace Exchange

open Registry (Change Store)

variable {ε : Type}

theorem withBook_self (x : Exchange ε) {number : Nat} (known : number < x.books.length) :
    x.withBook number (x.book number) = x := by
  have same : x.books.set number (x.book number) = x.books := by
    rw [book, List.getD_eq_getElem _ _ known, List.set_getElem_self]
  rw [withBook, same]

theorem deliver_full_deliver_full {x : Exchange ε} {number : Nat} {groups : List Group}
    (known : number < x.books.length) (indirect : ∀ g ∈ groups, g.name ≠ Group.directName)
    (dataId : String) :
    (x.deliver ⟨.reference number, dataId, .full groups⟩).deliver
        ⟨.reference number, dataId, .full groups⟩ =
      x.deliver ⟨.reference number, dataId, .full groups⟩ := by
  have first := x.book_deliver ⟨.reference number, dataId, .full groups⟩ known
  rw [if_pos rfl] at first
  have settled := Book.receive_full_receive_full indirect (x.book number)
  rw [← first] at settled
  -- The book has what it would receive, so putting that in its place changes nothing.
  exact (congrArg _ settled).trans (withBook_self _ (by rwa [length_books_deliver]))

/-- A store has what changes have left, none of them in a group with the name of the direct one.
Whatever a book shows, after a full push it has the groups of the store under their names, each with
its members in their order and prepared, and under other names that it knew an empty list, beside
the direct group that it had. All else is as before, and after a second push everything is. -/
theorem resync_heals {x : Exchange ε} {address dataId : String} {number : Nat}
    {changes : List Change} (known : number < x.books.length)
    (content : (x.store address).services = (Store.empty.after changes).services)
    (indirect : ∀ p, .publish dataId Group.directName p ∉ changes) :
    ∃ y, y = x.deliver ((x.store address).resync dataId (.reference number)) ∧
      Book.Healed (.after .empty changes) dataId (x.book number) (y.book number) ∧
      y = x.withBook number (y.book number) ∧
      y.deliver ((y.store address).resync dataId (.reference number)) = y := by
  have pushed : (x.store address).resync dataId (.reference number) =
      ⟨.reference number, dataId, .full ((Store.empty.after changes).snapshot dataId)⟩ := by
    rw [Store.resync, snapshot_of_services content]
  have unnamed := Store.indirect_after indirect
  rw [pushed]
  refine ⟨_, rfl, ?_, ?_, ?_⟩
  · rw [book_deliver x _ known, if_pos rfl]
    exact Book.healed_receive unnamed (x.book number)
  · rw [book_deliver x _ known, if_pos rfl]
    rfl
  · rw [store_deliver, pushed]
    exact deliver_full_deliver_full known (Book.ne_directName_of_mem_snapshot unnamed) dataId

/-- One provider is published anew with a warm-up, another one has come and gone. -/
def reissues : List Change :=
  [.publish "echo@bolt" "blue" (.new "10.0.0.2" 12200 "bolt"),
    .publish "echo@bolt" "blue" (.new "10.0.0.1" 12200 "bolt"),
    .publish "echo@bolt" "blue" warming,
    .publish "echo@bolt" "green" (.new "10.0.0.3" 12200 "bolt"),
    .withdraw "echo@bolt" "green" (.new "10.0.0.3" 12200 "bolt")]

/-- A book that has one provider twice and misses another one, and a group that no store has. -/
def diverged : Exchange Unit :=
  { Exchange.new () with
    stores := .insert .empty "local" (Store.empty.after reissues)
    books := [⟨.ofList [("blue", ⟨"blue", [.new "10.0.0.1" 12200 "bolt",
      .new "10.0.0.1" 12200 "bolt"]⟩), ("red", ⟨"red", [.new "10.0.0.4" 12200 "bolt"]⟩)],
      ⟨Group.directName, [.new "10.0.0.5" 12200 "bolt"]⟩⟩] }

theorem resync_heals_diverged :
    ∃ y, y = diverged.deliver ((diverged.store "local").resync "echo@bolt" (.reference 0)) ∧
      (y.book 0).named.get? "blue" = some ⟨"blue",
        [⟨⟨"10.0.0.2", 12200, "bolt"⟩, .empty, .warmingUp, some 5, some 1000⟩,
          ⟨⟨"10.0.0.1", 12200, "bolt"⟩, .empty, .available, none, none⟩]⟩ ∧
      (y.book 0).named.get? "green" = some ⟨"green", []⟩ ∧
      (y.book 0).named.get? "red" = some ⟨"red", []⟩ ∧
      (y.book 0).direct = ⟨Group.directName, [.new "10.0.0.5" 12200 "bolt"]⟩ ∧
      y.deliver ((y.store "local").resync "echo@bolt" (.reference 0)) = y := by
  have indirect : ∀ p, .publish "echo@bolt" Group.directName p ∉ reissues := by
    simp [reissues, Group.directName]
  have known : 0 < diverged.books.length := by decide
  have content : (diverged.store "local").services = (Store.empty.after reissues).services := rfl
  obtain ⟨y, pushed, healed, -, again⟩ := resync_heals known content indirect
  have blue := healed.held "blue" [warming, .new "10.0.0.1" 12200 "bolt"] (by decide)
  exact ⟨y, pushed, blue.trans (by decide), healed.held "green" [] (by decide),
    healed.emptied "red" (by decide) (by decide), healed.direct, again⟩

end Exchange

end Switchboard
