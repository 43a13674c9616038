import Mathlib.Data.List.Induction
import Mathlib.Logic.Function.Basic
import Switchboard.Proofs.Book

/-! The contents of a book, as a map from names to lists. The direct list stands under a name of its
own and is always there; any other name is known or not. What is done to a book is done to this map,
and the other way round: the groups of a book are the lists of the map in the order of their names,
the direct list after them. -/
namespace Switchboard

abbrev Contents := String → Option (List Provider)

inductive Edit where
  | add (group : Group)
  | remove (group : Group)
  | update (group : Group)
  | updateAll (groups : List Group)

namespace Contents

def empty : Contents := fun name => if name = Group.directName then some [] else none

def write (c : Contents) (name : String) (list : List Provider) : Contents :=
  Function.update c name (some list)

/-- Adds to a known list. An unknown one is taken over as it is, and so is the direct one. -/
def add (c : Contents) (g : Group) : Contents :=
  if g.members = [] then c
  else if g.name = Group.directName then c.write g.name g.members
  else c.write g.name ((c g.name).getD [] ++ g.members)

def remove (c : Contents) (g : Group) : Contents :=
  match c g.name with
  | some list =>
      if g.members = [] then c
      else c.write g.name (list.filter fun p => p.identity ∉ g.members.map (·.identity))
  | none => c

def lastListed (groups : List Group) (name : String) : Option (List Provider) :=
  (groups.reverse.find? fun g => decide (g.name = name)).map (·.members)

/-- Takes over the groups that are listed, the last one of each name. Of the others only the direct
list is left as it is. -/
def updateAll (c : Contents) (groups : List Group) : Contents := fun name =>
  match lastListed groups name with
  | some list => some list
  | none => if name = Group.directName then c name else (c name).map fun _ => []

def edit (c : Contents) : Edit → Contents
  | .add g => c.add g
  | .remove g => c.remove g
  | .update g => c.write g.name g.members
  | .updateAll groups => c.updateAll groups

def edited (c : Contents) (edits : List Edit) : Contents := edits.foldl edit c

theorem write_of_ne (c : Contents) {name other : String} (h : other ≠ name)
    (list : List Provider) : c.write name list other = c other := Function.update_of_ne h _ c

theorem write_self (c : Contents) (name : String) (list : List Provider) :
    c.write name list name = some list := Function.update_self name _ c

theorem lastListed_concat (groups : List Group) (g : Group) (name : String) :
    lastListed (groups ++ [g]) name =
      if g.name = name then some g.members else lastListed groups name := by
  rw [lastListed, List.reverse_append, List.reverse_singleton, List.singleton_append,
    List.find?_cons]
  by_cases same : g.name = name <;> simp [same, lastListed]

theorem lastListed_map_prepare (groups : List Group) (name : String) :
    lastListed (groups.map Group.prepare) name =
      (lastListed groups name).map (List.map Provider.prepare) := by
  induction groups using List.reverseRecOn with
  | nil => rfl
  | append_singleton groups g ih =>
      rw [List.map_append, List.map_singleton, lastListed_concat, lastListed_concat, ih]
      by_cases same : g.name = name
      · rw [if_pos same, if_pos (show g.prepare.name = name from same)]
        rfl
      · rw [if_neg same, if_neg (show ¬g.prepare.name = name from same)]

theorem updateAll_nil (c : Contents) (name : String) :
    c.updateAll [] name =
      if name = Group.directName then c name else (c name).map fun _ => [] := rfl

theorem updateAll_concat (c : Contents) (groups : List Group) (g : Group) :
    c.updateAll (groups ++ [g]) = (c.updateAll groups).write g.name g.members := by
  funext name
  rw [updateAll, lastListed_concat]
  by_cases same : g.name = name
  · rw [if_pos same, ← same, write_self]
  · rw [if_neg same, write_of_ne _ (Ne.symm same)]
    rfl

end Contents

namespace Book

def edit (b : Book) : Edit → Book
  | .add g => b.add g
  | .remove g => b.remove g
  | .update g => b.update g
  | .updateAll groups => b.updateAll groups

def edited (b : Book) (edits : List Edit) : Book := edits.foldl edit b

def contents (b : Book) : Contents := fun name =>
  if name = Group.directName then some b.direct.members else (b.named.get? name).map Group.members

theorem contents_direct (b : Book) : b.contents Group.directName = some b.direct.members :=
  if_pos rfl

theorem contents_named (b : Book) {name : String} (h : name ≠ Group.directName) :
    b.contents name = (b.named.get? name).map Group.members := if_neg h

theorem contents_empty : empty.contents = Contents.empty := rfl

theorem contents_replaceDirect (b : Book) (g : Group) :
    ({ b with direct := g } : Book).contents =
      b.contents.write Group.directName g.members := by
  funext name
  by_cases direct : name = Group.directName
  · rw [direct, contents_direct, Contents.write_self]
  · rw [Contents.write_of_ne _ direct, contents_named _ direct, contents_named _ direct]

theorem contents_insert (b : Book) {key : String} (h : key ≠ Group.directName) (g : Group) :
    ({ b with named := b.named.insert key g } : Book).contents =
      b.contents.write key g.members := by
  funext name
  by_cases same : name = key
  · rw [same, contents_named _ h, Contents.write_self, Dictionary.get?_insert, if_pos rfl]
    rfl
  · rw [Contents.write_of_ne _ same]
    by_cases direct : name = Group.directName
    · rw [direct, contents_direct, contents_direct]
    · rw [contents_named _ direct, contents_named _ direct, Dictionary.get?_insert,
        if_neg (Ne.symm same)]

theorem contents_update (b : Book) (g : Group) :
    (b.update g).contents = b.contents.write g.name g.members := by
  rw [update]
  split
  next direct => rw [contents_replaceDirect, g.isDirect_iff.mp direct]
  next named => exact contents_insert b (fun direct => named (g.isDirect_iff.mpr direct)) _

theorem contents_add {b : Book} (tidy : b.Tidy) (g : Group) :
    (b.add g).contents = b.contents.add g := by
  rw [add, Contents.add]
  by_cases nothing : g.members = []
  · rw [if_pos (List.isEmpty_iff.mpr nothing), if_pos nothing]
  · rw [if_neg (mt List.isEmpty_iff.mp nothing), if_neg nothing]
    by_cases direct : g.name = Group.directName
    · rw [if_pos direct, direct, show b.named.get? Group.directName = none from tidy]
      simp only [if_pos (g.isDirect_iff.mpr direct), contents_replaceDirect]
    · rw [if_neg direct, contents_named b direct]
      cases b.named.get? g.name with
      | some known => exact contents_insert b direct _
      | none =>
          simp only [if_neg (mt g.isDirect_iff.mp direct)]
          exact contents_insert b direct g

theorem without_eq_filter (list others : List Provider) :
    Group.without list others =
      list.filter fun p => decide (p.identity ∉ others.map (·.identity)) := by
  refine List.filter_congr fun p _ => ?_
  by_cases listed : p.identity ∈ others.map (·.identity)
  · have found : others.any (·.identity == p.identity) = true := by
      simpa using listed
    rw [found, decide_eq_false (not_not.mpr listed)]
    rfl
  · have missing : others.any (·.identity == p.identity) = false := by
      simpa using listed
    rw [missing, decide_eq_true listed]
    rfl

theorem contents_remove (b : Book) (g : Group) :
    (b.remove g).contents = b.contents.remove g := by
  rw [remove, Contents.remove]
  by_cases nothing : g.members = []
  · rw [if_pos (List.isEmpty_iff.mpr nothing)]
    split
    · rw [if_pos nothing]
    · rfl
  · rw [if_neg (mt List.isEmpty_iff.mp nothing)]
    by_cases direct : g.name = Group.directName
    · rw [if_pos (g.isDirect_iff.mpr direct), direct, contents_direct, contents_replaceDirect,
        Group.remove, without_eq_filter]
      simp only [if_neg nothing]
    · rw [if_neg (mt g.isDirect_iff.mp direct), contents_named b direct]
      cases b.named.get? g.name with
      | some known =>
          rw [contents_insert b direct, Group.remove, without_eq_filter]
          simp only [Option.map_some, if_neg nothing]
      | none => rfl

theorem contents_updateAll (b : Book) (groups : List Group) :
    (b.updateAll groups).contents = b.contents.updateAll groups := by
  rw [updateAll]
  induction groups using List.reverseRecOn with
  | nil =>
      funext name
      rw [Contents.updateAll_nil]
      by_cases direct : name = Group.directName
      · rw [if_pos direct, direct]
        rfl
      · rw [if_neg direct, List.foldl_nil, contents_named _ direct, contents_named _ direct,
          Dictionary.get?_mapValues, Option.map_map, Option.map_map]
        rfl
  | append_singleton groups g ih =>
      rw [List.foldl_append, List.foldl_cons, List.foldl_nil, contents_update, ih,
        Contents.updateAll_concat]

theorem contents_edit {b : Book} (tidy : b.Tidy) (e : Edit) :
    (b.edit e).contents = b.contents.edit e := by
  cases e with
  | add g => exact contents_add tidy g
  | remove g => exact contents_remove b g
  | update g => exact contents_update b g
  | updateAll groups => exact contents_updateAll b groups

theorem Tidy.edit {b : Book} (tidy : b.Tidy) (e : Edit) : (b.edit e).Tidy := by
  cases e with
  | add g => exact tidy.add g
  | remove g => exact tidy.remove g
  | update g => exact tidy.update g
  | updateAll groups => exact tidy.updateAll groups

theorem Filed.edit {b : Book} (filed : b.Filed) (e : Edit) : (b.edit e).Filed := by
  cases e with
  | add g => exact filed.add g
  | remove g => exact filed.remove g
  | update g => exact filed.update g
  | updateAll groups => exact filed.updateAll groups

theorem filed_empty : empty.Filed where
  named _ _ found := nomatch found
  direct := rfl

theorem filed_edited (edits : List Edit) : (empty.edited edits).Filed :=
  List.foldlRecOn edits edit (motive := Filed) filed_empty fun _ before e _ => before.edit e

theorem contents_edited {b : Book} (tidy : b.Tidy) (edits : List Edit) :
    (b.edited edits).Tidy ∧ (b.edited edits).contents = b.contents.edited edits := by
  induction edits generalizing b with
  | nil => exact ⟨tidy, rfl⟩
  | cons e rest ih =>
      have next := ih (tidy.edit e)
      rw [contents_edit tidy] at next
      exact next

/-- What every look at a book shows that has some contents. -/
structure Displays (b : Book) (c : Contents) : Prop where
  groups : ∃ named direct, b.groups = named ++ [⟨Group.directName, direct⟩] ∧
    c Group.directName = some direct ∧ (named.map (·.name)).Pairwise (· < ·) ∧
    ∀ g, g ∈ named ↔ g.name ≠ Group.directName ∧ c g.name = some g.members
  members : ∀ name, b.members name = (c name).getD []
  group : ∀ name, b.group name = ⟨name, (c name).getD []⟩
  size : b.size = (b.groups.flatMap Group.members).length

theorem members_eq_contents (b : Book) (name : String) :
    b.members name = (b.contents name).getD [] := by
  rw [members, contents]
  split <;> rfl

theorem members_empty (name : String) : empty.members name = [] := by
  rw [members]
  split <;> rfl

theorem members_receive_full (b : Book) (groups : List Group) (name : String) :
    (b.receive (.full groups)).members name =
      match Contents.lastListed groups name with
      | some list => list.map Provider.prepare
      | none => if name = Group.directName then b.members name else [] := by
  have after : (b.receive (.full groups)).contents name =
      b.contents.updateAll (groups.map Group.prepare) name :=
    congrFun (contents_updateAll b (groups.map Group.prepare)) name
  rw [members_eq_contents, after, Contents.updateAll, Contents.lastListed_map_prepare,
    members_eq_contents]
  cases Contents.lastListed groups name with
  | some list => rfl
  | none =>
      by_cases direct : name = Group.directName
      · simp only [Option.map_none, if_pos direct]
      · simp only [Option.map_none, if_neg direct]
        cases b.contents name <;> rfl

theorem members_receive_add {b : Book} (tidy : b.Tidy) (g : Group) (name : String) :
    (b.receive (.add g)).members name =
      if g.name = name ∧ g.members ≠ [] then
        (if name = Group.directName then [] else b.members name) ++
          g.members.map Provider.prepare
      else b.members name := by
  have after : (b.receive (.add g)).contents name = b.contents.add g.prepare name :=
    congrFun (contents_add tidy g.prepare) name
  rw [members_eq_contents, after, Contents.add, members_eq_contents b]
  by_cases nothing : g.members = []
  · have prepared : g.prepare.members = [] := by rw [Group.prepare, nothing, List.map_nil]
    rw [if_pos prepared, if_neg fun both => both.2 nothing]
  · have prepared : g.prepare.members ≠ [] := by
      rw [Group.prepare]
      simpa using nothing
    rw [if_neg prepared]
    by_cases same : g.name = name
    · subst same
      rw [if_pos (show g.name = g.name ∧ g.members ≠ [] from ⟨rfl, nothing⟩)]
      by_cases direct : g.name = Group.directName
      · rw [if_pos (show g.prepare.name = Group.directName from direct), if_pos direct]
        exact congrArg (Option.getD · []) (Contents.write_self ..)
      · rw [if_neg (show ¬g.prepare.name = Group.directName from direct), if_neg direct]
        exact congrArg (Option.getD · []) (Contents.write_self ..)
    · have other : name ≠ g.prepare.name := fun equal => same equal.symm
      rw [if_neg (show ¬(g.name = name ∧ g.members ≠ []) from fun both => same both.1)]
      split <;> rw [Contents.write_of_ne _ other]

theorem exists_mem_groups_iff {b : Book} (tidy : b.Tidy) (p : Provider) :
    (∃ g ∈ b.groups, p ∈ g.members) ↔ ∃ name, p ∈ b.members name := by
  constructor
  · rintro ⟨g, listed, member⟩
    rcases List.mem_append.mp listed with named | last
    · obtain ⟨entry, there, rfl⟩ := List.mem_map.mp named
      exact ⟨entry.1, (members_of_mem_entries tidy there).2 ▸ member⟩
    · refine ⟨Group.directName, ?_⟩
      rwa [members_direct, ← List.mem_singleton.mp last]
  · rintro ⟨name, member⟩
    by_cases direct : name = Group.directName
    · rw [direct, members_direct] at member
      exact ⟨b.direct, List.mem_append_right _ (List.mem_singleton_self _), member⟩
    · rw [members_named b direct] at member
      cases found : b.named.get? name with
      | none => simp [found] at member
      | some g =>
          rw [found] at member
          have there := (Entries.get?_eq_some_iff b.named.ascending).mp found
          exact ⟨g, List.mem_append_left _ (List.mem_map_of_mem there), member⟩

theorem mem_named_iff {b : Book} (tidy : b.Tidy) (filed : b.Filed) (g : Group) :
    g ∈ b.named.entries.map (·.2) ↔
      g.name ≠ Group.directName ∧ b.contents g.name = some g.members := by
  have held : ∀ name, b.named.get? name = some g ↔ (name, g) ∈ b.named.entries := fun name =>
    Entries.get?_eq_some_iff b.named.ascending
  constructor
  · intro listed
    obtain ⟨⟨name, known⟩, member, same⟩ := List.mem_map.mp listed
    obtain rfl : known = g := same
    have found := (held name).mpr member
    obtain rfl := filed.named name known found
    have named := tidy.ne_directName found
    exact ⟨named, by rw [contents_named b named, found]; rfl⟩
  · rintro ⟨named, found⟩
    rw [contents_named b named] at found
    obtain ⟨known, filedThere, same⟩ := Option.map_eq_some_iff.mp found
    -- A group is its name and its members, and its name is the key.
    obtain rfl : known = g := by
      obtain ⟨own, members⟩ := known
      exact congr (congrArg Group.mk (filed.named g.name _ filedThere)) same
    exact List.mem_map.mpr ⟨_, (held known.name).mp filedThere, rfl⟩

theorem members_of_mem_groups {b : Book} (tidy : b.Tidy) (filed : b.Filed) {g : Group}
    (h : g ∈ b.groups) : b.members g.name = g.members := by
  rw [members_eq_contents]
  rcases List.mem_append.mp h with named | last
  · rw [((mem_named_iff tidy filed g).mp named).2]
    rfl
  · rw [List.mem_singleton.mp last, filed.direct, contents_direct]
    rfl

theorem names_named {b : Book} (filed : b.Filed) :
    (b.named.entries.map (·.2)).map (·.name) = b.named.keys := by
  rw [List.map_map, Dictionary.keys]
  exact List.map_congr_left fun entry member =>
    filed.named entry.1 entry.2 ((Entries.get?_eq_some_iff b.named.ascending).mpr member)

theorem names_groups {b : Book} (filed : b.Filed) :
    b.groups.map (·.name) = b.named.keys ++ [Group.directName] := by
  rw [groups, List.map_append, names_named filed, List.map_singleton, filed.direct]

theorem length_looked_up {groups : List Group} {look : String → List Provider}
    (h : ∀ g ∈ groups, look g.name = g.members) :
    (groups.map (·.name)).foldr (fun name total => (look name).length + total) 0 =
      (groups.flatMap Group.members).length := by
  induction groups with
  | nil => rfl
  | cons g rest ih =>
      rw [List.map_cons, List.foldr_cons,
        ih fun other later => h other (List.mem_cons_of_mem g later),
        h g List.mem_cons_self, List.flatMap_cons, List.length_append]

theorem displays_contents {b : Book} (tidy : b.Tidy) (filed : b.Filed) :
    b.Displays b.contents where
  groups := by
    refine ⟨_, b.direct.members, ?_, b.contents_direct, ?_, mem_named_iff tidy filed⟩
    · rw [groups, ← filed.direct]
    · rw [names_named filed, Dictionary.keys, List.pairwise_map]
      exact b.named.ascending
  members := b.members_eq_contents
  group name := by
    rw [group, contents]
    split
    next same => rw [same, ← filed.direct]; rfl
    next =>
      rw [Dictionary.getD]
      cases found : b.named.get? name with
      | none => rfl
      | some g =>
          obtain rfl := filed.named name g found
          rfl
  size := by
    rw [size, ← names_groups filed]
    exact length_looked_up fun g => members_of_mem_groups tidy filed

/-- Whatever is done to an empty book, it is done to empty contents, and each look at the book shows
them: the lists with a name in ascending order, each under its own name and none under that of the
direct list, the direct list last, an empty list where a name is not known, and as many providers as
the lists have. -/
theorem edits_change_contents (edits : List Edit) :
    (empty.edited edits).Displays (Contents.empty.edited edits) := by
  obtain ⟨tidy, same⟩ := contents_edited (b := empty) rfl edits
  rw [← contents_empty, ← same]
  exact displays_contents tidy (filed_edited edits)

/-- The last of two groups with one name counts, and the direct list stays when it is not listed. -/
example : ((empty.edited [.add ⟨Group.directName, [.new "10.0.0.1" 1 "bolt"]⟩,
    .updateAll [⟨"blue", [.new "10.0.0.1" 2 "bolt"]⟩,
      ⟨"blue", [.new "10.0.0.1" 3 "bolt"]⟩]]).groups.map
      fun g => (g.name, g.members.map (·.identity.port))) = [("blue", [3]), ("_DIRECT", [1])] := by
  decide

end Book

end Switchboard
