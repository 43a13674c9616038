import Switchboard.Book

/-! What a push leaves in a book, said group by group: `Book.members` after a push in terms of
`Book.members` before it. Nothing else is needed to follow a book through a run. -/
namespace Switchboard

namespace Group

def membersIn (groups : List Group) (name : String) : List Provider :=
  match groups with
  | [] => []
  | group :: rest => if group.name = name then group.members else membersIn rest name

theorem membersIn_map_prepare (groups : List Group) (name : String) :
    membersIn (groups.map prepare) name = (membersIn groups name).map Provider.prepare := by
  induction groups with
  | nil => rfl
  | cons group rest ih =>
      simp only [List.map_cons, membersIn, ih]
      split
      · rename_i same
        rw [if_pos (show group.name = name from same)]
        rfl
      · rename_i different
        rw [if_neg (show ¬group.name = name from different)]

theorem isDirect_iff (g : Group) : g.isDirect = true ↔ g.name = directName := beq_iff_eq

@[simp] theorem without_nil (members : List Provider) : without members [] = members := by
  simp [without]

@[simp] theorem nil_without (others : List Provider) : without [] others = [] := rfl

theorem map_prepare_without (members others : List Provider) :
    (without members others).map Provider.prepare =
      without (members.map Provider.prepare) others := by
  simp only [without, List.filter_map, Function.comp_def, Provider.identity_prepare]

end Group

namespace Book

theorem members_direct (b : Book) : b.members Group.directName = b.direct.members := if_pos rfl

theorem members_named (b : Book) {name : String} (h : name ≠ Group.directName) :
    b.members name = ((b.named.get? name).map Group.members).getD [] := if_neg h

theorem members_insert (b : Book) {key : String} (h : key ≠ Group.directName) (g : Group)
    (name : String) :
    ({ b with named := b.named.insert key g } : Book).members name =
      if key = name then g.members else b.members name := by
  by_cases direct : name = Group.directName
  · rw [direct, if_neg h, members_direct, members_direct]
  · rw [members_named _ direct, members_named _ direct]
    simp only [Dictionary.get?_insert]
    split <;> rfl

theorem members_replaceDirect (b : Book) (g : Group) (name : String) :
    ({ b with direct := g } : Book).members name =
      if Group.directName = name then g.members else b.members name := by
  by_cases direct : name = Group.directName
  · rw [direct, if_pos rfl, members_direct]
  · rw [if_neg (Ne.symm direct), members_named _ direct, members_named _ direct]

theorem members_of_get? (b : Book) {name : String} (h : name ≠ Group.directName)
    {known : Option Group} (found : b.named.get? name = known) :
    b.members name = (known.map Group.members).getD [] := by
  rw [members_named _ h, found]

theorem members_update (b : Book) (g : Group) (name : String) :
    (b.update g).members name = if g.name = name then g.members else b.members name := by
  rw [update]
  split
  next direct => rw [members_replaceDirect, g.isDirect_iff.mp direct]
  next named => exact members_insert b (fun direct => named (g.isDirect_iff.mpr direct)) g name

theorem add_of_unknown (b : Book) {g : Group} (h : g.name ≠ Group.directName)
    (nonempty : g.members ≠ []) (unknown : b.named.get? g.name = none) :
    b.add g = b.update g := by
  rw [add, if_neg (mt List.isEmpty_iff.mp nonempty), unknown, update]
  simp only [if_neg (mt g.isDirect_iff.mp h)]

theorem members_add (b : Book) {g : Group} (h : g.name ≠ Group.directName) (name : String) :
    (b.add g).members name =
      if g.name = name then b.members name ++ g.members else b.members name := by
  by_cases nothing : g.members = []
  · rw [add, if_pos (List.isEmpty_iff.mpr nothing), nothing, List.append_nil, ite_self]
  · cases found : b.named.get? g.name with
    | none =>
        rw [b.add_of_unknown h nothing found, members_update]
        by_cases same : g.name = name
        · rw [if_pos same, if_pos same, ← same, members_of_get? b h found]
          rfl
        · rw [if_neg same, if_neg same]
    | some known =>
        rw [add, if_neg (mt List.isEmpty_iff.mp nothing), found]
        refine (members_insert b h _ name).trans ?_
        by_cases same : g.name = name
        · rw [if_pos same, if_pos same, ← same, members_of_get? b h found]
          rfl
        · rw [if_neg same, if_neg same]

theorem members_remove (b : Book) (g : Group) (name : String) :
    (b.remove g).members name =
      if g.name = name then Group.without (b.members name) g.members else b.members name := by
  rw [remove]
  split
  next nothing => rw [List.isEmpty_iff.mp nothing, Group.without_nil, ite_self]
  next =>
    split
    next direct =>
      rw [members_replaceDirect, g.isDirect_iff.mp direct]
      by_cases same : Group.directName = name
      · rw [if_pos same, if_pos same, ← same, members_direct]
        rfl
      · rw [if_neg same, if_neg same]
    next isNamed =>
      have named : g.name ≠ Group.directName := fun same => isNamed (g.isDirect_iff.mpr same)
      split
      next known found =>
        rw [members_insert b named]
        by_cases same : g.name = name
        · rw [if_pos same, if_pos same, ← same, members_of_get? b named found]
          rfl
        · rw [if_neg same, if_neg same]
      next unknown =>
        by_cases same : g.name = name
        · rw [if_pos same, ← same, members_of_get? b named unknown]
          rfl
        · rw [if_neg same]

theorem members_foldl_update_of_absent (b : Book) {groups : List Group} {name : String}
    (h : ∀ group ∈ groups, group.name ≠ name) :
    (groups.foldl update b).members name = b.members name := by
  induction groups generalizing b with
  | nil => rfl
  | cons group rest ih =>
      rw [List.foldl_cons, ih _ fun other member => h other (List.mem_cons_of_mem _ member),
        members_update, if_neg (h group List.mem_cons_self)]

theorem members_foldl_update (b : Book) {groups : List Group}
    (distinct : (groups.map (·.name)).Nodup) {name : String} (vacant : b.members name = []) :
    (groups.foldl update b).members name = Group.membersIn groups name := by
  induction groups generalizing b with
  | nil => exact vacant
  | cons group rest ih =>
      obtain ⟨fresh, others⟩ := List.nodup_cons.mp distinct
      rw [List.foldl_cons, Group.membersIn]
      by_cases same : group.name = name
      · have absent : ∀ other ∈ rest, other.name ≠ name := fun other member equal =>
          fresh (List.mem_map.mpr ⟨other, member, equal.trans same.symm⟩)
        rw [if_pos same, members_foldl_update_of_absent _ absent, members_update, if_pos same]
      · rw [if_neg same]
        exact ih _ others (by rw [members_update, if_neg same, vacant])

theorem members_updateAll (b : Book) {groups : List Group}
    (distinct : (groups.map (·.name)).Nodup) {name : String} (h : name ≠ Group.directName) :
    (b.updateAll groups).members name = Group.membersIn groups name := by
  refine members_foldl_update _ distinct ?_
  rw [members_named _ h, Dictionary.get?_mapValues]
  cases b.named.get? name <;> rfl

theorem direct_foldl_update (b : Book) {groups : List Group}
    (h : ∀ group ∈ groups, group.name ≠ Group.directName) :
    (groups.foldl update b).direct = b.direct := by
  induction groups generalizing b with
  | nil => rfl
  | cons group rest ih =>
      have named : ¬group.isDirect = true := mt group.isDirect_iff.mp (h group List.mem_cons_self)
      rw [List.foldl_cons, ih _ fun other member => h other (List.mem_cons_of_mem _ member), update,
        if_neg named]

theorem direct_updateAll (b : Book) {groups : List Group}
    (h : ∀ group ∈ groups, group.name ≠ Group.directName) :
    (b.updateAll groups).direct = b.direct := direct_foldl_update _ h

/-- Nothing is filed by name under the direct group. -/
def Tidy (b : Book) : Prop := b.named.get? Group.directName = none

variable {b : Book}

theorem Tidy.insert (tidy : b.Tidy) {key : String} (h : key ≠ Group.directName) (g : Group) :
    Tidy { b with named := b.named.insert key g } :=
  (Dictionary.get?_insert ..).trans ((if_neg h).trans tidy)

theorem Tidy.ne_directName (tidy : b.Tidy) {name : String} {g : Group}
    (found : b.named.get? name = some g) : name ≠ Group.directName := by
  rintro rfl
  cases tidy.symm.trans found

theorem members_of_mem_entries (tidy : b.Tidy) {entry : String × Group}
    (member : entry ∈ b.named.entries) :
    entry.1 ≠ Group.directName ∧ b.members entry.1 = entry.2.members := by
  have found : b.named.get? entry.1 = some entry.2 :=
    (Entries.get?_eq_some_iff b.named.ascending).mpr member
  have named := tidy.ne_directName found
  exact ⟨named, by rw [members_named b named, found]; rfl⟩

theorem Tidy.update (tidy : b.Tidy) (g : Group) : (b.update g).Tidy := by
  rw [Book.update]
  split
  next => exact tidy
  next named => exact tidy.insert (fun same => named (g.isDirect_iff.mpr same)) g

theorem Tidy.add (tidy : b.Tidy) (g : Group) : (b.add g).Tidy := by
  rw [Book.add]
  split
  next => exact tidy
  next =>
    split
    next known found => exact tidy.insert (tidy.ne_directName found) _
    next =>
      split
      next => exact tidy
      next named => exact tidy.insert (fun same => named (g.isDirect_iff.mpr same)) g

theorem Tidy.remove (tidy : b.Tidy) (g : Group) : (b.remove g).Tidy := by
  rw [Book.remove]
  split
  next => exact tidy
  next =>
    split
    next => exact tidy
    next =>
      split
      next known found => exact tidy.insert (tidy.ne_directName found) _
      next => exact tidy

theorem Tidy.updateAll (tidy : b.Tidy) (groups : List Group) : (b.updateAll groups).Tidy := by
  refine List.foldlRecOn groups Book.update (motive := Tidy) ?_ fun _ before g _ => before.update g
  rw [Tidy, Dictionary.get?_mapValues, show b.named.get? Group.directName = none from tidy]
  rfl

/-- Each group is filed under the name that it carries. -/
structure Filed (b : Book) : Prop where
  named : ∀ name g, b.named.get? name = some g → g.name = name
  direct : b.direct.name = Group.directName

namespace Filed

theorem insert (filed : b.Filed) {key : String} {g : Group} (own : g.name = key) :
    Filed { b with named := b.named.insert key g } where
  named name other found := by
    rw [Dictionary.get?_insert] at found
    split at found
    next same => exact (Option.some.inj found) ▸ own.trans same
    next => exact filed.named name other found
  direct := filed.direct

theorem replaceDirect (filed : b.Filed) {g : Group} (own : g.name = Group.directName) :
    Filed { b with direct := g } := ⟨filed.named, own⟩

theorem update (filed : b.Filed) (g : Group) : (b.update g).Filed := by
  rw [Book.update]
  split
  next direct => exact filed.replaceDirect (g.isDirect_iff.mp direct)
  next => exact filed.insert rfl

theorem add (filed : b.Filed) (g : Group) : (b.add g).Filed := by
  rw [Book.add]
  split
  next => exact filed
  next =>
    split
    next known found => exact filed.insert (filed.named g.name known found)
    next =>
      split
      next => exact filed.replaceDirect filed.direct
      next => exact filed.insert rfl

theorem remove (filed : b.Filed) (g : Group) : (b.remove g).Filed := by
  rw [Book.remove]
  split
  next => exact filed
  next =>
    split
    next => exact filed.replaceDirect filed.direct
    next =>
      split
      next known found => exact filed.insert (filed.named g.name known found)
      next => exact filed

theorem updateAll (filed : b.Filed) (groups : List Group) : (b.updateAll groups).Filed := by
  refine List.foldlRecOn groups Book.update (motive := Filed) ⟨fun name g found => ?_, filed.direct⟩
    fun _ before g _ => before.update g
  rw [Dictionary.get?_mapValues] at found
  obtain ⟨-, -, rfl⟩ := Option.map_eq_some_iff.mp found
  rfl

end Filed

theorem Tidy.receive (tidy : b.Tidy) (push : Push) : (b.receive push).Tidy := by
  cases push with
  | full groups => exact tidy.updateAll _
  | set group => exact tidy.update _
  | add group => exact tidy.add _
  | delete group => exact tidy.remove _

theorem Tidy.foldl_receive (tidy : b.Tidy) (pushes : List Push) :
    (pushes.foldl Book.receive b).Tidy :=
  List.foldlRecOn pushes Book.receive (motive := Tidy) tidy fun _ before push _ =>
    before.receive push

end Book

end Switchboard
