import Switchboard.Provider.Warmup

/-! Address books. A book knows named groups of providers and beside them the direct group, which
holds the addresses that no registry delivers. Pushes from registries change it: a full push
replaces all named groups, the others change one group. -/
namespace Switchboard

structure Group where
  name : String
  members : List Provider
deriving DecidableEq

namespace Group

def directName : String := "_DIRECT"

def defaultName : String := "_DEFAULT"

def empty (name : String) : Group := ⟨name, []⟩

def isDirect (g : Group) : Bool := g.name == directName

def append (g : Group) (more : List Provider) : Group := { g with members := g.members ++ more }

def without (members others : List Provider) : List Provider :=
  members.filter fun member => !others.any fun other => other.identity == member.identity

def remove (g : Group) (others : List Provider) : Group :=
  { g with members := without g.members others }

def prepare (g : Group) : Group := { g with members := g.members.map Provider.prepare }

end Group

inductive Push where
  | full (groups : List Group)
  | set (group : Group)
  | add (group : Group)
  | delete (group : Group)

structure Book where
  named : Dictionary Group
  direct : Group

namespace Book

def empty : Book := ⟨.empty, .empty Group.directName⟩

instance : Inhabited Book := ⟨empty⟩

def members (b : Book) (name : String) : List Provider :=
  if name = Group.directName then b.direct.members
  else ((b.named.get? name).map Group.members).getD []

def group (b : Book) (name : String) : Group :=
  if name = Group.directName then b.direct else b.named.getD name (.empty name)

/-- The named groups, ascending by the names they are filed under, and the direct group. -/
def groups (b : Book) : List Group := b.named.entries.map (·.2) ++ [b.direct]

def size (b : Book) : Nat :=
  (b.named.keys ++ [Group.directName]).foldr (fun name total => (b.members name).length + total) 0

def update (b : Book) (g : Group) : Book :=
  if g.isDirect then { b with direct := g } else { b with named := b.named.insert g.name g }

/-- Adds to a group that is known; another group is taken over as it is. -/
def add (b : Book) (g : Group) : Book :=
  if g.members.isEmpty then b
  else match b.named.get? g.name with
    | some known => { b with named := b.named.insert g.name (known.append g.members) }
    | none =>
        if g.isDirect then { b with direct := { b.direct with members := g.members } }
        else { b with named := b.named.insert g.name g }

def remove (b : Book) (g : Group) : Book :=
  if g.members.isEmpty then b
  else if g.isDirect then { b with direct := b.direct.remove g.members }
  else match b.named.get? g.name with
    | some known => { b with named := b.named.insert g.name (known.remove g.members) }
    | none => b

/-- Empties the named groups and takes over the given ones. -/
def updateAll (b : Book) (groups : List Group) : Book :=
  groups.foldl update { b with named := b.named.mapValues fun name _ => .empty name }

/-- Takes a push. What goes into the book is prepared first. -/
def receive (b : Book) : Push → Book
  | .full groups => b.updateAll (groups.map Group.prepare)
  | .set group => b.update group.prepare
  | .add group => b.add group.prepare
  | .delete group => b.remove group

def candidates (b : Book) (now : Nat) : List Provider :=
  (b.groups.flatMap Group.members).filter (·.isCandidate now)

end Book

end Switchboard
