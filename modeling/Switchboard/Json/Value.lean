import Switchboard.Number.Numeral

/-! JSON values. An object lists its members; a value read from a text has them in ascending order
of their names, once each, and its whole numbers fit 64 bits. Such a value is called canonical. -/
namespace Switchboard

inductive Json where
  | null
  | bool (value : Bool)
  | whole (value : Int)
  | real (value : Number.Binary64)
  | text (value : String)
  | array (items : List Json)
  | object (members : List (String × Json))

namespace Json

instance : Inhabited Json := ⟨null⟩

/-- Whole numbers from the least of 64 signed bits to the greatest of 64 unsigned ones. -/
def InRange (n : Int) : Prop := -0x8000000000000000 ≤ n ∧ n < 0x10000000000000000

instance (n : Int) : Decidable (InRange n) := by unfold InRange; infer_instance

def Ascending (names : List String) : Prop := names.Pairwise (· < ·)

mutual

def Canonical : Json → Prop
  | null => True
  | bool _ => True
  | whole n => InRange n
  | real _ => True
  | text _ => True
  | array items => CanonicalItems items
  | object members => Ascending (members.map (·.1)) ∧ CanonicalMembers members

def CanonicalItems : List Json → Prop
  | [] => True
  | item :: rest => Canonical item ∧ CanonicalItems rest

def CanonicalMembers : List (String × Json) → Prop
  | [] => True
  | (_, item) :: rest => Canonical item ∧ CanonicalMembers rest

end

mutual

def depth : Json → Nat
  | array items => itemsDepth items + 1
  | object members => membersDepth members + 1
  | _ => 0

def itemsDepth : List Json → Nat
  | [] => 0
  | item :: rest => max (depth item) (itemsDepth rest)

def membersDepth : List (String × Json) → Nat
  | [] => 0
  | (_, item) :: rest => max (depth item) (membersDepth rest)

end

def insertMember : List (String × Json) → String → Json → List (String × Json)
  | [], name, value => [(name, value)]
  | (other, old) :: rest, name, value =>
      if name < other then (name, value) :: (other, old) :: rest
      else if name = other then (name, value) :: rest
      else (other, old) :: insertMember rest name value

def ofNumeral (n : Number.NumeralValue) : Json :=
  match n with
  | .whole n => whole n
  | .real x => real x

end Json

end Switchboard
