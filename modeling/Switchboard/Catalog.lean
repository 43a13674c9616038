import Switchboard.Warning

/-! Catalogs of extensions. A definition says under which key and how a thing is built. Of
definitions with one key the one of higher order is in force, and of equal ones the first. A
single thing is built once and kept until another definition takes over; any other thing is built
anew each time. -/
namespace Switchboard

/-- How things of a kind `τ` are built from arguments, in surroundings that may change. -/
structure Definition (ε α τ : Type) where
  key : String
  order : Int
  single : Bool
  build : α → ε → Outcome τ × ε

structure Catalog (ε α τ : Type) where
  capability : String
  definitions : Dictionary (Definition ε α τ)
  kept : Dictionary τ

namespace Catalog

variable {ε α τ : Type}

def new (capability : String) : Catalog ε α τ := ⟨capability, .empty, .empty⟩

def contains (c : Catalog ε α τ) (key : String) : Bool := c.definitions.contains key

def keys (c : Catalog ε α τ) : List String :=
  (c.definitions.entries.mergeSort fun first second => first.2.order ≤ second.2.order).map (·.1)

structure Registered (ε α τ : Type) where
  accepted : Bool
  catalog : Catalog ε α τ
  warnings : List Warning

def register (c : Catalog ε α τ) (d : Definition ε α τ) : Registered ε α τ :=
  match c.definitions.get? d.key with
  | none => ⟨true, { c with definitions := c.definitions.insert d.key d }, []⟩
  | some existing =>
      if d.order ≤ existing.order then
        ⟨false, c, [.extensionRejected c.capability d.key existing.order d.order]⟩
      else
        ⟨true,
          { c with definitions := c.definitions.insert d.key d, kept := c.kept.erase d.key },
          []⟩

structure Found (ε α τ : Type) where
  outcome : Outcome τ
  catalog : Catalog ε α τ
  world : ε

def keep (c : Catalog ε α τ) (key : String) (outcome : Outcome τ) : Catalog ε α τ :=
  match outcome with
  | .ok thing => { c with kept := c.kept.insert key thing }
  | .error _ => c

def get (c : Catalog ε α τ) (key : String) (argument : α) (world : ε) : Found ε α τ :=
  match c.definitions.get? key with
  | none => ⟨.error (.missingExtension c.capability key), c, world⟩
  | some d =>
      if d.single then
        match c.kept.get? key with
        | some thing => ⟨.ok thing, c, world⟩
        | none =>
            let (outcome, after) := d.build argument world
            ⟨outcome, c.keep key outcome, after⟩
      else
        let (outcome, after) := d.build argument world
        ⟨outcome, c, after⟩

end Catalog

end Switchboard
