import Switchboard.Gate.Bundled
import Switchboard.Overrides
import Switchboard.Warning

/-! The gate decides by name which classes may travel. It has a list of allowed and a list of
denied entries, and an entry matches every name that starts with it, stars at its end left out. A
verdict is remembered by name while there is room. An override of a list forgets all verdicts. -/
namespace Switchboard

namespace Gate

inductive Mode where
  | disable
  | warn
  | strict
deriving DecidableEq

namespace Mode

def label : Mode → String
  | disable => "disable"
  | warn => "warn"
  | strict => "strict"

def ofLabel? (text : String) : Option Mode :=
  if text = "disable" then some disable
  else if text = "warn" then some warn
  else if text = "strict" then some strict
  else none

def lower (text : String) : String := String.ofList (text.toList.map Char.toLower)

/-- Reads a mode without regard to blanks around it and to the case of its letters. -/
def parse (text : String) : Outcome Mode :=
  let name := lower (Text.trim text)
  match ofLabel? name with
  | some mode => .ok mode
  | none => .error (.settings ("unknown serialize check mode `" ++ name ++ "`"))

end Mode

inductive Verdict where
  | allow
  | deny
deriving DecidableEq

def capacity : Nat := 4096

def stem (entry : String) : List Char := (entry.toList.reverse.dropWhile (· == '*')).reverse

def matchesAny (entries : List String) (className : String) : Bool :=
  entries.any fun entry => (stem entry).isPrefixOf className.toList

end Gate

structure Gate where
  mode : Gate.Mode
  allow : List String
  deny : List String
  cache : Dictionary Gate.Verdict

/-- What an operation that asks the gate gives: its result, the gate afterwards and the warnings
on the way. -/
structure Checked (α : Type) where
  outcome : Outcome α
  gate : Gate
  warnings : List Warning

namespace Checked

def done {α : Type} (outcome : Outcome α) (gate : Gate) : Checked α := ⟨outcome, gate, []⟩

def andThen {α β : Type} (c : Checked α) (next : α → Gate → Checked β) : Checked β :=
  match c.outcome with
  | .error failure => ⟨.error failure, c.gate, c.warnings⟩
  | .ok value =>
      let after := next value c.gate
      ⟨after.outcome, after.gate, c.warnings ++ after.warnings⟩

end Checked

namespace Gate

def ofLists (mode : Mode) (allow deny : List String) : Gate := ⟨mode, allow, deny, .empty⟩

def new (mode : Mode) : Gate := ofLists mode bundledAllow bundledDeny

def ofOverrides (mode : Mode) (allow deny : List String) : Gate :=
  ofLists mode (Overrides.applyAll bundledAllow allow) (Overrides.applyAll bundledDeny deny)

def overrideAllow (g : Gate) (text : String) : Gate :=
  { g with allow := Overrides.apply g.allow text, cache := .empty }

def overrideDeny (g : Gate) (text : String) : Gate :=
  { g with deny := Overrides.apply g.deny text, cache := .empty }

def cached (g : Gate) : Nat := g.cache.entries.length

def judge (g : Gate) (className : String) (side : Side) : Verdict × List Warning :=
  let denied := matchesAny g.deny className
  let allowed := matchesAny g.allow className
  match g.mode with
  | .disable => (.allow, [])
  | .warn =>
      if denied then (.deny, [.blacklisted className side])
      else if !allowed && !g.allow.isEmpty then (.allow, [.unlisted className side])
      else (.allow, [])
  | .strict => (if allowed && !denied then .allow else .deny, [])

def remember (g : Gate) (className : String) (verdict : Verdict) : Gate :=
  if g.cached < capacity then { g with cache := g.cache.insert className verdict } else g

def answer (verdict : Verdict) (className : String) (side : Side) : Outcome Unit :=
  match verdict with
  | .allow => .ok ()
  | .deny => .error (.denied side className)

def check (g : Gate) (className : String) (side : Side) : Checked Unit :=
  if g.mode = .disable then .done (.ok ()) g
  else match g.cache.get? className with
    | some verdict => .done (answer verdict className side) g
    | none =>
        let (verdict, warnings) := g.judge className side
        ⟨answer verdict className side, g.remember className verdict, warnings⟩

/-- Asks for several classes, up to the first that may not travel. -/
def checkAll (g : Gate) (classNames : List String) (side : Side) : Checked Unit :=
  match classNames with
  | [] => .done (.ok ()) g
  | className :: rest => (g.check className side).andThen fun _ gate => checkAll gate rest side

end Gate

end Switchboard
