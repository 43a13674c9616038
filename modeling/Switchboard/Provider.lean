import Switchboard.Dictionary
import Switchboard.Text.Whole

/-! Providers of a service. A provider is known by its host, port and protocol. It carries
attributes, fixed when it is published, and a status that changes later. While it warms up it has
a weight of its own, until the time at which the warm-up ends. -/
namespace Switchboard

structure Identity where
  host : String
  port : Nat
  protocol : String
deriving DecidableEq

namespace Identity

def address (i : Identity) : String := i.host ++ ":" ++ toString i.port

def label (i : Identity) : String := i.protocol ++ "://" ++ i.address

end Identity

inductive Status where
  | available
  | warmingUp
  | disabled
  | paused
deriving DecidableEq

def Status.label : Status → String
  | available => "available"
  | warmingUp => "warming_up"
  | disabled => "disabled"
  | paused => "paused"

def Status.ofLabel? (label : String) : Option Status :=
  [available, warmingUp, disabled, paused].find? (·.label == label)

structure Provider where
  identity : Identity
  attributes : Dictionary String
  status : Status
  warmupWeight : Option Nat
  warmupEnd : Option Nat
deriving DecidableEq

namespace Provider

def appNameKey : String := "appName"

def weightKey : String := "weight"

def warmupTimeKey : String := "warmupTime"

def warmupWeightKey : String := "warmupWeight"

def startTimeKey : String := "startTime"

def defaultWeight : Nat := 100

def defaultProtocol : String := "bolt"

def new (host : String) (port : Nat) (protocol : String) : Provider :=
  ⟨⟨host, port, protocol⟩, .empty, .available, none, none⟩

def withAttribute (p : Provider) (key value : String) : Provider :=
  { p with attributes := p.attributes.insert key value }

def attribute? (p : Provider) (key : String) : Option String := p.attributes.get? key

def withStatus (p : Provider) (status : Status) : Provider := { p with status := status }

/-- The weight that the attributes give, or the default one if they give none. -/
def weight (p : Provider) : Nat :=
  ((p.attribute? weightKey).bind (Text.whole? Text.bound32)).getD defaultWeight

def isWarmingUp (p : Provider) (now : Nat) : Bool :=
  p.status == .warmingUp && p.warmupEnd.any (now < ·)

def effectiveWeight (p : Provider) (now : Nat) : Nat :=
  match p.warmupWeight with
  | some weight => if p.isWarmingUp now then weight else p.weight
  | none => p.weight

/-- The status at a time: a warm-up that has ended leaves the provider available. -/
def statusAt (p : Provider) (now : Nat) : Status :=
  if p.status = .warmingUp ∧ p.isWarmingUp now = false then .available else p.status

def isCandidate (p : Provider) (now : Nat) : Bool :=
  p.statusAt now == .available || p.statusAt now == .warmingUp

theorem isCandidate_eq_false_iff (p : Provider) (now : Nat) :
    p.isCandidate now = false ↔ p.status = .disabled ∨ p.status = .paused := by
  unfold isCandidate statusAt
  cases p.status <;> cases p.isWarmingUp now <;> simp

end Provider

end Switchboard
