import Switchboard.Dictionary
import Switchboard.Text.Whole

/-! Settings of a registry. Two settings that differ anywhere, be it in one parameter, stand for two
registries. -/
namespace Switchboard.Registry

structure Settings where
  protocol : String
  address : String
  timeout : Nat
  registers : Bool
  subscribes : Bool
  parameters : Dictionary String
deriving DecidableEq

def memoryProtocol : String := "memory"

namespace Settings

def defaultTimeout : Nat := 10000

def new (protocol address : String) : Settings :=
  ⟨protocol, address, defaultTimeout, true, true, .empty⟩

def default : Settings := new memoryProtocol ""

def scanPeriodKey : String := "scan_period_ms"

/-- The time between two full pushes, if the parameters ask for them. -/
def scanPeriod? (s : Settings) : Option Nat :=
  ((s.parameters.get? scanPeriodKey).bind (Text.whole? Text.bound64)).filter (0 < ·)

theorem scanPeriod?_pos {s : Settings} {period : Nat} (h : s.scanPeriod? = some period) :
    0 < period := by
  simpa using (Option.filter_eq_some_iff.mp h).2

end Settings

end Switchboard.Registry
