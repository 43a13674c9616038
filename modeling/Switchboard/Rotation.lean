import Switchboard.Failure
import Switchboard.Provider

/-! Weighted rotation. Every service has a counter of its own that ticks with each choice. The tick,
taken modulo the sum of the weights, falls into the share of one provider; where all weights are
zero it is taken modulo the number of providers. -/
namespace Switchboard

structure Rotation where
  counters : Dictionary Nat

namespace Rotation

def empty : Rotation := ⟨.empty⟩

/-- Counters have 64 bits and start again after the greatest number. -/
def period : Nat := 0x10000000000000000

def tick (r : Rotation) (service : String) : Nat := r.counters.getD service 0

def advance (r : Rotation) (service : String) : Rotation :=
  ⟨r.counters.insert service ((r.tick service + 1) % period)⟩

def totalWeight {α : Type} (weight : α → Nat) : List α → Nat
  | [] => 0
  | x :: rest => weight x + totalWeight weight rest

/-- The element whose share of the total weight holds the target. -/
def locate {α : Type} (weight : α → Nat) : List α → Nat → Option α
  | [], _ => none
  | x :: rest, target =>
      if target < weight x then some x else locate weight rest (target - weight x)

def pick (providers : List Provider) (now tick : Nat) : Outcome Provider :=
  let total := totalWeight (·.effectiveWeight now) providers
  let chosen :=
    if total = 0 then providers[tick % providers.length]?
    else locate (·.effectiveWeight now) providers (tick % total)
  match chosen with
  | some provider => .ok provider
  | none => .error (.internal "weighted selection overran the provider list")

/-- Chooses a provider. An empty list takes no tick. -/
def select (r : Rotation) (service : String) (providers : List Provider) (now : Nat) :
    Outcome Provider × Rotation :=
  if providers.isEmpty then (.error (.noProvider service), r)
  else (pick providers now (r.tick service), r.advance service)

end Rotation

end Switchboard
