import Switchboard.Provider

/-! The warm-up of a provider that has just started. Its length, its weight and the time of the
start come as three attributes. When all three are there and can be read, they are turned into the
weight and the end of a warm-up and disappear, so this happens to a provider only once. -/
namespace Switchboard.Provider

structure Warmup where
  length : Nat
  weight : Nat
  start : Nat
deriving DecidableEq

/-- A warm-up ends at the latest at the last time there is. -/
def Warmup.finish (w : Warmup) : Nat := min (w.start + w.length) Text.bound64

def warmup? (p : Provider) : Option Warmup := do
  let length ← (p.attribute? warmupTimeKey).bind (Text.whole? Text.bound64)
  let weight ← (p.attribute? warmupWeightKey).bind (Text.whole? Text.bound32)
  let start ← (p.attribute? startTimeKey).bind (Text.whole? Text.bound64)
  return ⟨length, weight, start⟩

def begin (p : Provider) (w : Warmup) : Provider :=
  { p with
    attributes := ((p.attributes.erase warmupTimeKey).erase warmupWeightKey).erase startTimeKey
    status := .warmingUp
    warmupWeight := some w.weight
    warmupEnd := some w.finish }

/-- The provider as it goes into an address book. -/
def prepare (p : Provider) : Provider :=
  match p.warmup? with
  | some w => p.begin w
  | none => p

theorem identity_prepare (p : Provider) : p.prepare.identity = p.identity := by
  unfold prepare
  split <;> rfl

theorem warmup?_begin (p : Provider) (w : Warmup) : (p.begin w).warmup? = none := by
  simp [warmup?, begin, attribute?, Dictionary.get?_erase, warmupTimeKey, warmupWeightKey,
    startTimeKey]

theorem prepare_prepare (p : Provider) : p.prepare.prepare = p.prepare := by
  cases h : p.warmup? with
  | none =>
      have same : p.prepare = p := by simp [prepare, h]
      rw [same, same]
  | some w =>
      have began : p.prepare = p.begin w := by simp [prepare, h]
      rw [began, prepare, warmup?_begin]

end Switchboard.Provider
