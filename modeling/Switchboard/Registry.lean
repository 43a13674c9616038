import Switchboard.Registry.Settings
import Switchboard.Registry.Store
import Switchboard.Service
import Switchboard.Failure

/-! Registries. A registry announces the providers of services and tells subscribers about them.
One of the memory protocol works on the store of its address, any other one is given by what it
does, which may change surroundings of its own. -/
namespace Switchboard

namespace Registry

structure Registration where
  service : Service
  group : String
  provider : Provider

structure Subscribed (ε : Type) where
  outcome : Outcome (List Group)
  pushes : List Push
  world : ε

structure Foreign (ε : Type) where
  start : ε → Outcome Bool × ε
  register : Registration → ε → Outcome Unit × ε
  unregister : Registration → ε → Outcome Unit × ε
  subscribe : Service → Subscriber → ε → Subscribed ε
  unsubscribe : Service → Subscriber → ε → Outcome Unit × ε
  destroy : ε → Outcome Unit × ε

/-- What a memory registry remembers: whether it is started, who has subscribed through it to
what, and the number of the task that pushes everything again. -/
structure Memory where
  started : Bool
  subscriptions : List (String × Subscriber)
  rescan : Option Nat

def Memory.new : Memory := ⟨false, [], none⟩

inductive Backend (ε : Type) where
  | memory (state : Memory)
  | foreign (behaviour : Foreign ε)

end Registry

structure Registry (ε : Type) where
  settings : Registry.Settings
  backend : Registry.Backend ε

end Switchboard
