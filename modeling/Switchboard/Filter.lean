import Switchboard.Failure
import Switchboard.Service

/-! Filters around a call. What a filter does with a request is a tree of steps: it finishes with
a result, or it asks the rest of the chain and goes on with the answer, as often as it likes. It
may change surroundings of its own on the way. -/
namespace Switchboard

/-- Surroundings `ε` inside a state `σ`. -/
structure View (σ ε : Type) where
  get : σ → ε
  put : ε → σ → σ
  get_put : ∀ world state, get (put world state) = world
  put_get : ∀ state, put (get state) state = state
  put_put : ∀ world other state, put world (put other state) = put world state

def View.self (ε : Type) : View ε ε :=
  ⟨id, fun world _ => world, fun _ _ => rfl, fun _ => rfl, fun _ _ _ => rfl⟩

abbrev Invoker (σ : Type) := Request → σ → Outcome Response × σ

inductive Step (ε : Type) where
  | finish (outcome : Outcome Response) (world : ε)
  | ask (request : Request) (world : ε) (resume : Outcome Response → ε → Step ε)

namespace Step

variable {σ ε : Type}

/-- The result of a filter, whether a question to the rest of the chain has failed, and the state
afterwards. -/
structure Ran (σ : Type) where
  outcome : Outcome Response
  failed : Bool
  state : σ

def isFailure (outcome : Outcome Response) : Bool :=
  match outcome with
  | .error _ => true
  | .ok _ => false

def run (view : View σ ε) (next : Invoker σ) (failed : Bool) : Step ε → σ → Ran σ
  | finish outcome world, state => ⟨outcome, failed, view.put world state⟩
  | ask request world resume, state =>
      let (outcome, after) := next request (view.put world state)
      run view next (failed || isFailure outcome) (resume outcome (view.get after)) after

end Step

structure Filter (ε : Type) where
  name : String
  order : Int
  onConsumer : Bool
  onProvider : Bool
  loads : Context → Bool
  act : Request → ε → Step ε

namespace Filter

variable {σ ε : Type}

def isActive (f : Filter ε) : Side → Bool
  | .consumer => f.onConsumer
  | .provider => f.onProvider

/-- A failure belongs to a filter if nothing that it asked has failed. -/
def classify (side : Side) (name : String) (failed : Bool) (outcome : Outcome Response) :
    Outcome Response :=
  match outcome with
  | .ok response => .ok response
  | .error failure =>
      if failed then .error failure else .error (Failure.ofFilter side name failure)

def link (side : Side) (view : View σ ε) (f : Filter ε) (next : Invoker σ) : Invoker σ :=
  fun request state =>
    let ran := (f.act request (view.get state)).run view next false state
    (classify side f.name ran.failed ran.outcome, ran.state)

end Filter

end Switchboard
