import Switchboard.Filter.Builtin
import Switchboard.Filter.Chain

/-! Whose failure a failed call is. A call through a chain asks one part of the chain after the
other, each with requests and in states that the part before has made. A failure of the whole call
is a failure of the terminal, or it began in one filter, and then it names this filter once. -/
namespace Switchboard

variable {σ ε : Type}

namespace Step

/-- While a filter runs in front of an invoker, it puts a question to it in a state. -/
inductive Asks (view : View σ ε) (next : Invoker σ) : Step ε → σ → Request → σ → Prop where
  | now {request : Request} {world : ε} {resume : Outcome Response → ε → Step ε} {state : σ} :
      Asks view next (.ask request world resume) state request (view.put world state)
  | later {request question : Request} {world : ε} {resume : Outcome Response → ε → Step ε}
      {state asked : σ}
      (after : Asks view next
        (resume (next request (view.put world state)).1
          (view.get (next request (view.put world state)).2))
        (next request (view.put world state)).2 question asked) :
      Asks view next (.ask request world resume) state question asked

theorem run_ask (view : View σ ε) (next : Invoker σ) (failed : Bool) (request : Request)
    (world : ε) (resume : Outcome Response → ε → Step ε) (state : σ) :
    (ask request world resume).run view next failed state =
      (resume (next request (view.put world state)).1
        (view.get (next request (view.put world state)).2)).run view next
          (failed || isFailure (next request (view.put world state)).1)
          (next request (view.put world state)).2 := rfl

theorem isFailure_iff (outcome : Outcome Response) :
    isFailure outcome = true ↔ ∃ failure, outcome = .error failure := by
  cases outcome <;> simp [isFailure]

theorem failed_run_iff (view : View σ ε) (next : Invoker σ) (step : Step ε) (failed : Bool)
    (state : σ) :
    (step.run view next failed state).failed = true ↔ failed = true ∨
      ∃ question asked failure, Asks view next step state question asked ∧
        (next question asked).1 = .error failure := by
  induction step generalizing failed state with
  | finish outcome world =>
      constructor
      · exact Or.inl
      · rintro (marked | ⟨_, _, _, asks, -⟩)
        · exact marked
        · cases asks
  | ask request world resume ih =>
      rw [run_ask, ih, Bool.or_eq_true, isFailure_iff]
      constructor
      · rintro ((marked | ⟨failure, first⟩) | ⟨question, asked, failure, asks, answer⟩)
        · exact Or.inl marked
        · exact Or.inr ⟨request, _, failure, .now, first⟩
        · exact Or.inr ⟨question, asked, failure, .later asks, answer⟩
      · rintro (marked | ⟨question, asked, failure, asks, answer⟩)
        · exact Or.inl (Or.inl marked)
        · cases asks with
          | now => exact Or.inl (Or.inr ⟨failure, answer⟩)
          | later after => exact Or.inr ⟨question, asked, failure, after, answer⟩

end Step

namespace Filter

def ran (view : View σ ε) (f : Filter ε) (next : Invoker σ) (request : Request) (state : σ) :
    Step.Ran σ :=
  (f.act request (view.get state)).run view next false state

def Asks (view : View σ ε) (f : Filter ε) (next : Invoker σ) (request : Request) (state : σ)
    (question : Request) (asked : σ) : Prop :=
  Step.Asks view next (f.act request (view.get state)) state question asked

/-- A filter that fails after a failure from behind it fails with one of these failures. -/
def Relays (view : View σ ε) (f : Filter ε) (next : Invoker σ) : Prop :=
  ∀ request state failure, (f.ran view next request state).outcome = .error failure →
    (∃ question asked other, f.Asks view next request state question asked ∧
      (next question asked).1 = .error other) →
    ∃ question asked, f.Asks view next request state question asked ∧
      (next question asked).1 = .error failure

/-- A filter fails although all its questions, if it has any, are answered well. -/
def Begins (view : View σ ε) (f : Filter ε) (next : Invoker σ) (request : Request) (state : σ)
    (failure : Failure) : Prop :=
  (f.ran view next request state).outcome = .error failure ∧
    ∀ question asked, f.Asks view next request state question asked →
      ∃ response, (next question asked).1 = .ok response

theorem failed_ran_iff (view : View σ ε) (f : Filter ε) (next : Invoker σ) (request : Request)
    (state : σ) :
    (f.ran view next request state).failed = true ↔
      ∃ question asked failure, f.Asks view next request state question asked ∧
        (next question asked).1 = .error failure := by
  rw [ran, Step.failed_run_iff]
  simp [Asks]

theorem link_cases (side : Side) (view : View σ ε) {f : Filter ε} {next : Invoker σ}
    (relays : f.Relays view next) {request : Request} {state : σ} {failure : Failure}
    (failed : (f.link side view next request state).1 = .error failure) :
    (∃ question asked, f.Asks view next request state question asked ∧
      (next question asked).1 = .error failure) ∨
    (∃ own, f.Begins view next request state own ∧
      failure = Failure.ofFilter side f.name own) := by
  have classified : classify side f.name (f.ran view next request state).failed
      (f.ran view next request state).outcome = .error failure := failed
  cases answer : (f.ran view next request state).outcome with
  | ok response =>
      rw [answer] at classified
      cases classified
  | error own =>
      rw [answer] at classified
      by_cases marked : (f.ran view next request state).failed = true
      · have same : own = failure := by
          rw [marked] at classified
          exact Except.error.inj classified
        subst same
        exact Or.inl (relays request state own answer ((failed_ran_iff ..).mp marked))
      · have same : failure = Failure.ofFilter side f.name own := by
          rw [Bool.eq_false_iff.mpr marked] at classified
          exact (Except.error.inj classified).symm
        refine Or.inr ⟨own, ⟨answer, fun question asked asks => ?_⟩, same⟩
        cases behind : (next question asked).1 with
        | ok response => exact ⟨response, rfl⟩
        | error other =>
            exact absurd ((failed_ran_iff ..).mpr ⟨question, asked, other, asks, behind⟩) marked

def refusing (name : String) (failure : Failure) : Filter ε where
  name := name
  order := 0
  onConsumer := true
  onProvider := true
  loads := fun _ => true
  act := fun _ world => .finish (.error failure) world

theorem relays_refusing (view : View σ ε) (name : String) (failure : Failure)
    (next : Invoker σ) : (refusing name failure).Relays view next := by
  intro request state own _ asked
  obtain ⟨question, asked, other, asks, -⟩ := asked
  cases asks

theorem relays_logging (view : View σ ε) (next : Invoker σ) : logging.Relays view next := by
  intro request state failure answer _
  exact ⟨request, view.put (view.get state) state, .now, answer⟩

theorem relays_context (view : View σ ε) (c : Context) (next : Invoker σ) :
    (context c).Relays view next := by
  intro request state failure answer _
  cases side : c.side with
  | consumer =>
      simp only [ran, context, side, Step.run_ask] at answer
      refine ⟨stampRequest c request, view.put (view.get state) state, ?_, answer⟩
      simp only [Asks, context, side]
      exact .now
  | provider =>
      simp only [ran, context, side, Step.run_ask] at answer
      refine ⟨request, view.put (view.get state) state, ?_, ?_⟩
      · simp only [Asks, context, side]
        exact .now
      · cases behind : (next request (view.put (view.get state) state)).1 with
        | ok response =>
            rw [behind] at answer
            cases answer
        | error other =>
            rw [behind] at answer
            exact answer

end Filter

namespace Chain

def through (side : Side) (view : View σ ε) (terminal : Invoker σ) (filters : List (Filter ε)) :
    Invoker σ :=
  filters.foldr (Filter.link side view) terminal

/-- During a call through filters to a terminal, a rest of the filters is called with a request in
a state. -/
inductive Reaches (side : Side) (view : View σ ε) (terminal : Invoker σ) :
    List (Filter ε) → Request → σ → List (Filter ε) → Request → σ → Prop where
  | here {filters : List (Filter ε)} {request : Request} {state : σ} :
      Reaches side view terminal filters request state filters request state
  | behind {f : Filter ε} {rest inner : List (Filter ε)} {request question last : Request}
      {state asked reached : σ}
      (asks : f.Asks view (through side view terminal rest) request state question asked)
      (onward : Reaches side view terminal rest question asked inner last reached) :
      Reaches side view terminal (f :: rest) request state inner last reached

theorem Reaches.suffix {side : Side} {view : View σ ε} {terminal : Invoker σ}
    {filters inner : List (Filter ε)} {request last : Request} {state reached : σ}
    (h : Reaches side view terminal filters request state inner last reached) :
    inner <:+ filters := by
  induction h with
  | here => exact List.suffix_refl _
  | behind asks onward ih => exact ih.trans (List.suffix_cons _ _)

theorem through_cases (side : Side) (view : View σ ε) (terminal : Invoker σ)
    (filters : List (Filter ε))
    (relays : ∀ f rest, f :: rest <:+ filters → f.Relays view (through side view terminal rest))
    {request : Request} {state : σ} {failure : Failure}
    (failed : (through side view terminal filters request state).1 = .error failure) :
    (∃ last reached, Reaches side view terminal filters request state [] last reached ∧
      (terminal last reached).1 = .error failure) ∨
    (∃ k inner last reached own,
      Reaches side view terminal filters request state (k :: inner) last reached ∧
      k.Begins view (through side view terminal inner) last reached own ∧
      failure = Failure.ofFilter side k.name own) := by
  induction filters generalizing request state failure with
  | nil => exact Or.inl ⟨request, state, .here, failed⟩
  | cons f rest ih =>
      have relay := relays f rest (List.suffix_refl _)
      rcases Filter.link_cases side view relay failed with
        ⟨question, asked, asks, behind⟩ | ⟨own, began, same⟩
      · -- The failure comes from behind `f` and has passed it unchanged.
        have inside := ih
          (fun k inner part => relays k inner (part.trans (List.suffix_cons f rest))) behind
        rcases inside with ⟨last, reached, onward, fails⟩ |
          ⟨k, inner, last, reached, own, onward, began, same⟩
        · exact Or.inl ⟨last, reached, .behind asks onward, fails⟩
        · exact Or.inr ⟨k, inner, last, reached, own, .behind asks onward, began, same⟩
      · exact Or.inr ⟨f, rest, request, state, own, .here, began, same⟩

/-- If a call fails, the terminal has failed with this failure during the call, or a filter of the
chain has begun the failure, and the call reports it as the failure of this filter alone. -/
theorem failure_of_invoke (view : View σ ε) (c : Chain ε) (terminal : Invoker σ)
    (relays : ∀ f rest, f :: rest <:+ c.filters →
      f.Relays view (through c.side view terminal rest))
    {request : Request} {state : σ} {failure : Failure}
    (failed : (c.invoke view terminal request state).1 = .error failure) :
    (∃ last reached, Reaches c.side view terminal c.filters request state [] last reached ∧
      (terminal last reached).1 = .error failure) ∨
    (∃ k ∈ c.filters, ∃ inner last reached own,
      Reaches c.side view terminal c.filters request state (k :: inner) last reached ∧
      k.Begins view (through c.side view terminal inner) last reached own ∧
      failure = if own.category = .filter then own
        else match c.side with
          | .consumer => .clientFilter k.name own
          | .provider => .providerFilter k.name own) := by
  rcases through_cases c.side view terminal c.filters relays failed with
    fromTerminal | ⟨k, inner, last, reached, own, onward, began, same⟩
  · exact Or.inl fromTerminal
  · have member : k ∈ c.filters := onward.suffix.subset List.mem_cons_self
    exact Or.inr ⟨k, member, inner, last, reached, own, onward, began, same⟩

def closed : Chain Unit where
  side := .consumer
  filters :=
    [Filter.context ⟨.consumer, ⟨"echo", "bolt", "", "shop"⟩, "shop"⟩, Filter.logging,
      Filter.refusing "auth" (.internal "token expired")]

def answering : Invoker Unit := fun _ state => (.ok .empty, state)

theorem failure_of_invoke_closed :
    (closed.invoke (View.self Unit) answering (Request.new "echo" "ping") ()).1 =
      .error (.clientFilter "auth" (.internal "token expired")) ∧
    ∃ k ∈ closed.filters, ∃ inner last reached own,
      Reaches .consumer (View.self Unit) answering closed.filters (Request.new "echo" "ping") ()
        (k :: inner) last reached ∧
      k.Begins (View.self Unit) (through .consumer (View.self Unit) answering inner) last reached
        own ∧
      Failure.clientFilter "auth" (.internal "token expired") =
        if own.category = .filter then own else .clientFilter k.name own := by
  have each : ∀ f ∈ closed.filters, ∀ next, f.Relays (View.self Unit) next := by
    intro f member next
    simp only [closed, List.mem_cons, List.not_mem_nil, or_false] at member
    rcases member with rfl | rfl | rfl
    · exact Filter.relays_context _ _ _
    · exact Filter.relays_logging _ _
    · exact Filter.relays_refusing _ _ _ _
  have failed : (closed.invoke (View.self Unit) answering (Request.new "echo" "ping") ()).1 =
      .error (.clientFilter "auth" (.internal "token expired")) := rfl
  refine ⟨failed, ?_⟩
  rcases failure_of_invoke (View.self Unit) closed answering
    (fun f rest part => each f (part.subset List.mem_cons_self) _) failed with
    ⟨last, reached, -, fails⟩ | began
  · cases fails
  · exact began

end Chain

end Switchboard
