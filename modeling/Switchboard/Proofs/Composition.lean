import Switchboard.Proofs.Assembly
import Switchboard.Proofs.Blame

/-! Chains of filters that ask once. Such a filter rewrites the request on its way in and the
response on its way out and passes failures on, and a chain of such filters does what they do, one
inside the other. What is called, and in which order, is read off a journal that the filters and the
terminal keep while they run; it changes nothing else, whatever the filters do. -/
namespace Switchboard

variable {σ ε : Type}

/-- An entry of a journal: a filter was called, or the terminal was and gave its answer. -/
inductive Note where
  | filter (name : String) (request : Request)
  | terminal (request : Request) (outcome : Outcome Response)

def View.recorded (view : View σ ε) : View (σ × List Note) (ε × List Note) where
  get state := (view.get state.1, state.2)
  put world state := (view.put world.1 state.1, world.2)
  get_put world state := by rw [view.get_put]
  put_get state := by rw [view.put_get]
  put_put world other state := by rw [view.put_put]

def Step.recorded (seen : List Note) : Step ε → Step (ε × List Note)
  | finish outcome world => .finish outcome (world, seen)
  | ask request world resume =>
      .ask request (world, seen) fun outcome after => (resume outcome after.1).recorded after.2

def Filter.recorded (f : Filter ε) : Filter (ε × List Note) where
  name := f.name
  order := f.order
  onConsumer := f.onConsumer
  onProvider := f.onProvider
  loads := f.loads
  act request world := (f.act request world.1).recorded (world.2 ++ [.filter f.name request])

def Invoker.recorded (terminal : Invoker σ) : Invoker (σ × List Note) := fun request state =>
  let answer := terminal request state.1
  (answer.1, answer.2, state.2 ++ [.terminal request answer.1])

def Chain.recorded (c : Chain ε) : Chain (ε × List Note) :=
  ⟨c.side, c.filters.map Filter.recorded⟩

def Invoker.Records (recording : Invoker (σ × List Note)) (next : Invoker σ) : Prop :=
  ∀ request state seen, ∃ more,
    recording request (state, seen) = ((next request state).1, (next request state).2, seen ++ more)

theorem Invoker.records_recorded (terminal : Invoker σ) :
    (Invoker.recorded terminal).Records terminal := fun _ _ _ => ⟨_, rfl⟩

theorem Step.run_recorded (view : View σ ε) {next : Invoker σ}
    {recording : Invoker (σ × List Note)} (records : recording.Records next) (step : Step ε)
    (failed : Bool) (state : σ) (seen other : List Note) :
    ∃ more, (step.recorded seen).run view.recorded recording failed (state, other) =
      ⟨(step.run view next failed state).outcome, (step.run view next failed state).failed,
        (step.run view next failed state).state, seen ++ more⟩ := by
  -- Between two questions the steps carry the journal, during a question the state does.
  induction step generalizing failed state seen other with
  | finish outcome world => exact ⟨[], by rw [List.append_nil]; rfl⟩
  | ask request world resume ih =>
      obtain ⟨first, answer⟩ := records request (view.put world state) seen
      obtain ⟨later, onward⟩ := ih (next request (view.put world state)).1
        (view.get (next request (view.put world state)).2)
        (failed || isFailure (next request (view.put world state)).1)
        (next request (view.put world state)).2 (seen ++ first) (seen ++ first)
      refine ⟨first ++ later, ?_⟩
      have asked : view.recorded.put (world, seen) (state, other) =
          (view.put world state, seen) := rfl
      rw [recorded, run_ask, run_ask, asked, answer, ← List.append_assoc]
      exact onward

namespace Filter

theorem records_link (side : Side) (view : View σ ε) (f : Filter ε) {next : Invoker σ}
    {recording : Invoker (σ × List Note)} (records : recording.Records next) :
    (f.recorded.link side view.recorded recording).Records (f.link side view next) := by
  intro request state seen
  obtain ⟨more, same⟩ := Step.run_recorded view records (f.act request (view.get state)) false state
    (seen ++ [.filter f.name request]) seen
  refine ⟨.filter f.name request :: more, ?_⟩
  have ran : (f.recorded.act request (view.recorded.get (state, seen))).run view.recorded recording
      false (state, seen) = _ := same
  rw [link, ran, List.append_assoc]
  rfl

structure Rewriting where
  request : Request → Request
  response : Response → Response

/-- A filter asks once, with the request rewritten, and answers with the response rewritten or with
the failure that it was given. What it does to its surroundings is left open. -/
def Rewrites (f : Filter ε) (r : Rewriting) : Prop :=
  ∀ request world, ∃ entered resume,
    f.act request world = .ask (r.request request) entered resume ∧
      ∀ outcome after, ∃ left, resume outcome after = .finish (outcome.map r.response) left

theorem rewrites_logging : (logging : Filter ε).Rewrites ⟨id, id⟩ := by
  refine fun request world => ⟨world, .finish, rfl, fun outcome after => ⟨after, ?_⟩⟩
  rw [Except.map_id]
  rfl

theorem rewrites_context (c : Context) :
    (context c : Filter ε).Rewrites
      (match c.side with
        | .consumer => ⟨stampRequest c, id⟩
        | .provider => ⟨id, stampResponse c⟩) := by
  intro request world
  cases side : c.side with
  | consumer =>
      refine ⟨world, .finish, by simp [context, side], fun outcome after => ⟨after, ?_⟩⟩
      rw [Except.map_id]
      rfl
  | provider =>
      exact ⟨world, _, by simp only [context, side, id_eq], fun outcome after => ⟨after, rfl⟩⟩

theorem classify_map (side : Side) (name : String) (outcome : Outcome Response)
    (change : Response → Response) :
    classify side name (Step.isFailure outcome) (outcome.map change) = outcome.map change := by
  cases outcome <;> rfl

theorem Rewrites.link {f : Filter ε} {r : Rewriting} (rewrites : f.Rewrites r) (side : Side)
    (view : View σ ε) (request : Request) (state : σ) :
    ∃ reached,
      (∀ next, (f.link side view next request state).1 =
        (next (r.request request) reached).1.map r.response) ∧
      ∀ recording seen, (f.recorded.link side view.recorded recording request (state, seen)).2.2 =
        (recording (r.request request) (reached, seen ++ [.filter f.name request])).2.2 := by
  obtain ⟨entered, resume, asks, answers⟩ := rewrites request (view.get state)
  refine ⟨view.put entered state, fun next => ?_, fun recording seen => ?_⟩
  · obtain ⟨left, finishes⟩ := answers (next (r.request request) (view.put entered state)).1
      (view.get (next (r.request request) (view.put entered state)).2)
    simp only [Filter.link, asks, Step.run_ask, finishes, Step.run, Bool.false_or]
    exact classify_map ..
  · obtain ⟨left, finishes⟩ := answers
      (recording (r.request request) (view.put entered state, seen ++ [.filter f.name request])).1
      (view.get (recording (r.request request)
        (view.put entered state, seen ++ [.filter f.name request])).2.1)
    simp only [Filter.link, recorded, View.recorded, asks, Step.recorded, Step.run_ask, finishes,
      Step.run]

end Filter

namespace Chain

theorem records_through (side : Side) (view : View σ ε) (terminal : Invoker σ)
    (filters : List (Filter ε)) :
    (through side view.recorded (Invoker.recorded terminal) (filters.map Filter.recorded)).Records
      (through side view terminal filters) := by
  induction filters with
  | nil => exact Invoker.records_recorded terminal
  | cons f rest ih => exact Filter.records_link side view f ih

theorem records_invoke (view : View σ ε) (c : Chain ε) (terminal : Invoker σ) :
    Invoker.Records (c.recorded.invoke view.recorded (Invoker.recorded terminal))
      (c.invoke view terminal) :=
  records_through c.side view terminal c.filters

theorem through_of_rewrites (side : Side) (view : View σ ε) (terminal : Invoker σ)
    {filters : List (Filter ε)} {rs : List Filter.Rewriting}
    (each : List.Forall₂ Filter.Rewrites filters rs) (request : Request) (state : σ)
    (seen : List Note) :
    ∃ reached answer, answer = (terminal (rs.foldl (fun q r => r.request q) request) reached).1 ∧
      (through side view terminal filters request state).1 =
        answer.map (fun x => rs.foldr (fun r => r.response) x) ∧
      (through side view.recorded (Invoker.recorded terminal) (filters.map Filter.recorded) request
        (state, seen)).2.2 = seen ++
          List.zipWith Note.filter (filters.map (·.name))
            (rs.scanl (fun q r => r.request q) request) ++
          [.terminal (rs.foldl (fun q r => r.request q) request) answer] := by
  induction each generalizing request state seen with
  | nil =>
      refine ⟨state, _, rfl, ?_, by simp [through, Invoker.recorded]⟩
      exact (congrFun Except.map_id _).symm
  | @cons f r filters rs first others ih =>
      obtain ⟨entered, outcome, journal⟩ := first.link side view request state
      obtain ⟨reached, answer, answered, result, notes⟩ :=
        ih (r.request request) entered (seen ++ [.filter f.name request])
      refine ⟨reached, answer, answered, ?_, ?_⟩
      · calc (through side view terminal (f :: filters) request state).1
            = (through side view terminal filters (r.request request) entered).1.map r.response :=
              outcome (through side view terminal filters)
          _ = (answer.map fun x => rs.foldr (fun r => r.response) x).map r.response := by
              rw [result]
          _ = answer.map fun x => (r :: rs).foldr (fun r => r.response) x := by
              cases answer <;> rfl
      · refine (journal _ seen).trans (notes.trans ?_)
        simp [List.scanl_cons]

theorem ascending_of_build {catalog : Catalog ε Context (Filter ε)} {context : Context}
    {selection : String} {custom : List (Filter ε)} {world : ε} {c : Chain ε}
    (built : (build catalog context selection custom world).outcome = .ok c) :
    c.filters.Pairwise fun outer inner => outer.order ≤ inner.order := by
  simp only [build] at built
  split at built
  next => cases built
  next entries _ =>
    cases chosen : (choose context entries (getAll context catalog world catalog.keys).catalog
        (getAll context catalog world catalog.keys).world
        (selected context selection entries)).outcome with
    | error failure =>
        rw [chosen] at built
        cases built
    | ok filters =>
        rw [chosen] at built
        obtain rfl := Except.ok.inj built
        exact (arrange_sorted context _).ascending

/-- A call through a chain of filters that rewrite reaches the filters in the order of the names and
then the terminal, each once, the terminal with the request as all filters have made it. The answer
of the terminal comes back as all filters make it, the innermost first, and a failure comes back as
it is. A chain without filters is its terminal, and if the chain was built, a filter of lower order
is further outside. -/
theorem invoke_composes (view : View σ ε) (c : Chain ε) {rs : List Filter.Rewriting}
    (each : List.Forall₂ Filter.Rewrites c.filters rs) (terminal : Invoker σ) (request : Request)
    (state : σ) :
    (∃ reached answer, answer = (terminal (rs.foldl (fun q r => r.request q) request) reached).1 ∧
      (c.invoke view terminal request state).1 =
        answer.map (fun x => rs.foldr (fun r => r.response) x) ∧
      c.recorded.invoke view.recorded (Invoker.recorded terminal) request (state, []) =
        ((c.invoke view terminal request state).1, (c.invoke view terminal request state).2,
          List.zipWith Note.filter c.names (rs.scanl (fun q r => r.request q) request) ++
            [.terminal (rs.foldl (fun q r => r.request q) request) answer])) ∧
    (c.filters = [] → c.invoke view terminal = terminal) ∧
    ∀ catalog context selection custom world,
      (build catalog context selection custom world).outcome = .ok c →
        c.filters.Pairwise fun outer inner => outer.order ≤ inner.order := by
  refine ⟨?_, fun none => by rw [invoke, none]; rfl, fun _ _ _ _ _ => ascending_of_build⟩
  obtain ⟨reached, answer, answered, result, journal⟩ :=
    through_of_rewrites c.side view terminal each request state []
  obtain ⟨more, same⟩ := records_invoke view c terminal request state []
  have notes : more = _ := (congrArg (·.2.2) same).symm.trans journal
  exact ⟨reached, answer, answered, result, same.trans (by rw [List.nil_append, notes]; rfl)⟩

def tagging (name : String) (order : Int) : Filter Nat where
  name := name
  order := order
  onConsumer := true
  onProvider := false
  loads := fun _ => true
  act := fun request count => .ask (request.attach name "in") (count + 1) fun outcome after =>
    .finish (outcome.map (·.attach name "out")) (after + 1)

theorem rewrites_tagging (name : String) (order : Int) :
    (tagging name order).Rewrites ⟨(·.attach name "in"), (·.attach name "out")⟩ :=
  fun _ count => ⟨count + 1, _, rfl, fun _ after => ⟨after + 1, rfl⟩⟩

def tagged : Chain Nat where
  side := .consumer
  filters := [Filter.context shop, tagging "meter" (-8000), Filter.logging, tagging "trace" 5]

def ping : Request := .new "echo" "ping"

def pong : Response := .ofValue ⟨"shop.Pong", .null⟩

def ponging : Invoker Nat := fun request count =>
  if request.method = "ping" then (.ok pong, count)
  else (.error (.service "echo" "no such method"), count)

theorem invoke_composes_tagged :
    (tagged.recorded.invoke (View.self Nat).recorded (Invoker.recorded ponging) ping (0, [])).1 =
      .ok ((pong.attach "trace" "out").attach "meter" "out") ∧
    (tagged.recorded.invoke (View.self Nat).recorded (Invoker.recorded ponging) ping
        (0, [])).2.2 =
      [.filter "context" ping, .filter "meter" (Filter.stampRequest shop ping),
        .filter "logging" ((Filter.stampRequest shop ping).attach "meter" "in"),
        .filter "trace" ((Filter.stampRequest shop ping).attach "meter" "in"),
        .terminal (((Filter.stampRequest shop ping).attach "meter" "in").attach "trace" "in")
          (.ok pong)] ∧
    (tagged.invoke (View.self Nat) ponging (.new "echo" "pull") 0).1 =
      .error (.service "echo" "no such method") := by
  have each : List.Forall₂ Filter.Rewrites tagged.filters
      [⟨Filter.stampRequest shop, id⟩, ⟨(·.attach "meter" "in"), (·.attach "meter" "out")⟩,
        ⟨id, id⟩, ⟨(·.attach "trace" "in"), (·.attach "trace" "out")⟩] :=
    .cons (Filter.rewrites_context shop) (.cons (rewrites_tagging "meter" (-8000))
      (.cons Filter.rewrites_logging (.cons (rewrites_tagging "trace" 5) .nil)))
  obtain ⟨⟨reached, answer, answered, result, journal⟩, -⟩ :=
    invoke_composes (View.self Nat) tagged each ponging ping 0
  obtain ⟨⟨_, _, refused, failed, -⟩, -⟩ :=
    invoke_composes (View.self Nat) tagged each ponging (.new "echo" "pull") 0
  obtain rfl : answer = .ok pong := answered
  refine ⟨(congrArg (·.1) journal).trans result, congrArg (·.2.2) journal, ?_⟩
  rw [failed, refused]
  rfl

end Chain

end Switchboard
