import Switchboard.Filter.Builtin
import Switchboard.Proofs.Assembly
import Switchboard.Proofs.Passage

/-! Chains of the two filters that every catalog has. Such a chain calls what is behind it once and
passes failures on as they are. A context filter marks the request on its way in at the side of the
consumer and the response on its way out at the side of the provider; logging changes nothing. -/
namespace Switchboard

namespace Filter

variable {σ ε : Type}

/-- What a context filter makes of attachments, key by key. -/
def marked (c : Context) (attachments : Dictionary String) (key : String) : Option String :=
  if key = "side" then some c.side.label
  else if key = "app_name" ∧ c.appName ≠ "" then some c.appName
  else attachments.get? key

theorem get?_stamp (c : Context) (attachments : Dictionary String) (key : String) :
    (stamp c attachments).get? key = marked c attachments key := by
  have apart : ("app_name" : String) ≠ "side" := by decide
  rw [stamp, marked, Dictionary.get?_insert, sideAttachment]
  by_cases side : key = "side"
  · simp [side]
  · by_cases unnamed : c.appName = ""
    · simp [unnamed, side, Ne.symm side]
    · have named : c.appName.isEmpty = false := by simpa using unnamed
      simp [named, side, Ne.symm side, unnamed, Dictionary.get?_insert, appNameAttachment, eq_comm]

theorem stamp_stamp (c : Context) (attachments : Dictionary String) :
    stamp c (stamp c attachments) = stamp c attachments := by
  refine Dictionary.ext_get? fun key => ?_
  rw [get?_stamp, get?_stamp, marked, get?_stamp]
  simp only [marked]
  split <;> simp_all

theorem link_logging (side : Side) (view : View σ ε) (next : Invoker σ) :
    link side view logging next = next := by
  funext request state
  simp only [link, logging, Step.run, view.put_get]
  generalize next request state = answer
  obtain ⟨failure | response, after⟩ := answer <;> simp [classify, Step.isFailure]

theorem link_context_consumer {c : Context} (side : c.side = .consumer) (view : View σ ε)
    (next : Invoker σ) :
    link c.side view (context c) next = fun request => next (stampRequest c request) := by
  funext request state
  simp only [link, context, side, Step.run, view.put_get]
  generalize next (stampRequest c request) state = answer
  obtain ⟨failure | response, after⟩ := answer <;> simp [classify, Step.isFailure]

theorem link_context_provider {c : Context} (side : c.side = .provider) (view : View σ ε)
    (next : Invoker σ) :
    link c.side view (context c) next = fun request state =>
      ((next request state).1.map (stampResponse c), (next request state).2) := by
  funext request state
  simp only [link, context, side, Step.run, view.put_get]
  generalize next request state = answer
  obtain ⟨failure | response, after⟩ := answer <;> simp [classify, Step.isFailure, Except.map]

end Filter

namespace Chain

variable {σ ε : Type}

/-- Any choice of the two filters, set up for a context. -/
structure BuiltIn (chain : Chain ε) (c : Context) : Prop where
  side : chain.side = c.side
  filters : ∀ f ∈ chain.filters, f = Filter.context c ∨ f = Filter.logging

def passedOn (chain : Chain ε) (c : Context) (request : Request) : Request :=
  if Filter.contextName ∈ chain.names then Filter.stampRequest c request else request

def handedBack (chain : Chain ε) (c : Context) (response : Response) : Response :=
  if Filter.contextName ∈ chain.names then Filter.stampResponse c response else response

theorem handedBack_value (chain : Chain ε) (c : Context) (response : Response) :
    (chain.handedBack c response).value = response.value := by
  unfold handedBack
  split <;> rfl

theorem handedBack_error (chain : Chain ε) (c : Context) (response : Response) :
    (chain.handedBack c response).error = response.error := by
  unfold handedBack
  split <;> rfl

section

variable {c : Context} {rest : List (Filter ε)} (side : Side)

theorem passedOn_context (request : Request) :
    passedOn ⟨side, Filter.context c :: rest⟩ c request = Filter.stampRequest c request := by
  simp [passedOn, names, Filter.context]

theorem passedOn_logging (request : Request) :
    passedOn ⟨side, Filter.logging :: rest⟩ c request = passedOn ⟨side, rest⟩ c request := by
  have other : Filter.contextName ≠ Filter.loggingName := by decide
  simp [passedOn, names, Filter.logging, other]

theorem passedOn_stampRequest (chain : Chain ε) (request : Request) :
    chain.passedOn c (Filter.stampRequest c request) = Filter.stampRequest c request := by
  unfold passedOn
  split
  · simp only [Filter.stampRequest, Filter.stamp_stamp]
  · rfl

theorem handedBack_context (response : Response) :
    handedBack ⟨side, Filter.context c :: rest⟩ c response = Filter.stampResponse c response := by
  simp [handedBack, names, Filter.context]

theorem handedBack_logging :
    handedBack ⟨side, Filter.logging :: rest⟩ c = handedBack ⟨side, rest⟩ c := by
  have other : Filter.contextName ≠ Filter.loggingName := by decide
  funext response
  simp [handedBack, names, Filter.logging, other]

theorem stampResponse_handedBack (chain : Chain ε) (response : Response) :
    Filter.stampResponse c (chain.handedBack c response) = Filter.stampResponse c response := by
  unfold handedBack
  split
  · simp only [Filter.stampResponse, Filter.stamp_stamp]
  · rfl

theorem invoke_cons (view : View σ ε) (f : Filter ε) (terminal : Invoker σ) :
    invoke view ⟨side, f :: rest⟩ terminal =
      Filter.link side view f (invoke view ⟨side, rest⟩ terminal) := rfl

end

theorem BuiltIn.invoke_consumer {chain : Chain ε} {c : Context} (builtIn : chain.BuiltIn c)
    (side : c.side = .consumer) (view : View σ ε) (terminal : Invoker σ) (request : Request) :
    chain.invoke view terminal request = terminal (chain.passedOn c request) := by
  obtain ⟨own, filters⟩ := chain
  obtain ⟨rfl, members⟩ := builtIn
  induction filters generalizing request with
  | nil => rfl
  | cons f rest ih =>
      obtain ⟨first, others⟩ := List.forall_mem_cons.mp members
      rcases first with rfl | rfl
      · rw [invoke_cons, Filter.link_context_consumer side, passedOn_context]
        exact (ih _ others).trans (by rw [passedOn_stampRequest])
      · rw [invoke_cons, Filter.link_logging, passedOn_logging]
        exact ih request others

theorem BuiltIn.invoke_provider {chain : Chain ε} {c : Context} (builtIn : chain.BuiltIn c)
    (side : c.side = .provider) (view : View σ ε) (terminal : Invoker σ) (request : Request)
    (state : σ) :
    chain.invoke view terminal request state =
      ((terminal request state).1.map (chain.handedBack c), (terminal request state).2) := by
  obtain ⟨own, filters⟩ := chain
  obtain ⟨rfl, members⟩ := builtIn
  induction filters with
  | nil =>
      have same : handedBack ⟨c.side, ([] : List (Filter ε))⟩ c = id := rfl
      rw [same, Except.map_id]
      rfl
  | cons f rest ih =>
      obtain ⟨first, others⟩ := List.forall_mem_cons.mp members
      rcases first with rfl | rfl
      · rw [invoke_cons, Filter.link_context_provider side]
        simp only [ih others]
        cases (terminal request state).1 with
        | error failure => rfl
        | ok response => simp [Except.map, stampResponse_handedBack, handedBack_context]
      · rw [invoke_cons, Filter.link_logging, handedBack_logging]
        exact ih others

def builtInFilter (c : Context) (key : String) : Filter ε :=
  if key = Filter.contextName then Filter.context c else Filter.logging

theorem keys_catalog :
    (Filter.catalog ε false).keys = [Filter.contextName, Filter.loggingName] := by
  cbv

theorem definitions_catalog :
    (Filter.catalog ε false).definitions =
      (Dictionary.empty.insert Filter.contextName (Filter.contextDefinition false)).insert
        Filter.loggingName (Filter.loggingDefinition false) := by
  have other : Filter.contextName ≠ Filter.loggingName := by decide
  simp [Filter.catalog, Filter.emptyCatalog, Catalog.register, Catalog.new,
    Filter.contextDefinition, Filter.loggingDefinition, Dictionary.get?_insert, other]

theorem get_catalog (c : Context) (world : ε) {key : String}
    (known : key = Filter.contextName ∨ key = Filter.loggingName) :
    (Filter.catalog ε false).get key c world =
      ⟨.ok (builtInFilter c key), Filter.catalog ε false, world⟩ := by
  have other : Filter.loggingName ≠ Filter.contextName := by decide
  rcases known with rfl | rfl <;>
    simp [Catalog.get, definitions_catalog, Dictionary.get?_insert, Filter.contextDefinition,
      Filter.loggingDefinition, builtInFilter, other]

theorem catalog_get (c : Context) (key : String) (world : ε) :
    ((Filter.catalog ε false).get key c world).catalog = Filter.catalog ε false := by
  by_cases known : key = Filter.contextName ∨ key = Filter.loggingName
  · rw [get_catalog c world known]
  · have missing : (Filter.catalog ε false).contains key = false := by
      rw [← Bool.not_eq_true, ← Catalog.mem_keys_iff, keys_catalog]
      simpa using known
    rw [Catalog.get_of_missing _ missing]

theorem catalog_getAll (c : Context) (world : ε) (keys : List String) :
    (getAll c (Filter.catalog ε false) world keys).catalog = Filter.catalog ε false := by
  induction keys generalizing world with
  | nil => rfl
  | cons key rest ih =>
      simp only [getAll]
      split
      next => exact catalog_get c key world
      next =>
        rw [catalog_get]
        exact ih _

theorem catalog_choose (c : Context) (known : List (String × Filter ε)) (world : ε)
    (keys : List String) :
    (choose c known (Filter.catalog ε false) world keys).catalog = Filter.catalog ε false := by
  induction keys generalizing known world with
  | nil => rfl
  | cons key rest ih =>
      simp only [choose]
      split
      next => exact ih _ _
      next =>
        split
        next => exact catalog_get c key world
        next =>
          rw [catalog_get]
          exact ih _ _

theorem catalog_build (c : Context) (selection : String) (custom : List (Filter ε)) (world : ε) :
    (build (Filter.catalog ε false) c selection custom world).catalog = Filter.catalog ε false := by
  simp only [build]
  split
  next => exact catalog_getAll c world _
  next =>
    rw [catalog_getAll]
    exact catalog_choose c _ _ _

theorem lookUps_catalog (c : Context) (world : ε) :
    (Filter.catalog ε false).lookUps c world (Filter.catalog ε false).keys =
      (Filter.catalog ε false).keys.map fun key => (key, .ok (builtInFilter c key)) := by
  simp [keys_catalog, Catalog.lookUps, get_catalog]

theorem chosenKeys_catalog (c : Context) (selection : String) :
    chosenKeys (Filter.catalog ε false) c selection (builtInFilter c) =
      Overrides.apply [Filter.contextName, Filter.loggingName] selection := by
  have active : ∀ key, (builtInFilter c key : Filter ε).isActive c.side = true := by
    intro key
    rw [builtInFilter]
    split <;> cases c.side <;> rfl
  simp [chosenKeys, keys_catalog, active]

theorem loads_builtInFilter (c : Context) (key : String) :
    (builtInFilter c key : Filter ε).loads c = true := by
  rw [builtInFilter]
  split <;> rfl

theorem name_builtInFilter (c : Context) (key : String) :
    (builtInFilter c key : Filter ε).name = Filter.contextName ↔ key = Filter.contextName := by
  have other : Filter.loggingName ≠ Filter.contextName := by decide
  rw [builtInFilter]
  split
  next same => simp [same, Filter.context]
  next different => simp [different, Filter.logging, other]

end Chain

def Filter.Marks (selection : String) : Prop :=
  Filter.contextName ∈ Overrides.apply [Filter.contextName, Filter.loggingName] selection

namespace Chain

variable {ε : Type}

/-- A chain of the two filters as a selection takes them. -/
structure Chosen (chain : Chain ε) (c : Context) (selection : String) : Prop
    extends chain.BuiltIn c where
  context : Filter.contextName ∈ chain.names ↔ Filter.Marks selection

theorem chosen_of_build {c : Context} {selection : String} {world : ε} {chain : Chain ε}
    (built : (build (Filter.catalog ε false) c selection [] world).outcome = .ok chain) :
    chain.Chosen c selection := by
  obtain ⟨known, -, -, knows, outcome, -⟩ :=
    build_of_success (lookUps_catalog c world) selection []
  have distinct : (chosenKeys (Filter.catalog ε false) c selection (builtInFilter c)).Nodup :=
    nodup_chosenKeys (Filter.catalog ε false) selection (builtInFilter c)
  rw [built] at outcome
  by_cases present : ∀ key ∈ chosenKeys (Filter.catalog ε false) c selection (builtInFilter c),
      known.contains key = true
  · rw [choose_of_known distinct (fun key _ => knows key) present, chosenKeys_catalog] at outcome
    obtain rfl := Except.ok.inj outcome
    refine ⟨⟨rfl, fun f member => ?_⟩, ?_⟩
    · simp only [arrange, List.mem_mergeSort, List.mem_filter, List.append_nil, List.mem_map]
        at member
      obtain ⟨⟨key, -, rfl⟩, -⟩ := member
      rw [builtInFilter]
      split
      · exact .inl rfl
      · exact .inr rfl
    · simp [names, arrange, loads_builtInFilter, name_builtInFilter, Filter.Marks]
  · obtain ⟨before, key, after, parts, registered, missing⟩ := exists_first_of_not_forall present
    rw [parts] at outcome distinct
    rw [choose_of_missing distinct (fun name _ => knows name) registered
      (Bool.eq_false_iff.mpr missing)] at outcome
    cases outcome

end Chain

end Switchboard
