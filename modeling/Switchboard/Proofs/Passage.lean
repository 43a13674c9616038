import Switchboard.Hub
import Switchboard.Proofs.Guarded
import Switchboard.Proofs.RoundTrip

/-! Messages in JSON at a gate. With all its classes accepted a message passes as if there were no
gate, and otherwise the first class that is not accepted is reported. Asking a gate changes neither
its lists nor whether its memory agrees with them, so what a gate accepts at the beginning of a call
it accepts throughout. -/
namespace Switchboard

open Text (Bytes)

section

variable {σ α β γ : Type}

theorem proceed_ok {done : Outcome α × σ} {value : α} (h : done.1 = .ok value)
    (next : α → σ → Outcome β × σ) : proceed done next = next value done.2 := by
  obtain ⟨outcome, state⟩ := done
  subst h
  rfl

theorem proceed_error {done : Outcome α × σ} {failure : Failure} (h : done.1 = .error failure)
    (next : α → σ → Outcome β × σ) : proceed done next = (.error failure, done.2) := by
  obtain ⟨outcome, state⟩ := done
  subst h
  rfl

theorem exists_of_proceed_ok {done : Outcome α × σ} {next : α → σ → Outcome β × σ} {result : β}
    (h : (proceed done next).1 = .ok result) :
    ∃ value, done.1 = .ok value ∧ (next value done.2).1 = .ok result := by
  obtain ⟨failure | value, state⟩ := done
  · cases h
  · exact ⟨value, rfl, h⟩

theorem proceed_proceed (done : Outcome α × σ) (next : α → σ → Outcome β × σ)
    (last : β → σ → Outcome γ × σ) :
    proceed (proceed done next) last =
      proceed done fun value state => proceed (next value state) last := by
  obtain ⟨failure | value, state⟩ := done <;> rfl

end

theorem exists_first_of_not_forall {α : Type} {kind : α → Prop} {list : List α}
    (h : ¬ ∀ x ∈ list, kind x) :
    ∃ before x rest, list = before ++ x :: rest ∧ (∀ y ∈ before, kind y) ∧ ¬ kind x := by
  induction list with
  | nil => exact absurd (by simp) h
  | cons x others ih =>
      by_cases own : kind x
      · obtain ⟨before, y, rest, rfl, alike, other⟩ :=
          ih fun all => h (List.forall_mem_cons.mpr ⟨own, all⟩)
        exact ⟨x :: before, y, rest, rfl, List.forall_mem_cons.mpr ⟨own, alike⟩, other⟩
      · exact ⟨[], x, others, rfl, by simp, own⟩

namespace Gate

/-- A gate and what it has become by being asked. -/
structure Onward (g next : Gate) : Prop where
  faithful : g.Faithful → next.Faithful
  accepts : ∀ className, next.Accepts className ↔ g.Accepts className

variable {g next last : Gate}

theorem Onward.refl (g : Gate) : Onward g g := ⟨id, fun _ => Iff.rfl⟩

theorem Onward.trans (first : Onward g next) (second : Onward next last) : Onward g last :=
  ⟨second.faithful ∘ first.faithful,
    fun className => (second.accepts className).trans (first.accepts className)⟩

theorem onward_checkAll (g : Gate) (classNames : List String) (side : Side) :
    Onward g (g.checkAll classNames side).gate :=
  ⟨fun h => h.checkAll classNames side, fun other => g.accepts_checkAll classNames other side⟩

theorem Onward.andThen {α β : Type} {c : Checked α} {goOn : α → Gate → Checked β}
    (first : Onward g c.gate) (second : ∀ value, Onward c.gate (goOn value c.gate).gate) :
    Onward g (c.andThen goOn).gate := by
  rw [Checked.andThen]
  cases c.outcome with
  | error failure => exact first
  | ok value => exact first.trans (second value)

end Gate

def FirstRefused (g : Gate) (payloads : List Payload) (payload : Payload) : Prop :=
  ∃ before rest, payloads = before ++ payload :: rest ∧
    (∀ known ∈ before, g.Accepts known.className) ∧ ¬ g.Accepts payload.className

theorem exists_firstRefused {g : Gate} {payloads : List Payload}
    (h : ¬ ∀ payload ∈ payloads, g.Accepts payload.className) :
    ∃ payload, FirstRefused g payloads payload := by
  obtain ⟨before, payload, rest, parts, known, unknown⟩ := exists_first_of_not_forall h
  exact ⟨payload, before, rest, parts, known, unknown⟩

theorem FirstRefused.mem {g : Gate} {payloads : List Payload} {payload : Payload}
    (first : FirstRefused g payloads payload) : payload ∈ payloads := by
  obtain ⟨before, rest, rfl, -⟩ := first
  exact List.mem_append_right before List.mem_cons_self

theorem FirstRefused.refused {g : Gate} {payloads : List Payload} {payload : Payload}
    (first : FirstRefused g payloads payload) : ¬ g.Accepts payload.className := by
  obtain ⟨_, _, _, _, refused⟩ := first
  exact refused

namespace Codec

variable {g : Gate} {side : Side}

theorem checkAll_of_accepted (faithful : g.Faithful) {payloads : List Payload}
    (accepted : ∀ payload ∈ payloads, g.Accepts payload.className) (side : Side) :
    (g.checkAll (payloads.map (·.className)) side).outcome = .ok () :=
  (faithful.checkAll_eq_ok_iff _ side).mpr (List.forall_mem_map.mpr accepted)

theorem checkAll_of_refused (faithful : g.Faithful) {payloads : List Payload} {payload : Payload}
    (refused : FirstRefused g payloads payload) (side : Side) :
    (g.checkAll (payloads.map (·.className)) side).outcome =
      .error (.denied side payload.className) := by
  obtain ⟨before, rest, rfl, known, unknown⟩ := refused
  rw [List.map_append, List.map_cons]
  exact faithful.checkAll_eq_denied (List.forall_mem_map.mpr known) unknown _ side

theorem encodeRequest_of_accepted (faithful : g.Faithful) {request : Request}
    (accepted : ∀ payload ∈ request.arguments, g.Accepts payload.className) (side : Side) :
    (Guarded.encodeRequest json request side g).outcome = .ok (writeJson (.ofRequest request)) :=
  Checked.andThen_of_ok (checkAll_of_accepted faithful accepted side) _

theorem encodeRequest_of_refused (faithful : g.Faithful) {request : Request} {payload : Payload}
    (refused : FirstRefused g request.arguments payload) (side : Side) :
    (Guarded.encodeRequest json request side g).outcome = .error (.denied side payload.className) :=
  Checked.andThen_of_error (checkAll_of_refused faithful refused side) _

theorem decodeRequest_of_error {bytes : Bytes} {failure : Failure}
    (unread : json.decodeRequest bytes side = .error failure) (g : Gate) :
    (Guarded.decodeRequest json bytes side g).outcome = .error failure :=
  Checked.andThen_of_error (c := .done _ g) unread _

theorem decodeRequest_of_accepted (faithful : g.Faithful) {bytes : Bytes} {request : Request}
    (read : json.decodeRequest bytes side = .ok request)
    (accepted : ∀ payload ∈ request.arguments, g.Accepts payload.className) :
    (Guarded.decodeRequest json bytes side g).outcome = .ok request :=
  (Checked.andThen_of_ok (c := .done _ g) read _).trans
    (Checked.andThen_of_ok (checkAll_of_accepted faithful accepted side) _)

theorem decodeRequest_of_refused (faithful : g.Faithful) {bytes : Bytes} {request : Request}
    (read : json.decodeRequest bytes side = .ok request) {payload : Payload}
    (refused : FirstRefused g request.arguments payload) :
    (Guarded.decodeRequest json bytes side g).outcome =
      .error (.denied side payload.className) :=
  (Checked.andThen_of_ok (c := .done _ g) read _).trans
    (Checked.andThen_of_error (checkAll_of_refused faithful refused side) _)

theorem checkAll_response_of_accepted (faithful : g.Faithful) {response : Response}
    (accepted : ∀ payload ∈ response.value, g.Accepts payload.className) (side : Side) :
    (g.checkAll (Response.classes response) side).outcome = .ok () := by
  rw [Response.classes_eq]
  exact checkAll_of_accepted faithful
    (fun payload member => accepted payload (Option.mem_toList.mp member)) side

theorem encodeResponse_of_accepted (faithful : g.Faithful) {response : Response}
    (accepted : ∀ payload ∈ response.value, g.Accepts payload.className) (side : Side) :
    (Guarded.encodeResponse json response side g).outcome =
      .ok (writeJson (.ofResponse response)) :=
  Checked.andThen_of_ok (checkAll_response_of_accepted faithful accepted side) _

theorem encodeResponse_of_refused (faithful : g.Faithful) {response : Response}
    {payload : Payload} (carried : response.value = some payload)
    (refused : ¬ g.Accepts payload.className) (side : Side) :
    (Guarded.encodeResponse json response side g).outcome =
      .error (.denied side payload.className) := by
  refine Checked.andThen_of_error ?_ _
  rw [Response.classes_eq, carried]
  exact checkAll_of_refused faithful ⟨[], [], rfl, by simp, refused⟩ side

theorem decodeResponse_of_accepted (faithful : g.Faithful) {bytes : Bytes}
    {expected : Option String} {response : Response}
    (read : json.decodeResponse bytes expected side = .ok response)
    (accepted : ∀ payload ∈ response.value, g.Accepts payload.className) :
    (Guarded.decodeResponse json bytes expected side g).outcome = .ok response :=
  (Checked.andThen_of_ok (c := .done _ g) read _).trans
    (Checked.andThen_of_ok (checkAll_response_of_accepted faithful accepted side) _)

theorem decodeResponse_eq_ok_iff (faithful : g.Faithful) {bytes : Bytes}
    {expected : Option String} {response : Response} :
    (Guarded.decodeResponse json bytes expected side g).outcome = .ok response ↔
      json.decodeResponse bytes expected side = .ok response ∧
        ∀ payload ∈ response.value, g.Accepts payload.className := by
  refine ⟨fun passed => ?_, fun both => decodeResponse_of_accepted faithful both.1 both.2⟩
  obtain ⟨found, read, asking⟩ := (Checked.andThen_eq_ok_iff ..).mp passed
  obtain ⟨_, asked, given⟩ := (Checked.andThen_eq_ok_iff ..).mp asking
  obtain rfl : found = response := Except.ok.inj given
  rw [Checked.done, Response.classes_eq, faithful.checkAll_eq_ok_iff, List.forall_mem_map] at asked
  exact ⟨read, fun payload member => asked payload (Option.mem_toList.mpr member)⟩

theorem onward_encodeRequest (c : Codec) (request : Request) (side : Side) (g : Gate) :
    g.Onward (Guarded.encodeRequest c request side g).gate :=
  (g.onward_checkAll _ side).andThen fun _ => .refl _

theorem onward_decodeRequest (c : Codec) (bytes : Bytes) (side : Side) (g : Gate) :
    g.Onward (Guarded.decodeRequest c bytes side g).gate :=
  (Gate.Onward.refl g).andThen fun _ => (g.onward_checkAll _ side).andThen fun _ => .refl _

theorem onward_decodeResponse (c : Codec) (bytes : Bytes) (expected : Option String) (side : Side)
    (g : Gate) : g.Onward (Guarded.decodeResponse c bytes expected side g).gate :=
  (Gate.Onward.refl g).andThen fun _ => (g.onward_checkAll _ side).andThen fun _ => .refl _

theorem onward_encodeResponse (c : Codec) (response : Response) (side : Side) (g : Gate) :
    g.Onward (Guarded.encodeResponse c response side g).gate :=
  (g.onward_checkAll _ side).andThen fun _ => .refl _

end Codec

namespace Hub

variable {ε α : Type}

theorem outcome_guarded (h : Hub ε) (ask : Gate → Checked α) :
    (h.guarded ask).1 = (ask h.gate).outcome := rfl

theorem world_guarded (h : Hub ε) (ask : Gate → Checked α) :
    (h.guarded ask).2.world = h.world := rfl

end Hub

end Switchboard
