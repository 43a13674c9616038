import Switchboard.Codec.Guarded
import Switchboard.Codec.Json
import Switchboard.Proofs.Gate

/-! A codec behind a gate lets through what the gate accepts and nothing else, and what it lets
through is what the codec gives. The six operations ask the gate at different places, but each of
them is one of two forms: all classes are asked for and then something is written, or something is
read and then all its classes are asked for. -/
namespace Switchboard

open Text (Bytes)

namespace Checked

variable {α β : Type}

theorem andThen_of_ok {c : Checked α} {value : α} (h : c.outcome = .ok value)
    (next : α → Gate → Checked β) :
    (c.andThen next).outcome = (next value c.gate).outcome := by
  unfold andThen
  rw [h]

theorem andThen_of_error {c : Checked α} {failure : Failure} (h : c.outcome = .error failure)
    (next : α → Gate → Checked β) : (c.andThen next).outcome = .error failure := by
  unfold andThen
  rw [h]

theorem andThen_eq_ok_iff (c : Checked α) (next : α → Gate → Checked β) (result : β) :
    (c.andThen next).outcome = .ok result ↔
      ∃ value, c.outcome = .ok value ∧ (next value c.gate).outcome = .ok result := by
  cases h : c.outcome with
  | ok value => simp [andThen_of_ok h]
  | error failure => simp [andThen_of_error h]

end Checked

namespace Gate

theorem checkAll_singleton (g : Gate) (className : String) (side : Side) :
    g.checkAll [className] side = g.check className side := by
  unfold checkAll checkAll Checked.andThen
  rcases answered : g.check className side with ⟨outcome, gate, warnings⟩
  cases outcome with
  | ok value => simp [Checked.done]
  | error failure => rfl

theorem Faithful.checkAll {g : Gate} (h : g.Faithful) (classNames : List String) (side : Side) :
    (g.checkAll classNames side).gate.Faithful := by
  induction classNames generalizing g with
  | nil => exact h
  | cons className rest ih =>
      rw [Gate.checkAll, Checked.andThen]
      split
      · exact h.check className side
      · exact ih (h.check className side)

theorem accepts_checkAll (g : Gate) (classNames : List String) (other : String) (side : Side) :
    (g.checkAll classNames side).gate.Accepts other ↔ g.Accepts other := by
  induction classNames generalizing g with
  | nil => exact Iff.rfl
  | cons className rest ih =>
      rw [checkAll, Checked.andThen]
      split
      · exact g.accepts_check className other side
      · exact (ih _).trans (g.accepts_check className other side)

theorem Faithful.checkAll_eq_ok_iff {g : Gate} (h : g.Faithful) (classNames : List String)
    (side : Side) :
    (g.checkAll classNames side).outcome = .ok () ↔
      ∀ className ∈ classNames, g.Accepts className := by
  induction classNames generalizing g with
  | nil => simp [Gate.checkAll, Checked.done]
  | cons className rest ih =>
      rw [Gate.checkAll, Checked.andThen_eq_ok_iff, List.forall_mem_cons]
      simp only [ih (h.check className side), accepts_check]
      constructor
      · rintro ⟨_, passed, others⟩
        exact ⟨(h.check_eq_ok_iff className side).mp passed, others⟩
      · rintro ⟨first, others⟩
        exact ⟨(), (h.check_eq_ok_iff className side).mpr first, others⟩

theorem Faithful.checkAll_eq_denied {g : Gate} (h : g.Faithful) {before : List String}
    {className : String} (accepted : ∀ known ∈ before, g.Accepts known)
    (refused : ¬ g.Accepts className) (rest : List String) (side : Side) :
    (g.checkAll (before ++ className :: rest) side).outcome = .error (.denied side className) := by
  induction before generalizing g with
  | nil =>
      rw [List.nil_append, Gate.checkAll]
      exact Checked.andThen_of_error ((h.check_eq_denied_iff className side).mpr refused) _
  | cons known others ih =>
      have first := (h.check_eq_ok_iff known side).mpr (accepted known List.mem_cons_self)
      rw [List.cons_append, Gate.checkAll, Checked.andThen_of_ok first]
      refine ih (h.check known side) (fun other member => ?_) ?_
      · exact (g.accepts_check known other side).mpr
          (accepted other (List.mem_cons_of_mem _ member))
      · exact fun may => refused ((g.accepts_check known className side).mp may)

/-- A gate as it comes about: made from two lists, then asked and overridden. -/
def Reached (g : Gate) : Prop :=
  ∃ mode allow deny past, g = (ofLists mode allow deny).after past

theorem Reached.faithful {g : Gate} (h : g.Reached) : g.Faithful := by
  obtain ⟨mode, allow, deny, past, rfl⟩ := h
  exact Faithful.after (faithful_of_forgotten rfl) past

end Gate

namespace Codec

variable {α : Type}

/-- Writing behind a gate: what is written has only accepted classes and is written as without the
gate, and the first class that is not accepted is reported. -/
structure Seals (g : Gate) (side : Side) (payloads : α → List Payload)
    (plain : α → Outcome Bytes) (guarded : α → Checked Bytes) : Prop where
  passed : ∀ x bytes, (guarded x).outcome = .ok bytes →
    (∀ payload ∈ payloads x, g.Accepts payload.className) ∧ plain x = .ok bytes
  refused : ∀ x before payload rest, payloads x = before ++ payload :: rest →
    (∀ known ∈ before, g.Accepts known.className) → ¬ g.Accepts payload.className →
      (guarded x).outcome = .error (.denied side payload.className)

/-- Reading behind a gate: what is read has only accepted classes and is read as without the gate,
and nothing is lost whose classes are accepted, those asked for beforehand included. -/
structure Opens (g : Gate) (expected : List String) (payloads : α → List Payload)
    (plain : Bytes → Outcome α) (guarded : Bytes → Checked α) : Prop where
  passed : ∀ bytes x, (guarded bytes).outcome = .ok x →
    (∀ payload ∈ payloads x, g.Accepts payload.className) ∧ plain bytes = .ok x
  admitted : ∀ bytes x, plain bytes = .ok x → (∀ className ∈ expected, g.Accepts className) →
    (∀ payload ∈ payloads x, g.Accepts payload.className) → (guarded bytes).outcome = .ok x

theorem seals {g : Gate} (h : g.Faithful) (side : Side) (payloads : α → List Payload)
    (plain : α → Outcome Bytes) :
    Seals g side payloads plain fun x =>
      (g.checkAll ((payloads x).map (·.className)) side).andThen fun _ gate =>
        .done (plain x) gate where
  passed x bytes written := by
    obtain ⟨_, asked, same⟩ := (Checked.andThen_eq_ok_iff ..).mp written
    have accepted := (h.checkAll_eq_ok_iff _ side).mp asked
    exact ⟨List.forall_mem_map.mp accepted, same⟩
  refused x before payload rest parts accepted refused := by
    refine Checked.andThen_of_error ?_ _
    rw [parts, List.map_append, List.map_cons]
    exact h.checkAll_eq_denied (List.forall_mem_map.mpr accepted) refused _ side

theorem opens {g : Gate} (h : g.Faithful) (side : Side) (expected : List String)
    (payloads : α → List Payload) (plain : Bytes → Outcome α) :
    Opens g expected payloads plain fun bytes =>
      (g.checkAll expected side).andThen fun _ gate =>
        (Checked.done (plain bytes) gate).andThen fun x gate =>
          (gate.checkAll ((payloads x).map (·.className)) side).andThen fun _ gate =>
            .done (.ok x) gate where
  passed bytes x read := by
    obtain ⟨_, -, afterwards⟩ := (Checked.andThen_eq_ok_iff ..).mp read
    obtain ⟨value, same, asking⟩ := (Checked.andThen_eq_ok_iff ..).mp afterwards
    obtain ⟨_, asked, given⟩ := (Checked.andThen_eq_ok_iff ..).mp asking
    obtain rfl : value = x := Except.ok.inj given
    have accepted := ((h.checkAll expected side).checkAll_eq_ok_iff _ side).mp asked
    simp only [Gate.accepts_checkAll] at accepted
    exact ⟨List.forall_mem_map.mp accepted, same⟩
  admitted bytes x same first accepted := by
    have before : (g.checkAll expected side).outcome = .ok () :=
      (h.checkAll_eq_ok_iff expected side).mpr first
    have asked : ((g.checkAll expected side).gate.checkAll ((payloads x).map (·.className))
        side).outcome = .ok () := by
      refine ((h.checkAll expected side).checkAll_eq_ok_iff _ side).mpr ?_
      simp only [Gate.accepts_checkAll]
      exact List.forall_mem_map.mpr accepted
    rw [Checked.andThen_of_ok before, Checked.andThen_of_ok (c := .done (plain bytes) _) same]
    exact Checked.andThen_of_ok asked _

theorem Response.classes_eq (r : Response) :
    Response.classes r = r.value.toList.map (·.className) := by
  unfold Response.classes
  cases r.value <;> rfl

/-- The JSON codec behind a gate, in any state that a gate can come to. -/
theorem json_behind_gate {g : Gate} (h : g.Reached) (side : Side) :
    Seals g side (fun payload => [payload]) (json.encode · side) (Guarded.encode json · side g) ∧
    Seals g side (fun request => request.arguments) (json.encodeRequest · side)
      (Guarded.encodeRequest json · side g) ∧
    Seals g side (fun response => response.value.toList) (json.encodeResponse · side)
      (Guarded.encodeResponse json · side g) ∧
    (∀ expected, Opens g expected.toList (fun payload => [payload])
      (json.decode · expected side) (Guarded.decode json · expected side g)) ∧
    Opens g [] (fun request => request.arguments) (json.decodeRequest · side)
      (Guarded.decodeRequest json · side g) ∧
    (∀ expected, Opens g [] (fun response => response.value.toList)
      (json.decodeResponse · expected side) (Guarded.decodeResponse json · expected side g)) := by
  have faithful := h.faithful
  refine ⟨?_, seals faithful side .., ?_, fun expected => ?_, opens faithful side [] ..,
    fun expected => ?_⟩
  · have form := seals faithful side (fun payload => [payload]) (json.encode · side)
    simp only [List.map_cons, List.map_nil, Gate.checkAll_singleton] at form
    exact form
  · have form := seals faithful side (fun response => response.value.toList)
      (json.encodeResponse · side)
    simp only [← Response.classes_eq] at form
    exact form
  · have form := opens faithful side expected.toList (fun payload => [payload])
      (json.decode · expected side)
    simp only [List.map_cons, List.map_nil, Gate.checkAll_singleton] at form
    exact form
  · have form := opens faithful side [] (fun response => response.value.toList)
      (json.decodeResponse · expected side)
    simp only [← Response.classes_eq] at form
    exact form

theorem json_behind_gate_widened :
    ((Gate.ofLists .strict [] ["shop.Evil"]).after [.overrideAllow "shop."]).Reached ∧
    (Guarded.encodeRequest json
      ⟨"echo", "ping", [⟨"shop.Order", .null⟩, ⟨"shop.EvilOrder", .null⟩], .empty⟩ .consumer
      ((Gate.ofLists .strict [] ["shop.Evil"]).after [.overrideAllow "shop."])).outcome =
        .error (.denied .consumer "shop.EvilOrder") := by
  have reached : ((Gate.ofLists .strict [] ["shop.Evil"]).after
      [.overrideAllow "shop."]).Reached := ⟨_, _, _, _, rfl⟩
  refine ⟨reached, ?_⟩
  refine (json_behind_gate reached .consumer).2.1.refused _ [⟨"shop.Order", .null⟩]
    ⟨"shop.EvilOrder", .null⟩ [] rfl ?_ ?_
  · intro known member
    rw [List.mem_singleton.mp member, ← Gate.judge_eq_allow_iff _ _ .consumer]
    decide
  · rw [← Gate.judge_eq_allow_iff _ _ .consumer]
    decide

end Codec

end Switchboard
