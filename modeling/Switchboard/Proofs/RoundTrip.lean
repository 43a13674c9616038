import Switchboard.Codec.Json
import Switchboard.Proofs.Trees
import Switchboard.Proofs.Utf8

/-! Payloads, requests and responses through the JSON codec and back. Reading what was written
comes down to making a record from the tree of the value that was written. A record costs a level
of the budget for itself, and what is in it is made or refused as its own depth says. -/
namespace Switchboard

open Text (Bytes)

namespace Json

variable {α : Type}

theorem toOption_readWith (make : Tree → Option α) (glyphs : List Text.Glyph) :
    (readWith make glyphs).toOption =
      (((Token.ofGlyphs glyphs).toOption.bind Tree.ofTokens?).bind make) := by
  unfold readWith
  cases Token.ofGlyphs glyphs with
  | error count => rfl
  | ok tokens =>
      simp only [Except.toOption, Option.bind_some]
      cases (Tree.ofTokens? tokens).bind make <;> rfl

theorem toOption_readWith_render (make : Tree → Option α) (v : Json) :
    (readWith make (Text.decode (Text.encode v.render))).toOption = (tree? v).bind make := by
  rw [Text.decode_encode, toOption_readWith, ofGlyphs_render]
  cases tree? v with
  | none => rfl
  | some t => simp [Tree.ofTokens?_lexemes]

end Json

namespace Codec

variable {α : Type}

theorem readJson_writeJson_iff (make : Nat → Json.Tree → Option α) (v : Json) (side : Side)
    (x : α) :
    readJson make (writeJson v) side = .ok x ↔
      ∃ t, Json.tree? v = some t ∧ make Json.nesting t = some x := by
  have whole := Json.toOption_readWith_render (make Json.nesting) v
  rw [← Option.bind_eq_some_iff, ← whole, readJson, writeJson]
  cases Json.readWith _ _ with
  | error malformed => simp [Except.toOption]
  | ok y => simp [Except.toOption]

theorem readJson_error {make : Nat → Json.Tree → Option α} {bytes : Bytes} {side : Side}
    {failure : Failure} (h : readJson make bytes side = .error failure) :
    ∃ message, failure = .decoding side message := by
  unfold readJson at h
  split at h
  · exact absurd h (by simp)
  · exact ⟨_, (Except.error.inj h).symm⟩

theorem readJson_refused {make : Nat → Json.Tree → Option α} {v : Json}
    (never : ∀ t, Json.tree? v = some t → make Json.nesting t = none) (side : Side) :
    ∃ message, readJson make (writeJson v) side = .error (.decoding side message) := by
  cases read : readJson make (writeJson v) side with
  | error failure =>
      obtain ⟨message, rfl⟩ := readJson_error read
      exact ⟨message, rfl⟩
  | ok x =>
      obtain ⟨t, form, made⟩ := (readJson_writeJson_iff make v side x).mp read
      rw [never t form] at made
      exact absurd made (by simp)

end Codec

/-- A payload whose value a reader can give: without floating point numbers, its whole numbers in
range and its members in order. -/
structure Payload.Portable (p : Payload) : Prop where
  free : p.value.FloatFree
  canonical : p.value.Canonical

namespace Json

open Switchboard.Json.Tree

def payloadTree (className : String) (value : Tree) : Tree :=
  .object [(some "class_name", .text (some className)), (some "value", value)]

def attachmentsTree (attachments : Dictionary String) : Tree :=
  .object (attachments.entries.map fun entry => (some entry.1, .text (some entry.2)))

theorem tree?_ofPayload (p : Payload) :
    tree? (ofPayload p) = (tree? p.value).map (payloadTree p.className) := by
  simp only [ofPayload, tree?, memberTrees?]
  cases tree? p.value <;> rfl

theorem payload?_payloadTree (className : String) (value : Tree) (budget : Nat) :
    payload? (budget + 1) (payloadTree className value) =
      (value.value? budget).map (Payload.mk className) := by
  have fields : fields? ["class_name", "value"] (payloadTree className value) =
      some [some (.text (some className)), some value] := rfl
  simp only [payload?, record?, fields, Option.bind_some]
  cases value.value? budget <;> rfl

theorem depth_ofPayload (p : Payload) : (ofPayload p).depth = p.value.depth + 1 := by
  simp [ofPayload, depth, membersDepth]

theorem payload?_of_fits {p : Payload} (portable : p.Portable) :
    ∃ t, tree? (ofPayload p) = some t ∧
      ∀ budget, (ofPayload p).depth ≤ budget → payload? budget t = some p := by
  obtain ⟨value, made, read⟩ := value?_of_fits p.value portable.free portable.canonical
  refine ⟨payloadTree p.className value, by rw [tree?_ofPayload, made]; rfl, fun budget fits => ?_⟩
  rw [depth_ofPayload] at fits
  obtain ⟨left, rfl⟩ : ∃ left, budget = left + 1 := ⟨budget - 1, by omega⟩
  rw [payload?_payloadTree, read left (by omega)]
  rfl

theorem payload?_of_deep {p : Payload} {t : Tree} (made : tree? (ofPayload p) = some t)
    {budget : Nat} (deep : budget < (ofPayload p).depth) : payload? budget t = none := by
  rw [tree?_ofPayload] at made
  obtain ⟨value, found, rfl⟩ := Option.map_eq_some_iff.mp made
  rw [depth_ofPayload] at deep
  cases budget with
  | zero => rfl
  | succ left =>
      rw [payload?_payloadTree, value?_of_deep p.value found (by omega)]
      rfl

theorem className_of_payload? {p made : Payload} {t : Tree} (form : tree? (ofPayload p) = some t)
    {budget : Nat} (h : payload? budget t = some made) : made.className = p.className := by
  rw [tree?_ofPayload] at form
  obtain ⟨value, -, rfl⟩ := Option.map_eq_some_iff.mp form
  cases budget with
  | zero => exact absurd h (by simp [payload?, record?])
  | succ left =>
      rw [payload?_payloadTree] at h
      obtain ⟨_, -, rfl⟩ := Option.map_eq_some_iff.mp h
      rfl

theorem arguments_of_fits {arguments : List Payload} (portable : ∀ p ∈ arguments, p.Portable) :
    ∃ trees, itemTrees? (arguments.map ofPayload) = some trees ∧
      ∀ budget, itemsDepth (arguments.map ofPayload) ≤ budget →
        trees.mapM (payload? budget) = some arguments := by
  induction arguments with
  | nil => exact ⟨[], rfl, fun _ _ => rfl⟩
  | cons p rest ih =>
      obtain ⟨first, madeFirst, readFirst⟩ := payload?_of_fits (portable p List.mem_cons_self)
      obtain ⟨others, madeOthers, readOthers⟩ :=
        ih fun other member => portable other (List.mem_cons_of_mem _ member)
      refine ⟨first :: others, ?_, fun budget fits => ?_⟩
      · rw [List.map_cons, itemTrees?, madeFirst, madeOthers]
        rfl
      · rw [List.map_cons, itemsDepth] at fits
        rw [List.mapM_cons, readFirst budget (by omega), readOthers budget (by omega)]
        rfl

theorem arguments_of_deep {arguments : List Payload} {trees : List Tree}
    (made : itemTrees? (arguments.map ofPayload) = some trees) {budget : Nat}
    (deep : budget < itemsDepth (arguments.map ofPayload)) :
    trees.mapM (payload? budget) = none := by
  induction arguments generalizing trees with
  | nil => exact absurd deep (Nat.not_lt_zero _)
  | cons p rest ih =>
      rw [List.map_cons, itemTrees?] at made
      obtain ⟨first, foundFirst, mapped⟩ := Option.bind_eq_some_iff.mp made
      obtain ⟨others, foundOthers, rfl⟩ := Option.map_eq_some_iff.mp mapped
      rw [List.map_cons, itemsDepth] at deep
      by_cases here : budget < (ofPayload p).depth
      · simp [List.mapM_cons, payload?_of_deep foundFirst here]
      · have later : budget < itemsDepth (rest.map ofPayload) := by omega
        simp [List.mapM_cons, ih foundOthers later]

theorem memberTrees?_texts (entries : List (String × String)) :
    memberTrees? (entries.map fun entry => (entry.1, text entry.2)) =
      some (entries.map fun entry => (some entry.1, .text (some entry.2))) := by
  induction entries with
  | nil => rfl
  | cons entry rest ih => simp [memberTrees?, tree?, ih]

theorem tree?_ofAttachments (attachments : Dictionary String) :
    tree? (ofAttachments attachments) = some (attachmentsTree attachments) := by
  rw [ofAttachments, tree?, memberTrees?_texts]
  rfl

theorem attachments?_attachmentsTree (attachments : Dictionary String) (budget : Nat) :
    attachments? (budget + 1) (attachmentsTree attachments) = some attachments := by
  have entries : (attachments.entries.map fun entry =>
      ((some entry.1, .text (some entry.2)) : Option String × Tree)).mapM (fun member => do
        let name ← member.1
        let content ← member.2.text?
        return (name, content)) = some attachments.entries := by
    rw [List.mapM_map]
    exact (List.mapM_pure (m := Option) (f := id)).trans (congrArg some (List.map_id _))
  rw [attachmentsTree, attachments?, entries]
  exact congrArg some (Dictionary.ofList_entries attachments)

theorem depth_ofAttachments (attachments : Dictionary String) :
    (ofAttachments attachments).depth = 1 := by
  have flat : ∀ entries : List (String × String),
      membersDepth (entries.map fun entry => (entry.1, text entry.2)) = 0 := by
    intro entries
    induction entries with
    | nil => rfl
    | cons entry rest ih => simp [membersDepth, depth, ih]
  rw [ofAttachments, depth, flat]

theorem tree?_ofRequest (r : Request) :
    tree? (ofRequest r) = (itemTrees? (r.arguments.map ofPayload)).map fun arguments =>
      .object [(some "service", .text (some r.service)), (some "method", .text (some r.method)),
        (some "args", .array arguments), (some "attachments", attachmentsTree r.attachments)] := by
  simp only [ofRequest, tree?, memberTrees?, tree?_ofAttachments]
  cases itemTrees? (r.arguments.map ofPayload) <;> rfl

theorem depth_ofRequest (r : Request) :
    (ofRequest r).depth = itemsDepth (r.arguments.map ofPayload) + 2 := by
  simp only [ofRequest, depth, membersDepth, depth_ofAttachments]
  omega

theorem request?_of_tree (r : Request) (arguments : List Tree) (budget : Nat) :
    request? (budget + 2) (.object [(some "service", .text (some r.service)),
      (some "method", .text (some r.method)), (some "args", .array arguments),
      (some "attachments", attachmentsTree r.attachments)]) =
        (arguments.mapM (payload? budget)).map fun arguments => { r with arguments } := by
  have fields : fields? ["service", "method", "args", "attachments"]
      (.object [(some "service", .text (some r.service)), (some "method", .text (some r.method)),
        (some "args", .array arguments), (some "attachments", attachmentsTree r.attachments)]) =
      some [some (.text (some r.service)), some (.text (some r.method)), some (.array arguments),
        some (attachmentsTree r.attachments)] := rfl
  simp only [request?, record?, fields, Option.bind_some, arguments?,
    attachments?_attachmentsTree]
  cases arguments.mapM (payload? budget) <;> rfl

theorem request?_of_fits {r : Request} (portable : ∀ p ∈ r.arguments, p.Portable) :
    ∃ t, tree? (ofRequest r) = some t ∧
      ∀ budget, (ofRequest r).depth ≤ budget → request? budget t = some r := by
  obtain ⟨arguments, made, read⟩ := arguments_of_fits portable
  refine ⟨_, by rw [tree?_ofRequest, made]; rfl, fun budget fits => ?_⟩
  rw [depth_ofRequest] at fits
  obtain ⟨left, rfl⟩ : ∃ left, budget = left + 2 := ⟨budget - 2, by omega⟩
  rw [request?_of_tree, read left (by omega)]
  rfl

theorem request?_of_deep {r : Request} {t : Tree} (made : tree? (ofRequest r) = some t)
    {budget : Nat} (deep : budget < (ofRequest r).depth) : request? budget t = none := by
  rw [tree?_ofRequest] at made
  obtain ⟨arguments, found, rfl⟩ := Option.map_eq_some_iff.mp made
  rw [depth_ofRequest] at deep
  match budget with
  | 0 => rfl
  | 1 => rfl
  | left + 2 =>
      rw [request?_of_tree, arguments_of_deep found (by omega)]
      rfl

def errorTree (error : Option String) : Tree := (error.map fun d => .text (some d)).getD .null

theorem tree?_ofResponse (r : Response) :
    tree? (ofResponse r) = (tree? ((r.value.map ofPayload).getD null)).map fun value =>
      .object [(some "value", value), (some "error", errorTree r.error),
        (some "attachments", attachmentsTree r.attachments)] := by
  have error : tree? ((r.error.map text).getD null) = some (errorTree r.error) := by
    cases r.error <;> rfl
  simp only [ofResponse, tree?, memberTrees?, error, tree?_ofAttachments]
  cases tree? ((r.value.map ofPayload).getD null) <;> rfl

theorem depth_ofResponse (r : Response) :
    (ofResponse r).depth = max ((r.value.map ofPayload).getD null).depth 1 + 1 := by
  have error : ((r.error.map text).getD null).depth = 0 := by
    cases r.error <;> rfl
  simp only [ofResponse, depth, membersDepth, error, depth_ofAttachments]
  omega

theorem optional?_errorTree (error : Option String) :
    optional? text? (some (errorTree error)) = some error := by
  cases error <;> rfl

theorem response?_of_tree (r : Response) (value : Tree) (budget : Nat) :
    response? (budget + 1) (.object [(some "value", value), (some "error", errorTree r.error),
      (some "attachments", attachmentsTree r.attachments)]) =
        if budget = 0 then none
        else (optional? (payload? budget) (some value)).map fun value => { r with value } := by
  have fields : fields? ["value", "error", "attachments"]
      (.object [(some "value", value), (some "error", errorTree r.error),
        (some "attachments", attachmentsTree r.attachments)]) =
      some [some value, some (errorTree r.error), some (attachmentsTree r.attachments)] := rfl
  simp only [response?, record?, fields, Option.bind_some, optional?_errorTree]
  cases budget with
  | zero => cases optional? (payload? 0) (some value) <;> rfl
  | succ left =>
      rw [if_neg (Nat.succ_ne_zero left), attachments?_attachmentsTree]
      cases optional? (payload? (left + 1)) (some value) <;> rfl

theorem optional?_of_payload {p : Payload} {t : Tree} (form : tree? (ofPayload p) = some t)
    (budget : Nat) : optional? (payload? budget) (some t) = (payload? budget t).map some := by
  rw [tree?_ofPayload] at form
  obtain ⟨value, -, rfl⟩ := Option.map_eq_some_iff.mp form
  rfl

theorem content_of_fits {value : Option Payload} (portable : ∀ p ∈ value, p.Portable) :
    ∃ t, tree? ((value.map ofPayload).getD null) = some t ∧
      ∀ budget, ((value.map ofPayload).getD null).depth ≤ budget →
        optional? (payload? budget) (some t) = some value := by
  cases value with
  | none => exact ⟨.null, rfl, fun _ _ => rfl⟩
  | some p =>
      obtain ⟨t, made, read⟩ := payload?_of_fits (portable p rfl)
      refine ⟨t, made, fun budget fits => ?_⟩
      rw [optional?_of_payload made, read budget fits]
      rfl

theorem content_of_deep {value : Option Payload} {t : Tree}
    (made : tree? ((value.map ofPayload).getD null) = some t) {budget : Nat}
    (deep : budget < ((value.map ofPayload).getD null).depth) :
    optional? (payload? budget) (some t) = none := by
  cases value with
  | none => exact absurd deep (Nat.not_lt_zero _)
  | some p =>
      rw [optional?_of_payload made, payload?_of_deep made deep]
      rfl

theorem response?_of_fits {r : Response} (portable : ∀ p ∈ r.value, p.Portable) :
    ∃ t, tree? (ofResponse r) = some t ∧
      ∀ budget, (ofResponse r).depth ≤ budget → response? budget t = some r := by
  obtain ⟨value, made, read⟩ := content_of_fits portable
  refine ⟨_, by rw [tree?_ofResponse, made]; rfl, fun budget fits => ?_⟩
  rw [depth_ofResponse] at fits
  obtain ⟨left, rfl⟩ : ∃ left, budget = left + 1 := ⟨budget - 1, by omega⟩
  rw [response?_of_tree, if_neg (by omega), read left (by omega)]
  rfl

theorem response?_of_deep {r : Response} {t : Tree} (made : tree? (ofResponse r) = some t)
    {budget : Nat} (deep : budget < (ofResponse r).depth) : response? budget t = none := by
  rw [tree?_ofResponse] at made
  obtain ⟨value, found, rfl⟩ := Option.map_eq_some_iff.mp made
  rw [depth_ofResponse] at deep
  cases budget with
  | zero => rfl
  | succ left =>
      rw [response?_of_tree]
      split
      · rfl
      · rw [content_of_deep found (by omega)]
        rfl

theorem className_of_content {value made : Option Payload} {t : Tree}
    (form : tree? ((value.map ofPayload).getD null) = some t) {budget : Nat}
    (h : optional? (payload? budget) (some t) = some made) :
    made.map (·.className) = value.map (·.className) := by
  cases value with
  | none =>
      obtain rfl : Tree.null = t := Option.some.inj form
      obtain rfl : none = made := Option.some.inj h
      rfl
  | some p =>
      rw [optional?_of_payload form] at h
      obtain ⟨q, read, rfl⟩ := Option.map_eq_some_iff.mp h
      exact congrArg some (className_of_payload? form read)

theorem className_of_response? {r made : Response} {t : Tree}
    (form : tree? (ofResponse r) = some t) {budget : Nat} (h : response? budget t = some made) :
    made.value.map (·.className) = r.value.map (·.className) := by
  rw [tree?_ofResponse] at form
  obtain ⟨value, found, rfl⟩ := Option.map_eq_some_iff.mp form
  cases budget with
  | zero => exact absurd h (by simp [response?, record?])
  | succ left =>
      rw [response?_of_tree] at h
      split at h
      · exact absurd h (by simp)
      · obtain ⟨content, read, rfl⟩ := Option.map_eq_some_iff.mp h
        exact className_of_content found read

end Json

namespace Codec

def Mismatch (expected : Option String) (payloads : List Payload) : Prop :=
  ∃ className ∈ expected, ∃ payload ∈ payloads, className ≠ payload.className

/-- What reading the text of `x` comes to, which is the text of the value `v` and carries the
payloads: `x` again unless arrays and objects are nested too deep in it or a class is mismatched,
and then a failure at the side that reads. -/
structure Returns (v : Json) (payloads : List Payload) (mismatch : Prop) (x : α)
    (read : Side → Outcome α) : Prop where
  kept : (∀ payload ∈ payloads, payload.Portable) → v.depth ≤ Json.nesting → ¬ mismatch →
    ∀ side, read side = .ok x
  refused : Json.nesting < v.depth ∨ mismatch →
    ∀ side, ∃ message, read side = .error (.decoding side message)

variable {expected : Option String} {payload : Payload}

theorem expect_of_matching (h : ∀ className ∈ expected, className = payload.className)
    (side : Side) : expect expected payload side = .ok () := by
  cases expected with
  | none => rfl
  | some className => rw [expect, if_pos (h className rfl)]

theorem expect_of_other {className : String} (h : className ≠ payload.className) (side : Side) :
    ∃ message, expect (some className) payload side = .error (.decoding side message) :=
  ⟨_, by rw [expect, if_neg h]⟩

theorem matching_of_expect {side : Side} (passed : expect expected payload side = .ok ()) :
    ∀ className ∈ expected, payload.className = className := by
  rintro className expects
  by_contra other
  obtain ⟨message, refused⟩ := expect_of_other (Ne.symm other) side
  rw [show expected = some className from expects, refused] at passed
  cases passed

theorem expected_of_decodeResponse {bytes : Bytes} {side : Side} {response : Response}
    (read : json.decodeResponse bytes expected side = .ok response) :
    ∀ payload ∈ response.value, ∀ className ∈ expected, payload.className = className := by
  simp only [json, bind, Except.bind] at read
  split at read
  next => cases read
  next found _ =>
    cases carried : found.value with
    | none =>
        rw [carried] at read
        obtain rfl : found = response := Except.ok.inj read
        simp [carried]
    | some payload =>
        simp only [carried] at read
        cases passed : expect expected payload side with
        | error failure => simp [passed] at read
        | ok done =>
            rw [passed] at read
            obtain rfl : found = response := Except.ok.inj read
            intro other member
            obtain rfl : payload = other := Option.some.inj (carried.symm.trans member)
            exact matching_of_expect passed

theorem not_mismatch_iff (expected : Option String) (payload : Payload) :
    ¬ Mismatch expected [payload] ↔ ∀ className ∈ expected, className = payload.className := by
  simp [Mismatch]

theorem returns_payload (payload : Payload) (expected : Option String) :
    Returns (.ofPayload payload) [payload] (Mismatch expected [payload]) payload
      (json.decode (writeJson (.ofPayload payload)) expected) where
  kept portable fits matching side := by
    obtain ⟨t, form, read⟩ := Json.payload?_of_fits (portable payload List.mem_cons_self)
    have whole := (readJson_writeJson_iff Json.Tree.payload? _ side payload).mpr
      ⟨t, form, read _ fits⟩
    have passed := expect_of_matching ((not_mismatch_iff expected payload).mp matching) side
    simp only [json, whole, bind, Except.bind, passed]
    rfl
  refused why side := by
    simp only [json]
    cases read : readJson Json.Tree.payload? (writeJson (.ofPayload payload)) side with
    | error failure =>
        obtain ⟨message, rfl⟩ := readJson_error read
        exact ⟨message, rfl⟩
    | ok found =>
        obtain ⟨t, form, made⟩ := (readJson_writeJson_iff _ _ side found).mp read
        rcases why with deep | ⟨className, rfl, other, member, different⟩
        · rw [Json.payload?_of_deep form deep] at made
          exact absurd made (by simp)
        · obtain rfl := List.mem_singleton.mp member
          rw [← Json.className_of_payload? form made] at different
          obtain ⟨message, refused⟩ := expect_of_other different side
          exact ⟨message, by simp only [bind, Except.bind, refused]⟩

theorem returns_request (request : Request) :
    Returns (.ofRequest request) request.arguments False request
      (json.decodeRequest (writeJson (.ofRequest request))) where
  kept portable fits _ side := by
    obtain ⟨t, form, read⟩ := Json.request?_of_fits portable
    exact (readJson_writeJson_iff Json.Tree.request? _ side request).mpr ⟨t, form, read _ fits⟩
  refused why side := by
    refine readJson_refused (fun t form => ?_) side
    exact Json.request?_of_deep form (why.resolve_right id)

theorem returns_response (response : Response) (expected : Option String) :
    Returns (.ofResponse response) response.value.toList
      (Mismatch expected response.value.toList) response
      (json.decodeResponse (writeJson (.ofResponse response)) expected) where
  kept portable fits matching side := by
    obtain ⟨t, form, read⟩ := Json.response?_of_fits fun payload member =>
      portable payload (Option.mem_toList.mpr member)
    have whole := (readJson_writeJson_iff Json.Tree.response? _ side response).mpr
      ⟨t, form, read _ fits⟩
    simp only [json, whole, bind, Except.bind]
    cases content : response.value with
    | none => rfl
    | some payload =>
        rw [content] at matching
        have passed := expect_of_matching ((not_mismatch_iff expected payload).mp matching) side
        simp only [passed]
        rfl
  refused why side := by
    simp only [json]
    cases read : readJson Json.Tree.response? (writeJson (.ofResponse response)) side with
    | error failure =>
        obtain ⟨message, rfl⟩ := readJson_error read
        exact ⟨message, rfl⟩
    | ok found =>
        obtain ⟨t, form, made⟩ := (readJson_writeJson_iff _ _ side found).mp read
        rcases why with deep | ⟨className, rfl, payload, member, different⟩
        · rw [Json.response?_of_deep form deep] at made
          exact absurd made (by simp)
        · have same := Json.className_of_response? form made
          rw [Option.mem_toList.mp member] at same
          obtain ⟨other, content, alike⟩ := Option.map_eq_some_iff.mp same
          have unlike : className ≠ other.className := fun same => different (same.trans alike)
          obtain ⟨message, refused⟩ := expect_of_other unlike side
          exact ⟨message, by simp only [bind, Except.bind, content, refused]⟩

theorem itemsDepth_le_iff (arguments : List Payload) (bound : Nat) :
    Json.itemsDepth (arguments.map .ofPayload) ≤ bound + 1 ↔
      ∀ payload ∈ arguments, payload.value.depth ≤ bound := by
  induction arguments with
  | nil => simp [Json.itemsDepth]
  | cons payload rest ih =>
      rw [List.map_cons, Json.itemsDepth, Json.depth_ofPayload, List.forall_mem_cons, ← ih]
      omega

theorem payload_within_nesting (payload : Payload) :
    (Json.ofPayload payload).depth ≤ Json.nesting ↔ payload.value.depth ≤ 126 := by
  rw [Json.depth_ofPayload, Json.nesting]
  omega

theorem request_within_nesting (request : Request) :
    (Json.ofRequest request).depth ≤ Json.nesting ↔
      ∀ payload ∈ request.arguments, payload.value.depth ≤ 124 := by
  rw [Json.depth_ofRequest, ← itemsDepth_le_iff, Json.nesting]
  omega

theorem response_within_nesting (response : Response) :
    (Json.ofResponse response).depth ≤ Json.nesting ↔
      ∀ payload ∈ response.value, payload.value.depth ≤ 125 := by
  rw [Json.depth_ofResponse, Json.nesting]
  cases response.value with
  | none => simp [Json.depth]
  | some payload =>
      simp only [Option.map_some, Option.getD_some, Json.depth_ofPayload, Option.mem_def,
        Option.some.injEq, forall_eq']
      omega

/-- Payloads, requests and responses are written without fail and read back as they were. The limit
of nesting leaves 126 levels to a payload, 124 to an argument, which stands in two objects and an
array, and 125 to the value of a response. -/
theorem json_round_trip :
    (∀ payload side, ∃ bytes, json.encode payload side = .ok bytes ∧ ∀ expected,
      Returns (.ofPayload payload) [payload] (Mismatch expected [payload]) payload
        (json.decode bytes expected)) ∧
    (∀ request side, ∃ bytes, json.encodeRequest request side = .ok bytes ∧
      Returns (.ofRequest request) request.arguments False request
        (json.decodeRequest bytes)) ∧
    (∀ response side, ∃ bytes, json.encodeResponse response side = .ok bytes ∧ ∀ expected,
      Returns (.ofResponse response) response.value.toList
        (Mismatch expected response.value.toList) response
        (json.decodeResponse bytes expected)) ∧
    (∀ payload, (Json.ofPayload payload).depth ≤ Json.nesting ↔ payload.value.depth ≤ 126) ∧
    (∀ request, (Json.ofRequest request).depth ≤ Json.nesting ↔
      ∀ payload ∈ request.arguments, payload.value.depth ≤ 124) ∧
    (∀ response, (Json.ofResponse response).depth ≤ Json.nesting ↔
      ∀ payload ∈ response.value, payload.value.depth ≤ 125) :=
  ⟨fun payload _ => ⟨_, rfl, returns_payload payload⟩,
    fun request _ => ⟨_, rfl, returns_request request⟩,
    fun response _ => ⟨_, rfl, returns_response response⟩,
    payload_within_nesting, request_within_nesting, response_within_nesting⟩

theorem json_round_trip_order :
    json.decodeRequest (writeJson (.ofRequest ⟨"echo", "ping",
      [⟨"shop.Order", .object [("id", .whole (-1)), ("name", .text "caf\u00e9\n")]⟩],
      .empty⟩)) .provider =
    .ok ⟨"echo", "ping",
      [⟨"shop.Order", .object [("id", .whole (-1)), ("name", .text "caf\u00e9\n")]⟩],
      .empty⟩ := by
  obtain ⟨bytes, written, read⟩ := json_round_trip.2.1 ⟨"echo", "ping",
    [⟨"shop.Order", .object [("id", .whole (-1)), ("name", .text "caf\u00e9\n")]⟩],
    .empty⟩ .consumer
  obtain rfl := Except.ok.inj written
  refine read.kept (fun payload member => ?_) (by decide) id .provider
  obtain rfl := List.mem_singleton.mp member
  have ascending : ("id" : String) < "name" := by decide
  have small : Json.InRange (-1) := by decide
  exact ⟨⟨trivial, trivial, trivial⟩, List.pairwise_pair.mpr ascending, small, trivial, trivial⟩

end Codec

end Switchboard
