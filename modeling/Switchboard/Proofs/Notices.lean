import Mathlib.Data.List.Nodup
import Switchboard.Proofs.Gate

/-! The warnings of a gate. A gate that only warns says what is due by its lists when it is asked
for a name that it does not remember, and it remembers the names that were the first to be checked
since the last override, as many as there is room for. So these give one warning at most until the
next override, and all later names give theirs at each check. A gate of another mode never warns,
and the side of a check shows in its warning only. -/
namespace Switchboard

def Warning.className? : Warning → Option String
  | blacklisted className _ => some className
  | unlisted className _ => some className
  | _ => none

namespace Gate

instance (entries : List String) (className : String) : Decidable (Covers entries className) :=
  decidable_of_iff _ (matchesAny_iff entries className)

/-- The warnings that two lists call for, without any memory. -/
def due (allow deny : List String) (className : String) (side : Side) : List Warning :=
  if Covers deny className then [.blacklisted className side]
  else if allow = [] ∨ Covers allow className then []
  else [.unlisted className side]

theorem judge_warnings (g : Gate) (className : String) (side : Side) :
    (g.judge className side).2 =
      if g.mode = .warn then due g.allow g.deny className side else [] := by
  unfold judge due
  cases mode : g.mode with
  | disable => rfl
  | strict => rfl
  | warn =>
      simp only [← matchesAny_iff, if_true]
      by_cases denied : matchesAny g.deny className = true
      · simp [denied]
      · cases g.allow <;> simp [denied]
        split <;> simp_all

theorem className?_of_mem_due {allow deny : List String} {className : String} {side : Side}
    {warning : Warning} (said : warning ∈ due allow deny className side) :
    warning.className? = some className := by
  unfold due at said
  split at said
  · rw [List.mem_singleton.mp said]
    rfl
  · split at said
    · cases said
    · rw [List.mem_singleton.mp said]
      rfl

theorem message_due (allow deny : List String) (className : String) (side other : Side) :
    (due allow deny className side).map Warning.message =
      (due allow deny className other).map Warning.message := by
  unfold due
  split
  · rfl
  · split <;> rfl

/-! ### The names that are remembered -/

/-- Names in the order of their first checks, with one act more. An override makes a new start. -/
def line (names : List String) : Act → List String
  | .check className _ => if className ∈ names then names else names ++ [className]
  | .overrideAllow _ => []
  | .overrideDeny _ => []

def firstChecks (past : List Act) : List String := past.foldl line []

/-- A gate remembers the first of the names, as many as there is room for. -/
structure Recalls (g : Gate) (names : List String) : Prop where
  nodup : names.Nodup
  mem_iff : ∀ className, className ∈ g.cache.keys ↔ className ∈ names.take capacity

theorem recalls_of_forgotten {g : Gate} (h : g.cache = .empty) : g.Recalls [] := by
  refine ⟨List.nodup_nil, fun className => ?_⟩
  rw [h, List.take_nil]
  rfl

variable {g : Gate} {names : List String} {className : String}

theorem Recalls.cached_eq (h : g.Recalls names) : g.cached = min capacity names.length := by
  have same : g.cache.keys.Perm (names.take capacity) :=
    (List.perm_ext_iff_of_nodup g.cache.nodup_keys (h.nodup.sublist (List.take_sublist _ _))).mpr
      h.mem_iff
  rw [cached_eq_length, same.length_eq, List.length_take]

theorem Recalls.get?_eq_none_iff (h : g.Recalls names) :
    g.cache.get? className = none ↔ className ∉ names.take capacity := by
  rw [← h.mem_iff, Dictionary.mem_keys_iff, Option.not_isSome_iff_eq_none]

theorem nodup_line (nodup : names.Nodup) (act : Act) : (line names act).Nodup := by
  cases act with
  | check className side =>
      rw [line]
      split
      next => exact nodup
      next new => exact List.concat_eq_append ▸ nodup.concat new
  | overrideAllow text => exact List.nodup_nil
  | overrideDeny text => exact List.nodup_nil

theorem take_line_of_full (full : capacity ≤ names.length) (className : String) (side : Side) :
    (line names (.check className side)).take capacity = names.take capacity := by
  rw [line]
  split
  · rfl
  · exact List.take_append_of_le_length full

theorem Recalls.check (h : g.Recalls names) (on : g.mode ≠ .disable) (className : String)
    (side : Side) :
    (g.check className side).gate.Recalls (line names (.check className side)) := by
  refine ⟨nodup_line h.nodup _, fun other => ?_⟩
  rcases g.check_cases className side with ⟨off, -⟩ | ⟨verdict, -, found, done⟩ | ⟨-, fresh, done⟩
  · exact absurd off on
  · have known : className ∈ names.take capacity :=
      (h.mem_iff className).mp ((g.cache.mem_keys_iff className).mpr (by rw [found]; rfl))
    rw [done, line, if_pos (List.mem_of_mem_take known)]
    exact h.mem_iff other
  · have unknown := h.get?_eq_none_iff.mp fresh
    have size := h.cached_eq
    rw [done]
    by_cases room : names.length < capacity
    · have new : className ∉ names := by rwa [List.take_of_length_le (by omega)] at unknown
      have grown : g.remember className (g.judge className side).1 =
          { g with cache := g.cache.insert className (g.judge className side).1 } :=
        if_pos (by omega)
      rw [grown, line, if_neg new, List.take_of_length_le (by simp; omega),
        Dictionary.mem_keys_insert, h.mem_iff, List.take_of_length_le (by omega), List.mem_append,
        List.mem_singleton, or_comm]
    · have full : g.remember className (g.judge className side).1 = g := if_neg (by omega)
      rw [full, take_line_of_full (by omega)]
      exact h.mem_iff other

theorem mode_perform (g : Gate) (act : Act) : (g.perform act).mode = g.mode := by
  cases act with
  | check className side => rw [perform, check_gate_eq]
  | overrideAllow text => rfl
  | overrideDeny text => rfl

theorem Recalls.perform (h : g.Recalls names) (on : g.mode ≠ .disable) (act : Act) :
    (g.perform act).Recalls (line names act) := by
  cases act with
  | check className side => exact h.check on className side
  | overrideAllow text => exact recalls_of_forgotten rfl
  | overrideDeny text => exact recalls_of_forgotten rfl

theorem Recalls.after (h : g.Recalls names) (on : g.mode ≠ .disable) (past : List Act) :
    (g.after past).Recalls (past.foldl line names) := by
  induction past generalizing g names with
  | nil => exact h
  | cons act rest ih => exact ih (h.perform on act) (by rwa [mode_perform])

/-! ### The warnings of one check and of a run -/

theorem Recalls.warnings_check (h : g.Recalls names) (className : String) (side : Side) :
    (g.check className side).warnings =
      if g.mode = .warn ∧ className ∉ names.take capacity
      then due g.allow g.deny className side else [] := by
  rcases g.check_cases className side with ⟨off, done⟩ | ⟨_, -, found, done⟩ | ⟨-, fresh, done⟩
  · rw [done, if_neg (by simp [off])]
    rfl
  · have known : ¬ className ∉ names.take capacity :=
      mt h.get?_eq_none_iff.mpr (by simp [found])
    rw [done, if_neg (known ∘ And.right)]
    rfl
  · rw [done]
    simp only [judge_warnings, h.get?_eq_none_iff.mp fresh, not_false_eq_true, and_true]

theorem warnings_check_of_ne_warn (quiet : g.mode ≠ .warn) (className : String) (side : Side) :
    (g.check className side).warnings = [] := by
  rcases g.check_cases className side with ⟨-, done⟩ | ⟨_, -, -, done⟩ | ⟨-, -, done⟩
  · rw [done]
    rfl
  · rw [done]
    rfl
  · rw [done]
    exact (g.judge_warnings className side).trans (if_neg quiet)

def told (g : Gate) : Act → List Warning
  | .check className side => (g.check className side).warnings
  | .overrideAllow _ => []
  | .overrideDeny _ => []

def toldAlong : Gate → List Act → List Warning
  | _, [] => []
  | g, act :: rest => g.told act ++ toldAlong (g.perform act) rest

theorem toldAlong_of_ne_warn (quiet : g.mode ≠ .warn) (acts : List Act) :
    g.toldAlong acts = [] := by
  induction acts generalizing g with
  | nil => rfl
  | cons act rest ih =>
      have nothing : g.told act = [] := by
        cases act with
        | check className side => exact warnings_check_of_ne_warn quiet className side
        | overrideAllow text => rfl
        | overrideDeny text => rfl
      rw [toldAlong, nothing, ih (by rwa [mode_perform]), List.append_nil]

def mentions (className : String) (warnings : List Warning) : Nat :=
  warnings.countP (·.className? = some className)

def checks (stretch : List (String × Side)) : List Act := stretch.map fun c => .check c.1 c.2

theorem mentions_due (allow deny : List String) (className : String) (side : Side) :
    mentions className (due allow deny className side) = (due allow deny className side).length :=
  List.countP_eq_length.mpr fun _ said => by simp [className?_of_mem_due said]

theorem mentions_due_of_ne {other : String} (different : other ≠ className)
    (allow deny : List String) (side : Side) :
    mentions className (due allow deny other side) = 0 :=
  List.countP_eq_zero.mpr fun _ said => by simp [className?_of_mem_due said, different]

theorem length_due_side (allow deny : List String) (className : String) (side other : Side) :
    (due allow deny className side).length = (due allow deny className other).length := by
  simpa using congrArg List.length (message_due allow deny className side other)

theorem prefix_line (names : List String) (stretch : List (String × Side)) :
    names <+: (checks stretch).foldl line names := by
  induction stretch generalizing names with
  | nil => exact List.prefix_refl names
  | cons first rest ih =>
      refine List.IsPrefix.trans ?_ (ih _)
      rw [line]
      split
      · exact List.prefix_refl names
      · exact List.prefix_append names _

/-- How often a class is warned about in a stretch of checks, if a warning is due for it: never
while it is remembered, once if it is remembered in the end, and else at each check. -/
def occasions (names : List String) (stretch : List (String × Side)) (className : String) : Nat :=
  if className ∈ names.take capacity then 0
  else if className ∈ ((checks stretch).foldl line names).take capacity then 1
  else (stretch.map (·.1)).count className

theorem take_line_prefix (names : List String) (stretch : List (String × Side)) :
    names.take capacity <+: ((checks stretch).foldl line names).take capacity :=
  (prefix_line names stretch).take capacity

theorem occasions_nil (names : List String) (className : String) :
    occasions names [] className = 0 := by
  unfold occasions
  split
  · rfl
  next absent => exact if_neg absent

theorem occasions_cons (names : List String) (first : String × Side)
    (rest : List (String × Side)) (className : String) :
    occasions names (first :: rest) className =
      (if first.1 = className ∧ className ∉ names.take capacity then 1 else 0) +
        occasions (line names (.check first.1 first.2)) rest className := by
  obtain ⟨other, side⟩ := first
  have last : (checks ((other, side) :: rest)).foldl line names =
      (checks rest).foldl line (line names (.check other side)) := rfl
  have next := take_line_prefix (line names (.check other side)) rest
  have start : names.take capacity <+: (line names (.check other side)).take capacity :=
    take_line_prefix names [(other, side)]
  unfold occasions
  rw [last, List.map_cons, List.count_cons]
  by_cases known : className ∈ names.take capacity
  · simp [known, start.subset known]
  · by_cases same : other = className
    · subst same
      by_cases entered : other ∈ (line names (.check other side)).take capacity
      · simp [known, entered, next.subset entered]
      · -- the name is in line but not remembered, so there is no room and nothing changes
        have full : capacity ≤ (line names (.check other side)).length := by
          by_contra room
          rw [List.take_of_length_le (by omega), line] at entered
          split at entered
          next listed => exact entered listed
          next => exact entered (List.mem_append_right _ List.mem_cons_self)
        have fixed := next.eq_of_length (by
          have grown := (prefix_line (line names (.check other side)) rest).length_le
          rw [List.length_take, List.length_take]
          omega)
        simp [known, entered, ← fixed, Nat.add_comm]
    · have absent : className ∉ (line names (.check other side)).take capacity := by
        intro entered
        rw [line] at entered
        split at entered
        · exact known entered
        · rw [List.take_append, List.mem_append] at entered
          rcases entered with before | new
          · exact known before
          · exact same (List.mem_singleton.mp (List.mem_of_mem_take new)).symm
      simp [known, absent, same]

theorem Recalls.mentions_check (h : g.Recalls names) (warns : g.mode = .warn) (other : String)
    (seen : Side) (className : String) (side : Side) :
    mentions className (g.check other seen).warnings =
      (if other = className ∧ className ∉ names.take capacity then 1 else 0) *
        (due g.allow g.deny className side).length := by
  rw [h.warnings_check, warns]
  by_cases known : other ∈ names.take capacity
  · rw [if_neg (by simp [known]), if_neg (by rintro ⟨rfl, new⟩; exact new known), Nat.zero_mul]
    rfl
  · rw [if_pos ⟨rfl, known⟩]
    by_cases same : other = className
    · subst same
      rw [if_pos ⟨rfl, known⟩, Nat.one_mul, mentions_due, length_due_side]
    · rw [if_neg (same ·.1), Nat.zero_mul, mentions_due_of_ne same]

theorem Recalls.mentions_toldAlong (h : g.Recalls names) (warns : g.mode = .warn)
    (stretch : List (String × Side)) (className : String) (side : Side) :
    mentions className (g.toldAlong (checks stretch)) =
      occasions names stretch className * (due g.allow g.deny className side).length := by
  induction stretch generalizing g names with
  | nil => rw [occasions_nil, Nat.zero_mul]; rfl
  | cons first rest ih =>
      obtain ⟨other, seen⟩ := first
      have lists : (g.perform (.check other seen)).allow = g.allow ∧
          (g.perform (.check other seen)).deny = g.deny := by
        rw [Gate.perform, check_gate_eq]
        exact ⟨rfl, rfl⟩
      have later := ih (h.perform (by simp [warns]) (.check other seen))
        (by rw [mode_perform, warns])
      have now := h.mentions_check warns other seen className side
      rw [lists.1, lists.2] at later
      rw [occasions_cons, Nat.add_mul, ← later, ← now]
      exact List.countP_append

/-! ### Sides -/

def Act.faceless : Act → Act
  | .check className _ => .check className .consumer
  | .overrideAllow text => .overrideAllow text
  | .overrideDeny text => .overrideDeny text

theorem line_faceless (names : List String) (act : Act) :
    line names act.faceless = line names act := by
  cases act <;> rfl

theorem firstChecks_faceless (past : List Act) :
    firstChecks (past.map Act.faceless) = firstChecks past := by
  rw [firstChecks, List.foldl_map]
  simp only [line_faceless]
  rfl

theorem allowTexts_faceless (past : List Act) :
    allowTexts (past.map Act.faceless) = allowTexts past := by
  rw [allowTexts, List.filterMap_map]
  exact List.filterMap_congr fun act _ => by cases act <;> rfl

theorem denyTexts_faceless (past : List Act) :
    denyTexts (past.map Act.faceless) = denyTexts past := by
  rw [denyTexts, List.filterMap_map]
  exact List.filterMap_congr fun act _ => by cases act <;> rfl

theorem warnings_after (mode : Mode) (allow deny : List String) (past : List Act)
    (className : String) (side : Side) :
    (((ofLists mode allow deny).after past).check className side).warnings =
      if mode = .warn ∧ className ∉ (firstChecks past).take capacity
      then due (Overrides.applyAll allow (allowTexts past))
        (Overrides.applyAll deny (denyTexts past)) className side
      else [] := by
  by_cases off : mode = .disable
  · have quiet : ((ofLists mode allow deny).after past).mode ≠ .warn := by
      rw [after_eq, off]
      simp [ofLists]
    rw [warnings_check_of_ne_warn quiet, if_neg (by simp [off])]
  · have recalls := Recalls.after (g := ofLists mode allow deny) (recalls_of_forgotten rfl) off past
    rw [recalls.warnings_check, after_eq]
    rfl

/-- A gate that warns says what its lists call for at that time, unless the name was checked since
the last override and was among the first 4096 ones; so in a stretch of checks after an override one
of those is warned about once, if a warning is due for it, and any other one at each check. A gate
of another mode never warns. Sides make no difference but for the side that a warning names. -/
theorem warns_at_first_checks (mode : Mode) (allow deny : List String) (past : List Act)
    (className : String) (side : Side) :
    (((ofLists mode allow deny).after past).check className side).warnings =
      (if mode = .warn ∧ className ∉ (firstChecks past).take 4096
      then due (Overrides.applyAll allow (allowTexts past))
        (Overrides.applyAll deny (denyTexts past)) className side
      else []) ∧
    (mode = .warn → firstChecks past = [] → ∀ stretch : List (String × Side),
      mentions className (((ofLists mode allow deny).after past).toldAlong (checks stretch)) =
        (if className ∈ (firstChecks (checks stretch)).take 4096 then 1
        else (stretch.map (·.1)).count className) *
          (due (Overrides.applyAll allow (allowTexts past))
            (Overrides.applyAll deny (denyTexts past)) className side).length) ∧
    (mode ≠ .warn → (ofLists mode allow deny).toldAlong past = []) ∧
    ∀ (other : List Act) (facing : Side), other.map Act.faceless = past.map Act.faceless →
      (((ofLists mode allow deny).after other).check className facing).warnings.map
          Warning.message =
        (((ofLists mode allow deny).after past).check className side).warnings.map
          Warning.message := by
  refine ⟨warnings_after mode allow deny past className side, fun warns new stretch => ?_,
    fun quiet => toldAlong_of_ne_warn quiet past, fun other facing same => ?_⟩
  · have on : mode ≠ .disable := by simp [warns]
    have recalls : ((ofLists mode allow deny).after past).Recalls [] :=
      new ▸ Recalls.after (g := ofLists mode allow deny) (recalls_of_forgotten rfl) on past
    have mode_after : ((ofLists mode allow deny).after past).mode = .warn := by
      rw [after_eq]
      exact warns
    rw [recalls.mentions_toldAlong mode_after stretch className side, after_eq, occasions,
      List.take_nil, if_neg List.not_mem_nil]
    rfl
  · rw [warnings_after, warnings_after, ← firstChecks_faceless other, ← allowTexts_faceless other,
      ← denyTexts_faceless other, same, firstChecks_faceless, allowTexts_faceless,
      denyTexts_faceless]
    split
    · exact message_due _ _ _ _ _
    · rfl

theorem foldl_line_of_nodup (side : Side) (names more : List String)
    (nodup : (names ++ more).Nodup) :
    (checks (more.map (·, side))).foldl line names = names ++ more := by
  induction more generalizing names with
  | nil => exact (List.append_nil names).symm
  | cons first rest ih =>
      have new : first ∉ names := fun known =>
        List.disjoint_of_nodup_append nodup known List.mem_cons_self
      have whole : names ++ first :: rest = (names ++ [first]) ++ rest := by simp
      refine Eq.trans ?_ ((ih (names ++ [first]) (whole ▸ nodup)).trans whole.symm)
      exact congrArg (List.foldl line · _) (if_neg new)

def crowd : List String := (List.range 4096).map fun n => String.ofList (List.replicate n 'x')

theorem nodup_crowd : crowd.Nodup :=
  List.nodup_range.map fun m n same => by
    simpa using congrArg String.length same

theorem not_mem_crowd : "y" ∉ crowd := by
  intro listed
  obtain ⟨n, -, same⟩ := List.mem_map.mp listed
  have letters : List.replicate n 'x' = ['y'] := by simpa using congrArg String.toList same
  have member : 'y' ∈ List.replicate n 'x' := letters ▸ List.mem_singleton_self 'y'
  exact absurd (List.eq_of_mem_replicate member) (by decide)

def opening (side : Side) : List Act := [.check "y" side, .overrideDeny "evil."]

def visits (names : List String) : List (String × Side) :=
  names.map (·, .consumer) ++ [("y", .consumer), ("y", .provider)]

theorem firstChecks_visits {names : List String} (nodup : names.Nodup) (absent : "y" ∉ names) :
    firstChecks (checks (visits names)) = names ++ ["y"] := by
  have start : (checks (names.map (·, Side.consumer))).foldl line [] = names :=
    foldl_line_of_nodup .consumer [] names nodup
  rw [firstChecks, visits, checks, List.map_append, List.foldl_append, ← checks, start]
  simp [line, absent]

theorem count_visits {names : List String} (absent : "y" ∉ names) :
    ((visits names).map (·.1)).count "y" = 2 := by
  simp [visits, Function.comp_def, List.count_eq_zero.mpr absent]

/-- A name that comes when there is no room any more is warned about at each of its checks. -/
theorem warns_at_first_checks_crowded :
    (((ofLists .warn ["shop.*"] []).after (opening .provider)).check "y" .consumer).warnings =
      [.unlisted "y" .consumer] ∧
    Mode.warn = .warn ∧ firstChecks (opening .provider) = [] ∧
    mentions "y" (((ofLists .warn ["shop.*"] []).after (opening .provider)).toldAlong
      (checks (visits crowd))) = 2 ∧
    Mode.strict ≠ .warn ∧ (ofLists .strict ["shop.*"] []).toldAlong (opening .provider) = [] ∧
    (opening .consumer).map Act.faceless = (opening .provider).map Act.faceless ∧
    (((ofLists .warn ["shop.*"] []).after (opening .consumer)).check "y"
      .provider).warnings.map Warning.message =
        ["class is not in serialize whitelist, allowed in warn mode"] := by
  obtain ⟨now, since, -, sides⟩ :=
    warns_at_first_checks .warn ["shop.*"] [] (opening .provider) "y" .consumer
  have quiet :=
    (warns_at_first_checks .strict ["shop.*"] [] (opening .provider) "y" .consumer).2.2.1
  have calls : due (Overrides.applyAll ["shop.*"] (allowTexts (opening .provider)))
      (Overrides.applyAll [] (denyTexts (opening .provider))) "y" .consumer =
        [.unlisted "y" .consumer] := by rfl
  have said := now.trans ((if_pos ⟨rfl, List.not_mem_nil⟩).trans calls)
  have forgotten : "y" ∉ (firstChecks (checks (visits crowd))).take 4096 := by
    have size : crowd.length = 4096 := by simp [crowd]
    rw [firstChecks_visits nodup_crowd not_mem_crowd, List.take_append_of_le_length size.ge,
      List.take_of_length_le size.le]
    exact not_mem_crowd
  have twice := since rfl rfl (visits crowd)
  rw [if_neg forgotten, count_visits not_mem_crowd, calls] at twice
  exact ⟨said, rfl, rfl, twice, by decide, quiet (by decide), rfl,
    (sides (opening .consumer) .provider rfl).trans (by rw [said]; rfl)⟩

end Gate

end Switchboard
