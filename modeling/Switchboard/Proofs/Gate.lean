import Mathlib.Data.Finset.Card
import Switchboard.Gate
import Switchboard.Proofs.Dictionary

/-! Remembered verdicts do not show. A gate answers, after any checks and overrides, what its lists
say at that time, whatever it has remembered and whether there was room to remember more. How many
verdicts it remembers is the number of names checked since the last override, up to its capacity. -/
namespace Switchboard.Gate

def IsStem (entry : String) (start : List Char) : Prop :=
  start.getLast? ≠ some '*' ∧ ∃ stars, entry.toList = start ++ List.replicate stars '*'

/-- Some entry, the stars at its end left out, starts the name. -/
def Covers (entries : List String) (className : String) : Prop :=
  ∃ entry ∈ entries, ∃ start, IsStem entry start ∧ start <+: className.toList

/-- What a mode says about a name under two lists, without any memory. -/
def Admits (mode : Mode) (allow deny : List String) (className : String) : Prop :=
  match mode with
  | .disable => True
  | .warn => ¬ Covers deny className
  | .strict => Covers allow className ∧ ¬ Covers deny className

theorem isStem_stem (entry : String) : IsStem entry (stem entry) := by
  constructor
  · unfold stem
    rw [List.getLast?_reverse]
    intro first
    have head := List.head?_dropWhile_not (· == '*') entry.toList.reverse
    rw [first] at head
    simp at head
  · refine ⟨(entry.toList.reverse.takeWhile (· == '*')).length, ?_⟩
    have stars : entry.toList.reverse.takeWhile (· == '*') =
        List.replicate (entry.toList.reverse.takeWhile (· == '*')).length '*' := by
      refine List.eq_replicate_iff.mpr ⟨rfl, fun c member => ?_⟩
      exact beq_iff_eq.mp (List.all_eq_true.mp List.all_takeWhile c member)
    calc
      entry.toList = (entry.toList.reverse.takeWhile (· == '*') ++
          entry.toList.reverse.dropWhile (· == '*')).reverse := by
        rw [List.takeWhile_append_dropWhile, List.reverse_reverse]
      _ = stem entry ++ (entry.toList.reverse.takeWhile (· == '*')).reverse := by
        rw [List.reverse_append]
        rfl
      _ = _ := by rw [stars, List.reverse_replicate, List.length_replicate]

theorem eq_stem_of_isStem {entry : String} {start : List Char} (h : IsStem entry start) :
    start = stem entry := by
  obtain ⟨last, stars, whole⟩ := h
  have dropped : ∀ count, (List.replicate count '*' ++ start.reverse).dropWhile (· == '*') =
      start.reverse := by
    intro count
    induction count with
    | zero =>
        cases reversed : start.reverse with
        | nil => rfl
        | cons c rest =>
            have different : c ≠ '*' := fun same => last (by
              rw [List.getLast?_eq_head?_reverse, reversed, same]
              rfl)
            simp [different]
    | succ count ih => simpa [List.replicate_succ] using ih
  unfold stem
  rw [whole, List.reverse_append, List.reverse_replicate, dropped, List.reverse_reverse]

theorem matchesAny_iff (entries : List String) (className : String) :
    matchesAny entries className = true ↔ Covers entries className := by
  simp only [matchesAny, List.any_eq_true, List.isPrefixOf_iff_prefix, Covers]
  constructor
  · rintro ⟨entry, member, starts⟩
    exact ⟨entry, member, stem entry, isStem_stem entry, starts⟩
  · rintro ⟨entry, member, start, isStem, starts⟩
    rw [eq_stem_of_isStem isStem] at starts
    exact ⟨entry, member, starts⟩

def Accepts (g : Gate) (className : String) : Prop := Admits g.mode g.allow g.deny className

theorem judge_eq_allow_iff (g : Gate) (className : String) (side : Side) :
    (g.judge className side).1 = .allow ↔ g.Accepts className := by
  unfold Accepts Admits judge
  have denied := matchesAny_iff g.deny className
  have allowed := matchesAny_iff g.allow className
  cases g.mode with
  | disable => simp
  | warn =>
      rw [← denied]
      cases matchesAny g.deny className with
      | true => simp
      | false =>
          simp only [Bool.false_eq_true, if_false, not_false_eq_true, iff_true]
          split <;> rfl
  | strict =>
      rw [← denied, ← allowed]
      cases matchesAny g.allow className <;> cases matchesAny g.deny className <;> simp

/-- Every verdict that a gate remembers is the one that its lists give. -/
def Faithful (g : Gate) : Prop :=
  ∀ className verdict, g.cache.get? className = some verdict →
    (verdict = .allow ↔ g.Accepts className)

theorem faithful_of_forgotten {g : Gate} (h : g.cache = .empty) : g.Faithful := by
  intro className verdict found
  rw [h, Dictionary.get?_empty] at found
  cases found

theorem check_cases (g : Gate) (className : String) (side : Side) :
    (g.mode = .disable ∧ g.check className side = .done (.ok ()) g) ∨
    (∃ verdict, g.mode ≠ .disable ∧ g.cache.get? className = some verdict ∧
      g.check className side = .done (answer verdict className side) g) ∨
    (g.mode ≠ .disable ∧ g.cache.get? className = none ∧
      g.check className side =
        ⟨answer (g.judge className side).1 className side,
          g.remember className (g.judge className side).1, (g.judge className side).2⟩) := by
  by_cases off : g.mode = .disable
  · exact Or.inl ⟨off, if_pos off⟩
  · cases found : g.cache.get? className with
    | some verdict =>
        refine Or.inr (Or.inl ⟨verdict, off, rfl, ?_⟩)
        rw [check, if_neg off, found]
    | none =>
        refine Or.inr (Or.inr ⟨off, rfl, ?_⟩)
        rw [check, if_neg off, found]

theorem remember_eq (g : Gate) (className : String) (verdict : Verdict) :
    g.remember className verdict = { g with cache := (g.remember className verdict).cache } := by
  unfold remember
  split <;> rfl

theorem get?_remember {g : Gate} {className other : String} {verdict known : Verdict}
    (h : (g.remember className verdict).cache.get? other = some known) :
    (className = other ∧ verdict = known) ∨ g.cache.get? other = some known := by
  unfold remember at h
  split at h
  next =>
    rw [Dictionary.get?_insert] at h
    by_cases same : className = other
    · rw [if_pos same] at h
      exact Or.inl ⟨same, Option.some.inj h⟩
    · rw [if_neg same] at h
      exact Or.inr h
  next => exact Or.inr h

theorem check_gate_eq (g : Gate) (className : String) (side : Side) :
    (g.check className side).gate =
      { g with cache := (g.check className side).gate.cache } := by
  rcases g.check_cases className side with ⟨-, done⟩ | ⟨_, -, -, done⟩ | ⟨-, -, done⟩
  · rw [done]
    rfl
  · rw [done]
    rfl
  · rw [done]
    exact g.remember_eq className _

theorem accepts_check (g : Gate) (className other : String) (side : Side) :
    (g.check className side).gate.Accepts other ↔ g.Accepts other := by
  rw [check_gate_eq]
  exact Iff.rfl

theorem Faithful.check {g : Gate} (h : g.Faithful) (className : String) (side : Side) :
    (g.check className side).gate.Faithful := by
  intro other verdict found
  rw [accepts_check]
  rcases g.check_cases className side with ⟨-, done⟩ | ⟨_, -, -, done⟩ | ⟨-, -, done⟩
  · rw [done] at found
    exact h other verdict found
  · rw [done] at found
    exact h other verdict found
  · rw [done] at found
    rcases get?_remember found with ⟨rfl, rfl⟩ | old
    · exact g.judge_eq_allow_iff className side
    · exact h other verdict old

theorem Faithful.outcome_check {g : Gate} (h : g.Faithful) (className : String) (side : Side) :
    ∃ verdict, (g.check className side).outcome = answer verdict className side ∧
      (verdict = .allow ↔ g.Accepts className) := by
  rcases g.check_cases className side with ⟨off, done⟩ | ⟨verdict, -, found, done⟩ | ⟨-, -, done⟩
  · refine ⟨.allow, by rw [done]; rfl, ?_⟩
    simp [Accepts, Admits, off]
  · exact ⟨verdict, by rw [done]; rfl, h className verdict found⟩
  · exact ⟨(g.judge className side).1, by rw [done], g.judge_eq_allow_iff className side⟩

theorem Faithful.check_eq_ok_iff {g : Gate} (h : g.Faithful) (className : String) (side : Side) :
    (g.check className side).outcome = .ok () ↔ g.Accepts className := by
  obtain ⟨verdict, same, meaning⟩ := h.outcome_check className side
  rw [same, ← meaning]
  cases verdict <;> simp [answer]

theorem Faithful.check_eq_denied_iff {g : Gate} (h : g.Faithful) (className : String)
    (side : Side) :
    (g.check className side).outcome = .error (.denied side className) ↔
      ¬ g.Accepts className := by
  obtain ⟨verdict, same, meaning⟩ := h.outcome_check className side
  rw [same, ← meaning]
  cases verdict <;> simp [answer]

inductive Act where
  | check (className : String) (side : Side)
  | overrideAllow (text : String)
  | overrideDeny (text : String)

def perform (g : Gate) : Act → Gate
  | .check className side => (g.check className side).gate
  | .overrideAllow text => g.overrideAllow text
  | .overrideDeny text => g.overrideDeny text

def after (g : Gate) (past : List Act) : Gate := past.foldl perform g

def allowTexts (past : List Act) : List String :=
  past.filterMap fun act => match act with
    | .overrideAllow text => some text
    | _ => none

def denyTexts (past : List Act) : List String :=
  past.filterMap fun act => match act with
    | .overrideDeny text => some text
    | _ => none

/-- Names that were checked, with one act more. An override makes a new start. -/
def note (names : Finset String) : Act → Finset String
  | .check className _ => insert className names
  | .overrideAllow _ => ∅
  | .overrideDeny _ => ∅

def checkedNames (past : List Act) : Finset String := past.foldl note ∅

theorem after_eq (g : Gate) (past : List Act) :
    g.after past = ⟨g.mode, Overrides.applyAll g.allow (allowTexts past),
      Overrides.applyAll g.deny (denyTexts past), (g.after past).cache⟩ := by
  induction past generalizing g with
  | nil => rfl
  | cons act rest ih =>
      have next := ih (g.perform act)
      rw [after, List.foldl_cons, ← after]
      cases act with
      | check className side =>
          have kept : g.perform (.check className side) =
              { g with cache := (g.check className side).gate.cache } :=
            g.check_gate_eq className side
          rw [kept] at next ⊢
          exact next
      | overrideAllow text => exact next
      | overrideDeny text => exact next

theorem Faithful.perform {g : Gate} (h : g.Faithful) (act : Act) : (g.perform act).Faithful := by
  cases act with
  | check className side => exact h.check className side
  | overrideAllow text => exact faithful_of_forgotten rfl
  | overrideDeny text => exact faithful_of_forgotten rfl

theorem Faithful.after {g : Gate} (h : g.Faithful) (past : List Act) :
    (g.after past).Faithful := by
  induction past generalizing g with
  | nil => exact h
  | cons act rest ih => exact ih (h.perform act)

/-- The memory holds some of the names, and as many of them as there is room for. -/
structure Counted (g : Gate) (names : Finset String) : Prop where
  subset : ∀ className ∈ g.cache.keys, className ∈ names
  cached_eq : g.cached = min capacity names.card

theorem cached_eq_length (g : Gate) : g.cached = g.cache.keys.length := by
  simp [cached, Dictionary.keys]

theorem counted_of_forgotten {g : Gate} (h : g.cache = .empty) : g.Counted ∅ := by
  constructor
  · intro className member
    rw [h] at member
    cases member
  · rw [cached_eq_length, h]
    rfl

theorem Counted.not_mem {g : Gate} {names : Finset String} (h : g.Counted names)
    (room : g.cached < capacity) {className : String}
    (fresh : g.cache.get? className = none) : className ∉ names := by
  have keys : g.cache.keys.toFinset = names := by
    refine Finset.eq_of_subset_of_card_le (fun name member => ?_) ?_
    · exact h.subset name (List.mem_toFinset.mp member)
    · rw [List.toFinset_card_of_nodup g.cache.nodup_keys, ← cached_eq_length, h.cached_eq]
      have bound := h.cached_eq
      omega
  rw [← keys, List.mem_toFinset, Dictionary.mem_keys_iff, fresh]
  simp

theorem Counted.remember {g : Gate} {names : Finset String} (h : g.Counted names)
    {className : String} (fresh : g.cache.get? className = none) (verdict : Verdict) :
    (g.remember className verdict).Counted (insert className names) := by
  have bound := h.cached_eq
  by_cases room : g.cached < capacity
  · have grown : g.remember className verdict =
        { g with cache := g.cache.insert className verdict } := if_pos room
    have new : className ∉ names := h.not_mem room fresh
    rw [grown]
    constructor
    · intro other member
      rcases (g.cache.mem_keys_insert className other _).mp member with same | old
      · rw [same]
        exact Finset.mem_insert_self className names
      · exact Finset.mem_insert_of_mem (h.subset other old)
    · rw [cached_eq_length] at bound room ⊢
      rw [g.cache.length_keys_insert _ fresh, Finset.card_insert_of_notMem new]
      omega
  · have full : g.remember className verdict = g := if_neg room
    have more := Finset.card_le_card (Finset.subset_insert className names)
    rw [full]
    constructor
    · exact fun other member => Finset.mem_insert_of_mem (h.subset other member)
    · omega

theorem Counted.check {g : Gate} {names : Finset String} (h : g.Counted names)
    (on : g.mode ≠ .disable) (className : String) (side : Side) :
    (g.check className side).gate.Counted (insert className names) := by
  rcases g.check_cases className side with ⟨off, -⟩ | ⟨verdict, -, found, done⟩ | ⟨-, fresh, done⟩
  · exact absurd off on
  · have known : className ∈ names :=
      h.subset className ((g.cache.mem_keys_iff className).mpr (by rw [found]; rfl))
    rw [done, Finset.insert_eq_self.mpr known]
    exact h
  · rw [done]
    exact h.remember fresh _

theorem Counted.after {g : Gate} {names : Finset String} (h : g.Counted names)
    (on : g.mode ≠ .disable) (past : List Act) :
    (g.after past).Counted (past.foldl note names) := by
  induction past generalizing g names with
  | nil => exact h
  | cons act rest ih =>
      rw [Gate.after, List.foldl_cons, List.foldl_cons, ← Gate.after]
      cases act with
      | check className side =>
          have stillOn : (g.check className side).gate.mode ≠ .disable := by
            rw [check_gate_eq]
            exact on
          exact ih (h.check on className side) stillOn
      | overrideAllow text => exact ih (counted_of_forgotten rfl) on
      | overrideDeny text => exact ih (counted_of_forgotten rfl) on

/-- After any checks and overrides a check answers by the lists of that time, and as many verdicts
are remembered as names were checked since the last override, if there is room for them. -/
theorem check_after (mode : Mode) (allow deny : List String) (past : List Act)
    (className : String) (side : Side) :
    ((((ofLists mode allow deny).after past).check className side).outcome = .ok () ↔
      Admits mode (Overrides.applyAll allow (allowTexts past))
        (Overrides.applyAll deny (denyTexts past)) className) ∧
    ((((ofLists mode allow deny).after past).check className side).outcome =
        .error (.denied side className) ↔
      ¬ Admits mode (Overrides.applyAll allow (allowTexts past))
        (Overrides.applyAll deny (denyTexts past)) className) ∧
    (mode ≠ .disable →
      ((ofLists mode allow deny).after past).cached = min 4096 (checkedNames past).card) := by
  have faithful : ((ofLists mode allow deny).after past).Faithful :=
    Faithful.after (faithful_of_forgotten rfl) past
  have accepts : ((ofLists mode allow deny).after past).Accepts className ↔
      Admits mode (Overrides.applyAll allow (allowTexts past))
        (Overrides.applyAll deny (denyTexts past)) className := by
    rw [after_eq]
    exact Iff.rfl
  refine ⟨?_, ?_, fun on => ?_⟩
  · exact (faithful.check_eq_ok_iff className side).trans accepts
  · exact (faithful.check_eq_denied_iff className side).trans (not_congr accepts)
  · exact (Counted.after (counted_of_forgotten rfl) on past).cached_eq

/-- A name that was refused and remembered is accepted after the list has been widened. -/
theorem check_after_widening :
    ((((ofLists .strict ["shop.*"] []).after
      [.check "org.Thing" .consumer, .overrideAllow "org.*"]).check "org.Thing" .provider).outcome =
        .ok ()) ∧
    Mode.strict ≠ .disable ∧
    ((ofLists .strict ["shop.*"] []).after
      [.check "org.Thing" .consumer, .overrideAllow "org.*"]).cached =
        min 4096 (checkedNames [.check "org.Thing" .consumer, .overrideAllow "org.*"]).card := by
  have law := check_after .strict ["shop.*"] []
    [.check "org.Thing" .consumer, .overrideAllow "org.*"] "org.Thing" .provider
  refine ⟨law.1.mpr ⟨?_, ?_⟩, by decide, law.2.2 (by decide)⟩
  · exact (matchesAny_iff _ _).mp (by decide)
  · exact fun covered => absurd ((matchesAny_iff _ _).mpr covered) (by decide)

end Switchboard.Gate
