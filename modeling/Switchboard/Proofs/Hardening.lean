import Switchboard.Proofs.Gate
import Switchboard.Proofs.Overrides

/-! A step that hardens a gate never opens it. More denied entries and fewer allowed ones accept no
class that was refused before, fewer denied entries and more allowed ones refuse none that was
accepted, and a stricter mode accepts no class that a milder one refuses. As remembered verdicts do
not show, this holds for what the checks answer at any time. -/
namespace Switchboard.Gate

theorem Covers.mono {entries more : List String} {className : String}
    (covered : Covers entries className) (subset : entries ⊆ more) : Covers more className := by
  obtain ⟨entry, member, starts⟩ := covered
  exact ⟨entry, subset member, starts⟩

theorem Admits.mono {mode : Mode} {allow deny wider narrower : List String} {className : String}
    (admitted : Admits mode allow deny className) (allows : allow ⊆ wider)
    (denies : narrower ⊆ deny) : Admits mode wider narrower className := by
  cases mode with
  | disable => trivial
  | warn => exact fun covered => admitted (covered.mono denies)
  | strict => exact ⟨admitted.1.mono allows, fun covered => admitted.2 (covered.mono denies)⟩

theorem Admits.warn {allow deny : List String} {className : String}
    (admitted : Admits .strict allow deny className) : Admits .warn allow deny className :=
  admitted.2

namespace Act

/-- An act that can only make a gate refuse more: the list of denied entries gets more of them, or
that of the allowed ones gets fewer. -/
def Tightens : Act → Prop
  | .check _ _ => True
  | .overrideAllow text => Overrides.OnlyRemoves text
  | .overrideDeny text => Overrides.OnlyAdds text

def Loosens : Act → Prop
  | .check _ _ => True
  | .overrideAllow text => Overrides.OnlyAdds text
  | .overrideDeny text => Overrides.OnlyRemoves text

instance : (act : Act) → Decidable act.Tightens
  | .check _ _ => inferInstanceAs (Decidable True)
  | .overrideAllow text => inferInstanceAs (Decidable (Overrides.OnlyRemoves text))
  | .overrideDeny text => inferInstanceAs (Decidable (Overrides.OnlyAdds text))

instance : (act : Act) → Decidable act.Loosens
  | .check _ _ => inferInstanceAs (Decidable True)
  | .overrideAllow text => inferInstanceAs (Decidable (Overrides.OnlyAdds text))
  | .overrideDeny text => inferInstanceAs (Decidable (Overrides.OnlyRemoves text))

end Act

def Passes (g : Gate) (className : String) (side : Side) : Prop :=
  (g.check className side).outcome = .ok ()

variable {g : Gate} {className : String}

theorem accepts_of_tightened {act : Act} (tightens : act.Tightens)
    (accepted : (g.perform act).Accepts className) : g.Accepts className := by
  cases act with
  | check other side => exact (g.accepts_check other className side).mp accepted
  | overrideAllow text =>
      exact accepted.mono (Overrides.apply_subset_of_onlyRemoves tightens) (List.Subset.refl _)
  | overrideDeny text =>
      exact accepted.mono (List.Subset.refl _) (Overrides.subset_apply_of_onlyAdds tightens)

theorem accepts_loosened {act : Act} (loosens : act.Loosens) (accepted : g.Accepts className) :
    (g.perform act).Accepts className := by
  cases act with
  | check other side => exact (g.accepts_check other className side).mpr accepted
  | overrideAllow text =>
      exact accepted.mono (Overrides.subset_apply_of_onlyAdds loosens) (List.Subset.refl _)
  | overrideDeny text =>
      exact accepted.mono (List.Subset.refl _) (Overrides.apply_subset_of_onlyRemoves loosens)

theorem accepts_of_after_tightened {acts : List Act} (tightens : ∀ act ∈ acts, act.Tightens)
    (accepted : (g.after acts).Accepts className) : g.Accepts className := by
  induction acts generalizing g with
  | nil => exact accepted
  | cons act rest ih =>
      obtain ⟨first, others⟩ := List.forall_mem_cons.mp tightens
      exact accepts_of_tightened first (ih others accepted)

theorem accepts_after_loosened {acts : List Act} (loosens : ∀ act ∈ acts, act.Loosens)
    (accepted : g.Accepts className) : (g.after acts).Accepts className := by
  induction acts generalizing g with
  | nil => exact accepted
  | cons act rest ih =>
      obtain ⟨first, others⟩ := List.forall_mem_cons.mp loosens
      exact ih others (accepts_loosened first accepted)

theorem Faithful.passes_iff (faithful : g.Faithful) (className : String) (side : Side) :
    g.Passes className side ↔ g.Accepts className := faithful.check_eq_ok_iff className side

/-- A class that passes in a stricter mode passes in a milder one with the same past. From any state
of a gate, a class that passes after some tightening acts passed before them, and one that passes
before some loosening acts passes after them. -/
theorem hardening_never_opens (allow deny : List String) (past : List Act) (className : String)
    (side other : Side) :
    (((ofLists .strict allow deny).after past).Passes className side →
      ((ofLists .warn allow deny).after past).Passes className other) ∧
    (((ofLists .warn allow deny).after past).Passes className side →
      ((ofLists .disable allow deny).after past).Passes className other) ∧
    ∀ (mode : Mode) (acts : List Act),
      ((∀ act ∈ acts, act.Tightens) →
        (((ofLists mode allow deny).after past).after acts).Passes className side →
          ((ofLists mode allow deny).after past).Passes className other) ∧
      ((∀ act ∈ acts, act.Loosens) →
        ((ofLists mode allow deny).after past).Passes className side →
          (((ofLists mode allow deny).after past).after acts).Passes className other) := by
  have faithful := fun mode =>
    Faithful.after (faithful_of_forgotten (g := ofLists mode allow deny) rfl) past
  refine ⟨fun passed => ?_, fun _ => ?_, fun mode acts => ⟨fun tightens passed => ?_,
    fun loosens passed => ?_⟩⟩
  · have accepted := ((faithful .strict).passes_iff className side).mp passed
    refine ((faithful .warn).passes_iff className other).mpr ?_
    rw [after_eq] at accepted ⊢
    exact Admits.warn accepted
  · refine ((faithful .disable).passes_iff className other).mpr ?_
    rw [after_eq]
    exact trivial
  · have accepted := (((faithful mode).after acts).passes_iff className side).mp passed
    exact ((faithful mode).passes_iff className other).mpr
      (accepts_of_after_tightened tightens accepted)
  · have accepted := ((faithful mode).passes_iff className side).mp passed
    exact (((faithful mode).after acts).passes_iff className other).mpr
      (accepts_after_loosened loosens accepted)

/-- A class that is accepted after it was checked, entries like it were denied and another one was
taken from the allowed ones was accepted before, and a refused one is accepted once its entry is no
longer denied. -/
theorem hardening_never_opens_overridden :
    ((∀ act ∈ [Act.check "org.Thing" .consumer, .overrideDeny "org.evil., org.bad.*",
        .overrideAllow "-shop.;!net.*"], act.Tightens) ∧
      ((ofLists .strict ["org.*", "shop."] []).after [.check "org.Thing" .consumer,
        .overrideDeny "org.evil., org.bad.*", .overrideAllow "-shop.;!net.*"]).Passes
          "org.Thing" .provider ∧
      (ofLists .strict ["org.*", "shop."] []).Passes "org.Thing" .consumer) ∧
    ((∀ act ∈ [Act.overrideDeny "-*", .overrideAllow "org.*"], act.Loosens) ∧
      ((ofLists .warn [] ["org.evil."]).after [.check "org.evil.Thing" .consumer]).Passes
        "org.Thing" .consumer ∧
      (((ofLists .warn [] ["org.evil."]).after [.check "org.evil.Thing" .consumer]).after
        [.overrideDeny "-*", .overrideAllow "org.*"]).Passes "org.Thing" .provider) := by
  have strict := (hardening_never_opens ["org.*", "shop."] [] [] "org.Thing" .provider
    .consumer).2.2 .strict
  have warn := (hardening_never_opens [] ["org.evil."] [.check "org.evil.Thing" .consumer]
    "org.Thing" .consumer .provider).2.2 .warn
  have tightens : ∀ act ∈ [Act.check "org.Thing" .consumer, .overrideDeny "org.evil., org.bad.*",
      .overrideAllow "-shop.;!net.*"], act.Tightens := by decide
  have loosens : ∀ act ∈ [Act.overrideDeny "-*", .overrideAllow "org.*"], act.Loosens := by decide
  have passed : ((ofLists .strict ["org.*", "shop."] []).after [.check "org.Thing" .consumer,
      .overrideDeny "org.evil., org.bad.*", .overrideAllow "-shop.;!net.*"]).Passes
        "org.Thing" .provider := rfl
  have milder : ((ofLists .warn [] ["org.evil."]).after [.check "org.evil.Thing" .consumer]).Passes
      "org.Thing" .consumer := rfl
  exact ⟨⟨tightens, passed, (strict _).1 tightens passed⟩,
    ⟨loosens, milder, (warn _).2 loosens milder⟩⟩

end Switchboard.Gate
