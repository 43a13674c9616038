import Switchboard.Hub
import Switchboard.Proofs.Gate
import Switchboard.Proofs.Overrides

/-! The routes by which overrides reach a gate. Given at the start, by the settings of a program or
while the gate is in use, they lead to the same lists and so to the same verdicts: each list takes
its own overrides in their order, and neither the checks nor the overrides of the other list matter
to it. Blank overrides do not matter at all. -/
namespace Switchboard

namespace Overrides

theorem applyAll_filter (list : List String) (texts : List String) :
    applyAll list (texts.filter fun text => !(Text.trim text).isEmpty) = applyAll list texts := by
  induction texts generalizing list with
  | nil => rfl
  | cons text rest ih =>
      have step : applyAll list (text :: rest) = applyAll (apply list text) rest := rfl
      by_cases blank : Text.trim text = ""
      · rw [List.filter_cons_of_neg (by simp [blank]), ih, step, apply_of_blank list blank]
      · rw [List.filter_cons_of_pos (by simpa using blank), step, ← ih]
        rfl

end Overrides

namespace Settings

theorem applyAll_ordered (list : List String) (outer : Option String) (inner : String) :
    Overrides.applyAll list (ordered outer inner) =
      Overrides.applyAll list (outer.toList ++ [inner]) := Overrides.applyAll_filter list _

theorem withEnvironment_eq_ok {s configured : Settings} {lookup : String → Option String}
    (done : s.withEnvironment lookup = .ok configured) :
    ∃ mode, configured = { s with
      mode := mode
      outerDeny := lookup denyVariable
      outerAllow := lookup allowVariable } := by
  unfold withEnvironment at done
  split at done
  next text named =>
    cases parsed : Gate.Mode.parse text with
    | error failure =>
        rw [parsed] at done
        cases done
    | ok mode =>
        rw [parsed] at done
        exact ⟨mode, (Except.ok.inj done).symm⟩
  next => exact ⟨s.mode, (Except.ok.inj done).symm⟩

end Settings

namespace Gate

structure Alike (g h : Gate) : Prop where
  mode : g.mode = h.mode
  allow : g.allow = h.allow
  deny : g.deny = h.deny

variable {g h : Gate}

theorem Alike.after (alike : Alike g h) (acts : List Act) :
    Alike (g.after acts) (h.after acts) := by
  rw [after_eq g, after_eq h]
  exact ⟨alike.mode, congrArg (Overrides.applyAll · _) alike.allow,
    congrArg (Overrides.applyAll · _) alike.deny⟩

theorem Alike.accepts_iff (alike : Alike g h) (className : String) :
    g.Accepts className ↔ h.Accepts className := by
  unfold Accepts
  rw [alike.mode, alike.allow, alike.deny]

theorem Alike.outcome_check (alike : Alike g h) (one : g.Faithful) (two : h.Faithful)
    (className : String) (side : Side) :
    (g.check className side).outcome = (h.check className side).outcome := by
  by_cases accepted : g.Accepts className
  · rw [(one.check_eq_ok_iff className side).mpr accepted,
      (two.check_eq_ok_iff className side).mpr ((alike.accepts_iff className).mp accepted)]
  · have refused : ¬ h.Accepts className := mt (alike.accepts_iff className).mpr accepted
    rw [(one.check_eq_denied_iff className side).mpr accepted,
      (two.check_eq_denied_iff className side).mpr refused]

theorem alike_ofOverrides (mode : Mode) (acts : List Act) :
    Alike ((new mode).after acts) (ofOverrides mode (allowTexts acts) (denyTexts acts)) := by
  rw [after_eq]
  exact ⟨rfl, rfl, rfl⟩

/-- A gate holds the bundled lists after the overrides of each list, the outer one first. -/
structure Configured (g : Gate) (outerAllow : Option String) (allow : String)
    (outerDeny : Option String) (deny : String) : Prop where
  allow : g.allow = Overrides.applyAll bundledAllow (outerAllow.toList ++ [allow])
  deny : g.deny = Overrides.applyAll bundledDeny (outerDeny.toList ++ [deny])

theorem configured_gate (s : Settings) :
    s.gate.Configured s.outerAllow s.allowOverride s.outerDeny s.denyOverride :=
  ⟨Settings.applyAll_ordered _ _ _, Settings.applyAll_ordered _ _ _⟩

/-- Overrides at the start and overrides in between checks, in any order of the two lists, give the
same lists and the same verdicts ever after. The gate of a program holds the bundled lists after the
override of the environment and then that of the document, and a blank one changes nothing. -/
theorem overrides_agree_by_every_route (mode : Mode) (whites blacks : List String) :
    (∀ acts, allowTexts acts = whites → denyTexts acts = blacks →
      Alike ((new mode).after acts) (ofOverrides mode whites blacks) ∧
      ∀ later className side,
        ((((new mode).after acts).after later).check className side).outcome =
          (((ofOverrides mode whites blacks).after later).check className side).outcome) ∧
    (∀ (ε : Type) (s : Settings) (world : ε),
      (Hub.new s world).gate.mode = s.mode ∧
      (Hub.new s world).gate.Configured s.outerAllow s.allowOverride s.outerDeny
        s.denyOverride ∧
      ∀ lookup configured, s.withEnvironment lookup = .ok configured →
        (Hub.new configured world).gate.Configured (lookup Settings.allowVariable)
          s.allowOverride (lookup Settings.denyVariable) s.denyOverride) ∧
    ∀ list text, Text.trim text = "" → Overrides.apply list text = list := by
  refine ⟨fun acts sameWhites sameBlacks => ?_, fun ε s world => ?_, fun list text =>
    Overrides.apply_of_blank list⟩
  · subst sameWhites sameBlacks
    have alike := alike_ofOverrides mode acts
    refine ⟨alike, fun later className side => ?_⟩
    have one : (((new mode).after acts).after later).Faithful :=
      Faithful.after (Faithful.after (faithful_of_forgotten rfl) acts) later
    have two : ((ofOverrides mode (allowTexts acts) (denyTexts acts)).after later).Faithful :=
      Faithful.after (faithful_of_forgotten rfl) later
    exact (alike.after later).outcome_check one two className side
  · refine ⟨rfl, configured_gate s, fun lookup configured done => ?_⟩
    obtain ⟨_, rfl⟩ := Settings.withEnvironment_eq_ok done
    exact configured_gate _

theorem overrides_agree_by_every_route_mixed :
    allowTexts [.overrideAllow "org.*", .overrideDeny "-*,evil.", .check "org.Thing" .consumer,
      .overrideAllow "-org.*,shop."] = ["org.*", "-org.*,shop."] ∧
    denyTexts [.overrideAllow "org.*", .overrideDeny "-*,evil.", .check "org.Thing" .consumer,
      .overrideAllow "-org.*,shop."] = ["-*,evil."] ∧
    (((new .strict).after [.overrideAllow "org.*", .overrideDeny "-*,evil.",
      .check "org.Thing" .consumer, .overrideAllow "-org.*,shop."]).check "org.Thing"
        .provider).outcome =
      ((ofOverrides .strict ["org.*", "-org.*,shop."] ["-*,evil."]).check "org.Thing"
        .provider).outcome ∧
    { Settings.default with denyOverride := "evil." }.withEnvironment
      (fun name => if name = Settings.denyVariable then some "-*" else none) =
        .ok { Settings.default with denyOverride := "evil.", outerDeny := some "-*" } ∧
    (Hub.new { Settings.default with denyOverride := "evil.", outerDeny := some "-*" }
      ()).gate.deny = ["evil."] ∧
    Text.trim " \t" = "" ∧ Overrides.apply ["evil."] " \t" = ["evil."] := by
  obtain ⟨routes, programs, blanks⟩ :=
    overrides_agree_by_every_route .strict ["org.*", "-org.*,shop."] ["-*,evil."]
  have read : { Settings.default with denyOverride := "evil." }.withEnvironment
      (fun name => if name = Settings.denyVariable then some "-*" else none) =
        .ok { Settings.default with denyOverride := "evil.", outerDeny := some "-*" } := by
    simp [Settings.withEnvironment, Settings.denyVariable, Settings.modeVariable,
      Settings.allowVariable, Settings.default, bind, Except.bind, pure, Except.pure]
  have blank : Text.trim " \t" = "" := by decide
  refine ⟨rfl, rfl, ?_, read, ?_, blank, blanks _ _ blank⟩
  · exact (routes [.overrideAllow "org.*", .overrideDeny "-*,evil.", .check "org.Thing" .consumer,
      .overrideAllow "-org.*,shop."] rfl rfl).2 [] "org.Thing" .provider
  · exact ((programs Unit _ ()).2.2 _ _ read).deny.trans (by decide +kernel)

end Gate

end Switchboard
