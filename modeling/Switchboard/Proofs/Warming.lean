import Mathlib.Data.List.Basic
import Switchboard.Offer
import Switchboard.Proofs.Contents
import Switchboard.Proofs.Decimal

/-! Warm-ups from the settings of an offer to the choice of a provider. The numbers of the settings
become texts among the attributes of a provider, the texts are read again when a push brings the
provider to a book, and from then on a provider is judged by a weight and an end that it keeps. So
whatever push has brought it, and however often, it warms up as the settings say. -/
namespace Switchboard

/-- The providers that a push puts into a group of a book. -/
def Push.brings (push : Push) (name : String) : List Provider :=
  match push with
  | .full groups => (Contents.lastListed groups name).getD []
  | .set group | .add group => if group.name = name then group.members else []
  | .delete _ => []

def Push.groups (push : Push) : List Group :=
  match push with
  | .full groups => groups
  | .set group | .add group => [group]
  | .delete _ => []

theorem Push.mem_of_brings {push : Push} {name : String} {p : Provider}
    (brought : p ∈ push.brings name) : p ∈ push.groups.flatMap (·.members) := by
  cases push with
  | full groups =>
      rw [brings, Contents.lastListed] at brought
      cases found : groups.reverse.find? fun g => decide (g.name = name) with
      | none => simp [found] at brought
      | some g =>
          rw [found] at brought
          have listed := List.mem_reverse.mp (List.mem_of_find?_eq_some found)
          exact List.mem_flatMap.mpr ⟨g, listed, brought⟩
  | set g | add g =>
      rw [brings] at brought
      split at brought
      · exact List.mem_flatMap.mpr ⟨g, List.mem_singleton_self g, brought⟩
      · exact absurd brought List.not_mem_nil
  | delete g => exact absurd brought List.not_mem_nil

namespace Book

variable {b : Book}

theorem prepare_mem_receive (tidy : b.Tidy) {push : Push} {name : String} {p : Provider}
    (brought : p ∈ push.brings name) : p.prepare ∈ (b.receive push).members name := by
  cases push with
  | full groups =>
      rw [members_receive_full]
      rw [Push.brings] at brought
      cases found : Contents.lastListed groups name with
      | none => simp [found] at brought
      | some list =>
          rw [found] at brought
          exact List.mem_map_of_mem brought
  | set g =>
      rw [Push.brings] at brought
      split at brought
      next same =>
        rw [receive, members_update, if_pos (show g.prepare.name = name from same)]
        exact List.mem_map_of_mem brought
      next => exact absurd brought List.not_mem_nil
  | add g =>
      rw [Push.brings] at brought
      split at brought
      next same =>
        rw [members_receive_add tidy, if_pos ⟨same, List.ne_nil_of_mem brought⟩]
        exact List.mem_append_right _ (List.mem_map_of_mem brought)
      next => exact absurd brought List.not_mem_nil
  | delete g => exact absurd brought List.not_mem_nil

theorem origin_receive (tidy : b.Tidy) {push : Push} {name : String} {entry : Provider}
    (shown : entry ∈ (b.receive push).members name) :
    entry ∈ b.members name ∨ ∃ p ∈ push.brings name, entry = p.prepare := by
  cases push with
  | full groups =>
      rw [members_receive_full] at shown
      rw [Push.brings]
      cases found : Contents.lastListed groups name with
      | some list =>
          rw [found] at shown
          obtain ⟨p, member, rfl⟩ := List.mem_map.mp shown
          exact .inr ⟨p, member, rfl⟩
      | none =>
          simp only [found] at shown
          split at shown
          · exact .inl shown
          · exact absurd shown List.not_mem_nil
  | set g =>
      rw [receive, members_update] at shown
      rw [Push.brings]
      by_cases same : g.name = name
      · rw [if_pos (show g.prepare.name = name from same)] at shown
        obtain ⟨p, member, rfl⟩ := List.mem_map.mp shown
        exact .inr ⟨p, by rwa [if_pos same], rfl⟩
      · rw [if_neg (show ¬g.prepare.name = name from same)] at shown
        exact .inl shown
  | add g =>
      rw [members_receive_add tidy] at shown
      rw [Push.brings]
      split at shown
      next both =>
        rcases List.mem_append.mp shown with old | new
        · split at old
          · exact absurd old List.not_mem_nil
          · exact .inl old
        · obtain ⟨p, member, rfl⟩ := List.mem_map.mp new
          exact .inr ⟨p, by rwa [if_pos both.1], rfl⟩
      next => exact .inl shown
  | delete g =>
      rw [receive, members_remove] at shown
      split at shown
      · exact .inl (List.mem_of_mem_filter shown)
      · exact .inl shown

end Book

namespace Provider

theorem attribute?_withAttribute (p : Provider) (key value other : String) :
    (p.withAttribute key value).attribute? other =
      if key = other then some value else p.attribute? other := p.attributes.get?_insert ..

theorem attribute?_begin (p : Provider) (w : Warmup) {key : String}
    (other : key ≠ warmupTimeKey ∧ key ≠ warmupWeightKey ∧ key ≠ startTimeKey) :
    (p.begin w).attribute? key = p.attribute? key := by
  simp [attribute?, begin, Dictionary.get?_erase, Ne.symm other.1, Ne.symm other.2.1,
    Ne.symm other.2.2]

theorem weight_begin (p : Provider) (w : Warmup) : (p.begin w).weight = p.weight := by
  rw [weight, attribute?_begin p w (by decide), weight]

theorem isWarmingUp_begin (p : Provider) (w : Warmup) (now : Nat) :
    (p.begin w).isWarmingUp now = decide (now < w.finish) := by simp [isWarmingUp, begin]

theorem statusAt_begin (p : Provider) (w : Warmup) (now : Nat) :
    (p.begin w).statusAt now = if now < w.finish then .warmingUp else .available := by
  rw [statusAt, isWarmingUp_begin]
  by_cases within : now < w.finish <;> simp [within, begin]

theorem effectiveWeight_begin (p : Provider) (w : Warmup) (now : Nat) :
    (p.begin w).effectiveWeight now = if now < w.finish then w.weight else p.weight := by
  have own : (p.begin w).warmupWeight = some w.weight := rfl
  rw [effectiveWeight, isWarmingUp_begin, weight_begin, own]
  simp only [decide_eq_true_eq]

end Provider

namespace Offer

/-- The numbers of the settings fit the width that they have as attributes. -/
structure Settings.Fits (s : Settings) : Prop where
  weight : s.weight ≤ Text.bound32
  warmupWeight : s.warmupWeight ≤ Text.bound32
  warmupLength : s.warmupLength ≤ Text.bound64

/-- A provider that has started at a time is to warm up at another one. -/
def Settings.WarmsUp (s : Settings) (start now : Nat) : Prop :=
  0 < s.warmupLength ∧ now < min (start + s.warmupLength) Text.bound64

instance (s : Settings) (start now : Nat) : Decidable (s.WarmsUp start now) :=
  inferInstanceAs (Decidable (_ ∧ _))

theorem Settings.not_warmsUp_of_le {s : Settings} {start now later : Nat}
    (past : ¬ s.WarmsUp start now) (after : now ≤ later) : ¬ s.WarmsUp start later :=
  fun again => past ⟨again.1, Nat.lt_of_le_of_lt after again.2⟩

/-- An entry of a book stands for a provider as the settings want it, at all times, and its numbers
fit their width. -/
structure Settings.Governs (s : Settings) (start : Nat) (entry : Provider) : Prop where
  status : ∀ now, entry.statusAt now = if s.WarmsUp start now then .warmingUp else .available
  weight : ∀ now, entry.effectiveWeight now =
    if s.WarmsUp start now then s.warmupWeight else s.weight
  warmupWeight : ∀ weight ∈ entry.warmupWeight, weight ≤ Text.bound32
  warmupEnd : ∀ time ∈ entry.warmupEnd, time ≤ Text.bound64

variable {ε : Type} {o : Offer ε} {start : Nat}

theorem attribute?_warmupAttributes (s : Settings) (start : Nat) (p : Provider) {key : String}
    (other : key ≠ Provider.warmupTimeKey ∧ key ≠ Provider.warmupWeightKey ∧
      key ≠ Provider.startTimeKey) :
    (warmupAttributes s start p).attribute? key = p.attribute? key := by
  unfold warmupAttributes
  split
  · rfl
  · simp only [Provider.attribute?_withAttribute, Ne.symm other.1, Ne.symm other.2.1,
      Ne.symm other.2.2, if_false]

theorem status_warmupAttributes (s : Settings) (start : Nat) (p : Provider) :
    (warmupAttributes s start p).status = p.status ∧
      (warmupAttributes s start p).warmupWeight = p.warmupWeight ∧
      (warmupAttributes s start p).warmupEnd = p.warmupEnd := by
  unfold warmupAttributes
  split <;> exact ⟨rfl, rfl, rfl⟩

def named (o : Offer ε) : Provider :=
  let weighted :=
    (Provider.new o.settings.host o.settings.port o.settings.protocol).withAttribute
      Provider.weightKey (toString o.settings.weight)
  if o.service.appName.isEmpty then weighted
  else weighted.withAttribute Provider.appNameKey o.service.appName

theorem provider_eq_warmupAttributes (o : Offer ε) (start : Nat) :
    o.provider start = warmupAttributes o.settings start o.named := rfl

theorem attribute?_named (o : Offer ε) {key : String} (other : key ≠ Provider.appNameKey) :
    o.named.attribute? key =
      if Provider.weightKey = key then some (toString o.settings.weight) else none := by
  unfold named
  split
  · rw [Provider.attribute?_withAttribute]
    rfl
  · rw [Provider.attribute?_withAttribute, if_neg (Ne.symm other),
      Provider.attribute?_withAttribute]
    rfl

theorem status_named (o : Offer ε) :
    o.named.status = .available ∧ o.named.warmupWeight = none ∧ o.named.warmupEnd = none := by
  unfold named
  split <;> exact ⟨rfl, rfl, rfl⟩

theorem weight_provider (fits : o.settings.Fits) (start : Nat) :
    (o.provider start).weight = o.settings.weight := by
  rw [Provider.weight, provider_eq_warmupAttributes, attribute?_warmupAttributes _ _ _ (by decide),
    attribute?_named o (by decide), if_pos rfl, Option.bind_some,
    Text.whole?_toString fits.weight, Option.getD_some]

theorem warmup?_provider (fits : o.settings.Fits) (started : start ≤ Text.bound64) :
    (o.provider start).warmup? =
      if o.settings.warmupLength = 0 then none
      else some ⟨o.settings.warmupLength, o.settings.warmupWeight, start⟩ := by
  rw [provider_eq_warmupAttributes, warmupAttributes]
  by_cases none : o.settings.warmupLength = 0
  · rw [if_pos none, if_pos none, Provider.warmup?, attribute?_named o (by decide),
      if_neg (by decide)]
    rfl
  · rw [if_neg none, if_neg none]
    simp only [Provider.warmup?, Provider.attribute?_withAttribute, Provider.warmupTimeKey,
      Provider.warmupWeightKey, Provider.startTimeKey, String.reduceEq, if_true, if_false]
    simp only [Option.bind_some, Text.whole?_toString fits.warmupLength,
      Text.whole?_toString fits.warmupWeight, Text.whole?_toString started]
    rfl

theorem warmsUp_iff_of_pos {s : Settings} (some : s.warmupLength ≠ 0) (now : Nat) :
    s.WarmsUp start now ↔
      now < (⟨s.warmupLength, s.warmupWeight, start⟩ : Provider.Warmup).finish :=
  ⟨And.right, fun within => ⟨Nat.pos_of_ne_zero some, within⟩⟩

theorem governs_prepare (fits : o.settings.Fits) (started : start ≤ Text.bound64) :
    o.settings.Governs start (o.provider start).prepare := by
  have read := warmup?_provider fits started
  by_cases none : o.settings.warmupLength = 0
  · rw [if_pos none] at read
    have never : ∀ now, ¬ o.settings.WarmsUp start now := fun now warms =>
      absurd none (Nat.ne_of_gt warms.1)
    obtain ⟨status, noWeight, noEnd⟩ :=
      status_warmupAttributes o.settings start o.named
    obtain ⟨available, weightless, endless⟩ := o.status_named
    rw [available, ← provider_eq_warmupAttributes] at status
    rw [weightless, ← provider_eq_warmupAttributes] at noWeight
    rw [endless, ← provider_eq_warmupAttributes] at noEnd
    rw [Provider.prepare, read]
    exact
      { status := fun now => by rw [if_neg (never now)]; simp [Provider.statusAt, status]
        weight := fun now => by
          rw [if_neg (never now), ← weight_provider fits start]
          simp [Provider.effectiveWeight, noWeight]
        warmupWeight := fun weight held => by rw [noWeight] at held; cases held
        warmupEnd := fun time held => by rw [noEnd] at held; cases held }
  · rw [if_neg none] at read
    rw [Provider.prepare, read]
    exact
      { status := fun now => by simp only [Provider.statusAt_begin, warmsUp_iff_of_pos none]
        weight := fun now => by
          simp only [Provider.effectiveWeight_begin, warmsUp_iff_of_pos none,
            weight_provider fits start]
        warmupWeight := fun weight held => Option.some.inj held ▸ fits.warmupWeight
        warmupEnd := fun time held => Option.some.inj held ▸ Nat.min_le_right _ _ }

/-- A book has a provider under its identity as pushes prepare it, and no other one. -/
def KeptBy (b : Book) (p : Provider) : Prop :=
  ∀ name, ∀ entry ∈ b.members name, entry.identity = p.identity → entry = p.prepare

/-- A push brings under the identity of a provider that one, new or as a book has had it already,
and no other one. -/
def BroughtBy (push : Push) (p : Provider) : Prop :=
  ∀ other ∈ push.groups.flatMap (·.members), other.identity = p.identity →
    other = p ∨ other = p.prepare

theorem KeptBy.receive {b : Book} {p : Provider} (kept : KeptBy b p) (tidy : b.Tidy) {push : Push}
    (own : BroughtBy push p) : KeptBy (b.receive push) p := by
  intro name entry shown same
  rcases Book.origin_receive tidy shown with old | ⟨other, brought, rfl⟩
  · exact kept name entry old same
  · rw [Provider.identity_prepare] at same
    rcases own other (Push.mem_of_brings brought) same with rfl | rfl
    · rfl
    · exact Provider.prepare_prepare p

theorem KeptBy.foldl_receive {b : Book} {p : Provider} (kept : KeptBy b p) (tidy : b.Tidy)
    {pushes : List Push} (own : ∀ push ∈ pushes, BroughtBy push p) :
    KeptBy (pushes.foldl Book.receive b) p := by
  induction pushes generalizing b with
  | nil => exact kept
  | cons push rest ih =>
      obtain ⟨first, others⟩ := List.forall_mem_cons.mp own
      exact ih (kept.receive tidy first) (tidy.receive push) others

/-- A provider of an offer is brought to a book by pushes of any kind, any number of times and amid
other providers. Each push that brings it has put it into the book, and in every state it warms up
there with the weight of the settings until its time is over and has its own weight otherwise. Once
it is available it stays so, also if it is brought again, and no number exceeds its width. -/
theorem warms_up_as_configured (fits : o.settings.Fits) (started : start ≤ Text.bound64)
    {b : Book} (tidy : b.Tidy)
    (new : ∀ name, ∀ entry ∈ b.members name, entry.identity ≠ (o.provider start).identity)
    {pushes : List Push} (own : ∀ push ∈ pushes, BroughtBy push (o.provider start)) :
    (∀ earlier push, earlier ++ [push] <+: pushes → ∀ name, o.provider start ∈ push.brings name →
      ∃ entry ∈ ((earlier ++ [push]).foldl Book.receive b).members name,
        entry.identity = (o.provider start).identity) ∧
    (∀ name, ∀ entry ∈ (pushes.foldl Book.receive b).members name,
      entry.identity = (o.provider start).identity → o.settings.Governs start entry) ∧
    ∀ earlier, earlier <+: pushes → ∀ name, ∀ entry ∈ (earlier.foldl Book.receive b).members name,
      entry.identity = (o.provider start).identity → ∀ now, entry.statusAt now = .available →
        ∀ place, ∀ again ∈ (pushes.foldl Book.receive b).members place,
          again.identity = (o.provider start).identity → ∀ later, now ≤ later →
            again.statusAt later = .available ∧
              again.effectiveWeight later = o.settings.weight := by
  have governs := governs_prepare fits started
  have kept : ∀ earlier, earlier <+: pushes →
      KeptBy (earlier.foldl Book.receive b) (o.provider start) := fun earlier part =>
    KeptBy.foldl_receive (fun name entry shown same => absurd same (new name entry shown)) tidy
      fun push member => own push (part.subset member)
  refine ⟨fun earlier push part name brought => ?_, fun name entry shown same => ?_,
    fun earlier part name entry shown same now past place again shownAgain sameAgain later after =>
      ?_⟩
  · refine ⟨(o.provider start).prepare, ?_, Provider.identity_prepare _⟩
    rw [List.foldl_append]
    exact Book.prepare_mem_receive (tidy.foldl_receive earlier) brought
  · rw [kept pushes List.prefix_rfl name entry shown same]
    exact governs
  · rw [kept earlier part name entry shown same, governs.status] at past
    rw [kept pushes List.prefix_rfl place again shownAgain sameAgain]
    have left : ¬ o.settings.WarmsUp start now := fun warms => by
      rw [if_pos warms] at past
      cases past
    have stays := Settings.not_warmsUp_of_le left after
    exact ⟨(governs.status later).trans (if_neg stays), (governs.weight later).trans (if_neg stays)⟩

def warming : Offer Unit where
  settings := ⟨"com.demo.Echo", "", "bolt", "demo", "10.0.0.1", 12200, 50, 1000, 5, "", [], "", ""⟩
  service := ⟨"com.demo.Echo", "bolt", "", "demo"⟩
  custom := []
  act := fun _ world => (.ok .empty, world)
  announced := none

/-- The offer starts so late that its warm-up would go on after the last time there is. It is
brought three times, once as the book has had it and once with a neighbour. -/
theorem warms_up_as_configured_redelivered :
    ∃ p other : Provider, p = warming.provider (Text.bound64 - 500) ∧
      ∃ pushes : List Push,
        pushes = [.add ⟨"blue", [p]⟩, .set ⟨"blue", [p.prepare]⟩, .full [⟨"blue", [p, other]⟩]] ∧
        warming.settings.Fits ∧ Book.empty.Tidy ∧ (∀ push ∈ pushes, BroughtBy push p) ∧
        ∃ entry ∈ (pushes.foldl Book.receive .empty).members "blue", entry.identity = p.identity ∧
          entry.statusAt (Text.bound64 - 1) = .warmingUp ∧
          entry.effectiveWeight (Text.bound64 - 1) = 5 ∧
          entry.statusAt Text.bound64 = .available ∧ entry.effectiveWeight Text.bound64 = 50 := by
  have fits : warming.settings.Fits := ⟨by decide, by decide, by decide⟩
  have tidy : Book.empty.Tidy := rfl
  let p := warming.provider (Text.bound64 - 500)
  let other := Provider.new "10.0.0.2" 12200 "bolt"
  have here : p.identity = ⟨"10.0.0.1", 12200, "bolt"⟩ := by decide
  have own : ∀ push ∈ [Push.add ⟨"blue", [p]⟩, .set ⟨"blue", [p.prepare]⟩,
      .full [⟨"blue", [p, other]⟩]], BroughtBy push p := by
    intro push member one brought same
    simp only [List.mem_cons, List.not_mem_nil, or_false] at member
    rcases member with rfl | rfl | rfl
    · exact .inl (by simpa [Push.groups] using brought)
    · exact .inr (by simpa [Push.groups] using brought)
    · have listed : one = p ∨ one = other := by simpa [Push.groups] using brought
      refine .inl (listed.resolve_right ?_)
      rintro rfl
      rw [here] at same
      exact absurd same (by decide)
  obtain ⟨present, governs, -⟩ := warms_up_as_configured (o := warming) fits (Nat.sub_le ..) tidy
    (fun name entry none => absurd none (by simp [Book.members_empty])) own
  obtain ⟨entry, shown, same⟩ := present [_, _] _ List.prefix_rfl "blue"
    (show p ∈ [p, other] from List.mem_cons_self)
  have lives := governs "blue" entry shown same
  exact ⟨p, other, rfl, _, rfl, fits, tidy, own, entry, shown, same,
    (lives.status _).trans (by decide), (lives.weight _).trans (by decide),
    (lives.status _).trans (by decide), (lives.weight _).trans (by decide)⟩

end Offer

end Switchboard
