import Switchboard.Proofs.Warming

/-! The preparation of a provider as one step that is taken as a whole or not at all, and only once.
A book prepares what pushes bring to it, so none of its entries has a warm-up left to take over, and
what is brought again finds the warm-up that it has had since it was brought first. -/
namespace Switchboard

namespace Text

theorem whole?_eq_some_iff {bound n : Nat} {text : String} :
    whole? bound text = some n ↔ readWhole bound (trimChars text.toList) = .ok n := by
  rw [whole?]
  cases readWhole bound (trimChars text.toList) <;> simp [Except.toOption]

end Text

namespace Provider

variable {p : Provider} {w : Warmup}

/-- An attribute is there and holds, between blanks, a whole number under a bound. -/
def Holds (p : Provider) (key : String) (bound n : Nat) : Prop :=
  ∃ text, p.attribute? key = some text ∧
    Text.readWhole bound (Text.trimChars text.toList) = .ok n

structure SpeaksOf (p : Provider) (w : Warmup) : Prop where
  length : p.Holds warmupTimeKey Text.bound64 w.length
  weight : p.Holds warmupWeightKey Text.bound32 w.weight
  start : p.Holds startTimeKey Text.bound64 w.start

theorem bind_whole?_eq_some_iff (p : Provider) (key : String) (bound n : Nat) :
    (p.attribute? key).bind (Text.whole? bound) = some n ↔ p.Holds key bound n := by
  simp only [Option.bind_eq_some_iff, Text.whole?_eq_some_iff, Holds]

theorem warmup?_eq_some_iff : p.warmup? = some w ↔ p.SpeaksOf w := by
  constructor
  · intro read
    obtain ⟨length, hasLength, rest⟩ := Option.bind_eq_some_iff.mp read
    obtain ⟨weight, hasWeight, rest⟩ := Option.bind_eq_some_iff.mp rest
    obtain ⟨start, hasStart, rest⟩ := Option.bind_eq_some_iff.mp rest
    obtain rfl := Option.some.inj rest
    exact ⟨(bind_whole?_eq_some_iff ..).mp hasLength, (bind_whole?_eq_some_iff ..).mp hasWeight,
      (bind_whole?_eq_some_iff ..).mp hasStart⟩
  · rintro ⟨length, weight, start⟩
    rw [← bind_whole?_eq_some_iff] at length weight start
    simp [warmup?, length, weight, start]

theorem warmup?_eq_none_iff : p.warmup? = none ↔ ¬∃ w, p.SpeaksOf w := by
  simp only [Option.eq_none_iff_forall_ne_some, ne_eq, warmup?_eq_some_iff, not_exists]

theorem prepare_of_speaksOf (speaks : p.SpeaksOf w) : p.prepare = p.begin w := by
  rw [prepare, warmup?_eq_some_iff.mpr speaks]

theorem prepare_of_not_speaksOf (silent : ¬∃ w, p.SpeaksOf w) : p.prepare = p := by
  rw [prepare, warmup?_eq_none_iff.mpr silent]

theorem warmup?_prepare (p : Provider) : p.prepare.warmup? = none := by
  by_cases speaks : ∃ w, p.SpeaksOf w
  · obtain ⟨w, speaks⟩ := speaks
    rw [prepare_of_speaksOf speaks, warmup?_begin]
  · rw [prepare_of_not_speaksOf speaks, warmup?_eq_none_iff.mpr speaks]

def warmupKeys : List String := [warmupTimeKey, warmupWeightKey, startTimeKey]

theorem attribute?_begin_eq (p : Provider) (w : Warmup) (key : String) :
    (p.begin w).attribute? key = if key ∈ warmupKeys then none else p.attribute? key := by
  by_cases taken : key ∈ warmupKeys
  · rw [if_pos taken]
    simp only [warmupKeys, List.mem_cons, List.not_mem_nil, or_false] at taken
    rcases taken with rfl | rfl | rfl <;> simp [attribute?, begin, Dictionary.get?_erase]
  · rw [if_neg taken]
    simp only [warmupKeys, List.mem_cons, List.not_mem_nil, or_false, not_or] at taken
    exact attribute?_begin p w taken

/-- A provider as it is once it has entered a warm-up. -/
structure Enters (p : Provider) (w : Warmup) (entered : Provider) : Prop where
  identity : entered.identity = p.identity
  status : entered.status = .warmingUp
  weight : entered.warmupWeight = some w.weight
  finish : entered.warmupEnd = some (min (w.start + w.length) Text.bound64)
  attributes : ∀ key,
    entered.attribute? key = if key ∈ warmupKeys then none else p.attribute? key

theorem enters_begin (p : Provider) (w : Warmup) : p.Enters w (p.begin w) :=
  ⟨rfl, rfl, rfl, rfl, p.attribute?_begin_eq w⟩

end Provider

namespace Book

variable {b : Book}

def Displayed (b : Book) (entry : Provider) : Prop :=
  (∃ name, entry ∈ b.members name) ∨ ∃ g ∈ b.groups, entry ∈ g.members

theorem Tidy.displayed_iff (tidy : b.Tidy) (entry : Provider) :
    b.Displayed entry ↔ ∃ name, entry ∈ b.members name := by
  exact or_iff_left_of_imp (exists_mem_groups_iff tidy entry).mp

theorem origin_foldl_receive (tidy : b.Tidy) {pushes : List Push} {name : String}
    {entry : Provider} (shown : entry ∈ (pushes.foldl receive b).members name) :
    entry ∈ b.members name ∨ ∃ push ∈ pushes, ∃ p ∈ push.brings name, entry = p.prepare := by
  induction pushes generalizing b with
  | nil => exact .inl shown
  | cons push rest ih =>
      rcases ih (tidy.receive push) shown with before | ⟨later, member, brought⟩
      · rcases origin_receive tidy before with old | new
        · exact .inl old
        · exact .inr ⟨push, List.mem_cons_self, new⟩
      · exact .inr ⟨later, List.mem_cons_of_mem _ member, brought⟩

theorem mem_receive_receive (tidy : b.Tidy) (push : Push) (name : String) (entry : Provider) :
    entry ∈ ((b.receive push).receive push).members name ↔
      entry ∈ (b.receive push).members name := by
  cases push with
  | full groups =>
      simp only [members_receive_full]
      cases Contents.lastListed groups name with
      | some list => rfl
      | none => by_cases direct : name = Group.directName <;> simp [direct]
  | set g =>
      simp only [receive, members_update]
      split <;> rfl
  | add g =>
      simp only [members_receive_add (tidy.receive _), members_receive_add tidy]
      by_cases own : g.name = name ∧ g.members ≠ []
      · by_cases direct : name = Group.directName <;> simp [own, direct]
      · simp [own]
  | delete g =>
      simp only [receive, members_remove]
      split
      · simp [Group.without]
      · rfl

/-- No entry of a book has a warm-up left to enter. -/
def Prepared (b : Book) : Prop :=
  ∀ entry, b.Displayed entry → entry.warmup? = none ∧ entry.prepare = entry

theorem prepared_foldl_receive (pushes : List Push) :
    (pushes.foldl Book.receive .empty).Prepared := by
  intro entry displayed
  have tidy : Book.empty.Tidy := rfl
  obtain ⟨name, shown⟩ := ((tidy.foldl_receive pushes).displayed_iff entry).mp displayed
  rcases origin_foldl_receive tidy shown with old | ⟨push, -, p, -, rfl⟩
  · rw [members_empty] at old
    exact absurd old List.not_mem_nil
  · exact ⟨p.warmup?_prepare, p.prepare_prepare⟩

/-- A push comes to a book a second time, maybe with others in between. What it brings has the same
warm-up after both, and the second time puts nothing else into the book. -/
structure Redelivered (push : Push) (first before again : Book) : Prop where
  same : ∀ name, ∀ p ∈ push.brings name,
    p.prepare ∈ first.members name ∧ p.prepare ∈ again.members name
  origin : ∀ name, ∀ entry ∈ again.members name,
    entry ∈ before.members name ∨ ∃ p ∈ push.brings name, entry = p.prepare

theorem redelivered_receive (tidy : b.Tidy) (push : Push) (between : List Push) :
    Redelivered push (b.receive push) (between.foldl Book.receive (b.receive push))
      ((between.foldl Book.receive (b.receive push)).receive push) := by
  have later := (tidy.receive push).foldl_receive between
  exact
    { same := fun name p brought =>
        ⟨prepare_mem_receive tidy brought, prepare_mem_receive later brought⟩
      origin := fun name entry shown => origin_receive later shown }

end Book

/-- A provider enters the warm-up that three of its attributes speak of, as a whole or not at all,
and has none to enter afterwards. In a book that only pushes have filled every entry is past that
step, so that a push brings the same warm-up however often it comes, also when the entries that it
had left are still there. -/
theorem enters_warmup_once :
    (∀ p : Provider,
      (∀ w, p.SpeaksOf w → p.warmup? = some w ∧ p.Enters w p.prepare) ∧
      ((¬∃ w, p.SpeaksOf w) → p.warmup? = none ∧ p.prepare = p) ∧
      p.prepare.warmup? = none ∧ p.prepare.prepare = p.prepare) ∧
    ∀ pushes : List Push, ∀ b, b = pushes.foldl Book.receive .empty →
      b.Prepared ∧
      ∀ push : Push,
        (∀ between : List Push, ∀ before, before = between.foldl Book.receive (b.receive push) →
          Book.Redelivered push (b.receive push) before (before.receive push)) ∧
        ∀ name entry, entry ∈ ((b.receive push).receive push).members name ↔
          entry ∈ (b.receive push).members name := by
  refine ⟨fun p => ⟨fun w speaks => ?_, fun silent => ?_, p.warmup?_prepare, p.prepare_prepare⟩,
    ?_⟩
  · rw [Provider.prepare_of_speaksOf speaks]
    exact ⟨Provider.warmup?_eq_some_iff.mpr speaks, p.enters_begin w⟩
  · exact ⟨Provider.warmup?_eq_none_iff.mpr silent, Provider.prepare_of_not_speaksOf silent⟩
  · rintro pushes b rfl
    have tidy : Book.Tidy (pushes.foldl Book.receive .empty) :=
      Book.Tidy.foldl_receive (b := .empty) rfl pushes
    refine ⟨Book.prepared_foldl_receive pushes, fun push => ⟨?_, ?_⟩⟩
    · rintro between before rfl
      exact Book.redelivered_receive tidy push between
    · exact Book.mem_receive_receive tidy push

/-- A provider whose warm-up is written with blanks and a plus. -/
def signed : Provider :=
  (((Provider.new "10.0.0.1" 12200 "bolt").withAttribute Provider.warmupTimeKey " 2000 "
    ).withAttribute Provider.warmupWeightKey "10").withAttribute Provider.startTimeKey "+42"

/-- The provider comes twice to a group that keeps what it has, and both entries are the one that
has entered the warm-up. -/
theorem enters_warmup_once_appended :
    signed.SpeaksOf ⟨2000, 10, 42⟩ ∧ signed.Enters ⟨2000, 10, 42⟩ signed.prepare ∧
      signed.prepare.warmupEnd = some 2042 ∧
      ∃ b : Book, b = [Push.add ⟨"blue", [signed]⟩, .add ⟨"blue", [signed]⟩].foldl
          Book.receive .empty ∧
        b.members "blue" = [signed.prepare, signed.prepare] ∧ b.Prepared := by
  have speaks : signed.SpeaksOf ⟨2000, 10, 42⟩ := Provider.warmup?_eq_some_iff.mp (by decide)
  obtain ⟨single, runs⟩ := enters_warmup_once
  exact ⟨speaks, ((single signed).1 _ speaks).2, by decide, _, rfl, by decide,
    (runs _ _ rfl).1⟩

end Switchboard
