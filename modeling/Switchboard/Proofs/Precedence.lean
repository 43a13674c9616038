import Switchboard.Proofs.Catalog

/-! Precedence among definitions. Whatever was registered and looked up in a catalog, under each key
the first definition of the highest order is in force. A look-up calls the factory of this one with
its own argument, or gives what this factory has made for the first time since the definition came
into force, and nothing that another one has made. -/
namespace Switchboard

namespace Catalog

/-- What is done with a catalog. A look-up finds the surroundings as they are at its time. -/
inductive Act (ε α τ : Type) where
  | register (d : Definition ε α τ)
  | get (key : String) (argument : α) (world : ε)

variable {ε α τ : Type} {past others since : List (Act ε α τ)} {d e : Definition ε α τ}
  {c : Catalog ε α τ} {key : String} {capability : String}

def perform (c : Catalog ε α τ) : Act ε α τ → Catalog ε α τ
  | .register d => (c.register d).catalog
  | .get key argument world => (c.get key argument world).catalog

def after (c : Catalog ε α τ) (acts : List (Act ε α τ)) : Catalog ε α τ := acts.foldl perform c

def offered (acts : List (Act ε α τ)) : List (Definition ε α τ) :=
  acts.filterMap fun act => match act with
    | .register d => some d
    | .get _ _ _ => none

def offeredFor (key : String) (acts : List (Act ε α τ)) : List (Definition ε α τ) :=
  (offered acts).filter fun d => decide (d.key = key)

def offeredAt (key : String) (order : Int) (acts : List (Act ε α τ)) :
    Option (Definition ε α τ) :=
  (offeredFor key acts).find? fun d => decide (d.order = order)

/-- A definition is the first of the highest order under its key, and it was registered before the
last acts. -/
structure InForce (past : List (Act ε α τ)) (d : Definition ε α τ) (since : List (Act ε α τ)) :
    Prop where
  surpasses : ∃ before, past = before ++ .register d :: since ∧
    ∀ e ∈ offeredFor d.key before, e.order < d.order
  unsurpassed : ∀ e ∈ offeredFor d.key since, e.order ≤ d.order

/-- What the factory of a definition has made at the first look-up at which it has not failed. -/
def firstMade (d : Definition ε α τ) (acts : List (Act ε α τ)) : Option τ :=
  acts.findSome? fun act => match act with
    | .register _ => none
    | .get key argument world =>
        if key = d.key then (d.build argument world).1.toOption else none

inductive LooksUp (capability : String) (past : List (Act ε α τ)) (key : String) (argument : α)
    (world : ε) : Outcome τ → ε → Prop where
  | missing (undefined : offeredFor key past = []) :
      LooksUp capability past key argument world (.error (.missingExtension capability key)) world
  | built (d : Definition ε α τ) (since : List (Act ε α τ)) (own : d.key = key)
      (inForce : InForce past d since) (unmade : d.single = true → firstMade d since = none) :
      LooksUp capability past key argument world (d.build argument world).1
        (d.build argument world).2
  | kept (d : Definition ε α τ) (since : List (Act ε α τ)) (own : d.key = key)
      (inForce : InForce past d since) (single : d.single = true) (thing : τ)
      (made : firstMade d since = some thing) :
      LooksUp capability past key argument world (.ok thing) world

theorem offeredFor_append (key : String) (acts more : List (Act ε α τ)) :
    offeredFor key (acts ++ more) = offeredFor key acts ++ offeredFor key more := by
  simp [offeredFor, offered]

theorem offeredFor_register (key : String) (d : Definition ε α τ) (acts : List (Act ε α τ)) :
    offeredFor key (.register d :: acts) =
      if d.key = key then d :: offeredFor key acts else offeredFor key acts := by
  by_cases own : d.key = key <;> simp [offeredFor, offered, own]

theorem firstMade_concat (d : Definition ε α τ) (acts : List (Act ε α τ)) (act : Act ε α τ) :
    firstMade d (acts ++ [act]) = (firstMade d acts).or (firstMade d [act]) :=
  List.findSome?_append

namespace InForce

theorem offeredFor_eq (inForce : InForce past d since) :
    ∃ before, offeredFor d.key past = before ++ d :: offeredFor d.key since ∧
      ∀ e ∈ before, e.order < d.order := by
  obtain ⟨before, rfl, lower⟩ := inForce.surpasses
  refine ⟨_, ?_, lower⟩
  rw [offeredFor_append, offeredFor_register, if_pos rfl]

theorem mem (inForce : InForce past d since) : d ∈ offeredFor d.key past := by
  obtain ⟨before, whole, -⟩ := inForce.offeredFor_eq
  rw [whole]
  exact List.mem_append_right _ List.mem_cons_self

theorem highest (inForce : InForce past d since) :
    ∀ e ∈ offeredFor d.key past, e.order ≤ d.order := by
  obtain ⟨before, whole, lower⟩ := inForce.offeredFor_eq
  intro e member
  rw [whole] at member
  rcases List.mem_append.mp member with earlier | later
  · exact Int.le_of_lt (lower e earlier)
  · rcases List.mem_cons.mp later with rfl | last
    · exact Int.le_refl _
    · exact inForce.unsurpassed e last

theorem first (inForce : InForce past d since) : offeredAt d.key d.order past = some d := by
  obtain ⟨before, whole, lower⟩ := inForce.offeredFor_eq
  have none : (before.find? fun e => decide (e.order = d.order)) = none := by
    refine List.find?_eq_none.mpr fun e member => ?_
    simpa using Int.ne_of_lt (lower e member)
  simp [offeredAt, whole, List.find?_append, none]

theorem level {later : List (Act ε α τ)} (one : InForce past d since)
    (two : InForce others e later) (same : d.key = e.key)
    (offers : ∀ f, f ∈ offeredFor d.key past ↔ f ∈ offeredFor d.key others) :
    d.order = e.order :=
  Int.le_antisymm (two.highest d (same ▸ (offers d).mp one.mem))
    (one.highest e ((offers e).mpr (same ▸ two.mem)))

theorem unique {later : List (Act ε α τ)} (one : InForce past d since) (two : InForce past e later)
    (same : d.key = e.key) : d = e := by
  have first := one.first
  rw [same, one.level two same fun _ => Iff.rfl, two.first] at first
  exact (Option.some.inj first).symm

theorem now (lower : ∀ e ∈ offeredFor d.key past, e.order < d.order) :
    InForce (past ++ [.register d]) d [] :=
  ⟨⟨past, rfl, lower⟩, fun _ member => absurd member List.not_mem_nil⟩

theorem concat (inForce : InForce past d since) {act : Act ε α τ}
    (lower : ∀ e, act = .register e → e.key = d.key → e.order ≤ d.order) :
    InForce (past ++ [act]) d (since ++ [act]) := by
  obtain ⟨before, rfl, earlier⟩ := inForce.surpasses
  refine ⟨⟨before, by simp, earlier⟩, fun e member => ?_⟩
  rw [offeredFor_append] at member
  rcases List.mem_append.mp member with known | last
  · exact inForce.unsurpassed e known
  · cases act with
    | get other argument world => cases last
    | register f =>
        rw [offeredFor_register] at last
        split at last
        next own =>
          obtain rfl := List.mem_singleton.mp last
          exact lower e rfl own
        next => cases last

end InForce

/-- What a catalog has under a key after some acts: nothing, or the definition in force, beside what
it has made if it makes a single thing. -/
inductive Holds (past : List (Act ε α τ)) (key : String) (c : Catalog ε α τ) : Prop where
  | nothing (unoffered : offeredFor key past = []) (undefined : c.definitions.get? key = none)
      (unkept : c.kept.get? key = none)
  | inForce (d : Definition ε α τ) (since : List (Act ε α τ)) (own : d.key = key)
      (inForce : InForce past d since) (defined : c.definitions.get? key = some d)
      (kept : c.kept.get? key = if d.single then firstMade d since else none)

structure Reflects (capability : String) (past : List (Act ε α τ)) (c : Catalog ε α τ) : Prop where
  capability : c.capability = capability
  holds : ∀ key, Holds past key c

theorem offeredFor_concat_of_ne {act : Act ε α τ} (other : ∀ e, act = .register e → e.key ≠ key) :
    offeredFor key (past ++ [act]) = offeredFor key past := by
  rw [offeredFor_append]
  cases act with
  | get at' argument world => exact List.append_nil _
  | register e =>
      rw [offeredFor_register, if_neg (other e rfl)]
      exact List.append_nil _

theorem firstMade_get (d : Definition ε α τ) (argument : α) (world : ε) :
    firstMade d [.get d.key argument world] = (d.build argument world).1.toOption := by
  cases built : (d.build argument world).1 <;> simp [firstMade, built, Except.toOption]

theorem firstMade_concat_of_ne {act : Act ε α τ}
    (other : ∀ argument world, act ≠ .get d.key argument world) :
    firstMade d (since ++ [act]) = firstMade d since := by
  rw [firstMade_concat]
  cases act with
  | register e => exact Option.or_none
  | get at' argument world =>
      have different : at' ≠ d.key := fun same => other argument world (same ▸ rfl)
      simp [firstMade, different]

namespace Holds

theorem elsewhere (holds : Holds past key c) {act : Act ε α τ}
    (unoffered : ∀ e, act = .register e → e.key ≠ key)
    (unread : ∀ argument world, act ≠ .get key argument world)
    (defined : (c.perform act).definitions.get? key = c.definitions.get? key)
    (kept : (c.perform act).kept.get? key = c.kept.get? key) :
    Holds (past ++ [act]) key (c.perform act) := by
  cases holds with
  | nothing none undefined unkept =>
      exact nothing ((offeredFor_concat_of_ne unoffered).trans none) (defined.trans undefined)
        (kept.trans unkept)
  | inForce d since own first known made =>
      subst own
      refine inForce d (since ++ [act]) rfl ?_ (defined.trans known) ?_
      · exact first.concat fun e same equal => absurd equal (unoffered e same)
      · rw [firstMade_concat_of_ne unread]
        exact kept.trans made

theorem register (holds : Holds past d.key c) :
    Holds (past ++ [.register d]) d.key (c.register d).catalog := by
  cases holds with
  | nothing none undefined unkept =>
      refine inForce d [] rfl (.now (by simp [none])) ?_ ?_
      · simp [Catalog.register, undefined, Dictionary.get?_insert]
      · simpa [Catalog.register, undefined, firstMade] using unkept
  | inForce e since own first known made =>
      by_cases below : d.order ≤ e.order
      · have same : (c.register d).catalog = c := by simp [Catalog.register, known, below]
        rw [same]
        refine inForce e (since ++ [.register d]) own ?_ known ?_
        · refine first.concat fun f equal _ => ?_
          cases equal
          exact below
        · rw [made, firstMade_concat_of_ne]
          intro _ _ same
          cases same
      · refine inForce d [] rfl (.now fun f member => ?_) ?_ ?_
        · exact Int.lt_of_le_of_lt (first.highest f (own ▸ member)) (Int.not_le.mp below)
        · simp [Catalog.register, known, below, Dictionary.get?_insert]
        · simp [Catalog.register, known, below, Dictionary.get?_erase, firstMade]

theorem get (holds : Holds past key c) (argument : α) (world : ε) :
    Holds (past ++ [.get key argument world]) key (c.get key argument world).catalog := by
  cases holds with
  | nothing none undefined unkept =>
      have same : (c.get key argument world).catalog = c := by simp [Catalog.get, undefined]
      rw [same]
      refine nothing ?_ undefined unkept
      rw [offeredFor_append, none]
      rfl
  | inForce d since own first known made =>
      subst own
      have still : InForce (past ++ [.get d.key argument world]) d
          (since ++ [.get d.key argument world]) := first.concat fun _ same => by cases same
      refine inForce d _ rfl still ?_ ?_
      · rw [get_definitions]
        exact known
      · by_cases single : d.single = true
        · rw [if_pos single] at made ⊢
          rw [firstMade_concat, firstMade_get, ← made]
          cases earlier : c.kept.get? d.key with
          | some thing => simp [Catalog.get, known, single, earlier]
          | none =>
              cases built : (d.build argument world).1 with
              | ok thing =>
                  simp [Catalog.get, Catalog.keep, known, single, earlier, built,
                    Dictionary.get?_insert, Except.toOption]
              | error failure =>
                  simp [Catalog.get, Catalog.keep, known, single, earlier, built,
                    Except.toOption]
        · rw [if_neg single] at made ⊢
          simpa [Catalog.get, known, single] using made

end Holds

namespace Reflects

theorem register (reflects : Reflects capability past c) (d : Definition ε α τ) :
    Reflects capability (past ++ [.register d]) (c.register d).catalog := by
  refine ⟨?_, fun key => ?_⟩
  · rw [Catalog.register]
    split
    · exact reflects.capability
    · split <;> exact reflects.capability
  · by_cases own : d.key = key
    · subst own
      exact (reflects.holds d.key).register
    · refine (reflects.holds key).elsewhere (fun e same => ?_) (fun _ _ same => by cases same)
        (c.get?_register_of_ne own) ?_
      · cases same
        exact own
      · exact c.get?_kept_register_of_ne own

theorem get (reflects : Reflects capability past c) (at' : String) (argument : α) (world : ε) :
    Reflects capability (past ++ [.get at' argument world]) (c.get at' argument world).catalog := by
  refine ⟨(c.get_capability at' argument world).trans reflects.capability, fun key => ?_⟩
  by_cases own : at' = key
  · subst own
    exact (reflects.holds at').get argument world
  · refine (reflects.holds key).elsewhere (fun _ same => by cases same) (fun _ _ same => ?_)
      (congrArg (fun entries => entries.get? key) (c.get_definitions at' argument world)) ?_
    · cases same
      exact own rfl
    · rcases c.get_catalog_cases at' argument world with same | ⟨thing, kept⟩
      · exact congrArg (fun c => c.kept.get? key) same
      · rw [Catalog.perform, kept]
        exact (Dictionary.get?_insert ..).trans (if_neg own)

theorem perform (reflects : Reflects capability past c) (act : Act ε α τ) :
    Reflects capability (past ++ [act]) (c.perform act) := by
  cases act with
  | register d => exact reflects.register d
  | get key argument world => exact reflects.get key argument world

theorem after (capability : String) (past : List (Act ε α τ)) :
    Reflects capability past ((new capability).after past) := by
  suffices run : ∀ (acts earlier : List (Act ε α τ)) (c : Catalog ε α τ),
      Reflects capability earlier c → Reflects capability (earlier ++ acts) (c.after acts) from
    run past [] _ ⟨rfl, fun _ => .nothing rfl rfl rfl⟩
  intro acts
  induction acts with
  | nil => intro earlier c reflects; simpa [Catalog.after] using reflects
  | cons act rest ih =>
      intro earlier c reflects
      have next := ih (earlier ++ [act]) _ (reflects.perform act)
      rwa [List.append_assoc] at next

theorem accepted_iff (reflects : Reflects capability past c) (d : Definition ε α τ) :
    (c.register d).accepted = true ↔ ∀ e ∈ offeredFor d.key past, e.order < d.order := by
  cases reflects.holds d.key with
  | nothing none undefined unkept => simp [Catalog.register, undefined, none]
  | inForce e since own first known made =>
      have member := own ▸ first.mem
      by_cases below : d.order ≤ e.order
      · simp only [Catalog.register, known, below, if_true, Bool.false_eq_true, false_iff]
        exact fun lower => absurd (lower e member) (Int.not_lt.mpr below)
      · simp only [Catalog.register, known, below, if_false, true_iff]
        exact fun f offer =>
          Int.lt_of_le_of_lt (first.highest f (own ▸ offer)) (Int.not_le.mp below)

theorem defined_iff (reflects : Reflects capability past c) (key : String)
    (d : Definition ε α τ) :
    c.definitions.get? key = some d ↔ ∃ since, d.key = key ∧ InForce past d since := by
  cases reflects.holds key with
  | nothing none undefined unkept =>
      rw [undefined]
      refine ⟨fun some => (by cases some), ?_⟩
      rintro ⟨since, rfl, inForce⟩
      exact absurd inForce.mem (by simp [none])
  | inForce e since own first known made =>
      rw [known]
      refine ⟨?_, ?_⟩
      · rintro ⟨⟩
        exact ⟨since, own, first⟩
      · rintro ⟨later, rfl, inForce⟩
        exact congrArg some (first.unique inForce own)

theorem contains_iff (reflects : Reflects capability past c) (key : String) :
    c.contains key = true ↔ offeredFor key past ≠ [] := by
  rw [contains, Dictionary.contains]
  cases reflects.holds key with
  | nothing none undefined unkept => simp [undefined, none]
  | inForce d since own first known made =>
      simp only [known, Option.isSome_some, true_iff]
      exact List.ne_nil_of_mem (own ▸ first.mem)

theorem looksUp (reflects : Reflects capability past c) (key : String) (argument : α) (world : ε) :
    LooksUp capability past key argument world (c.get key argument world).outcome
      (c.get key argument world).world := by
  cases reflects.holds key with
  | nothing none undefined unkept =>
      simp only [Catalog.get, undefined, reflects.capability]
      exact .missing none
  | inForce d since own first known made =>
      by_cases single : d.single = true
      · rw [if_pos single] at made
        cases earlier : c.kept.get? key with
        | some thing =>
            simp only [Catalog.get, known, single, earlier, if_true]
            exact .kept d since own first single thing (made.symm.trans earlier)
        | none =>
            simp only [Catalog.get, known, single, earlier, if_true]
            exact .built d since own first fun _ => made.symm.trans earlier
      · simp only [Catalog.get, known, single]
        exact .built d since own first fun yes => absurd yes single

end Reflects

structure Answers (capability : String) (past : List (Act ε α τ)) (c : Catalog ε α τ) : Prop where
  accepted : ∀ d, (c.register d).accepted = true ↔ ∀ e ∈ offeredFor d.key past, e.order < d.order
  defined : ∀ key d, c.definitions.get? key = some d ↔ ∃ since, d.key = key ∧ InForce past d since
  lookUps : ∀ key argument world, LooksUp capability past key argument world
    (c.get key argument world).outcome (c.get key argument world).world
  once : c.keys.Nodup
  listed : ∀ key, key ∈ c.keys ↔ offeredFor key past ≠ []
  ascending : c.keys.Pairwise fun first second => ∀ d since e later,
    d.key = first → InForce past d since → e.key = second → InForce past e later →
      d.order < e.order ∨ d.order = e.order ∧ first < second

theorem Reflects.answers (reflects : Reflects capability past c) : Answers capability past c where
  accepted := reflects.accepted_iff
  defined := reflects.defined_iff
  lookUps := reflects.looksUp
  once := c.nodup_keys
  listed key := (c.mem_keys_iff key).trans (reflects.contains_iff key)
  ascending := c.keys_ascending.imp fun below d since e later one first two second =>
    below d e ((reflects.defined_iff _ d).mpr ⟨since, one, first⟩)
      ((reflects.defined_iff _ e).mpr ⟨later, two, second⟩)

theorem offeredFor_congr (offers : ∀ d, d ∈ offered past ↔ d ∈ offered others) (key : String)
    (d : Definition ε α τ) : d ∈ offeredFor key past ↔ d ∈ offeredFor key others := by
  rw [offeredFor, offeredFor, List.mem_filter, List.mem_filter, offers]

theorem mem_of_offeredAt {order : Int} (first : offeredAt key order past = some d) :
    d ∈ offeredFor key past ∧ d.order = order :=
  ⟨List.mem_of_find?_eq_some first, by simpa using List.find?_some first⟩

def Untied (key : String) (acts : List (Act ε α τ)) : Prop :=
  ∀ d ∈ offeredFor key acts, ∀ e ∈ offeredFor key acts, d.order = e.order → d = e

theorem Untied.offeredAt_eq_some_iff (untied : Untied key past) (order : Int)
    (d : Definition ε α τ) :
    offeredAt key order past = some d ↔ d ∈ offeredFor key past ∧ d.order = order := by
  refine ⟨mem_of_offeredAt, ?_⟩
  rintro ⟨member, level⟩
  have some : (offeredAt key order past).isSome :=
    List.find?_isSome.mpr ⟨d, member, by simpa using level⟩
  obtain ⟨e, first⟩ := Option.isSome_iff_exists.mp some
  obtain ⟨member', level'⟩ := mem_of_offeredAt first
  rw [first, untied d member e member' (level.trans level'.symm)]

theorem Untied.offeredAt_eq (untied : Untied key past)
    (offers : ∀ d, d ∈ offered past ↔ d ∈ offered others) (order : Int) :
    offeredAt key order past = offeredAt key order others := by
  have same := offeredFor_congr offers key
  have untied' : Untied key others := fun d inD e inE =>
    untied d ((same d).mpr inD) e ((same e).mpr inE)
  refine Option.ext fun d => ?_
  rw [untied.offeredAt_eq_some_iff, untied'.offeredAt_eq_some_iff, same]

namespace Answers

variable {other : Catalog ε α τ} {capability' : String}

theorem exists_inForce (answers : Answers capability past c) (member : key ∈ c.keys) :
    ∃ d since, d.key = key ∧ InForce past d since := by
  obtain ⟨d, defined⟩ := Option.isSome_iff_exists.mp ((c.mem_keys_iff key).mp member)
  exact ⟨d, (answers.defined key d).mp defined⟩

theorem keys_eq (one : Answers capability past c) (two : Answers capability' others other)
    (offers : ∀ d, d ∈ offered past ↔ d ∈ offered others) : other.keys = c.keys := by
  have same : ∀ key, key ∈ other.keys ↔ key ∈ c.keys := by
    intro key
    rw [one.listed, two.listed, ne_eq, ne_eq, List.eq_nil_iff_forall_not_mem,
      List.eq_nil_iff_forall_not_mem]
    exact not_congr (forall_congr' fun d => not_congr (offeredFor_congr offers key d).symm)
  have perm := (List.perm_ext_iff_of_nodup two.once one.once).mpr same
  refine perm.eq_of_pairwise ?_ (two.ascending.imp_of_mem ?_) one.ascending
  · -- The order is strict, so that it does not hold in both directions.
    intro a b inOther inOwn forth back
    obtain ⟨d, since, rfl, first⟩ := one.exists_inForce ((same a).mp inOther)
    obtain ⟨e, later, rfl, second⟩ := one.exists_inForce inOwn
    rcases forth d since e later rfl first rfl second with less | ⟨level, less⟩
    · rcases back e later d since rfl second rfl first with more | ⟨level, more⟩ <;> omega
    · rcases back e later d since rfl second rfl first with more | ⟨_, more⟩
      · omega
      · exact absurd (String.lt_trans less more) (String.lt_irrefl _)
  · -- An order in force there is the order in force here.
    intro a b inFirst inSecond below d since e later one' first two' second
    obtain ⟨f, before, own, third⟩ := two.exists_inForce inFirst
    obtain ⟨g, after, own', fourth⟩ := two.exists_inForce inSecond
    rw [first.level third (one'.trans own.symm) (offeredFor_congr offers _),
      second.level fourth (two'.trans own'.symm) (offeredFor_congr offers _)]
    exact below f before g after own third own' fourth

theorem defined_of (one : Answers capability past c) (two : Answers capability' others other)
    (firsts : ∀ order, offeredAt key order past = offeredAt key order others)
    (defined : c.definitions.get? key = some d) : other.definitions.get? key = some d := by
  obtain ⟨since, rfl, first⟩ := (one.defined key d).mp defined
  obtain ⟨member, -⟩ := mem_of_offeredAt ((firsts d.order).symm.trans first.first)
  obtain ⟨e, later, own, second⟩ :=
    two.exists_inForce ((two.listed d.key).mpr (List.ne_nil_of_mem member))
  have found : offeredAt d.key e.order others = some e := own ▸ second.first
  obtain ⟨member', -⟩ := mem_of_offeredAt ((firsts e.order).trans found)
  have level : d.order = e.order :=
    Int.le_antisymm (second.highest d (own ▸ member)) (first.highest e member')
  have same : some d = some e := by rw [← first.first, firsts, level, found]
  rw [Option.some.inj same]
  exact (two.defined _ e).mpr ⟨later, Option.some.inj same ▸ own, second⟩

theorem defined_eq (one : Answers capability past c) (two : Answers capability' others other)
    (firsts : ∀ order, offeredAt key order past = offeredAt key order others) :
    other.definitions.get? key = c.definitions.get? key :=
  Option.ext fun _ =>
    ⟨two.defined_of one fun order => (firsts order).symm, one.defined_of two firsts⟩

end Answers

/-- What a catalog answers is given by the definitions that were offered to it and by the look-ups
since one of them came into force. Neither its keys nor the definitions in force depend on the order
of the offers, but for the first of those that have one key and one order. -/
theorem first_of_highest_in_force (capability : String) (past : List (Act ε α τ)) :
    Answers capability past ((new capability).after past) ∧
      ∀ others : List (Act ε α τ), (∀ d, d ∈ offered past ↔ d ∈ offered others) →
        ((new capability).after others).keys = ((new capability).after past).keys ∧
        ∀ key, (Untied key past ∨
            ∀ order, offeredAt key order past = offeredAt key order others) →
          ((new capability).after others).definitions.get? key =
            ((new capability).after past).definitions.get? key := by
  have answers := fun acts : List (Act ε α τ) => (Reflects.after capability acts).answers
  refine ⟨answers past, fun others offers => ?_⟩
  refine ⟨(answers past).keys_eq (answers others) offers, fun key firsts => ?_⟩
  rcases firsts with untied | firsts
  · exact (answers past).defined_eq (answers others) (untied.offeredAt_eq offers)
  · exact (answers past).defined_eq (answers others) firsts

end Catalog

end Switchboard
