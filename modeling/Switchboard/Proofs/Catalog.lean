import Switchboard.Catalog
import Switchboard.Proofs.Dictionary

/-! Look-ups in a catalog, one after the other. A look-up never changes the definitions, it calls at
most one factory, and it keeps at most what this factory has built. The keys of a catalog are in
the order of their definitions, and those of one order ascend. -/
namespace Switchboard

/-- A list put in ascending order of a measure, without a change among elements of one measure. -/
structure StablySorted {α : Type} (measure : α → Int) (source sorted : List α) : Prop where
  perm : sorted.Perm source
  ascending : sorted.Pairwise fun first second => measure first ≤ measure second
  stable : ∀ n, (sorted.filter fun x => decide (measure x = n)) =
    source.filter fun x => decide (measure x = n)

namespace StablySorted

variable {α : Type} {measure : α → Int} {source sorted : List α}

theorem mergeSort (measure : α → Int) (source : List α) :
    StablySorted measure source
      (source.mergeSort fun first second => measure first ≤ measure second) := by
  have trans : ∀ a b c : α, decide (measure a ≤ measure b) = true →
      decide (measure b ≤ measure c) = true → decide (measure a ≤ measure c) = true := by
    intro a b c
    simp only [decide_eq_true_eq]
    omega
  have total : ∀ a b : α, (decide (measure a ≤ measure b) || decide (measure b ≤ measure a)) := by
    intro a b
    simp only [Bool.or_eq_true, decide_eq_true_eq]
    omega
  have perm := List.mergeSort_perm source fun first second => measure first ≤ measure second
  refine ⟨perm, ?_, fun n => ?_⟩
  · exact (List.pairwise_mergeSort trans total source).imp (by simp)
  · -- Elements of one measure are in order already, so that sorting keeps them as they are.
    have level : (source.filter fun x => decide (measure x = n)).Pairwise
        fun first second => decide (measure first ≤ measure second) = true := by
      refine List.pairwise_of_forall_mem_list fun a inA b inB => ?_
      have atA := (List.mem_filter.mp inA).2
      have atB := (List.mem_filter.mp inB).2
      simp only [decide_eq_true_eq] at atA atB ⊢
      omega
    have kept := (List.sublist_mergeSort trans total level List.filter_sublist).filter
      fun x => decide (measure x = n)
    rw [List.filter_filter] at kept
    simp only [Bool.and_self] at kept
    exact (kept.eq_of_length ((perm.filter _).length_eq).symm).symm

theorem lexicographic (h : StablySorted measure source sorted) {R : α → α → Prop}
    (ordered : source.Pairwise R) :
    sorted.Pairwise fun first second =>
      measure first < measure second ∨ measure first = measure second ∧ R first second := by
  refine List.pairwise_iff_forall_sublist.mpr fun {a b} both => ?_
  have below := List.pairwise_iff_forall_sublist.mp h.ascending both
  by_cases level : measure a = measure b
  · have inside := both.filter fun x => decide (measure x = measure b)
    rw [h.stable] at inside
    simp only [List.filter_cons, level, decide_true, if_true, List.filter_nil] at inside
    have before := inside.trans List.filter_sublist
    exact Or.inr ⟨level, List.pairwise_iff_forall_sublist.mp ordered before⟩
  · exact Or.inl (by omega)

end StablySorted

namespace Catalog

variable {ε α τ : Type}

theorem keys_perm (c : Catalog ε α τ) : c.keys.Perm c.definitions.keys :=
  (List.mergeSort_perm _ _).map _

theorem nodup_keys (c : Catalog ε α τ) : c.keys.Nodup :=
  c.keys_perm.nodup_iff.mpr c.definitions.nodup_keys

theorem mem_keys_iff (c : Catalog ε α τ) (key : String) :
    key ∈ c.keys ↔ c.contains key = true := by
  rw [c.keys_perm.mem_iff, Dictionary.mem_keys_iff]
  rfl

theorem keys_ascending (c : Catalog ε α τ) :
    c.keys.Pairwise fun first second => ∀ d e, c.definitions.get? first = some d →
      c.definitions.get? second = some e →
        d.order < e.order ∨ d.order = e.order ∧ first < second := by
  have sorted := StablySorted.mergeSort (fun entry => entry.2.order) c.definitions.entries
  refine List.pairwise_map.mpr ((sorted.lexicographic c.definitions.ascending).imp_of_mem ?_)
  intro first second inFirst inSecond below d e atFirst atSecond
  have one := (Entries.get?_eq_some_iff c.definitions.ascending).mpr (sorted.perm.subset inFirst)
  have two := (Entries.get?_eq_some_iff c.definitions.ascending).mpr (sorted.perm.subset inSecond)
  obtain rfl : first.2 = d := Option.some.inj (one.symm.trans atFirst)
  obtain rfl : second.2 = e := Option.some.inj (two.symm.trans atSecond)
  exact below

theorem get?_register_of_ne (c : Catalog ε α τ) {d : Definition ε α τ} {key : String}
    (other : d.key ≠ key) :
    (c.register d).catalog.definitions.get? key = c.definitions.get? key := by
  rw [register]
  split
  · exact (Dictionary.get?_insert ..).trans (if_neg other)
  · split
    · rfl
    · exact (Dictionary.get?_insert ..).trans (if_neg other)

theorem get?_register_cases (c : Catalog ε α τ) (d : Definition ε α τ)
    (key : String) :
    (c.register d).catalog.definitions.get? key = c.definitions.get? key ∨
      d.key = key ∧ (c.register d).catalog.definitions.get? key = some d := by
  by_cases own : d.key = key
  · have inserted : (c.definitions.insert d.key d).get? key = some d :=
      (Dictionary.get?_insert ..).trans (if_pos own)
    rw [register]
    split
    · exact .inr ⟨own, inserted⟩
    · split
      · exact .inl rfl
      · exact .inr ⟨own, inserted⟩
  · exact .inl (c.get?_register_of_ne own)

theorem get?_kept_register_of_ne (c : Catalog ε α τ) {d : Definition ε α τ} {key : String}
    (other : d.key ≠ key) : (c.register d).catalog.kept.get? key = c.kept.get? key := by
  rw [register]
  split
  · rfl
  · split
    · rfl
    · exact (Dictionary.get?_erase ..).trans (if_neg other)

def Every (P : Definition ε α τ → Prop) (c : Catalog ε α τ) : Prop :=
  ∀ key d, c.definitions.get? key = some d → P d

theorem Every.register {c : Catalog ε α τ} {P : Definition ε α τ → Prop} (every : c.Every P)
    {d : Definition ε α τ} (own : P d) : (c.register d).catalog.Every P := by
  have inserted : ∀ key e, (c.definitions.insert d.key d).get? key = some e → P e := by
    intro key e found
    rw [Dictionary.get?_insert] at found
    split at found
    · exact Option.some.inj found ▸ own
    · exact every key e found
  unfold Catalog.register
  split
  · exact inserted
  · split
    · exact every
    · exact inserted

/-- A look-up of the key calls a factory. -/
def builds (c : Catalog ε α τ) (key : String) : Bool :=
  (c.definitions.get? key).any fun d => !d.single || !c.kept.contains key

def construct (c : Catalog ε α τ) (argument : α) : List String → ε → ε
  | [], world => world
  | key :: rest, world =>
      match c.definitions.get? key with
      | some d => c.construct argument rest (d.build argument world).2
      | none => c.construct argument rest world

def lookUps (argument : α) (c : Catalog ε α τ) (world : ε) : List String →
    List (String × Outcome τ)
  | [] => []
  | key :: rest =>
      let found := c.get key argument world
      (key, found.outcome) :: lookUps argument found.catalog found.world rest

theorem get_of_missing (c : Catalog ε α τ) {key : String} (h : c.contains key = false)
    (argument : α) (world : ε) :
    c.get key argument world = ⟨.error (.missingExtension c.capability key), c, world⟩ := by
  have none : c.definitions.get? key = none := by
    simpa [contains, Dictionary.contains] using h
  rw [get, none]

theorem get_of_kept {c : Catalog ε α τ} {key : String} {d : Definition ε α τ} {thing : τ}
    (inForce : c.definitions.get? key = some d) (single : d.single = true)
    (kept : c.kept.get? key = some thing) (argument : α) (world : ε) :
    c.get key argument world = ⟨.ok thing, c, world⟩ := by
  rw [get, inForce]
  simp only [single, if_true, kept]

theorem get_of_unkept {c : Catalog ε α τ} {key : String} {d : Definition ε α τ}
    (inForce : c.definitions.get? key = some d)
    (unkept : d.single = true → c.kept.get? key = none) (argument : α) (world : ε) :
    c.get key argument world = ⟨(d.build argument world).1,
      if d.single then c.keep key (d.build argument world).1 else c,
      (d.build argument world).2⟩ := by
  rw [get, inForce]
  cases single : d.single with
  | true => simp only [single, unkept single, if_true]
  | false => simp only [single, Bool.false_eq_true, if_false]

theorem keep_cases (c : Catalog ε α τ) (key : String) (outcome : Outcome τ) :
    c.keep key outcome = c ∨
      ∃ thing, c.keep key outcome = { c with kept := c.kept.insert key thing } := by
  cases outcome with
  | ok thing => exact Or.inr ⟨thing, rfl⟩
  | error failure => exact Or.inl rfl

theorem get_catalog_cases (c : Catalog ε α τ) (key : String) (argument : α) (world : ε) :
    (c.get key argument world).catalog = c ∨
      ∃ thing, (c.get key argument world).catalog = { c with kept := c.kept.insert key thing } := by
  unfold get
  split
  · exact Or.inl rfl
  · split
    · split
      · exact Or.inl rfl
      · exact c.keep_cases key _
    · exact Or.inl rfl

theorem get_definitions (c : Catalog ε α τ) (key : String) (argument : α) (world : ε) :
    (c.get key argument world).catalog.definitions = c.definitions := by
  rcases c.get_catalog_cases key argument world with same | ⟨thing, kept⟩
  · rw [same]
  · rw [kept]

theorem get_capability (c : Catalog ε α τ) (key : String) (argument : α) (world : ε) :
    (c.get key argument world).catalog.capability = c.capability := by
  rcases c.get_catalog_cases key argument world with same | ⟨thing, kept⟩
  · rw [same]
  · rw [kept]

theorem builds_get_of_ne (c : Catalog ε α τ) {key other : String} (h : key ≠ other)
    (argument : α) (world : ε) :
    (c.get key argument world).catalog.builds other = c.builds other := by
  rcases c.get_catalog_cases key argument world with same | ⟨thing, kept⟩
  · rw [same]
  · rw [kept]
    simp [builds, Dictionary.contains, Dictionary.get?_insert, h]

theorem construct_congr {c other : Catalog ε α τ} (h : other.definitions = c.definitions)
    (argument : α) (keys : List String) (world : ε) :
    other.construct argument keys world = c.construct argument keys world := by
  induction keys generalizing world with
  | nil => rfl
  | cons key rest ih =>
      rw [construct, construct, h]
      split <;> exact ih _

theorem construct_get (c : Catalog ε α τ) (key : String) (argument : α) (world : ε)
    (rest : List String) :
    c.construct argument rest (c.get key argument world).world =
      c.construct argument (if c.builds key then key :: rest else rest) world := by
  cases defined : c.definitions.get? key with
  | none => simp [get, builds, defined]
  | some d =>
      by_cases single : d.single = true
      · cases known : c.kept.get? key with
        | none => simp [get, builds, construct, defined, single, known, Dictionary.contains]
        | some thing => simp [get, builds, defined, single, known, Dictionary.contains]
      · simp [get, builds, construct, defined, single]

structure Yields (c : Catalog ε α τ) (key : String) (kind : τ → Prop) : Prop where
  built : ∀ d, c.definitions.get? key = some d →
    ∀ argument world thing, (d.build argument world).1 = .ok thing → kind thing
  kept : ∀ thing, c.kept.get? key = some thing → kind thing

variable {c : Catalog ε α τ} {key : String} {kind : τ → Prop}

theorem Yields.outcome (yields : c.Yields key kind) {argument : α} {world : ε} {thing : τ}
    (found : (c.get key argument world).outcome = .ok thing) : kind thing := by
  unfold get at found
  split at found
  · cases found
  next d defined =>
    split at found
    · split at found
      next kept => exact yields.kept thing (kept.trans (congrArg some (Except.ok.inj found)))
      · exact yields.built d defined argument world thing found
    · exact yields.built d defined argument world thing found

theorem Yields.keep (yields : c.Yields key kind) {other : String} {outcome : Outcome τ}
    (own : other = key → ∀ thing, outcome = .ok thing → kind thing) :
    (c.keep other outcome).Yields key kind := by
  cases outcome with
  | error failure => exact yields
  | ok thing =>
      refine ⟨yields.built, fun found kept => ?_⟩
      rw [Catalog.keep, Dictionary.get?_insert] at kept
      split at kept
      next same => exact Option.some.inj kept ▸ own same thing rfl
      next => exact yields.kept found kept

theorem Yields.get (yields : c.Yields key kind) (other : String) (argument : α) (world : ε) :
    (c.get other argument world).catalog.Yields key kind := by
  unfold Catalog.get
  split
  · exact yields
  next d defined =>
    split
    · split
      · exact yields
      · exact yields.keep fun same thing built => yields.built d (same ▸ defined) _ _ thing built
    · exact yields

theorem Yields.register (yields : c.Yields key kind) {d : Definition ε α τ} (other : d.key ≠ key) :
    (c.register d).catalog.Yields key kind := by
  unfold Catalog.register
  split
  · refine ⟨fun e defined => ?_, yields.kept⟩
    rw [Dictionary.get?_insert, if_neg other] at defined
    exact yields.built e defined
  · split
    · exact yields
    · refine ⟨fun e defined => ?_, fun thing kept => ?_⟩
      · rw [Dictionary.get?_insert, if_neg other] at defined
        exact yields.built e defined
      · rw [Dictionary.get?_erase, if_neg other] at kept
        exact yields.kept thing kept

end Catalog

end Switchboard
