/-! Dictionaries with texts as keys. The entries are kept in strictly ascending order of their
keys, by code points, so a dictionary is determined by what it holds: `Dictionary.ext_get?` says
that two dictionaries with the same answers are equal. -/
namespace Switchboard

abbrev Entries (α : Type) := List (String × α)

namespace Entries

variable {α β : Type}

def Ascending (entries : Entries α) : Prop :=
  entries.Pairwise fun first second => first.1 < second.1

instance (entries : Entries α) : Decidable (Ascending entries) := by
  unfold Ascending; infer_instance

def get? (entries : Entries α) (key : String) : Option α :=
  match entries with
  | [] => none
  | (k, value) :: rest => if k = key then some value else get? rest key

def insert (entries : Entries α) (key : String) (value : α) : Entries α :=
  match entries with
  | [] => [(key, value)]
  | (k, old) :: rest =>
      if key < k then (key, value) :: (k, old) :: rest
      else if key = k then (key, value) :: rest
      else (k, old) :: insert rest key value

def erase (entries : Entries α) (key : String) : Entries α :=
  entries.filter fun entry => entry.1 ≠ key

theorem mem_insert {entries : Entries α} {key : String} {value : α} {entry : String × α}
    (h : entry ∈ entries.insert key value) : entry = (key, value) ∨ entry ∈ entries := by
  induction entries with
  | nil => simpa [insert] using h
  | cons head rest ih =>
      obtain ⟨k, old⟩ := head
      rw [insert] at h
      split at h
      · simpa using h
      · split at h <;> grind

theorem Ascending.insert {entries : Entries α} (h : entries.Ascending) (key : String)
    (value : α) : (entries.insert key value).Ascending := by
  induction entries with
  | nil => simp [Entries.insert, Ascending]
  | cons head rest ih =>
      obtain ⟨k, old⟩ := head
      have tail := List.Pairwise.of_cons h
      have below : ∀ entry ∈ rest, k < entry.1 := (List.pairwise_cons.mp h).1
      rw [Entries.insert]
      split
      next less =>
        refine List.pairwise_cons.mpr ⟨fun entry member => ?_, h⟩
        rcases List.mem_cons.mp member with rfl | inRest
        · exact less
        · exact String.lt_trans less (below entry inRest)
      next notLess =>
        split
        next same =>
          subst same
          exact List.pairwise_cons.mpr ⟨below, tail⟩
        next different =>
          have greater : k < key := by
            rcases Decidable.em (k < key) with less | none
            · exact less
            · exact absurd (String.le_antisymm (String.not_lt.mp none) (String.not_lt.mp notLess))
                different
          refine List.pairwise_cons.mpr ⟨fun entry member => ?_, ih tail⟩
          rcases mem_insert member with rfl | inRest
          · exact greater
          · exact below entry inRest

theorem Ascending.erase {entries : Entries α} (h : entries.Ascending) (key : String) :
    (entries.erase key).Ascending := List.Pairwise.filter _ h

theorem get?_insert (entries : Entries α) (key other : String) (value : α) :
    (entries.insert key value).get? other =
      if key = other then some value else entries.get? other := by
  induction entries with
  | nil => simp [insert, get?]
  | cons head rest ih =>
      obtain ⟨k, old⟩ := head
      rw [insert]
      split
      · simp [get?]
      · split
        next same => subst same; simp only [get?]; split <;> simp_all
        next different => simp only [get?, ih]; grind

theorem get?_erase (entries : Entries α) (key other : String) :
    (entries.erase key).get? other = if key = other then none else entries.get? other := by
  induction entries with
  | nil => simp [erase, get?]
  | cons head rest ih =>
      obtain ⟨k, old⟩ := head
      simp only [erase, List.filter_cons] at ih ⊢
      by_cases same : k = key <;> by_cases wanted : key = other <;> grind [get?]

theorem get?_eq_none_of_below {entries : Entries α} {key : String}
    (below : ∀ entry ∈ entries, key < entry.1) : entries.get? key = none := by
  induction entries with
  | nil => rfl
  | cons head rest ih =>
      obtain ⟨k, value⟩ := head
      have less : key < k := below _ List.mem_cons_self
      have different : k ≠ key := fun same => String.lt_irrefl key (same ▸ less)
      simp only [get?, different, if_false]
      exact ih fun entry member => below entry (List.mem_cons_of_mem _ member)

theorem get?_eq_some_iff {entries : Entries α} (h : entries.Ascending) {key : String} {value : α} :
    entries.get? key = some value ↔ (key, value) ∈ entries := by
  induction entries with
  | nil => simp [get?]
  | cons head rest ih =>
      obtain ⟨k, first⟩ := head
      have below : ∀ entry ∈ rest, k < entry.1 := (List.pairwise_cons.mp h).1
      simp only [get?, List.mem_cons, Prod.mk.injEq]
      split
      next same =>
        subst same
        constructor
        · intro found
          exact Or.inl ⟨rfl, (Option.some.inj found).symm⟩
        · rintro (⟨-, rfl⟩ | member)
          · rfl
          · exact absurd (below _ member) (String.lt_irrefl _)
      next different =>
        rw [ih (List.Pairwise.of_cons h)]
        exact ⟨Or.inr, fun either => either.resolve_left fun both => different both.1.symm⟩

theorem ext_get? {first second : Entries α} (one : first.Ascending) (two : second.Ascending)
    (h : ∀ key, first.get? key = second.get? key) : first = second := by
  induction first generalizing second with
  | nil =>
      cases second with
      | nil => rfl
      | cons head rest => simpa [get?] using h head.1
  | cons head rest ih =>
      cases second with
      | nil => simpa [get?] using h head.1
      | cons other tail =>
          obtain ⟨k, value⟩ := head
          obtain ⟨l, content⟩ := other
          have belowOne : ∀ entry ∈ rest, k < entry.1 := (List.pairwise_cons.mp one).1
          have belowTwo : ∀ entry ∈ tail, l < entry.1 := (List.pairwise_cons.mp two).1
          have same : k = l := by
            have atFirst := h k
            have atSecond := h l
            rcases Decidable.em (k < l) with less | notLess
            · have absent : get? ((l, content) :: tail) k = none :=
                get?_eq_none_of_below fun entry member => by
                  rcases List.mem_cons.mp member with rfl | inTail
                  · exact less
                  · exact String.lt_trans less (belowTwo entry inTail)
              rw [absent] at atFirst
              simp [get?] at atFirst
            · rcases Decidable.em (l < k) with greater | notGreater
              · have absent : get? ((k, value) :: rest) l = none :=
                  get?_eq_none_of_below fun entry member => by
                    rcases List.mem_cons.mp member with rfl | inRest
                    · exact greater
                    · exact String.lt_trans greater (belowOne entry inRest)
                rw [absent] at atSecond
                simp [get?] at atSecond
              · exact String.le_antisymm (String.not_lt.mp notGreater) (String.not_lt.mp notLess)
          subst same
          have content_eq : value = content := by simpa [get?] using h k
          subst content_eq
          congr 1
          refine ih (List.Pairwise.of_cons one) (List.Pairwise.of_cons two) fun key => ?_
          by_cases at_k : k = key
          · subst at_k
            rw [get?_eq_none_of_below belowOne, get?_eq_none_of_below belowTwo]
          · simpa [get?, at_k] using h key

end Entries

structure Dictionary (α : Type) where
  entries : Entries α
  ascending : entries.Ascending

namespace Dictionary

variable {α β : Type}

def empty : Dictionary α := ⟨[], List.Pairwise.nil⟩

instance : Inhabited (Dictionary α) := ⟨empty⟩

instance [DecidableEq α] : DecidableEq (Dictionary α) := fun first second =>
  if same : first.entries = second.entries then
    isTrue (by cases first; cases second; cases same; rfl)
  else isFalse fun equal => same (congrArg entries equal)

def get? (d : Dictionary α) (key : String) : Option α := d.entries.get? key

def contains (d : Dictionary α) (key : String) : Bool := (d.get? key).isSome

def getD (d : Dictionary α) (key : String) (fallback : α) : α := (d.get? key).getD fallback

def insert (d : Dictionary α) (key : String) (value : α) : Dictionary α :=
  ⟨d.entries.insert key value, d.ascending.insert key value⟩

def erase (d : Dictionary α) (key : String) : Dictionary α :=
  ⟨d.entries.erase key, d.ascending.erase key⟩

def keys (d : Dictionary α) : List String := d.entries.map (·.1)

def isEmpty (d : Dictionary α) : Bool := d.entries.isEmpty

/-- Of entries with one key the last counts. -/
def ofList (entries : List (String × α)) : Dictionary α :=
  entries.foldl (fun d entry => d.insert entry.1 entry.2) empty

def mapValues (f : String → α → β) (d : Dictionary α) : Dictionary β :=
  ⟨d.entries.map fun entry => (entry.1, f entry.1 entry.2),
    by unfold Entries.Ascending; rw [List.pairwise_map]; exact d.ascending⟩

@[simp] theorem get?_empty (key : String) : (empty : Dictionary α).get? key = none := rfl

theorem get?_insert (d : Dictionary α) (key other : String) (value : α) :
    (d.insert key value).get? other = if key = other then some value else d.get? other :=
  Entries.get?_insert d.entries key other value

theorem get?_erase (d : Dictionary α) (key other : String) :
    (d.erase key).get? other = if key = other then none else d.get? other :=
  Entries.get?_erase d.entries key other

theorem get?_mapValues (f : String → α → β) (d : Dictionary α) (key : String) :
    (d.mapValues f).get? key = (d.get? key).map (f key) := by
  obtain ⟨entries, ascending⟩ := d
  simp only [mapValues, get?]
  clear ascending
  induction entries with
  | nil => rfl
  | cons head rest ih =>
      simp only [List.map_cons, Entries.get?]
      split
      next same => simp [same]
      next => exact ih

theorem keys_mapValues (f : String → α → β) (d : Dictionary α) : (d.mapValues f).keys = d.keys := by
  simp [mapValues, keys, List.map_map, Function.comp_def]

theorem ext_get? {first second : Dictionary α} (h : ∀ key, first.get? key = second.get? key) :
    first = second := by
  obtain ⟨entries, ascending⟩ := first
  obtain ⟨others, rising⟩ := second
  have same := Entries.ext_get? ascending rising h
  subst same
  rfl

end Dictionary

end Switchboard
