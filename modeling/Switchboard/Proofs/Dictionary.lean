import Switchboard.Dictionary

/-! The keys of a dictionary as a list: they differ from each other, they are what `get?` answers
for, and an insertion adds at most one. Insertions in ascending order only append, so the entries
of a dictionary, inserted one after the other, give the dictionary again. -/
namespace Switchboard

namespace Entries

variable {α : Type}

theorem isSome_get?_iff (entries : Entries α) (key : String) :
    (entries.get? key).isSome ↔ key ∈ entries.map (·.1) := by
  induction entries with
  | nil => simp [get?]
  | cons head rest ih =>
      obtain ⟨k, value⟩ := head
      simp only [get?, List.map_cons, List.mem_cons]
      split
      next same => simp [same]
      next different => rw [ih, or_iff_right (Ne.symm different)]

theorem length_insert (entries : Entries α) {key : String} (value : α)
    (h : entries.get? key = none) : (entries.insert key value).length = entries.length + 1 := by
  induction entries with
  | nil => rfl
  | cons head rest ih =>
      obtain ⟨k, old⟩ := head
      have different : k ≠ key := fun same => by simp [get?, same] at h
      rw [insert]
      split
      · rfl
      · rw [if_neg (Ne.symm different), List.length_cons, List.length_cons]
        rw [get?, if_neg different] at h
        rw [ih h]

theorem nodup_keys {entries : Entries α} (h : entries.Ascending) :
    (entries.map (·.1)).Nodup := by
  refine List.pairwise_map.mpr (h.imp fun less same => ?_)
  exact String.lt_irrefl _ (same ▸ less)

theorem insert_of_above {entries : Entries α} {key : String} (value : α)
    (above : ∀ entry ∈ entries, entry.1 < key) :
    entries.insert key value = entries ++ [(key, value)] := by
  induction entries with
  | nil => rfl
  | cons head rest ih =>
      obtain ⟨k, old⟩ := head
      have less : k < key := above _ List.mem_cons_self
      have notBefore : ¬ key < k := fun before =>
        String.lt_irrefl k (String.lt_trans less before)
      have different : key ≠ k := fun same => String.lt_irrefl k (same ▸ less)
      rw [insert, if_neg notBefore, if_neg different,
        ih fun entry member => above entry (List.mem_cons_of_mem _ member), List.cons_append]

theorem Ascending.above {entries others : Entries α} {key : String} {value : α}
    (h : Ascending (entries ++ (key, value) :: others)) : ∀ entry ∈ entries, entry.1 < key :=
  fun entry member => (List.pairwise_append.mp h).2.2 entry member _ List.mem_cons_self

end Entries

namespace Dictionary

variable {α : Type}

theorem nodup_keys (d : Dictionary α) : d.keys.Nodup := Entries.nodup_keys d.ascending

theorem mem_keys_iff (d : Dictionary α) (key : String) :
    key ∈ d.keys ↔ (d.get? key).isSome := (Entries.isSome_get?_iff d.entries key).symm

theorem mem_keys_insert (d : Dictionary α) (key other : String) (value : α) :
    other ∈ (d.insert key value).keys ↔ other = key ∨ other ∈ d.keys := by
  rw [mem_keys_iff, mem_keys_iff, get?_insert]
  by_cases same : key = other
  · simp [same]
  · rw [if_neg same, or_iff_right (Ne.symm same)]

theorem length_keys_insert (d : Dictionary α) {key : String} (value : α)
    (h : d.get? key = none) : (d.insert key value).keys.length = d.keys.length + 1 := by
  simp only [keys, List.length_map]
  exact Entries.length_insert d.entries value h

theorem entries_foldl_insert {entries : Entries α} {d : Dictionary α}
    (h : Entries.Ascending (d.entries ++ entries)) :
    (entries.foldl (fun d entry => d.insert entry.1 entry.2) d).entries = d.entries ++ entries := by
  induction entries generalizing d with
  | nil => exact (List.append_nil _).symm
  | cons head rest ih =>
      obtain ⟨key, value⟩ := head
      have inserted : (d.insert key value).entries = d.entries ++ [(key, value)] :=
        Entries.insert_of_above value h.above
      rw [List.foldl_cons, ih, inserted, List.append_assoc, List.singleton_append]
      rw [inserted, List.append_assoc]
      exact h

theorem ext_entries {first second : Dictionary α} (h : first.entries = second.entries) :
    first = second := by
  cases first
  cases second
  cases h
  rfl

theorem ofList_entries (d : Dictionary α) : ofList d.entries = d :=
  ext_entries (entries_foldl_insert (d := empty) d.ascending)

end Dictionary

end Switchboard
