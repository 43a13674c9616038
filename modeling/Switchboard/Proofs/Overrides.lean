import Switchboard.Overrides
import Switchboard.Proofs.Cuts

/-! What an override string does to a list, told by its tokens. Without removals nothing goes from
the list, without additions nothing comes to it, and a blank string leaves it as it is. -/
namespace Switchboard

namespace Overrides

variable {list : List String} {text name : String} {parts : List Directive}

/-- A token that removes names: it starts with a minus or an exclamation mark. -/
def Removal (token : List Char) : Prop := token.head? = some '-' ∨ token.head? = some '!'

def OnlyRemoves (text : String) : Prop := ∀ token ∈ tokens text, Removal token

def OnlyAdds (text : String) : Prop := ∀ token ∈ tokens text, ¬ Removal token

instance (token : List Char) : Decidable (Removal token) := inferInstanceAs (Decidable (_ ∨ _))

instance (text : String) : Decidable (OnlyRemoves text) := List.decidableBAll _ _

instance (text : String) : Decidable (OnlyAdds text) := List.decidableBAll _ _

theorem removal_ne_add (part : List Char) : removal part ≠ .add name := by
  unfold removal
  split <;> simp

theorem directive_of_removal {token : List Char} (removes : Removal token) :
    directive token ≠ .add name := by
  obtain first | first := removes
  · obtain ⟨rest, rfl⟩ := List.head?_eq_some_iff.mp first
    exact removal_ne_add _
  · obtain ⟨rest, rfl⟩ := List.head?_eq_some_iff.mp first
    exact removal_ne_add _

theorem directive_of_addition {token : List Char} (adds : ¬ Removal token) :
    directive token = .add (String.ofList token) := by
  unfold directive
  split
  next => exact absurd (.inl rfl) adds
  next => exact absurd (.inr rfl) adds
  next => rfl

theorem retain_cons (list : List String) (directive : Directive) (rest : List Directive) :
    retain list (directive :: rest) = retain (retain list [directive]) rest := rfl

theorem retain_subset (list : List String) (directives : List Directive) :
    retain list directives ⊆ list := by
  induction directives generalizing list with
  | nil => exact List.Subset.refl _
  | cons directive rest ih =>
      rw [retain_cons]
      refine List.Subset.trans (ih _) ?_
      cases directive with
      | clear => exact List.nil_subset _
      | remove name => exact List.filter_sublist.subset
      | add name => exact List.Subset.refl _

theorem retain_of_additions (list : List String)
    (adds : ∀ directive ∈ parts, ∃ name, directive = .add name) :
    retain list parts = list := by
  induction parts with
  | nil => rfl
  | cons directive rest ih =>
      obtain ⟨name, rfl⟩ := adds directive List.mem_cons_self
      exact ih fun other member => adds other (List.mem_cons_of_mem _ member)

theorem mem_foldl_addMissing {names list : List String} :
    name ∈ names.foldl addMissing list ↔ name ∈ list ∨ name ∈ names := by
  induction names generalizing list with
  | nil => simp
  | cons first rest ih => rw [List.foldl_cons, ih, mem_addMissing, List.mem_cons, or_assoc]

theorem mem_apply_iff :
    name ∈ apply list text ↔
      name ∈ retain list (directives text) ∨ name ∈ additions (directives text) :=
  mem_foldl_addMissing

theorem nodup_retain {list : List String} (h : list.Nodup) (directives : List Directive) :
    (retain list directives).Nodup := by
  unfold retain
  induction directives generalizing list with
  | nil => exact h
  | cons directive rest ih =>
      rw [List.foldl_cons]
      cases directive with
      | clear => exact ih List.nodup_nil
      | remove name => exact ih (h.filter _)
      | add name => exact ih h

theorem nodup_foldl_addMissing {list : List String} (h : list.Nodup) (names : List String) :
    (names.foldl addMissing list).Nodup := by
  induction names generalizing list with
  | nil => exact h
  | cons name rest ih => exact ih (nodup_addMissing h name)

theorem nodup_apply {list : List String} (h : list.Nodup) (text : String) :
    (apply list text).Nodup := nodup_foldl_addMissing (nodup_retain h _) _

theorem mem_additions_iff : name ∈ additions parts ↔ .add name ∈ parts := by
  rw [additions, List.mem_filterMap]
  constructor
  · rintro ⟨directive, member, named⟩
    split at named
    next => exact Option.some.inj named ▸ member
    next => cases named
  · exact fun member => ⟨_, member, rfl⟩

theorem subset_apply_of_onlyAdds (adds : OnlyAdds text) : list ⊆ apply list text := by
  intro name member
  have kept : retain list (directives text) = list := by
    refine retain_of_additions list fun directive member => ?_
    obtain ⟨token, listed, rfl⟩ := List.mem_map.mp member
    exact ⟨_, directive_of_addition (adds token listed)⟩
  rw [mem_apply_iff, kept]
  exact .inl member

theorem apply_subset_of_onlyRemoves (removes : OnlyRemoves text) : apply list text ⊆ list := by
  intro name member
  rcases mem_apply_iff.mp member with kept | added
  · exact retain_subset _ _ kept
  · obtain ⟨token, listed, same⟩ := List.mem_map.mp (mem_additions_iff.mp added)
    exact absurd same (directive_of_removal (removes token listed))

theorem isSeparator_of_isBlank {c : Char} (blank : Text.isBlank c = true) :
    isSeparator c = false := by
  have distinct : c ≠ ',' ∧ c ≠ ';' := by
    constructor <;> rintro rfl <;> exact absurd blank (by decide)
  simp [isSeparator, distinct]

theorem tokens_of_blank (blank : Text.trim text = "") : tokens text = [] := by
  have trimmed : Text.trimChars text.toList = [] := by
    rw [← Text.toList_trim, blank]
    rfl
  have whole : Text.splitWhere isSeparator text.toList = [text.toList] :=
    Text.splitWhere_of_forall_not fun c member =>
      isSeparator_of_isBlank (Text.blank_of_trimChars_eq_nil trimmed c member)
  simp [tokens, whole, trimmed]

theorem apply_of_blank (list : List String) (blank : Text.trim text = "") :
    apply list text = list := by
  simp [apply, directives, tokens_of_blank blank, retain, additions]

end Overrides

end Switchboard
