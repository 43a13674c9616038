import Mathlib.Data.List.Induction
import Mathlib.Data.List.Nodup
import Switchboard.Proofs.Overrides

/-! Override strings in closed form. What a string does to a list depends on two things only: the
names that it removes, as a set, and the names that it adds, in the order of their first tokens. The
removals take effect before the additions wherever the tokens stand. -/
namespace Switchboard

namespace Overrides

variable {list names : List String} {text name : String}

/-- The names that tokens remove: the texts after a leading minus or exclamation mark. -/
def removedBy (tokens : List (List Char)) : List String :=
  (tokens.filter fun token => decide (Removal token)).map fun token =>
    String.ofList (Text.trimChars token.tail)

/-- The names that tokens add: the other tokens, each where it comes first. -/
def addedBy (tokens : List (List Char)) : List String :=
  ((tokens.filter fun token => decide (¬ Removal token)).map String.ofList).eraseDups

def removals (text : String) : List String := removedBy (tokens text)

def added (text : String) : List String := addedBy (tokens text)

/-- What removed names leave of a list. Two of them stand for all names. -/
def spared (list removed : List String) : List String :=
  if "*" ∈ removed ∨ "default" ∈ removed then []
  else list.filter fun name => decide (name ∉ removed)

theorem removedBy_cons_of_removal {token : List Char} (removes : Removal token)
    (rest : List (List Char)) :
    removedBy (token :: rest) =
      String.ofList (Text.trimChars token.tail) :: removedBy rest := by
  rw [removedBy, List.filter_cons_of_pos (by simpa using removes), List.map_cons, removedBy]

theorem removedBy_cons_of_addition {token : List Char} (adds : ¬ Removal token)
    (rest : List (List Char)) : removedBy (token :: rest) = removedBy rest := by
  rw [removedBy, List.filter_cons_of_neg (by simpa using adds), removedBy]

theorem removal_eq (name : List Char) :
    removal name =
      if String.ofList name = "*" ∨ String.ofList name = "default" then .clear
      else .remove (String.ofList name) := by
  have star : name = ['*'] ↔ String.ofList name = "*" := String.ofList_inj.symm
  have all : name = "default".toList ↔ String.ofList name = "default" := by
    rw [← String.ofList_inj, String.ofList_toList]
  simp only [removal, star, all]

theorem directive_eq_removal {token : List Char} (removes : Removal token) :
    directive token = removal (Text.trimChars token.tail) := by
  obtain first | first := removes
  · obtain ⟨rest, rfl⟩ := List.head?_eq_some_iff.mp first
    rfl
  · obtain ⟨rest, rfl⟩ := List.head?_eq_some_iff.mp first
    rfl

theorem spared_nil (removed : List String) : spared [] removed = [] := by
  rw [spared, List.filter_nil, ite_self]

theorem spared_cons (list removed : List String) (name : String) :
    spared list (name :: removed) =
      if name = "*" ∨ name = "default" then []
      else spared (list.filter (· ≠ name)) removed := by
  by_cases clears : name = "*" ∨ name = "default"
  · have listed : "*" ∈ name :: removed ∨ "default" ∈ name :: removed :=
      clears.imp (fun star => List.mem_cons.mpr (.inl star.symm))
        fun all => List.mem_cons.mpr (.inl all.symm)
    rw [if_pos clears, spared, if_pos listed]
  · obtain ⟨notStar, notAll⟩ := not_or.mp clears
    rw [if_neg clears, spared, spared, List.filter_filter]
    simp only [List.mem_cons, Ne.symm notStar, Ne.symm notAll, false_or, not_or,
      Bool.decide_and, ne_eq, Bool.and_comm]

theorem retain_map_directive (tokens : List (List Char)) (list : List String) :
    retain list (tokens.map directive) = spared list (removedBy tokens) := by
  induction tokens generalizing list with
  | nil => simp [retain, removedBy, spared, List.filter_true]
  | cons token rest ih =>
      rw [List.map_cons, retain_cons, ih]
      by_cases removes : Removal token
      · rw [directive_eq_removal removes, removal_eq, removedBy_cons_of_removal removes,
          spared_cons]
        split
        · exact spared_nil _
        · rfl
      · rw [directive_of_addition removes, removedBy_cons_of_addition removes]
        rfl

theorem additions_map_directive (tokens : List (List Char)) :
    additions (tokens.map directive) =
      (tokens.filter fun token => decide (¬ Removal token)).map String.ofList := by
  induction tokens with
  | nil => rfl
  | cons token rest ih =>
      rw [List.map_cons]
      by_cases removes : Removal token
      · rw [List.filter_cons_of_neg (by simpa using removes), ← ih]
        cases found : directive token with
        | add name => exact absurd found (directive_of_removal removes)
        | clear => rfl
        | remove name => rfl
      · rw [List.filter_cons_of_pos (by simpa using removes), List.map_cons, ← ih,
          directive_of_addition removes]
        rfl

theorem eraseDups_concat (names : List String) (name : String) :
    (names ++ [name]).eraseDups =
      if name ∈ names then names.eraseDups else names.eraseDups ++ [name] := by
  rw [List.eraseDups_append]
  by_cases known : name ∈ names <;> simp [List.removeAll, known, List.eraseDups_cons]

theorem foldl_addMissing (list names : List String) :
    names.foldl addMissing list =
      list ++ names.eraseDups.filter fun name => decide (name ∉ list) := by
  induction names using List.reverseRecOn with
  | nil => simp
  | append_singleton names name ih =>
      rw [List.foldl_append, List.foldl_cons, List.foldl_nil, eraseDups_concat]
      by_cases known : name ∈ names
      · rw [addMissing, if_pos (mem_foldl_addMissing.mpr (.inr known)), if_pos known, ih]
      · rw [if_neg known, List.filter_append, ← List.append_assoc, ← ih]
        by_cases there : name ∈ list
        · rw [addMissing, if_pos (mem_foldl_addMissing.mpr (.inl there))]
          simp [there]
        · have absent : name ∉ names.foldl addMissing list :=
            fun member => (mem_foldl_addMissing.mp member).elim there known
          rw [addMissing, if_neg absent]
          simp [there]

theorem apply_eq (list : List String) (text : String) :
    apply list text = spared list (removals text) ++
      (added text).filter fun name => decide (name ∉ spared list (removals text)) := by
  rw [apply, directives, retain_map_directive, additions_map_directive, foldl_addMissing]
  rfl

theorem nodup_added (text : String) : (added text).Nodup := by
  have once := nodup_foldl_addMissing List.nodup_nil
    (((tokens text).filter fun token => decide (¬ Removal token)).map String.ofList)
  rw [foldl_addMissing, List.nil_append, List.filter_eq_self.mpr (by simp)] at once
  exact once

theorem not_mem_spared {removed : List String}
    (h : name ∈ removed ∨ "*" ∈ removed ∨ "default" ∈ removed) : name ∉ spared list removed := by
  intro left
  rw [spared] at left
  split at left
  next => exact absurd left List.not_mem_nil
  next named =>
    have unlisted := of_decide_eq_true (List.mem_filter.mp left).2
    exact h.elim unlisted named

theorem spared_congr {removed others : List String} (h : ∀ name, name ∈ others ↔ name ∈ removed)
    (list : List String) : spared list others = spared list removed := by
  simp only [spared, h]

theorem spared_append_spared (list more removed : List String) :
    spared (spared list removed ++ more) removed = spared list removed ++ spared more removed := by
  unfold spared
  split
  · rfl
  · rw [List.filter_append, List.filter_filter]
    simp only [Bool.and_self]

theorem apply_apply_perm (list : List String) (text : String) :
    (apply (apply list text) text).Perm (apply list text) := by
  let kept := spared list (removals text)
  let fresh := (added text).filter fun name => decide (name ∉ kept)
  let again := (added text).filter fun name => decide (name ∉ kept ++ spared fresh (removals text))
  have once : apply list text = kept ++ fresh := apply_eq list text
  have twice : apply (apply list text) text = kept ++ (spared fresh (removals text) ++ again) := by
    rw [apply_eq, once, spared_append_spared, List.append_assoc]
  rw [twice, once]
  refine List.Perm.append_left kept ?_
  by_cases clears : "*" ∈ removals text ∨ "default" ∈ removals text
  · have nothing : spared fresh (removals text) = [] := if_pos clears
    have same : again = fresh := by simp only [again, fresh, nothing, List.append_nil]
    rw [nothing, same]
    exact List.Perm.refl _
  · have stays : spared fresh (removals text) =
        fresh.filter fun name => decide (name ∉ removals text) := if_neg clears
    have returns : again =
        fresh.filter fun name => !decide (name ∉ removals text) := by
      rw [List.filter_filter]
      refine List.filter_congr fun name member => ?_
      rw [stays]
      by_cases there : name ∈ kept <;> simp [fresh, there, member]
    rw [returns, stays]
    exact List.filter_append_perm _ _

/-- The tokens of an override string are its trimmed parts that are not empty. The list that it
leaves is what the removed names spare, and after it the added names that are not there, so that
only the removed names as a set and the added ones in their order matter. A list without repetitions
stays so, a name that is added and removed is there once, and a second time moves names at most. -/
theorem apply_in_closed_form (list : List String) (text : String) :
    tokens text =
      ((text.toList.splitOnP fun c => c == ',' || c == ';').map Text.trimChars).filter
        (!·.isEmpty) ∧
    apply list text = spared list (removals text) ++
      (added text).filter (fun name => decide (name ∉ spared list (removals text))) ∧
    (∀ other, (∀ name, name ∈ removals other ↔ name ∈ removals text) → added other = added text →
      apply list other = apply list text) ∧
    (list.Nodup → (apply list text).Nodup) ∧
    (∀ name ∈ added text,
      name ∈ removals text ∨ "*" ∈ removals text ∨ "default" ∈ removals text →
        (apply list text).count name = 1) ∧
    (apply (apply list text) text).Perm (apply list text) := by
  refine ⟨?tokens, apply_eq list text, ?order, fun once => nodup_apply once text, ?both,
    apply_apply_perm list text⟩
  case tokens => rw [tokens, Text.splitWhere_eq_splitOnP]; rfl
  case order =>
    intro other sameRemoved sameAdded
    rw [apply_eq, apply_eq, spared_congr sameRemoved, sameAdded]
  case both =>
    intro name adds removes
    have gone : name ∉ spared list (removals text) := not_mem_spared removes
    have fresh : name ∈ (added text).filter fun name =>
        decide (name ∉ spared list (removals text)) := by
      simp [adds, gone]
    rw [apply_eq, List.count_append, List.count_eq_zero.mpr gone, Nat.zero_add]
    exact List.count_eq_one_of_mem ((nodup_added text).filter _) fresh

/-- Names that are removed and added again come to the end, and the order of the removals and
repeated or empty tokens make no difference. -/
theorem apply_in_closed_form_mixed :
    apply ["a", "b", "c", "d"] " e ;-a, !b;b,,e" = ["c", "d", "e", "b"] ∧
    apply ["a", "b", "c", "d"] "! b,e;b;-a;-a" = ["c", "d", "e", "b"] ∧
    (apply ["a", "b", "c", "d"] " e ;-a, !b;b,,e").Nodup ∧
    (apply ["a", "b", "c", "d"] " e ;-a, !b;b,,e").count "b" = 1 ∧
    apply ["c", "d", "e", "b"] " e ;-a, !b;b,,e" = ["c", "d", "e", "b"] := by
  obtain ⟨-, closed, order, once, both, -⟩ :=
    apply_in_closed_form ["a", "b", "c", "d"] " e ;-a, !b;b,,e"
  have listed : removals " e ;-a, !b;b,,e" = ["a", "b"] := by decide
  have others : removals "! b,e;b;-a;-a" = ["b", "a", "a"] := by decide
  have left : apply ["a", "b", "c", "d"] " e ;-a, !b;b,,e" = ["c", "d", "e", "b"] := by
    rw [closed]
    decide
  refine ⟨left, ?_, once (by decide), both "b" (by decide) (.inl (by decide)), by decide⟩
  rw [order "! b,e;b;-a;-a" (fun name => by simp [listed, others, or_comm]) (by decide), left]

end Overrides

end Switchboard
