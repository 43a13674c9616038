import Mathlib.Data.List.DropRight
import Switchboard.Text.Blank
import Switchboard.Text.Split

/-! Cutting a text where it was joined. A cut finds the mark that was put in if the text on its side
holds no other one, a split finds all separators if the parts hold none, and a trim reaches no
further than the first character that is not blank. -/
namespace Switchboard.Text

theorem splitWhere_eq_splitOnP (isSeparator : Char → Bool) (text : List Char) :
    splitWhere isSeparator text = text.splitOnP isSeparator := by
  induction text with
  | nil => rfl
  | cons c rest ih => rw [splitWhere_cons, List.splitOnP_cons_eq_if_modifyHead, ih]

theorem splitWhere_of_forall_not {isSeparator : Char → Bool} {text : List Char}
    (h : ∀ c ∈ text, isSeparator c = false) : splitWhere isSeparator text = [text] := by
  rw [splitWhere_eq_splitOnP]
  exact List.splitOnP_eq_singleton h

theorem splitWhere_append {isSeparator : Char → Bool} {part : List Char} {mark : Char}
    (inside : ∀ c ∈ part, isSeparator c = false) (separates : isSeparator mark = true)
    (rest : List Char) :
    splitWhere isSeparator (part ++ mark :: rest) = part :: splitWhere isSeparator rest := by
  simp only [splitWhere_eq_splitOnP]
  exact List.splitOnP_append_cons_of_forall_mem inside mark separates rest

theorem forall_not_of_mem_splitWhere {isSeparator : Char → Bool} {text part : List Char}
    (h : part ∈ splitWhere isSeparator text) : ∀ c ∈ part, isSeparator c = false := by
  induction text generalizing part with
  | nil =>
      rw [List.mem_singleton.mp h]
      exact fun c none => absurd none List.not_mem_nil
  | cons c rest ih =>
      rw [splitWhere_cons] at h
      obtain ⟨first, others, parts⟩ :=
        List.exists_cons_of_ne_nil (splitWhere_ne_nil isSeparator rest)
      rw [parts] at h ih
      split at h
      next =>
        rcases List.mem_cons.mp h with rfl | later
        · exact fun c none => absurd none List.not_mem_nil
        · exact ih later
      next inside =>
        rw [List.modifyHead_cons] at h
        rcases List.mem_cons.mp h with rfl | later
        · have kept : isSeparator c = false := by simpa using inside
          exact List.forall_mem_cons.mpr ⟨kept, ih List.mem_cons_self⟩
        · exact ih (List.mem_cons_of_mem _ later)

theorem cutFirst_self {mark : List Char} (filled : mark ≠ []) (after : List Char) :
    cutFirst mark (mark ++ after) = some ([], after) := by
  obtain ⟨m, rest, rfl⟩ := List.exists_cons_of_ne_nil filled
  have starts : (m :: rest).isPrefixOf (m :: (rest ++ after)) = true :=
    List.isPrefixOf_iff_prefix.mpr (List.prefix_append (m :: rest) after)
  rw [List.cons_append, cutFirst, if_pos starts]
  simp

theorem cutFirst_append {mark text before after : List Char} (filled : mark ≠ [])
    (h : cutFirst mark text = some (before, after)) (other : List Char) :
    cutFirst mark (before ++ mark ++ other) = some (before, other) := by
  induction text generalizing before with
  | nil => simp [cutFirst, filled] at h
  | cons c rest ih =>
      have whole := cutFirst_eq h
      rw [cutFirst] at h
      split at h
      next =>
        obtain ⟨rfl, -⟩ := Prod.mk.inj (Option.some.inj h)
        exact cutFirst_self filled other
      next later =>
        obtain ⟨⟨tail, kept⟩, found, same⟩ := Option.map_eq_some_iff.mp h
        obtain ⟨rfl, rfl⟩ := Prod.mk.inj same
        -- A mark at the start of the new text would lie in the part that the texts share.
        have none : ¬mark.isPrefixOf (c :: (tail ++ mark ++ other)) = true := by
          intro starts
          have within : mark <+: c :: (tail ++ mark) :=
            List.prefix_of_prefix_length_le (List.isPrefixOf_iff_prefix.mp starts)
              (List.prefix_append (c :: (tail ++ mark)) other) (by simp; omega)
          rw [whole] at later
          exact later (List.isPrefixOf_iff_prefix.mpr
            (within.trans (List.prefix_append (c :: (tail ++ mark)) kept)))
        rw [List.cons_append, List.cons_append, cutFirst, if_neg none, ih found]
        rfl

theorem cutFirst_singleton {mark : Char} {before : List Char} (absent : mark ∉ before)
    (after : List Char) : cutFirst [mark] (before ++ mark :: after) = some (before, after) := by
  induction before with
  | nil => exact cutFirst_self (List.cons_ne_nil mark []) after
  | cons c rest ih =>
      obtain ⟨first, later⟩ : mark ≠ c ∧ mark ∉ rest := by simpa using absent
      rw [List.cons_append, cutFirst, if_neg (by simpa using first), ih later]
      rfl

theorem cutFirst_singleton_eq_none {mark : Char} {text : List Char} (absent : mark ∉ text) :
    cutFirst [mark] text = none := by
  cases found : cutFirst [mark] text with
  | none => rfl
  | some parts => exact absurd (cutFirst_eq found ▸ by simp) absent

theorem not_mem_of_cutFirst {mark : Char} {text before after : List Char}
    (h : cutFirst [mark] text = some (before, after)) : mark ∉ before := by
  induction text generalizing before with
  | nil => simp [cutFirst] at h
  | cons c rest ih =>
      rw [cutFirst] at h
      split at h
      next =>
        obtain ⟨rfl, -⟩ := Prod.mk.inj (Option.some.inj h)
        exact List.not_mem_nil
      next later =>
        obtain ⟨⟨tail, kept⟩, found, same⟩ := Option.map_eq_some_iff.mp h
        obtain ⟨rfl, rfl⟩ := Prod.mk.inj same
        have other : mark ≠ c := by simpa using later
        simpa using ⟨other, ih found⟩

theorem not_mem_of_cutFirst_eq_none {mark : Char} {text : List Char}
    (h : cutFirst [mark] text = none) : mark ∉ text := by
  induction text with
  | nil => exact List.not_mem_nil
  | cons c rest ih =>
      rw [cutFirst] at h
      split at h
      next => cases h
      next later =>
        have other : mark ≠ c := by simpa using later
        simpa using ⟨other, ih (Option.map_eq_none_iff.mp h)⟩

theorem cutLast_eq_none {mark : Char} {text : List Char} (absent : mark ∉ text) :
    cutLast mark text = none := by
  cases found : cutLast mark text with
  | none => rfl
  | some parts => exact absurd (cutLast_eq found ▸ by simp) absent

theorem cutLast_append {mark : Char} {after : List Char} (absent : mark ∉ after)
    (before : List Char) : cutLast mark (before ++ mark :: after) = some (before, after) := by
  induction before with
  | nil => rw [List.nil_append, cutLast, cutLast_eq_none absent, if_pos rfl]
  | cons c rest ih => rw [List.cons_append, cutLast, ih]

theorem trimEnd_eq_rdropWhile (text : List Char) : trimEnd text = text.rdropWhile isBlank := rfl

theorem trimEnd_append {c : Char} (solid : isBlank c = false) (before after : List Char) :
    trimEnd (before ++ c :: after) = before ++ c :: trimEnd after := by
  simp only [trimEnd_eq_rdropWhile]
  induction after using List.reverseRecOn with
  | nil => exact List.rdropWhile_concat_neg _ _ _ (by simp [solid])
  | append_singleton after d ih =>
      rw [← List.cons_append, ← List.append_assoc, List.rdropWhile_concat, List.rdropWhile_concat]
      by_cases blank : isBlank d = true
      · rw [if_pos blank, if_pos blank, ih]
      · rw [if_neg blank, if_neg blank, List.append_assoc, List.cons_append]

theorem trimEnd_trimEnd (text : List Char) : trimEnd (trimEnd text) = trimEnd text :=
  List.rdropWhile_idempotent isBlank text

theorem trimEnd_eq_self_iff {text : List Char} :
    trimEnd text = text ↔ ∀ c, text.getLast? = some c → isBlank c = false := by
  refine ⟨fun same c last => ?_, trimEnd_eq_self⟩
  have filled : text ≠ [] := List.ne_nil_of_mem (List.mem_of_getLast? last)
  have ending : text.getLast filled = c := by
    rw [List.getLast?_eq_some_getLast filled] at last
    exact Option.some.inj last
  have solid := List.rdropWhile_eq_self_iff.mp same filled
  rw [ending] at solid
  simpa using solid

theorem prefix_trimEnd (text : List Char) : trimEnd text <+: text :=
  List.rdropWhile_prefix isBlank text

theorem blank_of_trimChars_eq_nil {text : List Char} (h : trimChars text = []) :
    ∀ c ∈ text, isBlank c = true := by
  have after : ∀ c ∈ trimStart text, isBlank c = true := by
    have reversed : (trimStart text).reverse.dropWhile isBlank = [] := List.reverse_eq_nil_iff.mp h
    intro c member
    exact List.dropWhile_eq_nil_iff.mp reversed c (List.mem_reverse.mpr member)
  intro c member
  rw [← List.takeWhile_append_dropWhile (p := isBlank) (l := text)] at member
  rcases List.mem_append.mp member with before | later
  · exact List.all_eq_true.mp List.all_takeWhile c before
  · exact after c later

theorem solid_head_trimChars {text : List Char} {c : Char} (h : (trimChars text).head? = some c) :
    isBlank c = false := by
  obtain ⟨rest, whole⟩ := prefix_trimEnd (trimStart text)
  have first : (trimStart text).head? = some c := by
    rw [← whole, List.head?_append, ← trimChars, h]
    rfl
  have solid := List.head?_dropWhile_not isBlank text
  rw [← trimStart, first] at solid
  exact solid

end Switchboard.Text
