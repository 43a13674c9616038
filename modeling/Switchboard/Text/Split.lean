/-! Cutting a text at separators. A split has one part more than the text has separators, in
order, and the separators are lost. A cut looks for one separator only, the first or the last. -/
namespace Switchboard.Text

def splitWhere (isSeparator : Char → Bool) : List Char → List (List Char)
  | [] => [[]]
  | c :: rest =>
      match splitWhere isSeparator rest with
      | [] => [[c]]
      | part :: parts => if isSeparator c then [] :: part :: parts else (c :: part) :: parts

theorem splitWhere_ne_nil (isSeparator : Char → Bool) (text : List Char) :
    splitWhere isSeparator text ≠ [] := by
  cases text with
  | nil => simp [splitWhere]
  | cons c rest =>
      simp only [splitWhere]
      split
      · simp
      · split <;> simp

theorem splitWhere_cons (isSeparator : Char → Bool) (c : Char) (rest : List Char) :
    splitWhere isSeparator (c :: rest) =
      if isSeparator c then [] :: splitWhere isSeparator rest
      else ((splitWhere isSeparator rest).modifyHead (c :: ·)) := by
  rw [splitWhere]
  cases parts : splitWhere isSeparator rest with
  | nil => exact absurd parts (splitWhere_ne_nil isSeparator rest)
  | cons part parts => simp

def cutFirst (mark : List Char) : List Char → Option (List Char × List Char)
  | [] => if mark.isEmpty then some ([], []) else none
  | c :: rest =>
      if mark.isPrefixOf (c :: rest) then some ([], (c :: rest).drop mark.length)
      else (cutFirst mark rest).map fun (before, after) => (c :: before, after)

def cutLast (mark : Char) : List Char → Option (List Char × List Char)
  | [] => none
  | c :: rest =>
      match cutLast mark rest with
      | some (before, after) => some (c :: before, after)
      | none => if c = mark then some ([], rest) else none

theorem cutFirst_eq {mark : List Char} {text before after : List Char}
    (h : cutFirst mark text = some (before, after)) : text = before ++ mark ++ after := by
  induction text generalizing before after with
  | nil =>
      simp only [cutFirst] at h
      split at h <;> simp_all
  | cons c rest ih =>
      simp only [cutFirst] at h
      split at h
      next starts =>
        obtain ⟨tail, whole⟩ := List.isPrefixOf_iff_prefix.mp starts
        simp only [Option.some.injEq, Prod.mk.injEq] at h
        obtain ⟨rfl, rfl⟩ := h
        simp [← whole]
      next =>
        obtain ⟨⟨b, a⟩, found, same⟩ := Option.map_eq_some_iff.mp h
        simp only [Prod.mk.injEq] at same
        obtain ⟨rfl, rfl⟩ := same
        simp [ih found]

theorem cutLast_eq {mark : Char} {text before after : List Char}
    (h : cutLast mark text = some (before, after)) : text = before ++ mark :: after := by
  induction text generalizing before after with
  | nil => simp [cutLast] at h
  | cons c rest ih =>
      rw [cutLast] at h
      split at h
      next b a found =>
        simp only [Option.some.injEq, Prod.mk.injEq] at h
        obtain ⟨rfl, rfl⟩ := h
        simp [ih found]
      next =>
        split at h
        next same =>
          simp only [Option.some.injEq, Prod.mk.injEq] at h
          obtain ⟨rfl, rfl⟩ := h
          simp [same]
        next => simp at h

end Switchboard.Text
