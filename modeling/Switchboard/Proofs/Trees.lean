import Switchboard.Json.Reader
import Switchboard.Proofs.Dictionary
import Switchboard.Proofs.Lexemes

/-! From tokens to trees and from trees to values. The tokens of a tree are put together to this
tree, whatever stands around it. The tree of a value without floating point numbers gives the value
again if the budget reaches down to its innermost place, and a tree that is nested deeper than the
budget gives none. -/
namespace Switchboard.Json

namespace Tree

namespace Builder

theorem run_cons {state next : Builder} {token : Token} (h : state.step token = some next)
    (rest : List Token) : state.run (token :: rest) = next.run rest := by
  rw [run, h, Option.bind_some]

theorem run_firstItem {items : List Tree} (filled : items ≠ []) (stack : List Frame)
    (rest : List Token) :
    run ⟨stack, .firstItem⟩ (itemLexemes items ++ rest) =
      run ⟨stack, .value⟩ (itemLexemes items ++ rest) := by
  match items with
  | [] => exact absurd rfl filled
  | [item] => cases item <;> rfl
  | item :: next :: items => cases item <;> rfl

theorem run_firstName {members : List (Option String × Tree)} (filled : members ≠ [])
    (stack : List Frame) (rest : List Token) :
    run ⟨stack, .firstName⟩ (memberLexemes members ++ rest) =
      run ⟨stack, .name []⟩ (memberLexemes members ++ rest) := by
  match members with
  | [] => exact absurd rfl filled
  | [member] => rfl
  | member :: next :: members => rfl

mutual

theorem run_lexemes (t : Tree) (stack : List Frame) (rest : List Token) :
    run ⟨stack, .value⟩ (t.lexemes ++ rest) = run ⟨stack, .closed t⟩ rest := by
  cases t with
  | null => rfl
  | bool b => rfl
  | number n => rfl
  | text content => rfl
  | array items =>
      by_cases empty : items = []
      · rw [empty]
        rfl
      · rw [lexemes, List.cons_append, List.append_assoc, run_cons rfl, run_firstItem empty,
          run_itemLexemes items empty]
        rfl
  | object members =>
      by_cases empty : members = []
      · rw [empty]
        rfl
      · rw [lexemes, List.cons_append, List.append_assoc, run_cons rfl, run_firstName empty,
          run_memberLexemes members empty]
        rfl

theorem run_itemLexemes (items : List Tree) (filled : items ≠ []) (stack : List Frame)
    (done : List Tree) (rest : List Token) :
    run ⟨.array done :: stack, .value⟩ (itemLexemes items ++ ([.closeArray] ++ rest)) =
      run ⟨stack, .closed (.array (done.reverse ++ items))⟩ rest := by
  match items with
  | [] => exact absurd rfl filled
  | [item] =>
      rw [itemLexemes, run_lexemes item]
      exact (run_cons rfl rest).trans (by rw [List.reverse_cons])
  | item :: next :: items =>
      rw [itemLexemes, List.append_assoc, run_lexemes item, List.cons_append, run_cons rfl,
        run_itemLexemes (next :: items) (List.cons_ne_nil _ _) stack (item :: done),
        List.reverse_cons, List.append_assoc]
      rfl

theorem run_memberLexemes (members : List (Option String × Tree)) (filled : members ≠ [])
    (stack : List Frame) (done : List (Option String × Tree)) (rest : List Token) :
    run ⟨stack, .name done⟩ (memberLexemes members ++ ([.closeObject] ++ rest)) =
      run ⟨stack, .closed (.object (done.reverse ++ members))⟩ rest := by
  match members with
  | [] => exact absurd rfl filled
  | [(name, item)] =>
      rw [memberLexemes, List.cons_append, List.cons_append, run_cons rfl, run_cons rfl,
        run_lexemes item]
      exact (run_cons rfl rest).trans (by rw [List.reverse_cons])
  | (name, item) :: next :: members =>
      rw [memberLexemes, List.cons_append, List.cons_append, run_cons rfl, run_cons rfl,
        List.append_assoc, run_lexemes item, List.cons_append, run_cons rfl,
        run_memberLexemes (next :: members) (List.cons_ne_nil _ _) stack ((name, item) :: done),
        List.reverse_cons, List.append_assoc]
      rfl

end

end Builder

theorem ofTokens?_lexemes (t : Tree) : ofTokens? t.lexemes = some t := by
  have run := Builder.run_lexemes t [] []
  rw [List.append_nil] at run
  rw [ofTokens?, Builder.start, run]
  rfl

end Tree

mutual

def FloatFree : Json → Prop
  | real _ => False
  | array items => FloatFreeItems items
  | object members => FloatFreeMembers members
  | _ => True

def FloatFreeItems : List Json → Prop
  | [] => True
  | item :: rest => FloatFree item ∧ FloatFreeItems rest

def FloatFreeMembers : List (String × Json) → Prop
  | [] => True
  | (_, item) :: rest => FloatFree item ∧ FloatFreeMembers rest

end

theorem insertMember_eq (members : List (String × Json)) (name : String) (value : Json) :
    insertMember members name value = Entries.insert members name value := by
  induction members with
  | nil => rfl
  | cons head rest ih =>
      obtain ⟨other, old⟩ := head
      simp only [insertMember, Entries.insert, ih]

mutual

theorem value?_of_deep (v : Json) {t : Tree} {budget : Nat} (made : tree? v = some t)
    (deep : budget < depth v) : t.value? budget = none := by
  cases v with
  | array items =>
      rw [tree?] at made
      obtain ⟨trees, found, rfl⟩ := Option.map_eq_some_iff.mp made
      rw [depth] at deep
      cases budget with
      | zero => rfl
      | succ left =>
          rw [Tree.value?, items?_of_deep items found (by omega)]
          rfl
  | object members =>
      rw [tree?] at made
      obtain ⟨trees, found, rfl⟩ := Option.map_eq_some_iff.mp made
      rw [depth] at deep
      cases budget with
      | zero => rfl
      | succ left =>
          rw [Tree.value?, members?_of_deep members found (by omega)]
          rfl
  | null => exact absurd deep (Nat.not_lt_zero _)
  | bool b => exact absurd deep (Nat.not_lt_zero _)
  | whole n => exact absurd deep (Nat.not_lt_zero _)
  | real x => exact absurd deep (Nat.not_lt_zero _)
  | text s => exact absurd deep (Nat.not_lt_zero _)

theorem items?_of_deep (items : List Json) {trees : List Tree} {budget : Nat}
    (made : itemTrees? items = some trees) (deep : budget < itemsDepth items) :
    Tree.items? budget trees = none := by
  match items with
  | [] => exact absurd deep (Nat.not_lt_zero _)
  | item :: rest =>
      rw [itemTrees?] at made
      obtain ⟨first, foundFirst, mapped⟩ := Option.bind_eq_some_iff.mp made
      obtain ⟨others, foundOthers, rfl⟩ := Option.map_eq_some_iff.mp mapped
      rw [itemsDepth] at deep
      by_cases here : budget < depth item
      · simp [Tree.items?, value?_of_deep item foundFirst here]
      · have later : budget < itemsDepth rest := by omega
        simp [Tree.items?, items?_of_deep rest foundOthers later]

theorem members?_of_deep (members : List (String × Json))
    {trees : List (Option String × Tree)} {budget : Nat} {soFar : List (String × Json)}
    (made : memberTrees? members = some trees) (deep : budget < membersDepth members) :
    Tree.members? budget trees soFar = none := by
  match members with
  | [] => exact absurd deep (Nat.not_lt_zero _)
  | (name, item) :: rest =>
      rw [memberTrees?] at made
      obtain ⟨first, foundFirst, mapped⟩ := Option.bind_eq_some_iff.mp made
      obtain ⟨others, foundOthers, rfl⟩ := Option.map_eq_some_iff.mp mapped
      rw [membersDepth] at deep
      by_cases here : budget < depth item
      · simp [Tree.members?, value?_of_deep item foundFirst here]
      · have later : budget < membersDepth rest := by omega
        simp [Tree.members?, members?_of_deep rest foundOthers later]

end

mutual

theorem value?_of_fits (v : Json) (free : FloatFree v) (canonical : Canonical v) :
    ∃ t, tree? v = some t ∧ ∀ budget, depth v ≤ budget → t.value? budget = some v := by
  cases v with
  | null => exact ⟨_, rfl, fun _ _ => rfl⟩
  | bool b => exact ⟨_, rfl, fun _ _ => rfl⟩
  | whole n =>
      refine ⟨_, rfl, fun budget _ => ?_⟩
      rw [Tree.value?, value?_wholeNumeral canonical]
      rfl
  | real x => exact absurd free id
  | text s => exact ⟨_, rfl, fun _ _ => rfl⟩
  | array items =>
      obtain ⟨trees, made, read⟩ := items?_of_fits items free canonical
      refine ⟨.array trees, by rw [tree?, made]; rfl, fun budget fits => ?_⟩
      rw [depth] at fits
      obtain ⟨left, rfl⟩ : ∃ left, budget = left + 1 := ⟨budget - 1, by omega⟩
      rw [Tree.value?, read left (by omega)]
      rfl
  | object members =>
      obtain ⟨trees, made, read⟩ := members?_of_fits members free canonical.2
      refine ⟨.object trees, by rw [tree?, made]; rfl, fun budget fits => ?_⟩
      rw [depth] at fits
      obtain ⟨left, rfl⟩ : ∃ left, budget = left + 1 := ⟨budget - 1, by omega⟩
      rw [Tree.value?, read left [] (by omega) canonical.1]
      rfl

theorem items?_of_fits (items : List Json) (free : FloatFreeItems items)
    (canonical : CanonicalItems items) :
    ∃ trees, itemTrees? items = some trees ∧
      ∀ budget, itemsDepth items ≤ budget → Tree.items? budget trees = some items := by
  match items with
  | [] => exact ⟨[], rfl, fun _ _ => rfl⟩
  | item :: rest =>
      obtain ⟨first, madeFirst, readFirst⟩ := value?_of_fits item free.1 canonical.1
      obtain ⟨others, madeOthers, readOthers⟩ := items?_of_fits rest free.2 canonical.2
      refine ⟨first :: others, by rw [itemTrees?, madeFirst, madeOthers]; rfl,
        fun budget fits => ?_⟩
      rw [itemsDepth] at fits
      rw [Tree.items?, readFirst budget (by omega), readOthers budget (by omega)]
      rfl

theorem members?_of_fits (members : List (String × Json)) (free : FloatFreeMembers members)
    (canonical : CanonicalMembers members) :
    ∃ trees, memberTrees? members = some trees ∧
      ∀ budget soFar, membersDepth members ≤ budget →
        Ascending ((soFar ++ members).map (·.1)) →
        Tree.members? budget trees soFar = some (soFar ++ members) := by
  match members with
  | [] => exact ⟨[], rfl, fun _ soFar _ _ => by rw [Tree.members?, List.append_nil]⟩
  | (name, item) :: rest =>
      obtain ⟨first, madeFirst, readFirst⟩ := value?_of_fits item free.1 canonical.1
      obtain ⟨others, madeOthers, readOthers⟩ := members?_of_fits rest free.2 canonical.2
      refine ⟨(some name, first) :: others, by rw [memberTrees?, madeFirst, madeOthers]; rfl,
        fun budget soFar fits ascending => ?_⟩
      rw [membersDepth] at fits
      have last : insertMember soFar name item = soFar ++ [(name, item)] := by
        rw [insertMember_eq]
        exact Entries.insert_of_above item
          (Entries.Ascending.above (List.pairwise_map.mp ascending))
      simp only [Tree.members?, readFirst budget (by omega)]
      refine (readOthers budget _ (by omega) ?_).trans ?_
      · rw [last, List.append_assoc]
        exact ascending
      · rw [last, List.append_assoc]
        rfl

end

end Switchboard.Json
