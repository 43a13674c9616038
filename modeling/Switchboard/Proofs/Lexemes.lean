import Switchboard.Json.Tree
import Switchboard.Proofs.Numerals

/-! The text of a JSON value is read as the tokens of a tree that has the form of the value. Between
tokens the machine goes on in the same way whatever it read before, so the tokens of a value stand
in front of those of the text that follows it. Words are the exception, as only the next character
or the end of the text completes them: what follows a value has to start with a character that
ends a word. -/
namespace Switchboard.Json

open Number Text Token

mutual

def tree? : Json → Option Tree
  | null => some .null
  | bool b => some (.bool b)
  | whole n => some (.number (wholeNumeral n))
  | real x => (Numeral.read? (renderReal x)).map .number
  | text s => some (.text (some s))
  | array items => (itemTrees? items).map .array
  | object members => (memberTrees? members).map .object

def itemTrees? : List Json → Option (List Tree)
  | [] => some []
  | item :: rest => (tree? item).bind fun first => (itemTrees? rest).map (first :: ·)

def memberTrees? : List (String × Json) → Option (List (Option String × Tree))
  | [] => some []
  | (name, item) :: rest =>
      (tree? item).bind fun first => (memberTrees? rest).map ((some name, first) :: ·)

end

namespace Tree

mutual

def lexemes : Tree → List Token
  | null => [.null]
  | bool b => [.bool b]
  | number n => [.number n]
  | text content => [.text content]
  | array items => .openArray :: (itemLexemes items ++ [.closeArray])
  | object members => .openObject :: (memberLexemes members ++ [.closeObject])

def itemLexemes : List Tree → List Token
  | [] => []
  | [item] => lexemes item
  | item :: next :: items => lexemes item ++ .comma :: itemLexemes (next :: items)

def memberLexemes : List (Option String × Tree) → List Token
  | [] => []
  | [(name, item)] => .text name :: .colon :: lexemes item
  | (name, item) :: next :: members =>
      .text name :: .colon :: (lexemes item ++ .comma :: memberLexemes (next :: members))

end

end Tree

namespace Token.Lexer

def read? (state : Lexer) (letters : List Char) : Option (List Token) :=
  (state.run 0 (letters.map .char)).toOption

theorem toOption_run (state : Lexer) (count other : Nat) (glyphs : List Glyph) :
    (state.run count glyphs).toOption = (state.run other glyphs).toOption := by
  induction glyphs generalizing state count other with
  | nil =>
      simp only [run]
      cases state.finish <;> rfl
  | cons glyph rest ih =>
      simp only [run]
      cases state.step glyph with
      | none => rfl
      | some next => exact ih next _ _

theorem read?_nil (state : Lexer) : state.read? [] = state.finish := by
  simp only [read?, List.map_nil, run]
  cases state.finish <;> rfl

theorem read?_cons (state : Lexer) (c : Char) (rest : List Char) :
    state.read? (c :: rest) = (state.step (.char c)).bind fun next => next.read? rest := by
  simp only [read?, List.map_cons, run]
  cases state.step (.char c) with
  | none => rfl
  | some next => exact toOption_run next _ _ _

abbrev between (tokens : List Token) : Lexer := ⟨tokens, .between⟩

def Follows (rest : List Char) : Prop := ∀ c ∈ rest.head?, endsWord c = true

theorem follows_nil : Follows [] := fun c found => absurd found (by simp)

theorem follows_cons {c : Char} (h : endsWord c = true) (rest : List Char) :
    Follows (c :: rest) := by
  intro other found
  obtain rfl : c = other := Option.some.inj found
  exact h

theorem read?_punctuation {c : Char} (token : Token) (h : punctuation? c = some token)
    (plain : isSpace c = false) (unquoted : c ≠ '"') (tokens : List Token) (rest : List Char) :
    (between tokens).read? (c :: rest) = (between (token :: tokens)).read? rest := by
  rw [read?_cons]
  simp [step, open?, plain, unquoted, h]

theorem read?_word_append {letters : List Char} (inside : ∀ c ∈ letters, endsWord c = false)
    (tokens : List Token) (soFar rest : List Char) :
    read? ⟨tokens, .word soFar⟩ (letters ++ rest) =
      read? ⟨tokens, .word (letters.reverse ++ soFar)⟩ rest := by
  induction letters generalizing soFar with
  | nil => rfl
  | cons c others ih =>
      have first := inside c List.mem_cons_self
      rw [List.cons_append, read?_cons]
      simp only [step, first, Bool.false_eq_true, if_false, Option.bind_some]
      rw [ih fun other member => inside other (List.mem_cons_of_mem _ member), List.reverse_cons,
        List.append_assoc]
      rfl

theorem read?_word_end {rest : List Char} (follows : Follows rest) (tokens : List Token)
    (soFar : List Char) :
    read? ⟨tokens, .word soFar⟩ rest =
      (ofWord? soFar.reverse).bind fun token => (between (token :: tokens)).read? rest := by
  cases rest with
  | nil =>
      simp only [read?_nil, finish, endWord]
      cases ofWord? soFar.reverse <;> rfl
  | cons c others =>
      have ends := follows c rfl
      simp only [read?_cons, step, ends, if_true, endWord]
      cases ofWord? soFar.reverse <;> rfl

theorem read?_word {letters rest : List Char} (filled : letters ≠ [])
    (inside : ∀ c ∈ letters, endsWord c = false) (follows : Follows rest) (tokens : List Token) :
    (between tokens).read? (letters ++ rest) =
      (ofWord? letters).bind fun token => (between (token :: tokens)).read? rest := by
  cases letters with
  | nil => exact absurd rfl filled
  | cons c others =>
      have first := inside c List.mem_cons_self
      simp only [endsWord, Bool.or_eq_false_iff, beq_eq_false_iff_ne, Option.isSome_eq_false_iff,
        Option.isNone_iff_eq_none] at first
      obtain ⟨⟨plain, unquoted⟩, letter⟩ := first
      have opened : step (between tokens) (.char c) = some ⟨tokens, .word [c]⟩ := by
        simp [step, open?, plain, unquoted, letter]
      rw [List.cons_append, read?_cons, opened, Option.bind_some,
        read?_word_append fun other member => inside other (List.mem_cons_of_mem _ member),
        read?_word_end follows, List.reverse_append, List.reverse_reverse]
      rfl

def numeric (c : Char) : Bool := c.isDigit || c == '.' || c == 'e' || c == '+' || c == '-'

theorem endsWord_of_numeric {c : Char} (h : numeric c = true) : endsWord c = false := by
  have stops : ∀ stop ∈ [' ', '\t', '\n', '\r', '"', '[', ']', '\x7b', '\x7d', ',', ':'],
      numeric stop = false := by simp [numeric]
  have other : ∀ stop, numeric stop = false → c ≠ stop := by
    rintro stop plain rfl
    exact Bool.false_ne_true (plain.symm.trans h)
  simp only [List.forall_mem_cons] at stops
  simp [endsWord, isSpace, punctuation?, other, stops]

theorem ofWord?_of_numeric {letters : List Char} (h : ∀ c ∈ letters, numeric c = true) :
    ofWord? letters = (Numeral.read? letters).map .number := by
  have other : ∀ name, name.all numeric = false → letters ≠ name := by
    rintro name plain rfl
    exact Bool.false_ne_true (plain.symm.trans (List.all_eq_true.mpr h))
  rw [ofWord?, if_neg (other _ (by decide)), if_neg (other _ (by decide)),
    if_neg (other _ (by decide))]

theorem read?_numeral {letters rest : List Char} (filled : letters ≠ [])
    (h : ∀ c ∈ letters, numeric c = true) (follows : Follows rest) (tokens : List Token) :
    (between tokens).read? (letters ++ rest) =
      (Numeral.read? letters).bind fun n => (between (.number n :: tokens)).read? rest := by
  rw [read?_word filled (fun c member => endsWord_of_numeric (h c member)) follows,
    ofWord?_of_numeric h, Option.bind_map]
  rfl

theorem escapeChar_cases (c : Char) :
    (∃ letter, letter ≠ 'u' ∧ escaped? letter = some c ∧ escapeChar c = ['\\', letter]) ∨
    (c.toNat < 0x20 ∧
      escapeChar c = ['\\', 'u', '0', '0', hexDigit (c.toNat / 16), hexDigit (c.toNat % 16)]) ∨
    (c ≠ '"' ∧ c ≠ '\\' ∧ 0x20 ≤ c.toNat ∧ escapeChar c = [c]) := by
  unfold escapeChar
  split
  next same => exact .inl ⟨'"', by decide, by rw [same]; rfl, rfl⟩
  next unquoted =>
  split
  next same => exact .inl ⟨'\\', by decide, by rw [same]; rfl, rfl⟩
  next unslashed =>
  split
  next same => exact .inl ⟨'b', by decide, by rw [same]; rfl, rfl⟩
  split
  next same => exact .inl ⟨'f', by decide, by rw [same]; rfl, rfl⟩
  split
  next same => exact .inl ⟨'n', by decide, by rw [same]; rfl, rfl⟩
  split
  next same => exact .inl ⟨'r', by decide, by rw [same]; rfl, rfl⟩
  split
  next same => exact .inl ⟨'t', by decide, by rw [same]; rfl, rfl⟩
  split
  next control => exact .inr (.inl ⟨control, rfl⟩)
  next printed => exact .inr (.inr ⟨unquoted, unslashed, Nat.le_of_not_lt printed, rfl⟩)

theorem hexValue?_hexDigit {n : Nat} (h : n < 16) : hexValue? (hexDigit n) = some n := by
  have all : ∀ n : Fin 16, hexValue? (hexDigit n) = some n.val := by decide
  exact all ⟨n, h⟩

abbrev reading (letters : List Char) : Partial := ⟨some letters, none⟩

theorem pushUnit_control {c : Char} (h : c.toNat < 0x20) (letters : List Char) :
    (reading letters).pushUnit c.toNat = reading (c :: letters) := by
  have lead : ¬ (0xd800 ≤ c.toNat) := by omega
  have trail : ¬ (0xdc00 ≤ c.toNat) := by omega
  simp [Partial.pushUnit, lead, trail, Char.ofNat_toNat, Partial.push, Partial.settle]

theorem read?_escapeChar (c : Char) (tokens : List Token) (soFar rest : List Char) :
    Lexer.read? ⟨tokens, .plain (reading soFar)⟩ (escapeChar c ++ rest) =
      Lexer.read? ⟨tokens, .plain (reading (c :: soFar))⟩ rest := by
  obtain ⟨letter, short, meant, form⟩ | ⟨control, form⟩ | ⟨unquoted, unslashed, printed, form⟩ :=
    escapeChar_cases c
  · rw [form]
    simp only [List.cons_append, List.nil_append, read?_cons]
    simp [step, stepString, short, meant, Partial.push, Partial.settle]
  · have high := hexValue?_hexDigit (n := c.toNat / 16) (by omega)
    have low := hexValue?_hexDigit (n := c.toNat % 16) (by omega)
    have zero : hexValue? '0' = some 0 := by decide
    have whole : c.toNat / 16 * 16 + c.toNat % 16 = c.toNat := by omega
    rw [form]
    simp only [List.cons_append, List.nil_append, read?_cons]
    simp [step, stepString, high, low, zero, whole, pushUnit_control control]
  · have kept : ¬ c.toNat < 0x20 := by omega
    rw [form, List.singleton_append, read?_cons]
    simp [step, stepString, unquoted, unslashed, kept, Partial.push, Partial.settle]

theorem read?_escaped (letters : List Char) (tokens : List Token) (soFar rest : List Char) :
    Lexer.read? ⟨tokens, .plain (reading soFar)⟩ (letters.flatMap escapeChar ++ rest) =
      Lexer.read? ⟨tokens, .plain (reading (letters.reverse ++ soFar))⟩ rest := by
  induction letters generalizing soFar with
  | nil => rfl
  | cons c others ih =>
      rw [List.flatMap_cons, List.append_assoc, read?_escapeChar, ih, List.reverse_cons,
        List.append_assoc]
      rfl

theorem read?_quote (s : String) (tokens : List Token) (rest : List Char) :
    (between tokens).read? (quote s ++ rest) =
      (between (.text (some s) :: tokens)).read? rest := by
  have opened : step (between tokens) (.char '"') = some ⟨tokens, .plain (reading [])⟩ := rfl
  have closed : step ⟨tokens, .plain (reading s.toList.reverse)⟩ (.char '"') =
      some (between (.text (some s) :: tokens)) := by
    simp [step, stepString, Partial.token, Partial.settle, String.ofList_toList]
  rw [quote, List.cons_append, List.append_assoc, read?_cons, opened, Option.bind_some,
    read?_escaped, List.append_nil, List.singleton_append, read?_cons, closed, Option.bind_some]

end Token.Lexer

open Token.Lexer

theorem renderWhole_ne_nil (n : Int) : renderWhole n ≠ [] := by
  cases n with
  | ofNat n => exact Nat.toDigits_ne_nil
  | negSucc n => exact List.cons_ne_nil _ _

theorem numeric_digits {n : Nat} {c : Char} (h : c ∈ digits n) : numeric c = true := by
  simp [numeric, isDigit_of_mem_digits h]

theorem numeric_renderWhole (n : Int) : ∀ c ∈ renderWhole n, numeric c = true := by
  intro c member
  cases n with
  | ofNat n => exact numeric_digits member
  | negSucc n =>
      rcases List.mem_cons.mp member with rfl | inDigits
      · rfl
      · exact numeric_digits inDigits

theorem numeric_positional {letters : List Char} (h : ∀ c ∈ letters, numeric c = true)
    (point : Int) : ∀ c ∈ positional letters point, numeric c = true := by
  have zero : numeric '0' = true := by decide
  have dot : numeric '.' = true := by decide
  intro c member
  unfold positional at member
  split at member
  · simp only [List.mem_cons, List.mem_append] at member
    obtain rfl | rfl | padding | inside := member
    · exact zero
    · exact dot
    · exact List.eq_of_mem_replicate padding ▸ zero
    · exact h c inside
  · simp only [List.mem_cons, List.mem_append] at member
    obtain (inside | padding) | rfl | after := member
    · exact h c (List.mem_of_mem_take inside)
    · exact List.eq_of_mem_replicate padding ▸ zero
    · exact dot
    · split at after
      · exact List.mem_singleton.mp after ▸ zero
      · exact h c (List.mem_of_mem_drop after)

theorem numeric_scientific {letters : List Char} (h : ∀ c ∈ letters, numeric c = true)
    (point : Int) : ∀ c ∈ scientific letters point, numeric c = true := by
  intro c member
  simp only [scientific, List.mem_append, List.mem_cons] at member
  obtain mantissa | rfl | rfl | exponent := member
  · split at mantissa
    · exact List.mem_singleton.mp mantissa ▸ by decide
    · exact h c mantissa
    · simp only [List.mem_cons] at mantissa
      obtain rfl | rfl | inside := mantissa
      · exact h _ List.mem_cons_self
      · decide
      · exact h c (List.mem_cons_of_mem _ inside)
  · decide
  · split <;> decide
  · exact numeric_digits exponent

theorem numeric_renderMagnitude (x : Binary64) : ∀ c ∈ renderMagnitude x, numeric c = true := by
  intro c member
  simp only [renderMagnitude] at member
  split at member
  · have zero : ['0', '.', '0'].all numeric = true := by decide
    exact List.all_eq_true.mp zero c member
  · split at member
    · exact numeric_positional (fun _ inside => numeric_digits inside) _ c member
    · exact numeric_scientific (fun _ inside => numeric_digits inside) _ c member

theorem numeric_renderReal (x : Binary64) : ∀ c ∈ renderReal x, numeric c = true := by
  intro c member
  rw [renderReal] at member
  split at member
  · rcases List.mem_cons.mp member with rfl | inside
    · rfl
    · exact numeric_renderMagnitude x c inside
  · exact numeric_renderMagnitude x c member

theorem positional_ne_nil (letters : List Char) (point : Int) : positional letters point ≠ [] := by
  unfold positional
  split
  · exact List.cons_ne_nil _ _
  · exact List.append_ne_nil_of_right_ne_nil _ (List.cons_ne_nil _ _)

theorem scientific_ne_nil (letters : List Char) (point : Int) : scientific letters point ≠ [] :=
  List.append_ne_nil_of_right_ne_nil _ (List.cons_ne_nil _ _)

theorem renderReal_ne_nil (x : Binary64) : renderReal x ≠ [] := by
  have magnitude : renderMagnitude x ≠ [] := by
    simp only [renderMagnitude]
    split
    · exact List.cons_ne_nil _ _
    · split
      · exact positional_ne_nil _ _
      · exact scientific_ne_nil _ _
  rw [renderReal]
  split
  · exact List.cons_ne_nil _ _
  · exact magnitude

theorem read?_name {name : String} {token : Token} {rest : List Char}
    (h : ofWord? name.toList = some token) (filled : name.toList ≠ [])
    (inside : name.toList.all (fun c => !endsWord c) = true) (follows : Follows rest)
    (tokens : List Token) :
    (between tokens).read? (name.toList ++ rest) = (between (token :: tokens)).read? rest := by
  have letters : ∀ c ∈ name.toList, endsWord c = false := by simpa using inside
  rw [read?_word filled letters follows, h, Option.bind_some]

theorem cons_of_itemTrees? {item : Json} {rest : List Json} {trees : List Tree}
    (h : itemTrees? (item :: rest) = some trees) : ∃ first others, trees = first :: others := by
  rw [itemTrees?] at h
  obtain ⟨first, -, mapped⟩ := Option.bind_eq_some_iff.mp h
  obtain ⟨others, -, whole⟩ := Option.map_eq_some_iff.mp mapped
  exact ⟨first, others, whole.symm⟩

theorem cons_of_memberTrees? {member : String × Json} {rest : List (String × Json)}
    {trees : List (Option String × Tree)} (h : memberTrees? (member :: rest) = some trees) :
    ∃ first others, trees = (some member.1, first) :: others := by
  rw [memberTrees?] at h
  obtain ⟨first, -, mapped⟩ := Option.bind_eq_some_iff.mp h
  obtain ⟨others, -, whole⟩ := Option.map_eq_some_iff.mp mapped
  exact ⟨first, others, whole.symm⟩

mutual

theorem read?_write (v : Json) {rest : List Char} (follows : Follows rest) (tokens : List Token) :
    (between tokens).read? (write v rest) =
      (tree? v).bind fun t => (between (t.lexemes.reverse ++ tokens)).read? rest := by
  cases v with
  | null => exact read?_name rfl (by decide) (by decide) follows tokens
  | bool b =>
      cases b with
      | true => exact read?_name rfl (by decide) (by decide) follows tokens
      | false => exact read?_name rfl (by decide) (by decide) follows tokens
  | whole n =>
      rw [write, read?_numeral (renderWhole_ne_nil n) (numeric_renderWhole n) follows,
        read?_renderWhole]
      rfl
  | real x =>
      rw [write, read?_numeral (renderReal_ne_nil x) (numeric_renderReal x) follows, tree?,
        Option.bind_map]
      rfl
  | text s => exact read?_quote s tokens rest
  | array items =>
      rw [write, read?_punctuation .openArray rfl rfl (by decide),
        read?_writeItems items (follows_cons rfl rest), tree?, Option.bind_map]
      refine congrArg _ (funext fun trees => ?_)
      rw [read?_punctuation .closeArray rfl rfl (by decide)]
      simp [Tree.lexemes]
  | object members =>
      rw [write, read?_punctuation .openObject rfl rfl (by decide),
        read?_writeMembers members (follows_cons rfl rest), tree?, Option.bind_map]
      refine congrArg _ (funext fun trees => ?_)
      rw [read?_punctuation .closeObject rfl rfl (by decide)]
      simp [Tree.lexemes]

theorem read?_writeItems (items : List Json) {rest : List Char} (follows : Follows rest)
    (tokens : List Token) :
    (between tokens).read? (writeItems items rest) =
      (itemTrees? items).bind fun trees =>
        (between ((Tree.itemLexemes trees).reverse ++ tokens)).read? rest := by
  match items with
  | [] => rfl
  | [item] =>
      rw [writeItems, read?_write item follows, itemTrees?, Option.bind_assoc]
      rfl
  | item :: next :: items =>
      rw [writeItems, read?_write item (follows_cons rfl _), itemTrees?, Option.bind_assoc]
      refine congrArg _ (funext fun first => ?_)
      rw [read?_punctuation .comma rfl rfl (by decide),
        read?_writeItems (next :: items) follows]
      cases found : itemTrees? (next :: items) with
      | none => rfl
      | some trees =>
          obtain ⟨second, others, rfl⟩ := cons_of_itemTrees? found
          simp [Tree.itemLexemes]

theorem read?_writeMembers (members : List (String × Json)) {rest : List Char}
    (follows : Follows rest) (tokens : List Token) :
    (between tokens).read? (writeMembers members rest) =
      (memberTrees? members).bind fun trees =>
        (between ((Tree.memberLexemes trees).reverse ++ tokens)).read? rest := by
  match members with
  | [] => rfl
  | [(name, item)] =>
      rw [writeMembers, read?_quote, read?_punctuation .colon rfl rfl (by decide),
        read?_write item follows, memberTrees?, Option.bind_assoc]
      refine congrArg _ (funext fun first => ?_)
      simp [memberTrees?, Tree.memberLexemes]
  | (name, item) :: next :: members =>
      rw [writeMembers, read?_quote, read?_punctuation .colon rfl rfl (by decide),
        read?_write item (follows_cons rfl _), memberTrees?, Option.bind_assoc]
      refine congrArg _ (funext fun first => ?_)
      rw [read?_punctuation .comma rfl rfl (by decide),
        read?_writeMembers (next :: members) follows]
      cases found : memberTrees? (next :: members) with
      | none => rfl
      | some trees =>
          obtain ⟨second, others, rfl⟩ := cons_of_memberTrees? found
          simp [Tree.memberLexemes]

end

theorem ofGlyphs_render (v : Json) :
    (Token.ofGlyphs ((render v).map .char)).toOption = (tree? v).map Tree.lexemes := by
  have read := read?_write v follows_nil []
  simp only [Lexer.read?_nil, List.append_nil] at read
  rw [Token.ofGlyphs]
  refine read.trans ?_
  cases tree? v with
  | none => rfl
  | some t => simp [Lexer.finish]

end Switchboard.Json
