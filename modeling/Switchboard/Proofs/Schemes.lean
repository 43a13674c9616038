import Switchboard.Proofs.Addresses

/-! Providers whose text leaves out the protocol. A text without the mark of a protocol is read as
if it began with the default one. The mark is looked for in the whole text, however, also among the
attributes, and what stands there before it is then taken for a protocol, so that the rest of an
attribute is read as host and port. -/
namespace Switchboard

namespace Text

variable {mark text before after : List Char}

theorem decide_ne_of_not_mem {stop : Char} (absent : stop ∉ text) :
    ∀ c ∈ text, decide (c ≠ stop) = true := fun _ member =>
  decide_eq_true (ne_of_mem_of_not_mem member absent)

theorem infix_of_cutFirst (found : cutFirst mark text = some (before, after)) : mark <:+: text :=
  ⟨before, after, (cutFirst_eq found).symm⟩

theorem cutFirst_ne_none (filled : mark ≠ []) (within : mark <:+: text) :
    cutFirst mark text ≠ none := by
  obtain ⟨front, rest, rfl⟩ := within
  induction front with
  | nil => simp [cutFirst_self filled]
  | cons c front ih =>
      rw [List.cons_append, List.cons_append, cutFirst]
      split
      · exact Option.some_ne_none _
      · rwa [ne_eq, Option.map_eq_none_iff]

theorem infix_takeWhile_of_cutFirst {p : Char → Bool}
    (found : cutFirst mark text = some (before, after)) (inside : ∀ c ∈ before ++ mark, p c) :
    mark <:+: text.takeWhile p := by
  rw [cutFirst_eq found, List.takeWhile_append_of_pos inside]
  exact ⟨before, after.takeWhile p, rfl⟩

theorem mem_before_of_cutFirst {stop : Char} (other : stop ∉ mark)
    (late : ¬mark <:+: text.takeWhile (· ≠ stop))
    (found : cutFirst mark text = some (before, after)) : stop ∈ before := by
  by_contra absent
  have outside : stop ∉ before ++ mark := fun member =>
    (List.mem_append.mp member).elim absent other
  exact late (infix_takeWhile_of_cutFirst found (decide_ne_of_not_mem outside))

theorem trimChars_append_trimChars {front : List Char} {c : Char}
    (solid : ∀ d, front.head? = some d → isBlank d = false) (last : isBlank c = false)
    (text : List Char) :
    trimChars (front ++ c :: trimChars text) = front ++ c :: trimChars text := by
  have start : trimStart (front ++ c :: trimChars text) = front ++ c :: trimChars text := by
    refine trimStart_eq_self fun d first => ?_
    cases front with
    | nil =>
        obtain rfl : c = d := Option.some.inj first
        exact last
    | cons e rest => exact solid d first
  rw [trimChars, start, trimEnd_append last]
  exact congrArg (fun kept => front ++ c :: kept) (trimEnd_trimEnd (trimStart text))

end Text

namespace Provider

open Text

variable {p : Provider} {text : String} {url protocol rest authority before after : List Char}
  {attributes : Dictionary String}

def schemed (url : List Char) : List Char := defaultProtocol.toList ++ "://".toList ++ url

/-- The text has a host and a port in front of its attributes. -/
def Names (rest host : List Char) (port : Nat) : Prop :=
  host ≠ [] ∧ ∃ digits, cutLast ':' (rest.takeWhile (· ≠ '?')) = some (host, digits) ∧
    readWhole bound16 digits = .ok port

theorem Divided.authority_eq (divided : Divided rest authority attributes) :
    authority = rest.takeWhile (· ≠ '?') := by
  rcases divided with ⟨query, found, -⟩ | ⟨found, rfl, -⟩
  · have absent := decide_ne_of_not_mem (not_mem_of_cutFirst found)
    rw [cutFirst_eq found, List.append_assoc, List.takeWhile_append_of_pos absent]
    simp
  · have absent := decide_ne_of_not_mem (not_mem_of_cutFirst_eq_none found)
    exact (List.takeWhile_eq_self_iff.mpr absent).symm

theorem names_of_readUrl
    (first : (cutFirst "://".toList url).getD (defaultProtocol.toList, url) = (protocol, rest))
    (read : readUrl url = .ok p) : ∃ host port, Names rest host port ∧
      p.identity = ⟨String.ofList host, port, String.ofList protocol⟩ := by
  obtain ⟨_, _, _, _, host, digits, port, again, divided, last, hosted, number, rfl⟩ :=
    readUrl_eq_ok_iff.mp read
  obtain ⟨rfl, rfl⟩ := Prod.mk.inj (again.symm.trans first)
  exact ⟨host, port, ⟨hosted, digits, divided.authority_eq ▸ last, number⟩, rfl⟩

theorem exists_readUrl_iff
    (first : (cutFirst "://".toList url).getD (defaultProtocol.toList, url) = (protocol, rest)) :
    (∃ p, readUrl url = .ok p) ↔ ∃ host port, Names rest host port := by
  constructor
  · rintro ⟨p, read⟩
    obtain ⟨host, port, names, -⟩ := names_of_readUrl first read
    exact ⟨host, port, names⟩
  · rintro ⟨host, port, hosted, digits, last, number⟩
    obtain ⟨authority, attributes, divided⟩ := exists_divided rest
    rw [← divided.authority_eq] at last
    exact ⟨_, readUrl_eq_ok_iff.mpr ⟨protocol, rest, authority, attributes, host, digits, port,
      first, divided, last, hosted, number, rfl⟩⟩

theorem cutFirst_schemed (url : List Char) :
    (cutFirst "://".toList (schemed url)).getD (defaultProtocol.toList, schemed url) =
      (defaultProtocol.toList, url) := rfl

theorem readUrl_schemed (absent : cutFirst "://".toList url = none) :
    readUrl (schemed url) = readUrl url := by
  obtain ⟨authority, attributes, divided⟩ := exists_divided url
  rw [readUrl_of_divided (cutFirst_schemed url) divided,
    readUrl_of_divided (by rw [absent]; rfl) divided]

theorem toOption_readUrl_eq_none_iff
    (first : (cutFirst "://".toList url).getD (defaultProtocol.toList, url) = (protocol, rest)) :
    (readUrl url).toOption = none ↔ ¬∃ host port, Names rest host port := by
  rw [← exists_readUrl_iff first]
  cases readUrl url <;> simp [Except.toOption]

theorem readUrl_eq_ok_of_toOption (read : (readUrl url).toOption = some p) :
    readUrl url = .ok p := by
  cases found : readUrl url with
  | error => rw [found] at read; cases read
  | ok q => rw [found] at read; exact congrArg Except.ok (Option.some.inj read)

theorem toOption_schemed_eq_iff (found : cutFirst "://".toList url = some (before, after))
    (late : '?' ∈ before) :
    (readUrl url).toOption = (readUrl (schemed url)).toOption ↔
      (¬∃ host port, Names url host port) ∧ ¬∃ host port, Names after host port := by
  have first : (cutFirst "://".toList url).getD (defaultProtocol.toList, url) = (before, after) :=
    by rw [found]; rfl
  rw [← toOption_readUrl_eq_none_iff first, ← toOption_readUrl_eq_none_iff (cutFirst_schemed url)]
  constructor
  · intro same
    cases read : (readUrl url).toOption with
    | none => exact ⟨same ▸ read, rfl⟩
    | some p =>
        -- One provider cannot have both protocols, as only one of them has a question mark.
        have again := same ▸ read
        obtain ⟨_, _, -, here⟩ := names_of_readUrl first (readUrl_eq_ok_of_toOption read)
        obtain ⟨_, _, -, there⟩ :=
          names_of_readUrl (cutFirst_schemed url) (readUrl_eq_ok_of_toOption again)
        have equal : before = defaultProtocol.toList :=
          String.ofList_inj.mp (congrArg Identity.protocol (here.symm.trans there))
        rw [equal] at late
        exact absurd late (by decide)
  · rintro ⟨neither, nor⟩
    rw [nor, neither]

theorem toOption_parse (text : String) :
    (parse text).toOption = (readUrl (trimChars text.toList)).toOption := by
  rw [parse]
  cases readUrl (trimChars text.toList) <;> rfl

theorem parse_eq_ok_iff {text : String} :
    parse text = .ok p ↔ readUrl (trimChars text.toList) = .ok p := by
  rw [parse]
  cases readUrl (trimChars text.toList) <;> simp

theorem trimChars_schemed (text : String) :
    trimChars (defaultProtocol ++ "://" ++ trim text).toList = schemed (trimChars text.toList) := by
  have whole : (defaultProtocol ++ "://" ++ trim text).toList =
      "bolt:/".toList ++ '/' :: trimChars text.toList := by
    simp [defaultProtocol, toList_trim]
  have solid : ∀ c, "bolt:/".toList.head? = some c → isBlank c = false := fun c first => by
    obtain rfl : 'b' = c := Option.some.inj first
    decide
  rw [whole, trimChars_append_trimChars solid (by decide)]
  rfl

/-- A text has no mark of a protocol in front of its first question mark. It is read like the one
with the default protocol in front exactly if it has no mark at all or neither of them can be read.
If a mark comes later, all that stands in front of it, the question mark included, is the protocol
of what is read, and host and port come from behind it. -/
theorem protocol_may_be_left_out_iff {text : String} {url : List Char}
    (trimmed : trimChars text.toList = url)
    (bare : ¬"://".toList <:+: url.takeWhile (· ≠ '?')) :
    ((parse text).toOption = (parse (defaultProtocol ++ "://" ++ trim text)).toOption ↔
      ("://".toList <:+: url → (¬∃ host port, Names url host port) ∧
        ∀ before after, cutFirst "://".toList url = some (before, after) →
          ¬∃ host port, Names after host port)) ∧
    (∀ before after, cutFirst "://".toList url = some (before, after) →
      '?' ∈ before ∧ ∀ p, parse text = .ok p → ∃ host port, Names after host port ∧
        p.identity = ⟨String.ofList host, port, String.ofList before⟩) ∧
    ∀ p, parse (defaultProtocol ++ "://" ++ trim text) = .ok p →
      ∃ host port, Names url host port ∧
        p.identity = ⟨String.ofList host, port, defaultProtocol⟩ := by
  have late : ∀ {before after}, cutFirst "://".toList url = some (before, after) →
      '?' ∈ before := fun found => mem_before_of_cutFirst (by decide) bare found
  rw [toOption_parse, toOption_parse, trimChars_schemed, trimmed]
  refine ⟨?_, fun before after found => ⟨late found, fun p read => ?_⟩, fun p read => ?_⟩
  · cases found : cutFirst "://".toList url with
    | none =>
        have absent : ¬"://".toList <:+: url := fun within =>
          absurd found (cutFirst_ne_none (by decide) within)
        rw [readUrl_schemed found]
        exact iff_of_true rfl fun within => absurd within absent
    | some parts =>
        rw [toOption_schemed_eq_iff found (late found)]
        simp only [infix_of_cutFirst found, forall_const, Option.some.injEq]
        refine and_congr_right fun _ => ⟨?_, fun none => none _ _ rfl⟩
        rintro none before after rfl
        exact none
  · rw [parse_eq_ok_iff, trimmed] at read
    exact names_of_readUrl (by rw [found]; rfl) read
  · rw [parse_eq_ok_iff, trimChars_schemed, trimmed] at read
    exact names_of_readUrl (cutFirst_schemed url) read

theorem protocol_may_be_left_out_resembling :
    ∃ text, text = " 10.0.0.1:12200?path=a:/b//c&next=x?y " ∧
      (¬"://".toList <:+: (trimChars text.toList).takeWhile (· ≠ '?')) ∧
      (parse text).toOption = (parse (defaultProtocol ++ "://" ++ trim text)).toOption ∧
      ∃ p, parse text = .ok p ∧ p.identity = ⟨"10.0.0.1", 12200, "bolt"⟩ ∧
        p.attribute? "path" = some "a:/b//c" ∧ p.attribute? "next" = some "x?y" := by
  have bare : ¬"://".toList <:+: (trimChars " 10.0.0.1:12200?path=a:/b//c&next=x?y ".toList
      ).takeWhile (· ≠ '?') := fun within =>
    cutFirst_ne_none (List.cons_ne_nil _ _) within rfl
  have agree := (protocol_may_be_left_out_iff rfl bare).1.mpr fun within =>
    absurd rfl (cutFirst_ne_none (List.cons_ne_nil _ _) within)
  exact ⟨_, rfl, bare, agree, _, rfl, rfl, by decide, by decide⟩

/-- The mark inside an attribute is taken for that of the protocol. -/
theorem protocol_left_out_misread :
    ∃ text, text = "10.0.0.1:12200?callback=http://10.0.0.2:80" ∧
      (¬"://".toList <:+: (trimChars text.toList).takeWhile (· ≠ '?')) ∧
      parse text = .ok (new "10.0.0.2" 80 "10.0.0.1:12200?callback=http") ∧
      parse (defaultProtocol ++ "://" ++ trim text) =
        .ok ((new "10.0.0.1" 12200 "bolt").withAttribute "callback" "http://10.0.0.2:80") :=
  ⟨_, rfl, fun within => cutFirst_ne_none (List.cons_ne_nil _ _) within rfl, rfl, rfl⟩

end Provider

end Switchboard
