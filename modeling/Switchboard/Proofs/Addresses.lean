import Switchboard.Proofs.Cuts
import Switchboard.Proofs.Decimal
import Switchboard.Proofs.Dictionary
import Switchboard.Provider.Url

/-! Providers written as texts and read again. A text that is read may have separators and blanks
anywhere, and nothing is escaped, but what has been read has them only where the same cuts find them
again. One thing is lost. The attributes are written in the order of their keys, the blanks around a
text do not count, and so the value that comes last loses the blanks at its end. -/
namespace Switchboard

namespace Text

def clip (text : String) : String := String.ofList (trimEnd text.toList)

theorem toList_clip (text : String) : (clip text).toList = trimEnd text.toList := by simp [clip]

theorem clip_clip (text : String) : clip (clip text) = clip text := by
  rw [clip, toList_clip, trimEnd_trimEnd, clip]

end Text

namespace Provider

open Text

/-- An attribute as a query can have it. -/
structure Spellable (entry : String × String) : Prop where
  filled : entry.1.toList ≠ []
  key : '=' ∉ entry.1.toList ∧ '&' ∉ entry.1.toList
  value : '&' ∉ entry.2.toList

/-- A provider as a text can stand for it. -/
structure Readable (p : Provider) : Prop where
  fresh : { new p.identity.host p.identity.port p.identity.protocol with
    attributes := p.attributes } = p
  protocol : ∀ rest, cutFirst "://".toList (p.identity.protocol.toList ++ "://".toList ++ rest) =
    some (p.identity.protocol.toList, rest)
  solid : ∀ c, p.identity.protocol.toList.head? = some c → isBlank c = false
  host : p.identity.host.toList ≠ [] ∧ '?' ∉ p.identity.host.toList
  port : p.identity.port ≤ bound16
  attributes : ∀ entry ∈ p.attributes.entries, Spellable entry

/-- The provider without the blanks at the end of the value whose key comes last. -/
def clipped (p : Provider) : Provider :=
  { p with attributes := p.attributes.mapValues fun key value =>
      if p.attributes.keys.getLast? = some key then clip value else value }

def pair (entry : String × String) : List Char := entry.1.toList ++ '=' :: entry.2.toList

variable {p : Provider}

theorem writeQuery_cons (mark : Char) (entry : String × String) (rest : List (String × String)) :
    writeQuery mark (entry :: rest) = mark :: (pair entry ++ writeQuery '&' rest) := rfl

theorem writeQuery_concat (mark : Char) (entries : List (String × String))
    (entry : String × String) :
    ∃ before, ∀ value, writeQuery mark (entries ++ [(entry.1, value)]) =
      before ++ '=' :: value.toList := by
  induction entries generalizing mark with
  | nil => exact ⟨mark :: entry.1.toList, fun value => by simp [writeQuery]⟩
  | cons first rest ih =>
      obtain ⟨before, same⟩ := ih '&'
      refine ⟨mark :: (pair first ++ before), fun value => ?_⟩
      rw [List.cons_append, writeQuery_cons, same]
      simp

theorem addPair_pair {entry : String × String} (spellable : Spellable entry)
    (d : Dictionary String) : addPair d (pair entry) = d.insert entry.1 entry.2 := by
  rw [addPair, pair, cutFirst_singleton spellable.key.1]
  simp [spellable.filled]

theorem not_mem_pair {entry : String × String} (spellable : Spellable entry) :
    ∀ c ∈ pair entry, (c == '&') = false := by
  intro c member
  rw [beq_eq_false_iff_ne]
  rintro rfl
  rcases List.mem_append.mp member with inKey | inValue
  · exact spellable.key.2 inKey
  · exact spellable.value ((List.mem_cons.mp inValue).resolve_left (by decide))

theorem splitWhere_writeQuery {entry : String × String} {rest : List (String × String)}
    (spellable : ∀ other ∈ entry :: rest, Spellable other) :
    splitWhere (· == '&') (pair entry ++ writeQuery '&' rest) = (entry :: rest).map pair := by
  obtain ⟨first, others⟩ := List.forall_mem_cons.mp spellable
  induction rest generalizing entry with
  | nil =>
      rw [writeQuery, List.append_nil, splitWhere_of_forall_not (not_mem_pair first)]
      rfl
  | cons second rest ih =>
      obtain ⟨next, later⟩ := List.forall_mem_cons.mp others
      rw [writeQuery_cons, splitWhere_append (not_mem_pair first) (by decide),
        ih others next later]
      rfl

theorem readQuery_writeQuery {entry : String × String} {rest : List (String × String)}
    (spellable : ∀ other ∈ entry :: rest, Spellable other) :
    readQuery (pair entry ++ writeQuery '&' rest) = .ofList (entry :: rest) := by
  rw [readQuery, splitWhere_writeQuery spellable, List.foldl_map, Dictionary.ofList]
  exact List.foldl_ext _ _ _ fun d other member => addPair_pair (spellable other member) d

theorem spellable_addPair {d : Dictionary String} {part : List Char}
    (inside : ∀ c ∈ part, (c == '&') = false) (spellable : ∀ entry ∈ d.entries, Spellable entry) :
    ∀ entry ∈ (addPair d part).entries, Spellable entry := by
  rw [addPair]
  cases found : cutFirst ['='] part with
  | none => exact spellable
  | some parts =>
      obtain ⟨key, value⟩ := parts
      have whole := cutFirst_eq found
      have outside : '&' ∉ key ++ ['='] ++ value := fun member =>
        absurd (inside '&' (whole ▸ member)) (by decide)
      simp only [List.mem_append, not_or] at outside
      dsimp only
      split
      next => exact spellable
      next filled =>
        intro entry member
        rcases Entries.mem_insert member with rfl | old
        · exact
            { filled := by simpa using filled
              key := by simpa using ⟨not_mem_of_cutFirst found, outside.1.1⟩
              value := by simpa using outside.2 }
        · exact spellable entry old

theorem spellable_readQuery (query : List Char) :
    ∀ entry ∈ (readQuery query).entries, Spellable entry := by
  refine List.foldlRecOn _ addPair (motive := fun d => ∀ entry ∈ d.entries, Spellable entry) ?_ ?_
  · exact fun entry none => absurd none List.not_mem_nil
  · exact fun d before part member =>
      spellable_addPair (forall_not_of_mem_splitWhere member) before

theorem toList_url (p : Provider) :
    p.url.toList = p.identity.protocol.toList ++ "://".toList ++
      (p.identity.host.toList ++ ':' :: Nat.toDigits 10 p.identity.port ++
        writeQuery '?' p.attributes.entries) := by
  simp [url, Identity.label, Identity.address]

theorem not_mem_toDigits {n : Nat} {c : Char} (h : c.isDigit = false) : c ∉ Nat.toDigits 10 n :=
  fun member => by simp [isDigit_of_mem_toDigits member] at h

/-- The authority and the attributes that a text has after its protocol. -/
def Divided (rest authority : List Char) (attributes : Dictionary String) : Prop :=
  (∃ query, cutFirst ['?'] rest = some (authority, query) ∧ attributes = readQuery query) ∨
    cutFirst ['?'] rest = none ∧ authority = rest ∧ attributes = .empty

theorem exists_divided (rest : List Char) :
    ∃ authority attributes, Divided rest authority attributes := by
  cases found : cutFirst ['?'] rest with
  | none => exact ⟨_, _, .inr ⟨found, rfl, rfl⟩⟩
  | some parts => exact ⟨_, _, .inl ⟨_, found, rfl⟩⟩

theorem readUrl_of_divided {url protocol rest authority : List Char}
    {attributes : Dictionary String}
    (first : (cutFirst "://".toList url).getD (defaultProtocol.toList, url) = (protocol, rest))
    (divided : Divided rest authority attributes) :
    readUrl url =
      match cutLast ':' authority with
      | none => .error .missingPort
      | some (host, digits) =>
          if host = [] then .error .missingHost
          else match readWhole bound16 digits with
          | .error cause => .error (.badPort cause)
          | .ok port =>
              .ok { new (String.ofList host) port (String.ofList protocol) with
                attributes := attributes } := by
  rw [readUrl, first]
  rcases divided with ⟨query, found, rfl⟩ | ⟨found, rfl, rfl⟩
  all_goals
    simp only [found, List.isEmpty_iff]
    cases cutLast ':' _ with
    | none => rfl
    | some parts =>
        by_cases empty : parts.1 = []
        · simp only [if_pos empty]
          rfl
        · simp only [if_neg empty]
          cases readWhole bound16 parts.2 <;> rfl

theorem readUrl_eq_ok_iff {url : List Char} :
    readUrl url = .ok p ↔ ∃ protocol rest authority attributes host digits port,
      (cutFirst "://".toList url).getD (defaultProtocol.toList, url) = (protocol, rest) ∧
      Divided rest authority attributes ∧ cutLast ':' authority = some (host, digits) ∧
      host ≠ [] ∧ readWhole bound16 digits = .ok port ∧
      { new (String.ofList host) port (String.ofList protocol) with attributes := attributes } =
        p := by
  constructor
  · intro read
    rcases first : (cutFirst "://".toList url).getD (defaultProtocol.toList, url) with
      ⟨protocol, rest⟩
    obtain ⟨authority, attributes, divided⟩ := exists_divided rest
    rw [readUrl_of_divided first divided] at read
    split at read
    next => cases read
    next host digits last =>
      split at read
      next => cases read
      next hosted =>
        split at read
        next => cases read
        next port number =>
          exact ⟨_, _, _, _, _, _, _, rfl, divided, last, hosted, number, Except.ok.inj read⟩
  · rintro ⟨protocol, rest, authority, attributes, host, digits, port, first, divided, last, hosted,
      number, rfl⟩
    rw [readUrl_of_divided first divided, last]
    simp only [if_neg hosted, number]

theorem Readable.readUrl_url (readable : p.Readable) : readUrl p.url.toList = .ok p := by
  have authority : '?' ∉ p.identity.host.toList ++ ':' :: Nat.toDigits 10 p.identity.port := by
    simp [readable.host.2, not_mem_toDigits]
  have divided : Divided (p.identity.host.toList ++ ':' :: Nat.toDigits 10 p.identity.port ++
      writeQuery '?' p.attributes.entries)
      (p.identity.host.toList ++ ':' :: Nat.toDigits 10 p.identity.port) p.attributes := by
    cases listed : p.attributes.entries with
    | nil =>
        rw [writeQuery, List.append_nil]
        exact .inr ⟨cutFirst_singleton_eq_none authority, rfl, Dictionary.ext_entries listed⟩
    | cons entry rest =>
        have query : p.attributes = readQuery (pair entry ++ writeQuery '&' rest) := by
          rw [readQuery_writeQuery (listed ▸ readable.attributes), ← listed,
            Dictionary.ofList_entries]
        exact .inl ⟨_, cutFirst_singleton authority _, query⟩
  rw [readUrl_eq_ok_iff, toList_url, readable.protocol, Option.getD_some]
  exact ⟨_, _, _, _, _, _, _, rfl, divided, cutLast_append (not_mem_toDigits (by decide)) _,
    readable.host.1, readWhole_toDigits readable.port, by simpa using readable.fresh⟩

theorem readable_of_readUrl {url : List Char}
    (solid : ∀ c, url.head? = some c → isBlank c = false) (read : readUrl url = .ok p) :
    p.Readable := by
  obtain ⟨protocol, rest, authority, attributes, host, digits, port, first, divided, last, hosted,
    number, rfl⟩ := readUrl_eq_ok_iff.mp read
  have outside : '?' ∉ authority := by
    rcases divided with ⟨query, found, -⟩ | ⟨found, rfl, -⟩
    · exact not_mem_of_cutFirst found
    · exact not_mem_of_cutFirst_eq_none found
  have spellable : ∀ entry ∈ attributes.entries, Spellable entry := by
    rcases divided with ⟨query, -, rfl⟩ | ⟨-, -, rfl⟩
    · exact spellable_readQuery query
    · exact fun entry none => absurd none List.not_mem_nil
  have again : ∀ other, cutFirst "://".toList (protocol ++ "://".toList ++ other) =
      some (protocol, other) := by
    cases found : cutFirst "://".toList url with
    | none =>
        rw [found] at first
        obtain ⟨rfl, -⟩ := Prod.mk.inj first
        exact fun other => rfl
    | some parts =>
        rw [found, Option.getD_some] at first
        exact cutFirst_append (by decide) (first ▸ found)
  have start : ∀ c, protocol.head? = some c → isBlank c = false := by
    cases found : cutFirst "://".toList url with
    | none =>
        rw [found] at first
        obtain ⟨rfl, -⟩ := Prod.mk.inj first
        exact fun c same => by
          obtain rfl : 'b' = c := Option.some.inj same
          decide
    | some parts =>
        rw [found, Option.getD_some] at first
        have whole := cutFirst_eq (first ▸ found)
        intro c same
        exact solid c (by rw [whole, List.append_assoc, List.head?_append, same]; rfl)
  exact
    { fresh := rfl
      protocol := by simpa [new] using again
      solid := by simpa [new] using start
      host := ⟨by simpa [new] using hosted, fun member => outside (by
        rw [cutLast_eq last]
        exact List.mem_append_left _ (by simpa [new] using member))⟩
      port := readWhole_le number
      attributes := spellable }

theorem keys_clipped (p : Provider) : p.clipped.attributes.keys = p.attributes.keys :=
  Dictionary.keys_mapValues ..

theorem attribute?_clipped (p : Provider) (key : String) :
    p.clipped.attribute? key = (p.attribute? key).map fun value =>
      if p.attributes.keys.getLast? = some key then clip value else value :=
  Dictionary.get?_mapValues ..

theorem entries_clipped {entries : List (String × String)} {last : String × String}
    (shape : p.attributes.entries = entries ++ [last]) :
    p.clipped.attributes.entries = entries ++ [(last.1, clip last.2)] := by
  have greatest : p.attributes.keys.getLast? = some last.1 := by simp [Dictionary.keys, shape]
  have ascending : Entries.Ascending (entries ++ [last]) := shape ▸ p.attributes.ascending
  have before : ∀ entry ∈ entries, some last.1 ≠ some entry.1 := fun entry member same =>
    have less := (List.pairwise_append.mp ascending).2.2 entry member last (by simp)
    absurd (Option.some.inj same ▸ less) (String.lt_irrefl _)
  have kept : entries.map (fun entry =>
      (entry.1, if some last.1 = some entry.1 then clip entry.2 else entry.2)) = entries :=
    (List.map_congr_left fun entry member => by rw [if_neg (before entry member)]; rfl).trans
      (List.map_id entries)
  show p.attributes.entries.map (fun entry => (entry.1,
    if p.attributes.keys.getLast? = some entry.1 then clip entry.2 else entry.2)) = _
  rw [greatest, shape, List.map_append, kept, List.map_singleton, if_pos rfl]

theorem trimStart_url (solid : ∀ c, p.identity.protocol.toList.head? = some c → isBlank c = false) :
    trimStart p.url.toList = p.url.toList := by
  refine trimStart_eq_self fun c first => ?_
  rw [toList_url, List.append_assoc, List.head?_append] at first
  cases start : p.identity.protocol.toList.head? with
  | none =>
      rw [start] at first
      obtain rfl : ':' = c := Option.some.inj first
      decide
  | some other =>
      rw [start] at first
      obtain rfl : other = c := Option.some.inj first
      exact solid other start

theorem trimChars_url
    (solid : ∀ c, p.identity.protocol.toList.head? = some c → isBlank c = false) :
    trimChars p.url.toList = p.clipped.url.toList := by
  rw [trimChars, trimStart_url solid, toList_url, toList_url]
  rcases List.eq_nil_or_concat p.attributes.entries with none | ⟨entries, last, shape⟩
  · have also : p.clipped.attributes.entries = [] := by
      simp [clipped, Dictionary.mapValues, none]
    have digits : trimEnd (Nat.toDigits 10 p.identity.port) = Nat.toDigits 10 p.identity.port :=
      trimEnd_eq_self fun c member =>
        isBlank_of_isDigit (isDigit_of_mem_toDigits (List.mem_of_getLast? member))
    rw [none, also, writeQuery, List.append_nil, List.append_nil, ← List.append_assoc,
      trimEnd_append (by decide), digits, List.append_assoc]
    rfl
  · rw [List.concat_eq_append] at shape
    obtain ⟨before, same⟩ := writeQuery_concat '?' entries last
    rw [entries_clipped shape, shape, same, ← Prod.eta last, same, toList_clip]
    simp only [← List.append_assoc]
    exact trimEnd_append (by decide) _ _

theorem Readable.clipped (readable : p.Readable) : p.clipped.Readable where
  fresh := congrArg (fun q : Provider => { q with attributes := p.clipped.attributes })
    readable.fresh
  protocol := readable.protocol
  solid := readable.solid
  host := readable.host
  port := readable.port
  attributes := by
    intro entry member
    obtain ⟨old, listed, rfl⟩ := List.mem_map.mp member
    have spellable := readable.attributes old listed
    refine ⟨spellable.filled, spellable.key, ?_⟩
    dsimp only
    split
    · rw [toList_clip]
      exact fun inside => spellable.value ((prefix_trimEnd _).subset inside)
    · exact spellable.value

theorem clipped_clipped (p : Provider) : p.clipped.clipped = p.clipped := by
  have twice : p.clipped.clipped.attributes = p.clipped.attributes := by
    refine Dictionary.ext_get? fun key => ?_
    have again := attribute?_clipped p.clipped key
    rw [keys_clipped, attribute?_clipped p key, Option.map_map] at again
    refine again.trans (Eq.trans ?_ (attribute?_clipped p key).symm)
    congr 1
    funext value
    dsimp only [Function.comp_apply]
    split
    · exact clip_clip value
    · rfl
  exact congrArg (fun d : Dictionary String => { p with attributes := d }) twice

theorem clipped_eq_self_iff (p : Provider) :
    p.clipped = p ↔ ∀ key value, p.attributes.keys.getLast? = some key →
      p.attribute? key = some value →
      ∀ c, value.toList.getLast? = some c → isBlank c = false := by
  constructor
  · intro same key value last found c ending
    have clipped := attribute?_clipped p key
    rw [same, found, Option.map_some, if_pos last] at clipped
    have trimmed : trimEnd value.toList = value.toList := by
      rw [← toList_clip, ← Option.some.inj clipped]
    exact trimEnd_eq_self_iff.mp trimmed c ending
  · intro solid
    have same : p.clipped.attributes = p.attributes := by
      refine Dictionary.ext_get? fun key => (attribute?_clipped p key).trans ?_
      cases found : p.attribute? key with
      | none => exact found.symm
      | some value =>
          rw [Option.map_some]
          refine Eq.trans ?_ found.symm
          split
          next last =>
            rw [clip, trimEnd_eq_self (solid key value last found), String.ofList_toList]
          next => rfl
    exact congrArg (fun d : Dictionary String => { p with attributes := d }) same

theorem Readable.parse_url (readable : p.Readable) : parse p.url = .ok p.clipped := by
  rw [parse, trimChars_url readable.solid, readable.clipped.readUrl_url]

theorem readable_of_parse {text : String} (read : parse text = .ok p) : p.Readable := by
  rw [parse] at read
  split at read
  next q found =>
    obtain rfl := Except.ok.inj read
    exact readable_of_readUrl (fun c => solid_head_trimChars) found
  next => cases read

/-- A provider that was read is written in a form that is read again, as the same provider under the
same keys, and with the same values but for the blanks at the end of the one whose key comes last.
So the provider comes back unchanged exactly if there are none, and in any case from then on. -/
theorem parse_url_of_parse {text : String} (read : parse text = .ok p) :
    ∃ q, parse p.url = .ok q ∧ q.identity = p.identity ∧ q.attributes.keys = p.attributes.keys ∧
      (∀ key, q.attribute? key = (p.attribute? key).map fun value =>
        if p.attributes.keys.getLast? = some key then clip value else value) ∧
      (q = p ↔ ∀ key value, p.attributes.keys.getLast? = some key →
        p.attribute? key = some value →
        ∀ c, value.toList.getLast? = some c → isBlank c = false) ∧
      parse q.url = .ok q := by
  have readable := readable_of_parse read
  refine ⟨p.clipped, readable.parse_url, rfl, p.keys_clipped, p.attribute?_clipped,
    p.clipped_eq_self_iff, ?_⟩
  rw [readable.clipped.parse_url, clipped_clipped]

def paired (first second : String) : Provider :=
  ((new "10.0.0.1" 12200 "bolt").withAttribute "a" first).withAttribute "b" second

theorem parse_url_of_parse_padded :
    parse "bolt://10.0.0.1:12200?b= x=1&a=2 & &=3 " = .ok (paired "2 " " x=1") ∧
      ∃ q, parse (paired "2 " " x=1").url = .ok q ∧ q.attribute? "a" = some "2 " ∧
        q.attribute? "b" = some " x=1" ∧ q = paired "2 " " x=1" := by
  have read : parse "bolt://10.0.0.1:12200?b= x=1&a=2 & &=3 " = .ok (paired "2 " " x=1") := rfl
  obtain ⟨q, again, -, -, values, unchanged, -⟩ := parse_url_of_parse read
  refine ⟨read, q, again, (values "a").trans (by decide), (values "b").trans (by decide),
    unchanged.mpr fun key value last found c ending => ?_⟩
  obtain rfl : key = "b" := Option.some.inj (last.symm.trans (by decide))
  obtain rfl : value = " x=1" := Option.some.inj (found.symm.trans (by decide))
  obtain rfl : '1' = c := Option.some.inj ending
  decide

theorem parse_url_clips :
    parse "bolt://10.0.0.1:12200?b=1 &a=2" = .ok (paired "2" "1 ") ∧
    (paired "2" "1 ").url = "bolt://10.0.0.1:12200?a=2&b=1 " ∧
    parse (paired "2" "1 ").url = .ok (paired "2" "1") ∧
    (paired "2" "1").attributes ≠ (paired "2" "1 ").attributes :=
  ⟨rfl, rfl, rfl, by decide⟩

end Provider

end Switchboard
