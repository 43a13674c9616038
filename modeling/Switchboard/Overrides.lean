import Switchboard.Text.Blank
import Switchboard.Text.Split

/-! Override strings, which edit a list of names. The tokens of a string stand between commas or
semicolons. A token after a minus or an exclamation mark removes a name, or all names if it is
`*` or `default`; any other token adds a name. Removals come first, whatever the order of the
tokens, and a name is added only where it is missing. -/
namespace Switchboard.Overrides

open Text

inductive Directive where
  | clear
  | remove (name : String)
  | add (name : String)
deriving DecidableEq

def isSeparator (c : Char) : Bool := c == ',' || c == ';'

def tokens (text : String) : List (List Char) :=
  ((splitWhere isSeparator text.toList).map trimChars).filter fun token => !token.isEmpty

def removal (name : List Char) : Directive :=
  if name = ['*'] ∨ name = "default".toList then .clear else .remove (String.ofList name)

def directive (token : List Char) : Directive :=
  match token with
  | '-' :: name => removal (trimChars name)
  | '!' :: name => removal (trimChars name)
  | name => .add (String.ofList name)

def directives (text : String) : List Directive := (tokens text).map directive

def retain (list : List String) (directives : List Directive) : List String :=
  directives.foldl (fun kept directive => match directive with
    | .clear => []
    | .remove name => kept.filter (· ≠ name)
    | .add _ => kept) list

def additions (directives : List Directive) : List String :=
  directives.filterMap fun directive => match directive with
    | .add name => some name
    | _ => none

def addMissing (list : List String) (name : String) : List String :=
  if name ∈ list then list else list ++ [name]

def apply (list : List String) (text : String) : List String :=
  (additions (directives text)).foldl addMissing (retain list (directives text))

def applyAll (list : List String) (texts : List String) : List String := texts.foldl apply list

/-- Reads a list with a name a line. Empty lines, lines that start with `#` and repeated names are
left out. -/
def readList (source : String) : List String :=
  let lines := (splitWhere (· == '\n') source.toList).map trimChars
  let names := lines.filter fun line => !line.isEmpty && line.head? != some '#'
  (names.map String.ofList).foldl addMissing []

theorem mem_addMissing {list : List String} {name other : String} :
    other ∈ addMissing list name ↔ other ∈ list ∨ other = name := by
  unfold addMissing
  split
  next member => exact ⟨Or.inl, fun h => h.elim id fun same => same ▸ member⟩
  next => simp

theorem nodup_addMissing {list : List String} (h : list.Nodup) (name : String) :
    (addMissing list name).Nodup := by
  unfold addMissing
  split
  next => exact h
  next absent =>
    refine List.nodup_append.mpr ⟨h, by simp, fun a member b same => ?_⟩
    simp only [List.mem_singleton] at same
    subst same
    exact fun equal => absent (equal ▸ member)

end Switchboard.Overrides
