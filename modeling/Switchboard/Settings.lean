import Switchboard.Gate
import Switchboard.Registry.Settings

/-! Settings of the whole program. The check mode and the overrides of the two lists come from a
document and from the environment: for the mode the environment wins, and its override of a list
is applied before that of the document. -/
namespace Switchboard

/-- What a document says, and beside it the overrides that come from the environment. -/
structure Settings where
  appName : String
  mode : Gate.Mode
  denyOverride : String
  allowOverride : String
  outerDeny : Option String
  outerAllow : Option String
  registries : List Registry.Settings
deriving DecidableEq

namespace Settings

def default : Settings := ⟨"", .strict, "", "", none, none, []⟩

def modeVariable : String := "SPARK_RPC_SERIALIZE_CHECK_MODE"

def denyVariable : String := "SPARK_RPC_SERIALIZE_BLACKLIST_OVERRIDE"

def allowVariable : String := "SPARK_RPC_SERIALIZE_WHITELIST_OVERRIDE"

def ordered (outer : Option String) (inner : String) : List String :=
  (outer.toList ++ [inner]).filter fun text => !(Text.trim text).isEmpty

def denyOverrides (s : Settings) : List String := ordered s.outerDeny s.denyOverride

def allowOverrides (s : Settings) : List String := ordered s.outerAllow s.allowOverride

def withEnvironment (s : Settings) (lookup : String → Option String) : Outcome Settings := do
  let mode ← match lookup modeVariable with
    | some text => Gate.Mode.parse text
    | none => .ok s.mode
  return { s with
    mode := mode
    outerDeny := lookup denyVariable
    outerAllow := lookup allowVariable }

def gate (s : Settings) : Gate := .ofOverrides s.mode s.allowOverrides s.denyOverrides

end Settings

end Switchboard
