import Switchboard.Settings
import Switchboard.Text.Utf8
import Switchboard.Toml.Document
import Switchboard.Toml.Record

/-! Settings from a TOML document. A document with a field that no settings have is refused, like
one with a value of the wrong kind. -/
namespace Switchboard

open Text (Bytes)

namespace Registry.Settings

def ofToml? (value : Toml) : Option Settings :=
  match Toml.fields? ["protocol", "address", "timeout_ms", "register", "subscribe", "parameters"]
      value with
  | some [protocol, address, timeout, registers, subscribes, parameters] => do
      let protocol ← Toml.field? Toml.text? default.protocol protocol
      let address ← Toml.field? Toml.text? default.address address
      let timeout ← Toml.field? Toml.size? default.timeout timeout
      let registers ← Toml.field? Toml.bool? default.registers registers
      let subscribes ← Toml.field? Toml.bool? default.subscribes subscribes
      let parameters ← Toml.field? Toml.texts? default.parameters parameters
      return ⟨protocol, address, timeout, registers, subscribes, parameters⟩
  | _ => none

end Registry.Settings

namespace Settings

def appName? (value : Toml) : Option String :=
  match Toml.fields? ["name"] value with
  | some [name] => Toml.field? Toml.text? default.appName name
  | _ => none

def mode? (value : Toml) : Option Gate.Mode := value.label?.bind Gate.Mode.ofLabel?

def checks? (value : Toml) : Option (Gate.Mode × String × String) :=
  match Toml.fields? ["check_mode", "blacklist_override", "whitelist_override"] value with
  | some [mode, deny, allow] => do
      let mode ← Toml.field? mode? default.mode mode
      let deny ← Toml.field? Toml.text? default.denyOverride deny
      let allow ← Toml.field? Toml.text? default.allowOverride allow
      return (mode, deny, allow)
  | _ => none

def registries? (value : Toml) : Option (List Registry.Settings) :=
  value.items?.bind fun items => items.mapM Registry.Settings.ofToml?

def ofToml? (value : Toml) : Option Settings :=
  match Toml.fields? ["application", "serialize", "registries"] value with
  | some [application, serialize, registries] => do
      let appName ← Toml.field? appName? default.appName application
      let (mode, deny, allow) ←
        Toml.field? checks? (default.mode, default.denyOverride, default.allowOverride) serialize
      let registries ← Toml.field? registries? default.registries registries
      return ⟨appName, mode, deny, allow, none, none, registries⟩
  | _ => none

def malformed : String := "malformed TOML: "

def read (source : String) : Outcome Settings :=
  match Toml.readDocument source with
  | none => .error (.settings (malformed ++ "the text is no document"))
  | some entries =>
      match ofToml? (.table .headed entries) with
      | none => .error (.settings (malformed ++ "the document holds no settings"))
      | some settings => .ok settings

inductive Unreadable where
  | missing
  | directory
  | noDirectory
  | longName
  | badName
  | notUtf8
deriving DecidableEq

def Unreadable.message : Unreadable → String
  | missing => "No such file or directory (os error 2)"
  | directory => "Is a directory (os error 21)"
  | noDirectory => "Not a directory (os error 20)"
  | longName => "File name too long (os error 36)"
  | badName => "file name contained an unexpected NUL byte"
  | notUtf8 => "stream did not contain valid UTF-8"

def unreadable (path : String) (reason : Unreadable) : Failure :=
  .settings ("failed to read `" ++ path ++ "`: " ++ reason.message)

def load (path : String) (contents : Except Unreadable Bytes) : Outcome Settings :=
  match contents with
  | .error reason => .error (unreadable path reason)
  | .ok bytes =>
      match Text.text? bytes with
      | some source => read source
      | none => .error (unreadable path .notUtf8)

end Settings

end Switchboard
