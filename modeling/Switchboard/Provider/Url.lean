import Switchboard.Failure
import Switchboard.Provider
import Switchboard.Text.Split

/-! Providers as texts of the form `protocol://host:port?key=value&key=value`. The protocol ends at
the first `://` of the whole text and may be missing, the attributes start at the first question
mark after it, and the port follows the last colon before that. Nothing is escaped. -/
namespace Switchboard.Provider

open Text

inductive UrlError where
  | missingPort
  | missingHost
  | badPort (cause : WholeError)
deriving DecidableEq

def UrlError.describe (url : String) : UrlError → String
  | missingPort => "provider url `" ++ url ++ "` is missing a port"
  | missingHost => "provider url `" ++ url ++ "` is missing a host"
  | badPort cause => "provider url `" ++ url ++ "` has bad port: " ++ cause.message

/-- Adds the attribute that a part of a query stands for. A part without an equals sign or
without a key stands for none. -/
def addPair (attributes : Dictionary String) (pair : List Char) : Dictionary String :=
  match cutFirst ['='] pair with
  | some (key, value) =>
      if key.isEmpty then attributes
      else attributes.insert (String.ofList key) (String.ofList value)
  | none => attributes

def readQuery (query : List Char) : Dictionary String :=
  (splitWhere (· == '&') query).foldl addPair .empty

def readUrl (url : List Char) : Except UrlError Provider := do
  let (protocol, rest) := (cutFirst "://".toList url).getD (defaultProtocol.toList, url)
  let (authority, attributes) := match cutFirst ['?'] rest with
    | some (authority, query) => (authority, readQuery query)
    | none => (rest, .empty)
  match cutLast ':' authority with
  | none => throw .missingPort
  | some (host, port) =>
      if host.isEmpty then throw .missingHost
      match readWhole bound16 port with
      | .error cause => throw (.badPort cause)
      | .ok port =>
          return { new (String.ofList host) port (String.ofList protocol) with
            attributes := attributes }

def parse (text : String) : Outcome Provider :=
  let url := trimChars text.toList
  match readUrl url with
  | .ok provider => .ok provider
  | .error error => .error (.settings (error.describe (String.ofList url)))

def writeQuery (mark : Char) : List (String × String) → List Char
  | [] => []
  | (key, value) :: rest => mark :: (key.toList ++ '=' :: value.toList) ++ writeQuery '&' rest

def url (p : Provider) : String :=
  p.identity.label ++ String.ofList (writeQuery '?' p.attributes.entries)

end Switchboard.Provider
