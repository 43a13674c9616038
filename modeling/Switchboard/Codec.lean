import Switchboard.Failure
import Switchboard.Text.Utf8

/-! Codecs turn payloads, requests and responses into bytes and back. A decoder may be told which
class it has to find; any other class is then a failure. -/
namespace Switchboard

open Text (Bytes)

structure Codec where
  encode : Payload → Side → Outcome Bytes
  decode : Bytes → Option String → Side → Outcome Payload
  encodeRequest : Request → Side → Outcome Bytes
  decodeRequest : Bytes → Side → Outcome Request
  encodeResponse : Response → Side → Outcome Bytes
  decodeResponse : Bytes → Option String → Side → Outcome Response

namespace Codec

def expect (expected : Option String) (payload : Payload) (side : Side) : Outcome Unit :=
  match expected with
  | none => .ok ()
  | some className =>
      if className = payload.className then .ok ()
      else .error (.decoding side
        ("expected class `" ++ className ++ "`, decoded `" ++ payload.className ++ "`"))

end Codec

end Switchboard
