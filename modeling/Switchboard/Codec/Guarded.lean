import Switchboard.Codec
import Switchboard.Gate

/-! A codec behind a gate. Before anything is encoded and after anything is decoded the gate is
asked for the class of every payload. Where a class is expected of a single payload, the gate is
asked for that class first. -/
namespace Switchboard.Codec

open Text (Bytes)

def Request.classes (r : Request) : List String := r.arguments.map (·.className)

def Response.classes (r : Response) : List String := (r.value.map (·.className)).toList

namespace Guarded

def encode (c : Codec) (payload : Payload) (side : Side) (g : Gate) : Checked Bytes :=
  (g.check payload.className side).andThen fun _ gate => .done (c.encode payload side) gate

def decode (c : Codec) (bytes : Bytes) (expected : Option String) (side : Side) (g : Gate) :
    Checked Payload :=
  (g.checkAll expected.toList side).andThen fun _ gate =>
    (Checked.done (c.decode bytes expected side) gate).andThen fun payload gate =>
      (gate.check payload.className side).andThen fun _ gate => .done (.ok payload) gate

def encodeRequest (c : Codec) (request : Request) (side : Side) (g : Gate) : Checked Bytes :=
  (g.checkAll (Request.classes request) side).andThen fun _ gate =>
    .done (c.encodeRequest request side) gate

def decodeRequest (c : Codec) (bytes : Bytes) (side : Side) (g : Gate) : Checked Request :=
  (Checked.done (c.decodeRequest bytes side) g).andThen fun request gate =>
    (gate.checkAll (Request.classes request) side).andThen fun _ gate => .done (.ok request) gate

def encodeResponse (c : Codec) (response : Response) (side : Side) (g : Gate) : Checked Bytes :=
  (g.checkAll (Response.classes response) side).andThen fun _ gate =>
    .done (c.encodeResponse response side) gate

def decodeResponse (c : Codec) (bytes : Bytes) (expected : Option String) (side : Side)
    (g : Gate) : Checked Response :=
  (Checked.done (c.decodeResponse bytes expected side) g).andThen fun response gate =>
    (gate.checkAll (Response.classes response) side).andThen fun _ gate => .done (.ok response) gate

end Guarded

end Switchboard.Codec
