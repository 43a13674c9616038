import Switchboard.Catalog
import Switchboard.Filter

/-! The filters that every catalog starts with. The context filter says where a call comes from:
the consumer writes its application and side into the request, the provider into a response. The
logging filter observes calls and changes nothing. -/
namespace Switchboard.Filter

variable {ε : Type}

def contextName : String := "context"

def contextOrder : Int := -19500

def loggingName : String := "logging"

def loggingOrder : Int := -7000

def appNameAttachment : String := "app_name"

def sideAttachment : String := "side"

/-- Attachments with the side, and with the application if it has a name. -/
def stamp (context : Context) (attachments : Dictionary String) : Dictionary String :=
  let named :=
    if context.appName.isEmpty then attachments
    else attachments.insert appNameAttachment context.appName
  named.insert sideAttachment context.side.label

def stampRequest (context : Context) (request : Request) : Request :=
  { request with attachments := stamp context request.attachments }

def stampResponse (context : Context) (response : Response) : Response :=
  { response with attachments := stamp context response.attachments }

def context (c : Context) : Filter ε where
  name := contextName
  order := contextOrder
  onConsumer := true
  onProvider := true
  loads := fun _ => true
  act := fun request world => match c.side with
    | .consumer => .ask (stampRequest c request) world .finish
    | .provider =>
        .ask request world fun outcome after => .finish (outcome.map (stampResponse c)) after

def logging : Filter ε where
  name := loggingName
  order := loggingOrder
  onConsumer := true
  onProvider := true
  loads := fun _ => true
  act := fun request world => .ask request world .finish

def contextDefinition (single : Bool) : Definition ε Context (Filter ε) :=
  ⟨contextName, contextOrder, single, fun c world => (.ok (context c), world)⟩

def loggingDefinition (single : Bool) : Definition ε Context (Filter ε) :=
  ⟨loggingName, loggingOrder, single, fun _ world => (.ok logging, world)⟩

def emptyCatalog (ε : Type) : Catalog ε Context (Filter ε) := .new "filter"

def catalog (ε : Type) (single : Bool) : Catalog ε Context (Filter ε) :=
  (((emptyCatalog ε).register (contextDefinition single)).catalog.register
    (loggingDefinition single)).catalog

end Switchboard.Filter
