import Switchboard.Hub
import Switchboard.Json.Members
import Switchboard.Provider.Url

/-! Reports: what a program tells about its state, as JSON. An object has its members in ascending
order. -/
namespace Switchboard.Report

open Json

def failure (f : Failure) : Json :=
  record [("code", .text f.code), ("category", .text f.category.label),
    ("message", .text f.message), ("sources", ofTexts (f.sources.map Failure.message))]

def warning (w : Warning) : Json :=
  record [("level", .text w.level.label), ("message", .text w.message),
    ("fields", record (w.fields.map fun field => (field.1, .text field.2)))]

def entry (p : Provider) : Json :=
  record [("url", .text p.url), ("status", .text p.status.label),
    ("warmup_weight", ofOption ofNat p.warmupWeight),
    ("warm_up_end_time", ofOption ofNat p.warmupEnd)]

def provider (p : Provider) : Json :=
  record [("host", .text p.identity.host), ("port", ofNat p.identity.port),
    ("protocol", .text p.identity.protocol), ("address", .text p.identity.address),
    ("display", .text p.identity.label), ("url", .text p.url),
    ("attrs", ofDictionary p.attributes), ("weight", ofNat p.weight),
    ("status", .text p.status.label), ("warmup_weight", ofOption ofNat p.warmupWeight),
    ("warm_up_end_time", ofOption ofNat p.warmupEnd)]

def warmup (w : Provider.Warmup) : Json :=
  record [("warmup_time", ofNat w.length), ("warmup_weight", ofNat w.weight),
    ("start_time", ofNat w.start), ("end_time", ofNat w.finish)]

def group (write : Provider → Json) (g : Group) : Json :=
  record [("name", .text g.name), ("providers", ofList write g.members)]

def book (write : Provider → Json) (b : Book) : Json :=
  record [("groups", ofList (group write) b.groups), ("size", ofNat b.size)]

def push (write : Provider → Json) (dataId : String) (p : Push) : Json :=
  let (kind, groups) := match p with
    | .full groups => ("handle", groups)
    | .set g => ("set", [g])
    | .add g => ("add", [g])
    | .delete g => ("delete", [g])
  record [("kind", .text kind), ("data_id", .text dataId), ("groups", ofList (group write) groups)]

def payload (p : Payload) : Json :=
  record [("class_name", .text p.className), ("value", .text p.value.toText)]

def request (r : Request) : Json :=
  record [("service", .text r.service), ("method", .text r.method),
    ("args", ofList payload r.arguments), ("attachments", ofDictionary r.attachments)]

def response (r : Response) : Json :=
  record [("value", ofOption payload r.value), ("response_error", ofOption .text r.error),
    ("attachments", ofDictionary r.attachments)]

def service (s : Service) : Json :=
  record [("service_name", .text s.name), ("data_id", .text s.dataId), ("display", .text s.dataId)]

def timetable {α : Type} (t : Timetable α) : Json :=
  let started := (List.range t.tasks.length).map fun task =>
    ofOption (fun _ => .bool (t.isStarted task)) (t.task? task)
  record [("started", .array started), ("count", ofNat t.startedCount),
    ("resetting", .bool t.resetting)]

def gate (g : Gate) : Json :=
  record [("allow", ofNat g.allow.length), ("deny", ofNat g.deny.length),
    ("cached", ofNat g.cached)]

def registry (s : Registry.Settings) : Json :=
  record [("protocol", .text s.protocol), ("address", .text s.address),
    ("timeout_ms", ofNat s.timeout), ("register", .bool s.registers),
    ("subscribe", .bool s.subscribes), ("parameters", ofDictionary s.parameters)]

def settings (s : Settings) : Json :=
  record [("app", .text s.appName), ("check_mode", .text s.mode.label),
    ("blacklist_override", .text s.denyOverride), ("whitelist_override", .text s.allowOverride),
    ("blacklist_overrides", ofTexts s.denyOverrides),
    ("whitelist_overrides", ofTexts s.allowOverrides), ("registries", ofList registry s.registries)]

def hub {ε : Type} (h : Hub ε) : Json :=
  record [("app", .text h.settings.appName), ("check_mode", .text h.gate.mode.label),
    ("configured", ofNat h.settings.registries.length),
    ("registries", ofNat h.exchange.table.length),
    ("tasks", ofNat h.exchange.tasks.startedCount), ("destroyed", .bool h.destroyed),
    ("filters", ofTexts h.filters.keys), ("serializers", ofTexts h.codecs.keys),
    ("balancers", ofTexts h.balancers.keys),
    ("protocols", ofTexts h.exchange.definitions.keys)]

end Switchboard.Report
