import Switchboard.Failure

/-! Warnings: things that go on although something is wrong. Each has a level, a fixed text and
named fields. -/
namespace Switchboard

inductive Warning where
  | blacklisted (className : String) (side : Side)
  | unlisted (className : String) (side : Side)
  | extensionRejected (capability name : String) (existing rejected : Int)
  | manyRegistries (count : Nat)
  | bindingFailed (service : String) (cause : Failure)
  | announcementFailed (service : String) (cause : Failure)
  | unregisterFailed (service registry : String) (cause : Failure)
  | unsubscribeFailed (service registry : String) (cause : Failure)
  | destroyFailed (protocol address : String) (cause : Failure)
deriving DecidableEq

namespace Warning

inductive Level where
  | warn
  | error
deriving DecidableEq

def Level.label : Level → String
  | warn => "WARN"
  | error => "ERROR"

def level : Warning → Level
  | destroyFailed _ _ _ => .error
  | _ => .warn

def message : Warning → String
  | blacklisted _ _ => "class matches serialize blacklist, denied"
  | unlisted _ _ => "class is not in serialize whitelist, allowed in warn mode"
  | extensionRejected _ _ _ _ =>
      "extension rejected by an existing definition with higher or equal order"
  | manyRegistries _ => "more than 3 registries are in use, check the registry configuration"
  | bindingFailed _ _ => "refer failed, subscriptions released"
  | announcementFailed _ _ => "export failed, registrations withdrawn"
  | unregisterFailed _ _ _ => "failed to unregister"
  | unsubscribeFailed _ _ _ => "failed to unsubscribe"
  | destroyFailed _ _ _ => "failed to destroy registry, continuing with the rest"

def fields : Warning → List (String × String)
  | blacklisted className side => [("class_name", className), ("side", side.label)]
  | unlisted className side => [("class_name", className), ("side", side.label)]
  | extensionRejected capability name existing rejected =>
      [("capability", capability), ("alias", name), ("existing_order", toString existing),
        ("rejected_order", toString rejected)]
  | manyRegistries count => [("count", toString count)]
  | bindingFailed service cause => [("service", service), ("error", cause.message)]
  | announcementFailed service cause => [("service", service), ("error", cause.message)]
  | unregisterFailed service registry cause =>
      [("service", service), ("registry", registry), ("error", cause.message)]
  | unsubscribeFailed service registry cause =>
      [("service", service), ("registry", registry), ("error", cause.message)]
  | destroyFailed protocol address cause =>
      [("protocol", protocol), ("address", address), ("error", cause.message)]

end Warning

end Switchboard
