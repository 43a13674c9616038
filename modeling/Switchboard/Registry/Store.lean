import Switchboard.Book

/-! The store behind the registries of one address. It holds, by data id and group, the providers
that are published, and by data id the subscribers. Each change says what has to be delivered to
whom, and in which order. -/
namespace Switchboard

inductive Subscriber where
  | reference (number : Nat)
  | listener (number : Nat)
deriving DecidableEq

structure Delivery where
  subscriber : Subscriber
  dataId : String
  push : Push

namespace Registry

structure Store where
  services : Dictionary (Dictionary (List Provider))
  subscribers : Dictionary (List Subscriber)

namespace Store

def empty : Store := ⟨.empty, .empty⟩

def groupsOf (s : Store) (dataId : String) : Dictionary (List Provider) :=
  s.services.getD dataId .empty

def members (s : Store) (dataId group : String) : List Provider :=
  (s.groupsOf dataId).getD group []

def snapshot (s : Store) (dataId : String) : List Group :=
  (s.groupsOf dataId).entries.map fun entry => ⟨entry.1, entry.2⟩

def subscribersOf (s : Store) (dataId : String) : List Subscriber :=
  s.subscribers.getD dataId []

def announce (s : Store) (dataId : String) (push : Push) : List Delivery :=
  (s.subscribersOf dataId).map (⟨·, dataId, push⟩)

/-- Puts a provider in the place of the one that has its identity, or at the end. -/
def settle (provider : Provider) : List Provider → List Provider
  | [] => [provider]
  | known :: rest =>
      if known.identity = provider.identity then provider :: rest
      else known :: settle provider rest

def replaceGroup (s : Store) (dataId group : String) (members : List Provider) : Store :=
  { s with services := s.services.insert dataId ((s.groupsOf dataId).insert group members) }

def publish (s : Store) (dataId group : String) (provider : Provider) : Store × List Delivery :=
  (s.replaceGroup dataId group (settle provider (s.members dataId group)),
    s.announce dataId (.add ⟨group, [provider]⟩))

def withdraw (s : Store) (dataId group : String) (provider : Provider) :
    Store × List Delivery :=
  let known := s.members dataId group
  let left := Group.without known [provider]
  if left.length = known.length then (s, [])
  else (s.replaceGroup dataId group left, s.announce dataId (.delete ⟨group, [provider]⟩))

/-- Adds a subscriber, who is told the groups of the service one after the other. -/
def subscribe (s : Store) (dataId : String) (subscriber : Subscriber) : Store × List Delivery :=
  ({ s with
      subscribers := s.subscribers.insert dataId (s.subscribersOf dataId ++ [subscriber]) },
    (s.snapshot dataId).map fun group => ⟨subscriber, dataId, .set group⟩)

def resync (s : Store) (dataId : String) (subscriber : Subscriber) : Delivery :=
  ⟨subscriber, dataId, .full (s.snapshot dataId)⟩

def unsubscribe (s : Store) (dataId : String) (subscriber : Subscriber) : Store :=
  { s with
    subscribers := s.subscribers.insert dataId
      ((s.subscribersOf dataId).filter (· ≠ subscriber)) }

theorem members_replaceGroup (s : Store) (dataId group other name : String)
    (members : List Provider) :
    (s.replaceGroup dataId group members).members other name =
      if dataId = other ∧ group = name then members else s.members other name := by
  by_cases sameId : dataId = other
  · subst sameId
    by_cases sameName : group = name
    · simp [Store.members, groupsOf, replaceGroup, Dictionary.getD, Dictionary.get?_insert,
        sameName]
    · simp [Store.members, groupsOf, replaceGroup, Dictionary.getD, Dictionary.get?_insert,
        sameName]
  · simp [Store.members, groupsOf, replaceGroup, Dictionary.getD, Dictionary.get?_insert, sameId]

end Store

end Registry

end Switchboard
