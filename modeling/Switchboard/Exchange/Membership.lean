import Switchboard.Exchange.Table

/-! What is done for one service at several registries, one after the other: a provider is
registered, or an address book subscribes. The first failure ends it and undoes what was done. -/
namespace Switchboard.Exchange

open Registry (Registration)

variable {ε : Type}

structure Progress (α : Type) where
  done : List α
  failure : Option Failure

def tryAll {α : Type} (attempt : Registry.Settings → Exchange ε → Outcome α × Exchange ε) :
    List Registry.Settings → Exchange ε → Progress α × Exchange ε
  | [], x => (⟨[], none⟩, x)
  | settings :: rest, x =>
      match attempt settings x with
      | (.error failure, after) => (⟨[], some failure⟩, after)
      | (.ok value, after) =>
          let (progress, last) := tryAll attempt rest after
          (⟨value :: progress.done, progress.failure⟩, last)

def ready (x : Exchange ε) (settings : Registry.Settings) : Outcome Nat × Exchange ε :=
  proceed (x.obtain settings) fun number found =>
    proceed (found.start number) fun _ started => (.ok number, started)

def enter (r : Registration) (settings : Registry.Settings) (x : Exchange ε) :
    Outcome Nat × Exchange ε :=
  proceed (x.ready settings) fun number started =>
    proceed (started.register number r) fun _ after => (.ok number, after)

/-- Takes a provider back from one registry. If that fails, there is a warning. -/
def leave (r : Registration) (x : Exchange ε) (number : Nat) : Exchange ε :=
  match x.unregister number r with
  | (.ok (), after) => after
  | (.error failure, after) =>
      after.warn [.unregisterFailed r.service.dataId (after.addressOf number) failure]

def leaveAll (r : Registration) (numbers : List Nat) (x : Exchange ε) : Exchange ε :=
  numbers.foldl (leave r) x

/-- Registers a provider everywhere, or nowhere. -/
def enterAll (r : Registration) (settings : List Registry.Settings) (x : Exchange ε) :
    Outcome (List Nat) × Exchange ε :=
  let (progress, after) := tryAll (enter r) settings x
  match progress.failure with
  | none => (.ok progress.done, after)
  | some failure =>
      (.error failure,
        (leaveAll r progress.done after).warn [.announcementFailed r.service.dataId failure])

structure Followed where
  number : Nat
  groups : List Group

def follow (service : Service) (subscriber : Subscriber) (settings : Registry.Settings)
    (x : Exchange ε) : Outcome Followed × Exchange ε :=
  proceed (x.ready settings) fun number started =>
    proceed (started.subscribe number service subscriber) fun groups after =>
      (.ok ⟨number, groups⟩, after)

def part (service : Service) (subscriber : Subscriber) (x : Exchange ε) (number : Nat) :
    Exchange ε :=
  match x.unsubscribe number service subscriber with
  | (.ok (), after) => after
  | (.error failure, after) =>
      after.warn [.unsubscribeFailed service.dataId (after.addressOf number) failure]

def partAll (service : Service) (subscriber : Subscriber) (numbers : List Nat) (x : Exchange ε) :
    Exchange ε :=
  numbers.foldl (part service subscriber) x

def followAll (service : Service) (subscriber : Subscriber) (settings : List Registry.Settings)
    (x : Exchange ε) : Outcome (List Followed) × Exchange ε :=
  let (progress, after) := tryAll (follow service subscriber) settings x
  match progress.failure with
  | none => (.ok progress.done, after)
  | some failure =>
      (.error failure, partAll service subscriber (progress.done.map (·.number)) after)

end Switchboard.Exchange
