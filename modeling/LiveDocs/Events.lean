import LiveDocs.SortedMap

/-!
# Event buses

A bus hands every event to all its subscriptions. A subscription keeps the events it has not read
yet; they stay readable after the bus is closed. Subscriptions that were dropped are forgotten the
next time the bus looks at its list.

## Main definitions

* `EventBus`: a bus with the queues of its subscriptions.
* `EventBus.subscribe`, `EventBus.unsubscribe`, `EventBus.emit`, `EventBus.receive`,
  `EventBus.close`.
* `EventBus.count`, `EventBus.prune`: the number of subscriptions the bus sends to.
-/

namespace LiveDocs

/-- A bus of events of one type. Subscriptions are numbered in the order they were made. -/
structure EventBus (ε : Type) where
  /-- The subscriptions not dropped yet, each with the events it has not read. -/
  queues : SortedMap Nat (List ε)
  /-- The subscriptions that the bus sends to, in order; some may have been dropped. -/
  attached : List Nat
  /-- The number of the next subscription. -/
  next : Nat
  closed : Bool
  /-- How many events were emitted. Both counters start again from zero behind the last number. -/
  emitted : UInt64
  /-- How many subscriptions they reached, all events taken together. -/
  deliveries : UInt64

namespace EventBus

variable {ε : Type}

def empty : EventBus ε := ⟨.empty, [], 0, false, 0, 0⟩

instance : Inhabited (EventBus ε) := ⟨empty⟩

/-- Makes a subscription. On a closed bus it never receives anything. -/
def subscribe (bus : EventBus ε) : Nat × EventBus ε :=
  (bus.next,
    { bus with
      queues := bus.queues.insert bus.next []
      attached := if bus.closed then bus.attached else bus.attached ++ [bus.next]
      next := bus.next + 1 })

/-- Whether a subscription was not dropped. -/
def isLive (bus : EventBus ε) (subscription : Nat) : Bool := bus.queues.contains subscription

def unsubscribe (bus : EventBus ε) (subscription : Nat) : EventBus ε :=
  { bus with queues := bus.queues.erase subscription }

/-- Forgets the dropped subscriptions. -/
def prune (bus : EventBus ε) : EventBus ε :=
  { bus with attached := bus.attached.filter bus.isLive }

/-- The number of subscriptions that the bus sends to. -/
def count (bus : EventBus ε) : Nat := bus.prune.attached.length

/-- Puts an event at the end of a subscription's queue. -/
def enqueue (queues : SortedMap Nat (List ε)) (event : ε) (subscription : Nat) :
    SortedMap Nat (List ε) :=
  match queues.get? subscription with
  | some queue => queues.insert subscription (queue ++ [event])
  | none => queues

/-- Hands an event to every subscription. On a closed bus nothing happens. -/
def emit (bus : EventBus ε) (event : ε) : EventBus ε :=
  if bus.closed then bus
  else
    let bus := bus.prune
    { bus with
      queues := bus.attached.foldl (fun queues s => enqueue queues event s) bus.queues
      emitted := bus.emitted + 1
      deliveries := bus.deliveries + .ofNat bus.attached.length }

/-- The number of subscriptions that an event emitted now would reach. -/
def reach (bus : EventBus ε) : Nat := if bus.closed then 0 else bus.count

/-- The next event of a subscription, which is then read. -/
def receive (bus : EventBus ε) (subscription : Nat) : Option ε × EventBus ε :=
  match bus.queues.get? subscription with
  | some (event :: rest) => (some event, { bus with queues := bus.queues.insert subscription rest })
  | _ => (none, bus)

/-- Whether a subscription has read everything and will never receive anything again. -/
def isEnded (bus : EventBus ε) (subscription : Nat) : Bool :=
  !bus.attached.contains subscription &&
    match bus.queues.get? subscription with
    | some (_ :: _) => false
    | _ => true

/-- Detaches every subscription. What they have not read stays readable. -/
def close (bus : EventBus ε) : EventBus ε := { bus with closed := true, attached := [] }

/-- All events a subscription has not read, and the bus after it has read them. -/
def drain (bus : EventBus ε) (subscription : Nat) : List ε × EventBus ε :=
  match bus.queues.get? subscription with
  | some queue => (queue, { bus with queues := bus.queues.insert subscription [] })
  | none => ([], bus)

end EventBus

end LiveDocs
