import LiveDocs.Events

/-!
# What a subscription receives

A subscription that was made on an open bus hears every event from then on: each is put at the end
of its queue, once, until the bus is closed (`EventBus.Hears.emit`). What it has not read stays
readable on the closed bus.

## Main definitions

* `EventBus.Hears`: a subscription is attached to an open bus and has some unread events.
-/

namespace LiveDocs

namespace EventBus

variable {ε : Type}

/-- A subscription is attached to an open bus, and these are the events it has not read. -/
structure Hears (bus : EventBus ε) (sub : Nat) (queue : List ε) : Prop where
  isOpen : bus.closed = false
  queued : bus.queues.get? sub = some queue
  attached : sub ∈ bus.attached
  distinct : bus.attached.Nodup

theorem get?_enqueue (queues : SortedMap Nat (List ε)) (event : ε) (s sub : Nat) :
    (enqueue queues event s).get? sub =
      if sub = s then (queues.get? sub).map (· ++ [event]) else queues.get? sub := by
  unfold enqueue
  split
  · next queue hqueue =>
    rw [SortedMap.get?_insert]
    split
    · next h => rw [h, hqueue, Option.map_some]
    · rfl
  · next hnone =>
    split
    · next h => rw [h, hnone, Option.map_none]
    · rfl

/-- An event reaches each of some different subscriptions once. -/
theorem get?_foldl_enqueue (event : ε) {subs : List Nat} (hsubs : subs.Nodup)
    (queues : SortedMap Nat (List ε)) (sub : Nat) :
    (subs.foldl (fun queues s => enqueue queues event s) queues).get? sub =
      if sub ∈ subs then (queues.get? sub).map (· ++ [event]) else queues.get? sub := by
  induction subs generalizing queues with
  | nil => simp
  | cons s subs ih =>
    obtain ⟨hs, hrest⟩ := List.nodup_cons.mp hsubs
    rw [List.foldl_cons, ih hrest, get?_enqueue]
    by_cases hsub : sub = s
    · subst hsub
      simp [hs]
    · simp [hsub]

theorem hears_subscribe_empty : ((empty : EventBus ε).subscribe).2.Hears 0 [] :=
  ⟨rfl, rfl, List.mem_singleton.mpr rfl, List.nodup_cons.mpr ⟨List.not_mem_nil, List.nodup_nil⟩⟩

theorem Hears.emit {bus : EventBus ε} {sub : Nat} {queue : List ε} (h : bus.Hears sub queue)
    (event : ε) : (bus.emit event).Hears sub (queue ++ [event]) := by
  have hlive : sub ∈ bus.attached.filter bus.isLive := by
    refine List.mem_filter.mpr ⟨h.attached, ?_⟩
    rw [isLive, SortedMap.contains, h.queued]
    rfl
  have hdistinct : (bus.attached.filter bus.isLive).Nodup := h.distinct.filter _
  have hemit : bus.emit event =
      { bus.prune with
        queues := bus.prune.attached.foldl (fun queues s => enqueue queues event s) bus.queues
        emitted := bus.emitted + 1
        deliveries := bus.deliveries + .ofNat bus.prune.attached.length } := by
    rw [EventBus.emit, if_neg (by rw [h.isOpen]; decide)]
    rfl
  rw [hemit]
  refine ⟨h.isOpen, ?_, hlive, hdistinct⟩
  simp only [prune, get?_foldl_enqueue event hdistinct]
  rw [if_pos hlive, h.queued, Option.map_some]

/-- What was not read stays readable after the last event. -/
theorem Hears.queued_emit_close {bus : EventBus ε} {sub : Nat} {queue : List ε}
    (h : bus.Hears sub queue) (event : ε) :
    ((bus.emit event).close).queues.get? sub = some (queue ++ [event]) :=
  (h.emit event).queued

/-- Reading takes the first event out of the queue. -/
theorem queued_receive {bus : EventBus ε} {sub : Nat} {queue : List ε}
    (h : bus.queues.get? sub = some queue) :
    ∃ rest, (bus.receive sub).2.queues.get? sub = some rest ∧
      (bus.receive sub).1.toList ++ rest = queue := by
  unfold receive
  cases queue with
  | nil => exact ⟨[], by simp [h], by simp [h]⟩
  | cons event rest => exact ⟨rest, by simp [h], by simp [h]⟩

theorem Hears.receive {bus : EventBus ε} {sub : Nat} {queue : List ε} (h : bus.Hears sub queue) :
    ∃ rest, (bus.receive sub).2.Hears sub rest ∧ (bus.receive sub).1.toList ++ rest = queue := by
  obtain ⟨rest, hrest, hqueue⟩ := queued_receive h.queued
  have hsame : (bus.receive sub).2.closed = bus.closed ∧
      (bus.receive sub).2.attached = bus.attached := by
    unfold EventBus.receive
    split <;> exact ⟨rfl, rfl⟩
  exact ⟨rest, ⟨hsame.1.trans h.isOpen, hrest, hsame.2 ▸ h.attached, hsame.2 ▸ h.distinct⟩, hqueue⟩

end EventBus

end LiveDocs
