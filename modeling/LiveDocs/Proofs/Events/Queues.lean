import LiveDocs.Proofs.Events

/-!
# The queues of a bus

What each operation of a bus does to what one subscription has not read. Dropped subscriptions stay
in the list of those that the bus sends to until somebody looks at it, so most statements are about
a bus that is `EventBus.Orderly`: its subscriptions have old numbers, it sends to each of them once,
and a closed bus sends to none.

## Main definitions

* `EventBus.unread`: the events that a subscription has not read.
* `EventBus.Orderly`: the numbers and the list of a bus are in order.

## Main results

* `EventBus.unread_emit`: an event is put behind what a subscription has not read, once.
* `EventBus.Orderly.emit` and the like: every operation leaves a bus in order.
-/

namespace LiveDocs

namespace EventBus

variable {ε : Type} {bus : EventBus ε}

def unread (bus : EventBus ε) (sub : Nat) : List ε := (bus.queues.get? sub).getD []

/-- The numbers of the subscriptions are in order, and so is the list of those that the bus sends
to. -/
structure Orderly (bus : EventBus ε) : Prop where
  distinct : bus.attached.Nodup
  attached_lt : ∀ sub ∈ bus.attached, sub < bus.next
  live_lt : ∀ sub, bus.isLive sub = true → sub < bus.next
  closed : bus.closed = true → bus.attached = []

theorem orderly_empty : (empty : EventBus ε).Orderly where
  distinct := List.nodup_nil
  attached_lt := by simp [empty]
  live_lt := by simp [empty, isLive, SortedMap.contains]
  closed := fun _ => rfl

/-! ## Subscribing and dropping -/

@[simp] theorem isLive_subscribe (bus : EventBus ε) (sub : Nat) :
    bus.subscribe.2.isLive sub = (sub == bus.next || bus.isLive sub) := by
  by_cases h : sub = bus.next <;> simp [subscribe, isLive, SortedMap.contains, h]

/-- The next subscription gets a number that none has had. -/
theorem Orderly.not_isLive_next (h : bus.Orderly) : bus.isLive bus.next = false :=
  Bool.eq_false_iff.mpr fun hlive => Nat.lt_irrefl _ (h.live_lt _ hlive)

/-- What a subscription has not read is dropped with it. -/
theorem unread_of_not_isLive {sub : Nat} (h : bus.isLive sub = false) : bus.unread sub = [] := by
  have hnone : bus.queues.get? sub = none := by simpa [isLive, SortedMap.contains] using h
  rw [unread, hnone, Option.getD_none]

/-- Nobody loses an event when somebody subscribes, and the new subscription begins with none. -/
theorem Orderly.unread_subscribe (h : bus.Orderly) (sub : Nat) :
    bus.subscribe.2.unread sub = bus.unread sub := by
  by_cases hsub : sub = bus.next
  · rw [hsub, unread_of_not_isLive h.not_isLive_next]
    simp [subscribe, unread]
  · simp [subscribe, unread, hsub]

theorem mem_attached_subscribe {sub : Nat} (h : sub ∈ bus.subscribe.2.attached) :
    sub ∈ bus.attached ∨ sub = bus.next := by
  unfold subscribe at h
  cases hclosed : bus.closed with
  | true => exact .inl (by simpa [hclosed] using h)
  | false => simpa [hclosed] using h

theorem Orderly.subscribe (h : bus.Orderly) : bus.subscribe.2.Orderly where
  distinct := by
    cases hclosed : bus.closed with
    | true => simpa [EventBus.subscribe, hclosed] using h.distinct
    | false =>
      simp only [EventBus.subscribe, hclosed, Bool.false_eq_true, if_false]
      refine List.nodup_append.mpr ⟨h.distinct, by simp, fun sub hsub other hother => ?_⟩
      rw [List.mem_singleton.mp hother]
      exact Nat.ne_of_lt (h.attached_lt sub hsub)
  attached_lt := by
    intro sub hsub
    rcases mem_attached_subscribe hsub with hsub | rfl
    · exact Nat.lt_succ_of_lt (h.attached_lt sub hsub)
    · exact Nat.lt_succ_self _
  live_lt := by
    intro sub hsub
    rw [isLive_subscribe, Bool.or_eq_true, beq_iff_eq] at hsub
    rcases hsub with rfl | hsub
    · exact Nat.lt_succ_self _
    · exact Nat.lt_succ_of_lt (h.live_lt sub hsub)
  closed := by
    intro hclosed
    have hbefore : bus.closed = true := hclosed
    simpa [EventBus.subscribe, hbefore] using h.closed hbefore

@[simp] theorem isLive_unsubscribe (bus : EventBus ε) (dropped sub : Nat) :
    (bus.unsubscribe dropped).isLive sub = (sub != dropped && bus.isLive sub) := by
  by_cases h : sub = dropped <;> simp [unsubscribe, isLive, SortedMap.contains, h]

@[simp] theorem unread_unsubscribe (bus : EventBus ε) (dropped sub : Nat) :
    (bus.unsubscribe dropped).unread sub = if sub = dropped then [] else bus.unread sub := by
  by_cases h : sub = dropped <;> simp [unsubscribe, unread, h]

theorem Orderly.unsubscribe (h : bus.Orderly) (dropped : Nat) :
    (bus.unsubscribe dropped).Orderly where
  distinct := h.distinct
  attached_lt := h.attached_lt
  live_lt := by
    intro sub hsub
    rw [isLive_unsubscribe, Bool.and_eq_true] at hsub
    exact h.live_lt sub hsub.2
  closed := h.closed

/-! ## Emitting -/

theorem emit_of_closed (h : bus.closed = true) (event : ε) : bus.emit event = bus := by
  rw [emit, if_pos h]

theorem emit_of_open (h : bus.closed = false) (event : ε) :
    bus.emit event =
      { bus.prune with
        queues := bus.prune.attached.foldl (fun queues s => enqueue queues event s) bus.queues
        emitted := bus.emitted + 1
        deliveries := bus.deliveries + .ofNat bus.prune.attached.length } := by
  rw [emit, if_neg (by simp [h])]
  rfl

@[simp] theorem closed_emit (bus : EventBus ε) (event : ε) :
    (bus.emit event).closed = bus.closed := by
  unfold emit
  split <;> rfl

@[simp] theorem next_emit (bus : EventBus ε) (event : ε) : (bus.emit event).next = bus.next := by
  unfold emit
  split <;> rfl

/-- Emitting forgets dropped subscriptions and adds none. -/
theorem attached_emit_subset (bus : EventBus ε) (event : ε) :
    ∀ sub ∈ (bus.emit event).attached, sub ∈ bus.attached := by
  intro sub hsub
  unfold emit at hsub
  split at hsub
  · exact hsub
  · exact (List.mem_filter.mp hsub).1

/-- An event goes to the end of the queue of every attached subscription, once, since none is
attached twice. -/
theorem Orderly.get?_emit (h : bus.Orderly) (event : ε) (sub : Nat) :
    (bus.emit event).queues.get? sub =
      if bus.closed = false ∧ sub ∈ bus.attached then (bus.queues.get? sub).map (· ++ [event])
      else bus.queues.get? sub := by
  cases hclosed : bus.closed with
  | true => simp [emit_of_closed hclosed]
  | false =>
    rw [emit_of_open hclosed]
    simp only [prune, get?_foldl_enqueue event (h.distinct.filter _), List.mem_filter, true_and]
    by_cases hlive : bus.isLive sub = true
    · simp [hlive]
    · have hnone : bus.queues.get? sub = none := by
        simpa [isLive, SortedMap.contains] using hlive
      simp [hlive, hnone]

@[simp] theorem isLive_emit (bus : EventBus ε) (event : ε) (sub : Nat) :
    (bus.emit event).isLive sub = bus.isLive sub := by
  have hfold (subs : List Nat) (queues : SortedMap Nat (List ε)) :
      (subs.foldl (fun queues s => enqueue queues event s) queues).contains sub =
        queues.contains sub := by
    induction subs generalizing queues with
    | nil => rfl
    | cons s subs ih =>
      rw [List.foldl_cons, ih, SortedMap.contains, get?_enqueue]
      split <;> simp [SortedMap.contains]
  cases hclosed : bus.closed with
  | true => rw [emit_of_closed hclosed]
  | false =>
    rw [emit_of_open hclosed]
    exact hfold _ _

/-- An event is put behind what a subscription has not read, if the bus sends to it. -/
theorem Orderly.unread_emit (h : bus.Orderly) (event : ε) (sub : Nat) :
    (bus.emit event).unread sub =
      bus.unread sub ++
        if bus.closed = false ∧ sub ∈ bus.attached ∧
          bus.isLive sub = true then [event] else [] := by
  rw [unread, h.get?_emit]
  cases hget : bus.queues.get? sub with
  | none => simp [unread, isLive, SortedMap.contains, hget]
  | some queue =>
    by_cases hto : bus.closed = false ∧ sub ∈ bus.attached
    · simp [unread, isLive, SortedMap.contains, hget, hto]
    · simp only [unread, isLive, SortedMap.contains, hget, hto, ← and_assoc, false_and, if_false,
        List.append_nil]

theorem Orderly.mem_unread_emit (h : bus.Orderly) {event event' : ε} {sub : Nat}
    (hmem : event' ∈ (bus.emit event).unread sub) : event' ∈ bus.unread sub ∨ event' = event := by
  rw [h.unread_emit, List.mem_append] at hmem
  rcases hmem with hmem | hmem
  · exact .inl hmem
  · split at hmem
    · exact .inr (List.mem_singleton.mp hmem)
    · cases hmem

/-- The bus goes on sending to a subscription that was not dropped. -/
theorem mem_attached_emit {sub : Nat} (hmem : sub ∈ bus.attached) (hlive : bus.isLive sub = true)
    (event : ε) : sub ∈ (bus.emit event).attached := by
  unfold EventBus.emit
  split
  · exact hmem
  · exact List.mem_filter.mpr ⟨hmem, hlive⟩

theorem Orderly.emit (h : bus.Orderly) (event : ε) : (bus.emit event).Orderly where
  distinct := by
    unfold EventBus.emit
    split
    · exact h.distinct
    · exact h.distinct.filter _
  attached_lt := by
    intro sub hsub
    rw [next_emit]
    exact h.attached_lt sub (attached_emit_subset bus event sub hsub)
  live_lt := by
    intro sub hsub
    rw [next_emit]
    exact h.live_lt sub (bus.isLive_emit event sub ▸ hsub)
  closed := by
    intro hclosed
    rw [closed_emit] at hclosed
    rw [emit_of_closed hclosed]
    exact h.closed hclosed

/-! ## Reading -/

/-- Reading takes the first event, if there is one. -/
theorem receive_fst (bus : EventBus ε) (sub : Nat) :
    (bus.receive sub).1 = (bus.unread sub).head? := by
  unfold receive unread
  split
  · next h => simp [h]
  · next hne =>
    cases hget : bus.queues.get? sub with
    | none => rfl
    | some queue =>
      cases queue with
      | nil => rfl
      | cons event rest => exact absurd hget (hne event rest)

/-- A subscription with nothing to read leaves the bus alone; any other takes the first event of its
own queue. -/
theorem receive_eq (bus : EventBus ε) (sub : Nat) :
    (bus.receive sub).2 = bus ∨
      ∃ event rest, bus.queues.get? sub = some (event :: rest) ∧
        (bus.receive sub).2 = { bus with queues := bus.queues.insert sub rest } := by
  unfold receive
  split
  · next event rest hget => exact .inr ⟨event, rest, hget, rfl⟩
  · exact .inl rfl

@[simp] theorem isLive_receive (bus : EventBus ε) (reader sub : Nat) :
    (bus.receive reader).2.isLive sub = bus.isLive sub := by
  rcases bus.receive_eq reader with h | ⟨event, rest, hget, h⟩
  · rw [h]
  · rw [h]
    by_cases hsub : sub = reader <;> simp [isLive, SortedMap.contains, hsub, hget]

theorem receive_frame (bus : EventBus ε) (reader : Nat) :
    (bus.receive reader).2.closed = bus.closed ∧ (bus.receive reader).2.attached = bus.attached ∧
      (bus.receive reader).2.next = bus.next := by
  rcases bus.receive_eq reader with h | ⟨event, rest, -, h⟩ <;> simp [h]

@[simp] theorem unread_receive (bus : EventBus ε) (reader sub : Nat) :
    (bus.receive reader).2.unread sub =
      if sub = reader then (bus.unread sub).tail else bus.unread sub := by
  unfold receive
  split
  · next event rest hget => by_cases hsub : sub = reader <;> simp [unread, hsub, hget]
  · next hne =>
    by_cases hsub : sub = reader
    · subst hsub
      cases hget : bus.queues.get? sub with
      | none => simp [unread, hget]
      | some queue =>
        cases queue with
        | nil => simp [unread, hget]
        | cons event rest => exact absurd hget (hne event rest)
    · simp [hsub]

/-- A subscription has read some events, and nothing else has happened. -/
structure Reads (bus : EventBus ε) (reader : Nat) (events : List ε) (bus' : EventBus ε) : Prop where
  closed : bus'.closed = bus.closed
  attached : bus'.attached = bus.attached
  next : bus'.next = bus.next
  live : ∀ sub, bus'.isLive sub = bus.isLive sub
  unread : ∀ sub, bus.unread sub = (if sub = reader then events else []) ++ bus'.unread sub

/-- Taking one event is reading it. -/
theorem reads_receive (bus : EventBus ε) (reader : Nat) :
    bus.Reads reader (bus.receive reader).1.toList (bus.receive reader).2 := by
  obtain ⟨hclosed, hattached, hnext⟩ := bus.receive_frame reader
  refine ⟨hclosed, hattached, hnext, bus.isLive_receive reader, fun sub => ?_⟩
  rw [receive_fst, unread_receive]
  by_cases hsub : sub = reader
  · subst hsub
    cases bus.unread sub <;> simp
  · simp [hsub]

/-- So is taking them all. -/
theorem reads_drain (bus : EventBus ε) (reader : Nat) :
    bus.Reads reader (bus.drain reader).1 (bus.drain reader).2 := by
  unfold drain
  split
  · next queue hqueue =>
    refine ⟨rfl, rfl, rfl, fun sub => ?_, fun sub => ?_⟩ <;> by_cases hsub : sub = reader <;>
      simp [isLive, SortedMap.contains, EventBus.unread, hsub, hqueue]
  · exact ⟨rfl, rfl, rfl, fun _ => rfl, fun sub => by simp⟩

theorem Reads.orderly {reader : Nat} {events : List ε} {bus' : EventBus ε}
    (h : bus.Reads reader events bus') (hbus : bus.Orderly) : bus'.Orderly where
  distinct := h.attached ▸ hbus.distinct
  attached_lt := by
    rw [h.attached, h.next]
    exact hbus.attached_lt
  live_lt := by
    intro sub hsub
    rw [h.next]
    exact hbus.live_lt sub (h.live sub ▸ hsub)
  closed := by
    rw [h.closed, h.attached]
    exact hbus.closed

/-- What is still unread was so before. -/
theorem Reads.mem_unread {reader : Nat} {events : List ε} {bus' : EventBus ε}
    (h : bus.Reads reader events bus') {sub : Nat} {event : ε} (hevent : event ∈ bus'.unread sub) :
    event ∈ bus.unread sub := by
  rw [h.unread sub]
  exact List.mem_append_right _ hevent

/-! ## Counting and closing -/

theorem Orderly.prune (h : bus.Orderly) : bus.prune.Orderly where
  distinct := h.distinct.filter _
  attached_lt := fun sub hsub => h.attached_lt sub (List.mem_filter.mp hsub).1
  live_lt := h.live_lt
  closed := fun hclosed => by simp [EventBus.prune, h.closed hclosed]

@[simp] theorem unread_close (bus : EventBus ε) (sub : Nat) :
    bus.close.unread sub = bus.unread sub := rfl

/-- A closed bus sends to nobody, and the queues stay for those who have yet to read them. -/
theorem Orderly.close (h : bus.Orderly) : bus.close.Orderly where
  distinct := List.nodup_nil
  attached_lt := by simp [EventBus.close]
  live_lt := h.live_lt
  closed := fun _ => rfl

end EventBus

end LiveDocs
