import LiveDocs.Proofs.Events.Queues
import LiveDocs.Proofs.Table.Rows

/-!
# What the operations on a table leave

An operation on a table touches some of its parts and leaves the others: a change of the feed
touches rows, an answer touches the writes, a lost feed touches the writes and the connection. One
relation says this of all of them (`Table.Alters`). It names the parts that may have changed, and
whoever needs one of the others reads it off.

Only closing makes a table closed, and nothing opens a closed one, so all other operations leave a
table as open as it was. They also leave its bus in order, and nobody is told of a lost connection
by an operation that leaves the connection.

## Main definitions

* `Table.losses`: how many lost connections a subscription has yet to hear of.
* `Table.Part`, `Table.Alters`: the parts of a table, and what an operation that touches some of
  them leaves.
* `Table.Motion`: what may be done to a table. Connecting is left to those whose table it is, and a
  feed is lost to the one who has followed it.

## Main results

* `Table.alters_applyChange`, `Table.alters_beginWrite`, `Table.alters_resumeWrite`,
  `Table.alters_feedClosed` and the like: the parts that each operation touches.
* `Table.resumeWrite_cases`: what the call of a write returns.
* `Table.Motion.closed`, `Table.Motion.orderly`: a closed table stays closed, and a bus in order
  stays so.
-/

namespace LiveDocs

namespace Table

/-- The number of lost connections that a subscription has yet to hear of. -/
def losses (t : Table) (sub : Nat) : Nat := (t.events.unread sub).count .disconnected

inductive Part where
  | rows
  /-- The writes that wait, and the outcomes of the others. -/
  | writes
  | numbers
  /-- The state and the feed, and the news of lost connections. -/
  | connection
deriving DecidableEq

/-- A table after an operation that has touched no other parts than these. -/
structure Alters (parts : List Part) (t t' : Table) : Prop where
  schema : t'.schema = t.schema
  rows : Part.rows ∉ parts → t'.rows = t.rows
  waiting : Part.writes ∉ parts → t'.waiting = t.waiting
  settled : Part.writes ∉ parts → t'.settled = t.settled
  nextWrite : Part.numbers ∉ parts → t'.nextWrite = t.nextWrite
  state : Part.connection ∉ parts → t'.state = t.state
  feed : Part.connection ∉ parts → t'.feed = t.feed
  losses : Part.connection ∉ parts → t.events.Orderly → ∀ sub, t'.losses sub ≤ t.losses sub
  closed : t'.state = .closed ↔ t.state = .closed
  orderly : t.events.Orderly → t'.events.Orderly

variable {t t' t'' : Table} {parts parts' : List Part}

namespace Alters

/-- An operation that emits nothing is known by the fields that it sets. -/
theorem of_events_eq (hschema : t'.schema = t.schema) (hevents : t'.events = t.events)
    (hrows : Part.rows ∉ parts → t'.rows = t.rows)
    (hwrites : Part.writes ∉ parts → t'.waiting = t.waiting ∧ t'.settled = t.settled)
    (hnumbers : Part.numbers ∉ parts → t'.nextWrite = t.nextWrite)
    (hconnection : Part.connection ∉ parts → t'.state = t.state ∧ t'.feed = t.feed)
    (hclosed : t'.state = .closed ↔ t.state = .closed) : Alters parts t t' where
  schema := hschema
  rows := hrows
  waiting h := (hwrites h).1
  settled h := (hwrites h).2
  nextWrite := hnumbers
  state h := (hconnection h).1
  feed h := (hconnection h).2
  losses _ _ sub := by simp [Table.losses, hevents]
  closed := hclosed
  orderly := by rw [hevents]; exact id

theorem refl (parts : List Part) (t : Table) : Alters parts t t :=
  of_events_eq rfl rfl (fun _ => rfl) (fun _ => ⟨rfl, rfl⟩) (fun _ => rfl)
    (fun _ => ⟨rfl, rfl⟩) Iff.rfl

theorem trans (h : Alters parts t t') (h' : Alters parts t' t'') : Alters parts t t'' where
  schema := h'.schema.trans h.schema
  rows hp := (h'.rows hp).trans (h.rows hp)
  waiting hp := (h'.waiting hp).trans (h.waiting hp)
  settled hp := (h'.settled hp).trans (h.settled hp)
  nextWrite hp := (h'.nextWrite hp).trans (h.nextWrite hp)
  state hp := (h'.state hp).trans (h.state hp)
  feed hp := (h'.feed hp).trans (h.feed hp)
  losses hp ht sub := Nat.le_trans (h'.losses hp (h.orderly ht) sub) (h.losses hp ht sub)
  closed := h'.closed.trans h.closed
  orderly ht := h'.orderly (h.orderly ht)

/-- What touches few parts touches no more than these and others. -/
theorem mono (h : Alters parts t t') (hparts : parts ⊆ parts') : Alters parts' t t' where
  schema := h.schema
  rows hp := h.rows (mt (@hparts _) hp)
  waiting hp := h.waiting (mt (@hparts _) hp)
  settled hp := h.settled (mt (@hparts _) hp)
  nextWrite hp := h.nextWrite (mt (@hparts _) hp)
  state hp := h.state (mt (@hparts _) hp)
  feed hp := h.feed (mt (@hparts _) hp)
  losses hp := h.losses (mt (@hparts _) hp)
  closed := h.closed
  orderly := h.orderly

end Alters

/-! ## The bus -/

/-- An event adds a loss only if it is one. -/
theorem losses_emit_le (h : t.events.Orderly) (event : TableEvent) (sub : Nat) :
    (t.emit event).losses sub ≤ t.losses sub + if event = .disconnected then 1 else 0 := by
  simp only [losses, emit, h.unread_emit, List.count_append]
  split
  · simp [List.count_singleton]
  · simp

/-- What is done to the bus alone touches no part, if no subscription has more losses to hear of. -/
theorem alters_events (events : EventBus TableEvent)
    (horderly : t.events.Orderly → events.Orderly)
    (hlosses : Part.connection ∉ parts → t.events.Orderly → ∀ sub,
      ({ t with events } : Table).losses sub ≤ t.losses sub) :
    Alters parts t { t with events } where
  schema := rfl
  rows _ := rfl
  waiting _ := rfl
  settled _ := rfl
  nextWrite _ := rfl
  state _ := rfl
  feed _ := rfl
  losses := hlosses
  closed := Iff.rfl
  orderly := horderly

/-- An event touches no part, unless it tells of a lost connection. -/
theorem alters_emit (t : Table) {event : TableEvent}
    (h : event = .disconnected → Part.connection ∈ parts) : Alters parts t (t.emit event) := by
  refine alters_events _ (fun ht => ht.emit event) fun hparts ht sub => ?_
  have hle := losses_emit_le ht event sub
  rwa [if_neg (mt h hparts)] at hle

theorem alters_subscribe (t : Table) : Alters [] t { t with events := t.events.subscribe.2 } :=
  alters_events _ (fun ht => ht.subscribe) fun _ ht sub => by
    simp only [losses, ht.unread_subscribe, Nat.le_refl]

theorem alters_unsubscribe (t : Table) (dropped : Nat) :
    Alters [] t { t with events := t.events.unsubscribe dropped } := by
  refine alters_events _ (fun ht => ht.unsubscribe dropped) fun _ _ sub => ?_
  simp only [losses, EventBus.unread_unsubscribe]
  split <;> simp

/-- Reading takes events off one queue, so there may be fewer losses to hear of. -/
theorem alters_reads {reader : Nat} {seen : List TableEvent} {events : EventBus TableEvent}
    (h : t.events.Reads reader seen events) : Alters [] t { t with events } := by
  refine alters_events _ h.orderly fun _ _ sub => ?_
  simp only [losses, h.unread sub, List.count_append]
  omega

theorem alters_release (t : Table) : Alters [] t { t with released := true } :=
  .of_events_eq rfl rfl (fun _ => rfl) (fun _ => ⟨rfl, rfl⟩) (fun _ => rfl)
    (fun _ => ⟨rfl, rfl⟩) Iff.rfl

/-! ## Rows -/

/-- Merging fields replaces the row by one. -/
theorem mergeRow_eq (t : Table) (key : String) (fields : Record) :
    ∃ row, t.mergeRow key fields = t.replaceRow key row := by
  unfold mergeRow
  split
  · exact ⟨_, rfl⟩
  · exact ⟨_, rfl⟩

/-- Telling of a changed row is no loss and leaves the rest as it is. -/
theorem alters_announce {result : Table × Bool} (h : Alters parts t result.1) (key : String) :
    Alters parts t (announce key result).1 := by
  obtain ⟨t', changed⟩ := result
  cases changed with
  | true => exact h.trans (t'.alters_emit (by simp))
  | false => exact h

theorem alters_announce_replaceRow (t : Table) (key : String) (row : Option Record) :
    Alters [.rows] t (announce key (t.replaceRow key row)).1 := by
  refine alters_announce ?_ key
  unfold replaceRow
  split
  · exact .refl _ t
  · exact .of_events_eq rfl rfl (by simp) (by simp) (by simp) (by simp) Iff.rfl

theorem alters_announce_mergeRow (t : Table) (key : String) (fields : Record) :
    Alters [.rows] t (announce key (t.mergeRow key fields)).1 := by
  obtain ⟨row, hrow⟩ := t.mergeRow_eq key fields
  rw [hrow]
  exact t.alters_announce_replaceRow key row

/-- A change of the feed touches rows only. -/
theorem alters_applyChange (t : Table) (c : Change) : Alters [.rows] t (t.applyChange c).1 := by
  unfold applyChange
  split
  · split
    · exact t.alters_announce_replaceRow _ none
    · exact .refl _ t
  all_goals
    split
    · exact .refl _ t
    · split
      · exact t.alters_announce_mergeRow _ _
      · exact .refl _ t

theorem alters_rollback (t : Table) (w : LocalWrite) : Alters [.rows] t (t.rollback w).1 := by
  unfold rollback
  split
  · exact .refl _ t
  · split
    · exact t.alters_announce_replaceRow w.key w.previous
    · exact .refl _ t

/-! ## Writes -/

/-- A write is started only in a connected table, where it waits under the next number. -/
theorem beginWrite_waits {record : Record} {notices : List TableNotice} {w : LocalWrite}
    (h : t.beginWrite record = .ok (t', notices, w)) :
    t.state = .connected ∧ w.number = t.nextWrite ∧
      ∃ t₁, Alters [.rows] t t₁ ∧
        t' = { t₁ with
          waiting := t₁.waiting ++ [t₁.nextWrite]
          nextWrite := t₁.nextWrite + 1 } := by
  unfold beginWrite at h
  split at h
  · cases h
  · cases h
  · cases h
  · next hstate =>
    split at h
    · cases h
    · next key _ =>
      have hrows := t.alters_announce_mergeRow key record
      cases h
      exact ⟨hstate, hrows.nextWrite (by decide), _, hrows, rfl⟩

/-- A local write takes a number, waits for its answer and shows in its row at once. -/
theorem alters_beginWrite {record : Record} {notices : List TableNotice} {w : LocalWrite}
    (h : t.beginWrite record = .ok (t', notices, w)) :
    Alters [.rows, .writes, .numbers] t t' := by
  obtain ⟨-, -, t₁, hrows, rfl⟩ := beginWrite_waits h
  exact (hrows.mono (by simp)).trans
    (.of_events_eq rfl rfl (by simp) (by simp) (by simp) (by simp) Iff.rfl)

/-- An outcome goes from the writes that wait to those that are settled. -/
theorem alters_settle (t : Table) (write : Nat) (outcome : Except TableError Unit) :
    Alters [.writes] t (t.settle write outcome).1 := by
  unfold settle
  split
  · exact .of_events_eq rfl rfl (by simp) (by simp) (by simp) (by simp) Iff.rfl
  · exact .refl _ t

/-- The call of a write returns the outcome it finds, or fails because its limit has passed. Then it
takes back a write that has failed. -/
theorem resumeWrite_cases {w : LocalWrite} {passed : Option Nat} {outcome : Except TableError Unit}
    {notices : List TableNotice} (h : t.resumeWrite w passed = some (outcome, t', notices)) :
    ∃ t₁, Alters [.writes] t t₁ ∧ Alters [.rows] t₁ t' ∧
      (t.settled.get? w.number = some outcome ∧
          t₁ = { t with settled := t.settled.erase w.number } ∨
        t.settled.get? w.number = none ∧ (∃ limit, outcome = .error (.timeout limit)) ∧
          t₁ = t.expire w.number) ∧
      (outcome = .ok () ∧ t' = t₁ ∨ outcome.isOk = false ∧ t' = (t₁.rollback w).1) := by
  have hexpired : Alters [.writes] t (t.expire w.number) :=
    .of_events_eq rfl rfl (by simp [expire]) (by simp) (by simp [expire]) (by simp [expire]) Iff.rfl
  have htaken : Alters [.writes] t { t with settled := t.settled.erase w.number } :=
    .of_events_eq rfl rfl (by simp) (by simp) (by simp) (by simp) Iff.rfl
  unfold resumeWrite takeOutcome? at h
  cases hget : t.settled.get? w.number with
  | none =>
    simp only [hget, Option.map_none, Option.map_eq_some_iff, Prod.mk.injEq] at h
    obtain ⟨limit, -, rfl, hback⟩ := h
    obtain rfl : ((t.expire w.number).rollback w).1 = t' := congrArg Prod.fst hback
    exact ⟨_, hexpired, alters_rollback _ w, .inr ⟨rfl, ⟨limit, rfl⟩, rfl⟩, .inr ⟨rfl, rfl⟩⟩
  | some found =>
    cases found with
    | ok =>
      simp only [hget, Option.map_some, Option.some.injEq, Prod.mk.injEq] at h
      obtain ⟨rfl, rfl, -⟩ := h
      exact ⟨_, htaken, .refl _ _, .inl ⟨rfl, rfl⟩, .inl ⟨rfl, rfl⟩⟩
    | error cause =>
      simp only [hget, Option.map_some, Option.some.injEq, Prod.mk.injEq] at h
      obtain ⟨rfl, hback⟩ := h
      obtain rfl : Prod.fst _ = t' := congrArg Prod.fst hback
      exact ⟨_, htaken, alters_rollback _ w, .inl ⟨rfl, rfl⟩, .inr ⟨rfl, rfl⟩⟩

/-- A write that has failed or taken too long is rolled back, so rows may change again. -/
theorem alters_resumeWrite {w : LocalWrite} {passed : Option Nat} {outcome : Except TableError Unit}
    {notices : List TableNotice} (h : t.resumeWrite w passed = some (outcome, t', notices)) :
    Alters [.rows, .writes] t t' := by
  obtain ⟨t₁, hwrites, hrows, -, -⟩ := resumeWrite_cases h
  exact (hwrites.mono (by simp)).trans (hrows.mono (by simp))

/-! ## The connection -/

theorem alters_beginConnect (h : t.beginConnect = .ok t') (feed : Option FeedId) :
    Alters [.connection] t { t' with feed } := by
  unfold beginConnect at h
  split at h
  · next hstate =>
    cases h
    exact .of_events_eq rfl rfl (by simp) (by simp) (by simp) (by simp) (by simp [hstate])
  · cases h
  · cases h

theorem alters_forgetFeed (t : Table) (feed : FeedId) :
    Alters [.connection] t (t.forgetFeed feed) := by
  unfold forgetFeed
  split
  · exact .of_events_eq rfl rfl (by simp) (by simp) (by simp) (by simp) Iff.rfl
  · exact .refl _ t

theorem alters_connectFailed (t : Table) (feed : FeedId) :
    Alters [.connection] t (t.connectFailed feed).1 := by
  have hforget := t.alters_forgetFeed feed
  simp only [connectFailed]
  split
  · next hconnecting =>
    exact hforget.trans (.of_events_eq rfl rfl (by simp) (by simp) (by simp) (by simp)
      (by simp [hconnecting]))
  · exact hforget

/-- The rows are replaced by those of the feed. Writes that wait stay so. -/
theorem alters_finishConnect {rows : List Record} {notices : List TableNotice}
    (h : t.finishConnect rows = .ok (t', notices)) : Alters [.rows, .connection] t t' := by
  unfold finishConnect at h
  split at h
  · cases h
  · next hopen =>
    cases h
    have hset : Alters [.rows, .connection] t { t with
        rows := .ofList (rows.filterMap fun row => (t.schema.key? row).map fun key => (key, row))
        revision := t.revision + 1
        state := .connected } :=
      .of_events_eq rfl rfl (by simp) (by simp) (by simp) (by simp) (by simp [hopen])
    exact hset.trans (alters_emit _ (by simp))

/-- A lost feed that is not the one of the table leaves the table. -/
theorem feedClosed_of_ne {feed : FeedId} (hfeed : t.feed ≠ some feed) :
    t.feedClosed feed = (t, []) := by
  rw [feedClosed, if_neg hfeed]

theorem feedClosed_of_closed (h : t.state = .closed) (feed : FeedId) :
    (t.feedClosed feed).1 = t.forgetFeed feed := by
  by_cases hfeed : t.feed = some feed <;> simp [feedClosed, forgetFeed, hfeed, h]

/-- A lost feed fails the writes that wait and disconnects the table, but opens no closed one. -/
theorem alters_feedClosed (t : Table) (feed : FeedId) :
    Alters [.writes, .connection] t (t.feedClosed feed).1 := by
  by_cases hfeed : t.feed = some feed
  · by_cases hclosed : t.state = .closed
    · rw [feedClosed_of_closed hclosed]
      exact (t.alters_forgetFeed feed).mono (by simp)
    · simp only [feedClosed, forgetFeed, hfeed, hclosed, if_true, if_false]
      refine Alters.trans ?_ (alters_emit _ (by simp))
      exact .of_events_eq rfl rfl (by simp [failWaiting]) (by simp)
        (by simp [failWaiting]) (by simp)
        (by simp [failWaiting, hclosed])
  · rw [feedClosed_of_ne hfeed]
    exact .refl _ t

/-! ## Closing -/

theorem close_of_closed (h : t.state = .closed) : t.close = (t, []) := by
  rw [close, if_pos h]

theorem state_close (t : Table) : t.close.1.state = .closed := by
  by_cases h : t.state = .closed
  · rw [close_of_closed h]
    exact h
  · simp [close, h, failWaiting, emit]

/-- The bus of a closed table is closed after its last event. -/
theorem orderly_close (h : t.events.Orderly) : t.close.1.events.Orderly := by
  by_cases hclosed : t.state = .closed
  · rw [close_of_closed hclosed]
    exact h
  · simp only [close, hclosed, if_false, failWaiting, emit]
    exact (h.emit _).close

/-! ## Motions -/

/-- What may be done to a table by somebody who may connect it or not, and who follows some feeds of
it. -/
inductive Motion (seeks : Prop) (follows : FeedId → Prop) (t : Table) : Table → Prop
  /-- Everybody may do what leaves the connection. -/
  | rest {t' : Table} {parts : List Part} (h : Alters parts t t')
      (hrest : Part.connection ∉ parts) : Motion seeks follows t t'
  | seek {t' : Table} {parts : List Part} (h : seeks) (ht : Alters parts t t') :
      Motion seeks follows t t'
  | lose {feed : FeedId} (h : follows feed) : Motion seeks follows t (t.feedClosed feed).1
  | close : Motion seeks follows t t.close.1

variable {seeks : Prop} {follows : FeedId → Prop}

theorem motion_reads {reader : Nat} {seen : List TableEvent} {events : EventBus TableEvent}
    (h : t.events.Reads reader seen events) : Motion seeks follows t { t with events } :=
  .rest (alters_reads h) (by decide)

/-- A closed table stays closed. -/
theorem Motion.closed (h : Motion seeks follows t t') (ht : t.state = .closed) :
    t'.state = .closed := by
  cases h with
  | rest h => exact h.closed.mpr ht
  | seek _ h => exact h.closed.mpr ht
  | lose => exact (t.alters_feedClosed _).closed.mpr ht
  | close => exact t.state_close

/-- A bus in order stays so. -/
theorem Motion.orderly (h : Motion seeks follows t t') (ht : t.events.Orderly) :
    t'.events.Orderly := by
  cases h with
  | rest h => exact h.orderly ht
  | seek _ h => exact h.orderly ht
  | lose => exact (t.alters_feedClosed _).orderly ht
  | close => exact orderly_close ht

end Table

end LiveDocs
