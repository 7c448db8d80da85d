import LiveDocs.Document.Basic
import LiveDocs.Proofs.Events.Queues
import Mathlib.Logic.Relation

/-!
# The life of a document

Whatever is done to a document is one of a few turns (`Document.Turn`): nothing of its life changes,
its subscribers are told of a change or a save, somebody subscribes, it becomes ready, it is syncing
or no longer so, or it fails. Closing it is the last one. Every function that changes a document
makes such turns; what follows for the state of a document and for what its subscribers hear is read
off the turns.

Two kinds of work are told apart, since they never go together: work on a commit, which may only
start to sync, and all other work.

## Main definitions

* `DocumentState.leadsTo`: the states that a document may pass to.
* `Document.Turn`, `Document.Turns`, `Document.Trail`: what may be done to a document, with and
  without closing it.
* `Document.Tuned`: the bus of a document is in order and closed with it.
* `DocumentState.Heard`: what a subscriber can have heard in a state.

## Main results

* `Document.turns_fail` and the like: what the functions on documents do are turns.
* `Document.Trail.passes`, `Document.Trail.heard`: what turns do to the state and to what a
  subscriber hears.
-/

namespace LiveDocs

/-! ## States and events -/

namespace DocumentState

/-- Whether a document may pass from one state to another. -/
def leadsTo : DocumentState → DocumentState → Bool
  | init, ready | ready, syncing | syncing, ready => true
  | init, error | ready, error | syncing, error => true
  | init, closed | ready, closed | syncing, closed | error, closed => true
  | _, _ => false

/-- Whether work on a commit, or other work, may take a document from one state to another or leave
it there. Only a commit starts to sync, and it does nothing else. -/
def passes (commits : Bool) (s s' : DocumentState) : Bool :=
  s == s' || leadsTo s s' && commits == (s == ready && s' == syncing)

theorem passes_refl (commits : Bool) (s : DocumentState) : passes commits s s = true := by
  simp [passes]

/-- Work of one kind may take several steps. Only `ready` and `syncing` lead to each other, and each
kind of work passes there in one direction. -/
theorem passes_trans {commits : Bool} {a b c : DocumentState} (hab : passes commits a b = true)
    (hbc : passes commits b c = true) : passes commits a c = true := by
  revert hab hbc
  cases commits <;> cases a <;> cases b <;> cases c <;> decide

theorem passes_closed (s : DocumentState) : passes false s closed = true := by
  cases s <;> decide

/-- The kind of work is forgotten, and the order of the states is left. -/
theorem eq_or_leadsTo_of_passes {commits : Bool} {s s' : DocumentState}
    (h : passes commits s s' = true) : s' = s ∨ leadsTo s s' = true := by
  simp only [passes, Bool.or_eq_true, beq_iff_eq, Bool.and_eq_true] at h
  rcases h with h | h
  · exact .inl h.symm
  · exact .inr h.1

end DocumentState

namespace DocumentEvent

def isError : DocumentEvent → Bool
  | error _ => true
  | _ => false

/-- Whether an event is about the content, not about the life of the document. -/
def isNews : DocumentEvent → Bool
  | change | saved => true
  | _ => false

end DocumentEvent

/-- What a subscriber can have heard of a document in some state. -/
structure DocumentState.Heard (s : DocumentState) (events : List DocumentEvent) : Prop where
  ready : events.count .ready ≤ if s = .init then 0 else 1
  error : events.countP DocumentEvent.isError ≤ if s = .error ∨ s = .closed then 1 else 0
  closed : .closed ∈ events → s = .closed ∧ ∃ earlier, events = earlier ++ [.closed] ∧
    .closed ∉ earlier

theorem DocumentState.heard_nil (s : DocumentState) : s.Heard [] :=
  ⟨by simp, by simp, by simp⟩

namespace Document

/-! ## Turns -/

/-- What one turn does to the state and the bus of a document. -/
inductive Move (commits : Bool) :
    DocumentState → EventBus DocumentEvent → DocumentState → EventBus DocumentEvent → Prop
  | still (s bus) : Move commits s bus s bus
  | tell (s bus) {event : DocumentEvent} (h : event.isNews = true) :
    Move commits s bus s (bus.emit event)
  | listen (s bus) : Move commits s bus s bus.subscribe.2
  | sync (bus) (h : commits = true) : Move commits .ready bus .syncing bus
  | synced (bus) (h : commits = false) : Move commits .syncing bus .ready bus
  | becomeReady (bus) (h : commits = false) : Move commits .init bus .ready (bus.emit .ready)
  | fail (s bus) (detail : String) (h : commits = false) (hs : s ≠ .closed ∧ s ≠ .error) :
    Move commits s bus .error (bus.emit (.error detail))

/-- One turn of a document. Its place in the data layer stays what it is. -/
structure Turn (commits : Bool) (d d' : Document) : Prop where
  path : d'.path = d.path
  strings : d'.strings = d.strings
  patches : d'.patches = d.patches
  move : Move commits d.state d.events d'.state d'.events

/-- Some turns of a document, none of which closes it. -/
abbrev Turns (commits : Bool) : Document → Document → Prop := Relation.ReflTransGen (Turn commits)

/-- Some turns of a document, which may be closed on the way. -/
abbrev Trail (commits : Bool) : Document → Document → Prop :=
  Relation.ReflTransGen fun d d' =>
    Turn commits d d' ∨ commits = false ∧ d.state ≠ .closed ∧ d' = d.close.1

variable {commits : Bool} {d d' : Document}

/-- A document whose life is not touched. -/
theorem turns_of_same (hpath : d'.path = d.path) (hstrings : d'.strings = d.strings)
    (hpatches : d'.patches = d.patches) (hstate : d'.state = d.state)
    (hevents : d'.events = d.events) : Turns commits d d' :=
  .single ⟨hpath, hstrings, hpatches, hstate ▸ hevents ▸ .still _ _⟩

theorem Turns.trail (h : Turns commits d d') : Trail commits d d' :=
  Relation.ReflTransGen.mono (fun _ _ => Or.inl) _ _ h

/-! ## What the functions on documents do -/

/-- News are told to subscribers by any kind of work. -/
theorem turns_emit (d : Document) {event : DocumentEvent} (h : event.isNews = true) :
    Turns commits d (d.emit event) :=
  .single ⟨rfl, rfl, rfl, .tell _ _ h⟩

/-- A document that is not ready stays as it is, so this is one turn or none. -/
theorem turns_sync (d : Document) : Turns true d (d.transition .ready .syncing).1 := by
  unfold transition
  split
  · next hstate => exact .single ⟨rfl, rfl, rfl, hstate ▸ .sync _ rfl⟩
  · exact .refl

theorem turns_synced (d : Document) : Turns false d (d.transition .syncing .ready).1 := by
  unfold transition
  split
  · next hstate => exact .single ⟨rfl, rfl, rfl, hstate ▸ .synced _ rfl⟩
  · exact .refl

/-- A document becomes ready once, when it was initializing; it tells so in the same turn. -/
theorem turns_becomeReady (d : Document) : Turns false d d.becomeReady.1 := by
  unfold becomeReady
  split
  · next hstate => exact .single ⟨rfl, rfl, rfl, hstate ▸ .becomeReady _ rfl⟩
  · exact .refl

/-- A document that is closed or has failed before does not fail again. -/
theorem turns_fail (d : Document) (detail : String) : Turns false d (d.fail detail).1 := by
  unfold fail
  split
  · exact .refl
  · next hstate => exact .single ⟨rfl, rfl, rfl, .fail _ _ detail rfl (not_or.mp hstate)⟩

theorem turns_checkRow (d : Document) (row : Option Record) : Turns false d (d.checkRow row).1 := by
  unfold checkRow
  split
  · exact d.turns_fail _
  · split
    · exact d.turns_fail _
    · exact .refl

/-- Subscribers are told of a change, and a history that cannot be read is a failure; the replica
has no part in the life of the document. -/
theorem turns_ingestRows (d : Document) (rows : Rows) (keys : List String) :
    Turns false d (d.ingestRows rows keys).1 := by
  have hreplica (replica) : Turns false d { d with replica } := turns_of_same rfl rfl rfl rfl rfl
  simp only [ingestRows]
  split
  · exact (hreplica _).trans (turns_emit _ rfl)
  · exact hreplica _
  · exact (hreplica _).trans (turns_fail _ _)

/-- Withdrawing a patch is news in any case, also when the document fails over it. -/
theorem turns_withdraw (d : Document) (id : PatchId) : Turns false d (d.withdraw id).1 := by
  have hreplica (replica) : Turns false d { d with replica } := turns_of_same rfl rfl rfl rfl rfl
  simp only [withdraw]
  split
  · exact (hreplica _).trans (turns_emit _ rfl)
  · exact ((hreplica _).trans (turns_fail _ _)).trans (turns_emit _ rfl)

/-- A patch that is added is news. The document does not start to sync here. -/
theorem turns_beginCommit {clock : UInt64} {edit : UserEdit} {patch : LocalPatch}
    (h : d.beginCommit clock edit = .ok (some (d', patch))) : Turns commits d d' := by
  simp only [beginCommit] at h
  split at h
  · cases h
  · split at h
    · cases h
    · split at h
      · cases h
      · split at h
        · cases h
        · cases h
          exact .single ⟨rfl, rfl, rfl, .tell _ _ rfl⟩

/-! ## The bus -/

/-- The bus of a document is in order and closed with the document, and nobody hears that it is
closed before it is. -/
structure Tuned (s : DocumentState) (bus : EventBus DocumentEvent) : Prop where
  orderly : bus.Orderly
  closed : bus.closed = true ↔ s = .closed
  silent : s ≠ .closed → ∀ sub, .closed ∉ bus.unread sub

/-- A subscription is not dropped, and the bus sends to it as long as the document is not closed. -/
structure Subscribed (s : DocumentState) (bus : EventBus DocumentEvent) (sub : Nat) : Prop where
  live : bus.isLive sub = true
  attached : s ≠ .closed → sub ∈ bus.attached

section Bus

variable {s s' : DocumentState} {bus bus' : EventBus DocumentEvent}

theorem tuned_new : Tuned .init .empty where
  orderly := EventBus.orderly_empty
  closed := by simp [EventBus.empty]
  silent := by simp [EventBus.empty, EventBus.unread]

/-- Any event but `closed` may be told without harm, in a state that is closed only if the one
before was. -/
theorem Tuned.emit (h : Tuned s bus) {event : DocumentEvent} (hevent : event ≠ .closed)
    (hs' : s' = .closed ↔ s = .closed) : Tuned s' (bus.emit event) where
  orderly := h.orderly.emit event
  closed := by rw [EventBus.closed_emit, h.closed, hs']
  silent := by
    intro hopen sub hmem
    rcases h.orderly.mem_unread_emit hmem with hmem | heq
    · exact h.silent (fun hs => hopen (hs'.mpr hs)) sub hmem
    · exact hevent heq.symm

theorem Tuned.reads (h : Tuned s bus) {reader : Nat} {events : List DocumentEvent}
    (hreads : bus.Reads reader events bus') : Tuned s bus' where
  orderly := hreads.orderly h.orderly
  closed := by rw [hreads.closed, h.closed]
  silent := fun hopen sub hmem => h.silent hopen sub (hreads.mem_unread hmem)

/-- The last event is told before the bus is closed. -/
theorem Tuned.close (h : Tuned s bus) : Tuned .closed (bus.emit .closed).close where
  orderly := (h.orderly.emit .closed).close
  closed := by simp [EventBus.close]
  silent := fun hopen => absurd rfl hopen

/-- The step lemma for the bus: `closed` is no news, and no turn but closing leads to `closed`. -/
theorem Move.tuned (h : Move commits s bus s' bus') (hbus : Tuned s bus) : Tuned s' bus' := by
  cases h with
  | still => exact hbus
  | tell _ _ hnews => exact hbus.emit (fun h => by simp [h, DocumentEvent.isNews] at hnews) .rfl
  | listen =>
    refine ⟨hbus.orderly.subscribe, hbus.closed, fun hopen sub => ?_⟩
    rw [hbus.orderly.unread_subscribe]
    exact hbus.silent hopen sub
  | sync => exact ⟨hbus.orderly, by simpa using hbus.closed, fun _ => hbus.silent (by simp)⟩
  | synced => exact ⟨hbus.orderly, by simpa using hbus.closed, fun _ => hbus.silent (by simp)⟩
  | becomeReady => exact hbus.emit (by simp) (by simp)
  | fail _ _ detail _ hs => exact hbus.emit (by simp) (by simp [hs.1])

theorem Subscribed.emit {sub : Nat} (h : Subscribed s bus sub) (event : DocumentEvent)
    (hs' : s' = .closed ↔ s = .closed) : Subscribed s' (bus.emit event) sub where
  live := by rw [EventBus.isLive_emit, h.live]
  attached := fun hopen =>
    EventBus.mem_attached_emit (h.attached fun hs => hopen (hs'.mpr hs)) h.live event

theorem Subscribed.reads {sub reader : Nat} {events : List DocumentEvent} (h : Subscribed s bus sub)
    (hreads : bus.Reads reader events bus') : Subscribed s bus' sub where
  live := by rw [hreads.live, h.live]
  attached := by
    rw [hreads.attached]
    exact h.attached

theorem Subscribed.close {sub : Nat} (h : Subscribed s bus sub) :
    Subscribed .closed (bus.emit .closed).close sub where
  live := (bus.isLive_emit .closed sub).trans h.live
  attached := fun hopen => absurd rfl hopen

/-- A subscriber that has nothing to read is at the end of its events only if the document is
closed. -/
theorem Subscribed.isEnded_iff {sub : Nat} (h : Subscribed s bus sub) (hbus : Tuned s bus)
    (hnone : (bus.receive sub).1 = none) : bus.isEnded sub = true ↔ s = .closed := by
  have hqueue : bus.isEnded sub = !bus.attached.contains sub := by
    unfold EventBus.receive at hnone
    unfold EventBus.isEnded
    split at hnone
    · cases hnone
    · simp
  rw [hqueue]
  by_cases hs : s = .closed
  · simp [hs, hbus.orderly.closed (hbus.closed.mpr hs)]
  · simp [hs, h.attached hs]

/-- Who subscribes to a bus that is not closed is sent all events from then on. -/
theorem Tuned.subscribed_subscribe (h : Tuned s bus) :
    Subscribed s bus.subscribe.2 bus.subscribe.1 where
  live := by simp [EventBus.subscribe, EventBus.isLive, SortedMap.contains]
  attached := by
    intro hopen
    have hbus : bus.closed = false := Bool.eq_false_iff.mpr fun hclosed =>
      hopen (h.closed.mp hclosed)
    simp [EventBus.subscribe, hbus]

/-- No turn drops a subscription. -/
theorem Move.subscribed {sub : Nat} (h : Move commits s bus s' bus') (hsub : Subscribed s bus sub) :
    Subscribed s' bus' sub := by
  cases h with
  | still => exact hsub
  | tell => exact hsub.emit _ .rfl
  | listen =>
    refine ⟨by simp [hsub.live], fun hopen => ?_⟩
    have hmem := hsub.attached hopen
    unfold EventBus.subscribe
    split
    · exact hmem
    · exact List.mem_append_left _ hmem
  | sync => exact ⟨hsub.live, fun _ => hsub.attached (by simp)⟩
  | synced => exact ⟨hsub.live, fun _ => hsub.attached (by simp)⟩
  | becomeReady => exact hsub.emit _ (by simp)
  | fail _ _ _ _ hs => exact hsub.emit _ (by simp [hs.1])

end Bus

end Document

/-! ## What a subscriber hears -/

namespace DocumentState

variable {s s' : DocumentState} {events : List DocumentEvent}

/-- What was heard so far may have been heard in a later state. -/
theorem Heard.passes {commits : Bool} (h : Heard s events) (hs : passes commits s s' = true) :
    Heard s' events := by
  have hinit : s' = .init → s = .init := by
    revert hs; cases commits <;> cases s <;> cases s' <;> decide
  have hfailed : s = .error ∨ s = .closed → s' = .error ∨ s' = .closed := by
    revert hs
    cases commits <;> cases s <;> cases s' <;> decide
  have hclosed : s = .closed → s' = .closed := by
    revert hs
    cases commits <;> cases s <;> cases s' <;> decide
  refine ⟨Nat.le_trans h.ready ?_, Nat.le_trans h.error ?_, fun hmem => ?_⟩
  · by_cases hs' : s' = .init
    · simp [hs', hinit hs']
    · rw [if_neg hs']
      split <;> simp
  · by_cases hfail : s = .error ∨ s = .closed
    · simp [hfail, hfailed hfail]
    · simp [hfail]
  · obtain ⟨hs, hlast⟩ := h.closed hmem
    exact ⟨hclosed hs, hlast⟩

/-- One more event is heard. -/
theorem Heard.concat (h : Heard s events) {event : DocumentEvent} (hopen : .closed ∉ events)
    (hready : event = .ready → s ≠ .init ∧ events.count .ready = 0)
    (herror : event.isError = true →
      (s = .error ∨ s = .closed) ∧ events.countP DocumentEvent.isError = 0)
    (hclosed : event = .closed → s = .closed) : Heard s (events ++ [event]) where
  ready := by
    rw [List.count_append]
    by_cases hevent : event = .ready
    · obtain ⟨hs, hnone⟩ := hready hevent
      simp [hs, hnone, hevent]
    · simpa [List.count_singleton, hevent] using h.ready
  error := by
    rw [List.countP_append]
    by_cases hevent : event.isError = true
    · obtain ⟨hs, hnone⟩ := herror hevent
      simp [hs, hnone, hevent]
    · simpa [List.countP_singleton, hevent] using h.error
  closed := by
    intro hmem
    rcases List.mem_append.mp hmem with hmem | hmem
    · exact absurd hmem hopen
    · have hevent : event = .closed := (List.mem_singleton.mp hmem).symm
      exact ⟨hclosed hevent, events, by rw [hevent], hopen⟩

/-- Nothing is heard after the end. -/
theorem Heard.eq_nil_of_closed (h : Heard s events) {earlier later : List DocumentEvent}
    (hevents : events = earlier ++ .closed :: later) : later = [] := by
  obtain ⟨-, earlier', hlast, hnot⟩ := h.closed (by simp [hevents])
  rcases List.eq_nil_or_concat later with hnil | ⟨later', event, rfl⟩
  · exact hnil
  · have heq : (earlier ++ .closed :: later') ++ [event] = earlier' ++ [.closed] := by
      rw [← hlast, hevents]
      simp
    have hmem : .closed ∈ earlier' := (List.append_inj' heq rfl).1 ▸ by simp
    exact absurd hmem hnot

theorem Heard.count_closed_le (h : Heard s events) : events.count .closed ≤ 1 := by
  by_cases hmem : .closed ∈ events
  · obtain ⟨-, earlier, hlast, hnot⟩ := h.closed hmem
    simp [hlast, List.count_eq_zero_of_not_mem hnot]
  · simp [List.count_eq_zero_of_not_mem hmem]

theorem Heard.not_mem_closed (h : Heard s events) (hs : s ≠ .closed) : .closed ∉ events :=
  fun hmem => hs (h.closed hmem).1

end DocumentState

namespace Document

variable {commits : Bool} {s s' : DocumentState} {bus bus' : EventBus DocumentEvent} {sub : Nat}
  {read : List DocumentEvent}

/-- The state of a document moves as its kind of work allows. -/
theorem Move.passes (h : Move commits s bus s' bus') : s.passes commits s' = true := by
  cases h with
  | still | tell | listen => exact DocumentState.passes_refl commits s
  | sync _ h | synced _ h | becomeReady _ h => rw [h]; decide
  | fail _ _ _ h hs =>
    rw [h]
    revert hs
    cases s <;> decide

/-- Only closing closes a document. -/
theorem Move.closed_iff (h : Move commits s bus s' bus') : s' = .closed ↔ s = .closed := by
  cases h with
  | still | tell | listen => exact .rfl
  | sync | synced | becomeReady => simp
  | fail _ _ _ _ hs => simp [hs.1]

/-- An emitted event is heard by a subscriber that the bus sends to, and the bus is open then. -/
theorem heard_emit {event : DocumentEvent} (hbus : Tuned s bus)
    (h : s'.Heard (read ++ bus.unread sub))
    (hconcat : s ≠ .closed → s'.Heard (read ++ bus.unread sub ++ [event])) :
    s'.Heard (read ++ (bus.emit event).unread sub) := by
  rw [hbus.orderly.unread_emit]
  split
  · next hto =>
    rw [← List.append_assoc]
    refine hconcat fun hs => ?_
    simp [hbus.closed.mpr hs] at hto
  · simpa using h

/-- **One turn keeps what a subscriber can have heard.** An event and the state in which it may be
heard change together. -/
theorem Move.heard (h : Move commits s bus s' bus') (hbus : Tuned s bus)
    (hheard : s.Heard (read ++ bus.unread sub)) : s'.Heard (read ++ bus'.unread sub) := by
  have hlater := hheard.passes h.passes
  cases h with
  | still => exact hheard
  | @tell s bus event hnews =>
    refine heard_emit hbus hheard fun hs => hheard.concat (hheard.not_mem_closed hs) ?_ ?_ ?_ <;>
      cases event <;> simp_all [DocumentEvent.isNews, DocumentEvent.isError]
  | listen =>
    rw [hbus.orderly.unread_subscribe]
    exact hheard
  | sync => exact hlater
  | synced => exact hlater
  | becomeReady =>
    have hnone : (read ++ bus.unread sub).count .ready = 0 := by simpa using hheard.ready
    exact heard_emit hbus hlater fun hs => hlater.concat (hheard.not_mem_closed hs)
      (fun _ => ⟨by simp, hnone⟩) (by simp [DocumentEvent.isError]) (by simp)
  | fail _ _ detail _ hs =>
    have hnone : (read ++ bus.unread sub).countP DocumentEvent.isError = 0 := by
      simpa [hs] using hheard.error
    exact heard_emit hbus hlater fun hs => hlater.concat (hheard.not_mem_closed hs)
      (by simp) (fun _ => ⟨by simp, hnone⟩) (by simp)

/-- Closing is heard last, and by everybody at most once. -/
theorem heard_close (hbus : Tuned s bus) (hs : s ≠ .closed)
    (hheard : s.Heard (read ++ bus.unread sub)) :
    DocumentState.closed.Heard (read ++ (bus.emit .closed).close.unread sub) := by
  have hlater : DocumentState.closed.Heard (read ++ bus.unread sub) :=
    hheard.passes (DocumentState.passes_closed s)
  exact heard_emit hbus hlater fun _ => hlater.concat (hheard.not_mem_closed hs)
    (by simp) (by simp [DocumentEvent.isError]) (by simp)

/-! ## Trails -/

section Trail

variable {d d' : Document}

/-- Closing a document that is not closed. -/
theorem close_eq (h : d.state ≠ .closed) :
    d.close.1 = { d with state := .closed, events := (d.events.emit .closed).close } := by
  simp [close, h, emit]

theorem Trail.place (h : Trail commits d d') :
    d'.path = d.path ∧ d'.strings = d.strings ∧ d'.patches = d.patches := by
  induction h with
  | refl => exact ⟨rfl, rfl, rfl⟩
  | tail _ hstep ih =>
    rcases hstep with hturn | ⟨-, hopen, rfl⟩
    · rw [hturn.path, hturn.strings, hturn.patches]
      exact ih
    · rw [close_eq hopen]
      exact ih

/-- The run lemma for states. Closing is no work on a commit, and possible in every state. -/
theorem Trail.passes (h : Trail commits d d') : d.state.passes commits d'.state = true := by
  induction h with
  | refl => exact DocumentState.passes_refl commits d.state
  | tail _ hstep ih =>
    refine DocumentState.passes_trans ih ?_
    rcases hstep with hturn | ⟨hwork, hopen, rfl⟩
    · exact hturn.move.passes
    · rw [close_eq hopen, hwork]
      exact DocumentState.passes_closed _

theorem Trail.tuned (h : Trail commits d d') (hd : Tuned d.state d.events) :
    Tuned d'.state d'.events := by
  induction h with
  | refl => exact hd
  | tail _ hstep ih =>
    rcases hstep with hturn | ⟨-, hopen, rfl⟩
    · exact hturn.move.tuned ih
    · rw [close_eq hopen]
      exact ih.close

/-- The run lemma for what a subscriber hears, read or not. -/
theorem Trail.heard (h : Trail commits d d') (hd : Tuned d.state d.events)
    (hheard : d.state.Heard (read ++ d.events.unread sub)) :
    d'.state.Heard (read ++ d'.events.unread sub) := by
  induction h with
  | refl => exact hheard
  | tail htrail hstep ih =>
    have htuned := Trail.tuned htrail hd
    rcases hstep with hturn | ⟨-, hopen, rfl⟩
    · exact hturn.move.heard htuned ih
    · rw [close_eq hopen]
      exact heard_close htuned hopen ih

/-- Nothing that is unread is lost. -/
theorem Move.unread {s s' : DocumentState} {bus bus' : EventBus DocumentEvent}
    (h : Move commits s bus s' bus') (hbus : bus.Orderly) (sub : Nat) :
    ∃ new, bus'.unread sub = bus.unread sub ++ new := by
  cases h with
  | still | sync | synced => exact ⟨[], (List.append_nil _).symm⟩
  | listen => exact ⟨[], by rw [hbus.unread_subscribe, List.append_nil]⟩
  | tell | becomeReady | fail => exact ⟨_, hbus.unread_emit _ sub⟩

/-- Nothing that a subscriber has not read is lost; more may have come behind it. -/
theorem Trail.unread (h : Trail commits d d') (hd : Tuned d.state d.events) (sub : Nat) :
    ∃ new, d'.events.unread sub = d.events.unread sub ++ new := by
  induction h with
  | refl => exact ⟨[], (List.append_nil _).symm⟩
  | @tail d₁ d₂ htrail hstep ih =>
    have horderly := (Trail.tuned htrail hd).orderly
    obtain ⟨new, hnew⟩ := ih
    obtain ⟨new', hnew'⟩ : ∃ new', d₂.events.unread sub = d₁.events.unread sub ++ new' := by
      rcases hstep with hturn | ⟨-, hopen, rfl⟩
      · exact hturn.move.unread horderly sub
      · rw [close_eq hopen]
        exact ⟨_, horderly.unread_emit .closed sub⟩
    exact ⟨new ++ new', by rw [hnew', hnew, List.append_assoc]⟩

theorem Trail.subscribed (h : Trail commits d d') (hsub : Subscribed d.state d.events sub) :
    Subscribed d'.state d'.events sub := by
  induction h with
  | refl => exact hsub
  | tail _ hstep ih =>
    rcases hstep with hturn | ⟨-, hopen, rfl⟩
    · exact hturn.move.subscribed ih
    · rw [close_eq hopen]
      exact ih.close

/-- No turn closes a document or opens it again. -/
theorem Turns.closed_iff (h : Turns commits d d') : d'.state = .closed ↔ d.state = .closed := by
  induction h with
  | refl => exact .rfl
  | tail _ hturn ih =>
    rw [← ih]
    exact hturn.move.closed_iff

end Trail

end Document

end LiveDocs
