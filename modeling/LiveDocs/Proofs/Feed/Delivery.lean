import LiveDocs.Feed
import LiveDocs.Proofs.Events

/-!
# What a subscriber of a feed sees

Three tasks work on a feed: a pump hands it the responses as they arrive, the one who connects
goes on after the first of them, and what was kept back is handed out a while later. The feed can
be closed at any time. Whatever the order of their steps, a subscriber sees the changes of the
responses after the first, each once and in order, up to some point, and then that the feed is
closed. The first response must be an answer to the query, or nothing follows it.

## Main definitions

* `Feed.Life`, `Feed.Move`, `Feed.Life.step`: a feed, the tasks that work on it, and their steps.
* `Feed.Life.seen`: all events that the subscriber was sent.
* `Feed.Phase`: how far the feed has come, with the responses it has handed out.
* `Feed.Life.Delivers`: what has become of the responses that arrived.

## Main results

* `Feed.Life.step_phase`, `Feed.Life.run_phase`: what a step and a run lead to.
* `Feed.Life.seen_run`: what the subscriber has seen after any run.
-/

namespace LiveDocs

namespace Feed

/-- Whether a response ends the feed. -/
def isEnd : Reply → Bool
  | .error _ => true
  | .ok response => response.isCancel

/-- Whether a first response completes the connection: it is no error, no cancellation, and has rows
of the table. -/
def opens (table : String) : Reply → Bool
  | .error _ => false
  | .ok response => !response.isCancel && (response.rows? table).isSome

/-- The event that a response leads to. -/
def update? : Reply → Option FeedEvent
  | .error _ => none
  | .ok response => response.change?.map .update

/-! ## The tasks and their steps -/

/-- What the one who connects the feed is about to do. -/
inductive Task where
  | idle
  /-- Waits for the first response. -/
  | awaitFirst
  /-- Has connected; what was kept back is to be handed out. -/
  | flush
  | finished
deriving DecidableEq

/-- A feed with a subscriber and the tasks that work on it. -/
structure Life where
  feed : Feed
  /-- The responses that the pump has taken, in the order they arrived. -/
  arrived : List Reply
  /-- Whether the pump is running. -/
  pumping : Bool
  task : Task
  /-- The events that the subscriber has read. -/
  read : List FeedEvent

/-- A step of one of the tasks, of whoever closes the feed, or of the subscriber. -/
inductive Move where
  | connect
  | deliver (reply : Reply)
  | endOfStream
  /-- The one who connects goes on, if the first response is there or lost. -/
  | resume
  | flush
  | close
  | read

namespace Life

def start (query : Query) (timeout : Nat) (options : List Json) : Life where
  feed := { Feed.new query timeout options with events := (EventBus.empty.subscribe).2 }
  arrived := []
  pumping := false
  task := .idle
  read := []

/-- The one who connects goes on after the first response. -/
def resume (s : Life) : Life :=
  match s.feed.first with
  | .arrived reply =>
    match s.feed.finishConnect reply with
    | (feed, _, .ok _) => { s with feed, task := .flush }
    | (feed, _, .error _) => { s with feed, task := .finished }
  | .lost => { s with task := .finished }
  | _ => s

/-- One step. A step that is not to be done now changes nothing. -/
def step (s : Life) : Move → Life
  | .connect =>
    match s.feed.beginConnect with
    | .ok feed => { s with feed, pumping := true, task := .awaitFirst }
    | .error _ => s
  | .deliver reply =>
    if s.pumping then
      { s with
        feed := (s.feed.deliver reply).1
        arrived := s.arrived ++ [reply]
        pumping := (s.feed.deliver reply).2.2 }
    else s
  | .endOfStream =>
    if s.pumping then { s with feed := s.feed.endOfStream.1, pumping := false } else s
  | .resume => if s.task = .awaitFirst then s.resume else s
  | .flush => if s.task = .flush then { s with feed := s.feed.flush.1, task := .finished } else s
  | .close => { s with feed := s.feed.close.1 }
  | .read =>
    { s with
      feed := { s.feed with events := (s.feed.events.receive 0).2 }
      read := s.read ++ (s.feed.events.receive 0).1.toList }

def run (s : Life) (moves : List Move) : Life := moves.foldl step s

/-- All events that the subscriber was sent, whether it has read them or not. -/
def seen (s : Life) : List FeedEvent := s.read ++ (s.feed.events.queues.get? 0).getD []

end Life

/-! ## Handing out responses -/

/-- How far the feed has come. The last argument is what it has handed out. -/
inductive Phase (f : Feed) : List Reply → List Reply → Prop where
  | unasked (hstate : f.state = .disconnected) (hfirst : f.first = .unasked)
      (hpending : f.pending = some []) : Phase f [] []
  | asked (hstate : f.state = .connecting) (hfirst : f.first = .awaited)
      (hpending : f.pending = some []) : Phase f [] []
  /-- The first response is there, and what came after it is kept back. -/
  | answered {first : Reply} {queue : List Reply}
      (hstate : f.state = .connecting ∨
        f.state = .connected ∧ opens f.query.table first = true)
      (hfirst : f.first = .arrived first) (hpending : f.pending = some queue) :
      Phase f (first :: queue) []
  /-- All that came after the first response was handed out. -/
  | flowing {first : Reply} {rest : List Reply} (hstate : f.state = .connected)
      (hopens : opens f.query.table first = true) (hfirst : f.first = .arrived first)
      (hpending : f.pending = none) : Phase f (first :: rest) rest
  | closed {arrived handled : List Reply} (hstate : f.state = .closed)
      (hfirst : f.first ≠ .awaited) (hhandled : handled <+: arrived.tail)
      (hopens : handled ≠ [] → ∃ first ∈ arrived.head?, opens f.query.table first = true) :
      Phase f arrived handled

/-- What a subscriber of a feed was sent: the changes of what was handed out, and the end. -/
structure Told (f : Feed) (read : List FeedEvent) (handled : List Reply) : Prop where
  ends : ∀ reply ∈ handled, isEnd reply = false
  hears : f.state ≠ .closed →
    ∃ queue, f.events.Hears 0 queue ∧ read ++ queue = handled.filterMap update?
  last : f.state = .closed →
    ∃ queue, f.events.queues.get? 0 = some queue ∧
      read ++ queue = handled.filterMap update? ++ [.close]

variable {f : Feed} {read : List FeedEvent} {handled arrived : List Reply}

theorem state_close (f : Feed) : f.close.1.state = .closed := by
  unfold close
  split
  · assumption
  · rfl

@[simp] theorem query_close (f : Feed) : f.close.1.query = f.query := by
  unfold close
  split <;> rfl

theorem pending_close (h : f.pending = none) : f.close.1.pending = none := by
  unfold close
  split
  · exact h
  · rfl

theorem first_close (h : f.state = .closed → f.first ≠ .awaited) : f.close.1.first ≠ .awaited := by
  unfold close
  split
  · next hclosed => exact h hclosed
  · cases hfirst : f.first <;> simp

/-- Closing tells the subscriber so, once. -/
theorem Told.close (h : f.Told read handled) : f.close.1.Told read handled := by
  refine ⟨h.ends, fun hopen => absurd f.state_close hopen, fun _ => ?_⟩
  by_cases hclosed : f.state = .closed
  · obtain ⟨queue, hqueue, hread⟩ := h.last hclosed
    exact ⟨queue, by rwa [Feed.close, if_pos hclosed], hread⟩
  · obtain ⟨queue, hqueue, hread⟩ := h.hears hclosed
    refine ⟨queue ++ [.close], ?_, by rw [← List.append_assoc, hread]⟩
    rw [Feed.close, if_neg hclosed]
    exact hqueue.queued_emit_close .close

/-- A response that does not end the feed adds its change to what the subscriber was sent. -/
theorem Told.process (h : f.Told read handled) (hstate : f.state ≠ .closed) {reply : Reply}
    (hreply : isEnd reply = false) :
    (f.process reply).2.2 = true ∧ (f.process reply).1.query = f.query ∧
      (f.process reply).1.state = f.state ∧ (f.process reply).1.first = f.first ∧
      (f.process reply).1.pending = f.pending ∧
      (f.process reply).1.Told read (handled ++ [reply]) := by
  have hends : ∀ r ∈ handled ++ [reply], isEnd r = false := by
    intro r hr
    rcases List.mem_append.mp hr with hr | hr
    · exact h.ends r hr
    · rwa [List.mem_singleton.mp hr]
  obtain ⟨queue, hqueue, hread⟩ := h.hears hstate
  cases reply with
  | error cause => cases hreply
  | ok response =>
    have hcancel : ¬response.isCancel = true := by simpa [isEnd] using hreply
    cases hchange : response.change? with
    | none =>
      have hprocess : f.process (.ok response) = (f, [], true) := by
        simp only [Feed.process, if_neg hcancel, hchange]
      rw [hprocess]
      refine ⟨rfl, rfl, rfl, rfl, rfl, hends, fun _ => ⟨queue, hqueue, ?_⟩,
        fun hclosed => absurd hclosed hstate⟩
      simp [hread, update?, hchange]
    | some change =>
      have hprocess : f.process (.ok response) =
          ({ f with events := f.events.emit (.update change) }, [.events], true) := by
        simp only [Feed.process, if_neg hcancel, hchange]
      rw [hprocess]
      refine ⟨rfl, rfl, rfl, rfl, rfl, hends,
        fun _ => ⟨queue ++ [.update change], hqueue.emit (.update change), ?_⟩,
        fun hclosed => absurd hclosed hstate⟩
      rw [← List.append_assoc, hread]
      simp [update?, hchange]

theorem process_of_isEnd {reply : Reply} (hreply : isEnd reply = true) :
    (f.process reply).1 = f.close.1 ∧ (f.process reply).2.2 = false := by
  cases reply with
  | error cause => exact ⟨rfl, rfl⟩
  | ok response =>
    have hcancel : response.isCancel = true := hreply
    simp [Feed.process, hcancel]

theorem process_stops (f : Feed) (reply : Reply) :
    (f.process reply).2.2 = true ∨ (f.process reply).1.state = .closed := by
  cases hreply : isEnd reply with
  | true => exact .inr ((process_of_isEnd hreply).1 ▸ f.state_close)
  | false =>
    cases reply with
    | error cause => cases hreply
    | ok response =>
      have hcancel : ¬response.isCancel = true := by simpa [isEnd] using hreply
      simp only [Feed.process, if_neg hcancel]
      split <;> exact .inl rfl

/-- The pump stops only at a feed that is closed. -/
theorem deliver_stops (f : Feed) (reply : Reply) :
    (f.deliver reply).2.2 = true ∨ (f.deliver reply).1.state = .closed := by
  unfold Feed.deliver
  split
  · exact .inl rfl
  · split
    · next hclosed => exact .inr hclosed
    · split
      · exact .inl rfl
      · exact f.process_stops reply

/-- Handing out several responses stops at the first that ends the feed. -/
theorem Told.processAll (replies : List Reply) (h : f.Told read handled)
    (hstate : f.state = .connected) {first : Reply} (hfirst : f.first = .arrived first)
    (hpending : f.pending = none) :
    ∃ now, now <+: replies ∧ (f.processAll replies).1.query = f.query ∧
      (f.processAll replies).1.pending = none ∧
      (f.processAll replies).1.Told read (handled ++ now) ∧
      ((f.processAll replies).1.state = .connected ∧
          (f.processAll replies).1.first = .arrived first ∧ now = replies ∨
        (f.processAll replies).1.state = .closed ∧ (f.processAll replies).1.first ≠ .awaited) := by
  induction replies generalizing f handled with
  | nil =>
    exact ⟨[], List.nil_prefix, rfl, hpending, by rwa [List.append_nil], .inl ⟨hstate, hfirst, rfl⟩⟩
  | cons reply rest ih =>
    have hopen : f.state ≠ .closed := by simp [hstate]
    cases hreply : isEnd reply with
    | true =>
      obtain ⟨hfeed, hgoesOn⟩ := process_of_isEnd (f := f) hreply
      have hall : (f.processAll (reply :: rest)).1 = f.close.1 := by
        rw [Feed.processAll, ← hfeed]
        generalize f.process reply = result at hgoesOn ⊢
        obtain ⟨feed, notices, goesOn⟩ := result
        cases hgoesOn
        rfl
      rw [hall]
      refine ⟨[], List.nil_prefix, f.query_close, pending_close hpending, by simpa using h.close,
        .inr ⟨f.state_close, ?_⟩⟩
      exact first_close fun hclosed => absurd hclosed hopen
    | false =>
      obtain ⟨hgoesOn, hquery', hstate', hfirst', hpending', htold⟩ := h.process hopen hreply
      have hall : (f.processAll (reply :: rest)).1 = ((f.process reply).1.processAll rest).1 := by
        rw [Feed.processAll]
        generalize f.process reply = result at hgoesOn ⊢
        obtain ⟨feed, notices, goesOn⟩ := result
        cases hgoesOn
        rfl
      obtain ⟨now, hnow, hquery, hnone, hafter, hend⟩ :=
        ih htold (hstate'.trans hstate) (hfirst'.trans hfirst) (hpending'.trans hpending)
      rw [hall]
      refine ⟨reply :: now, List.cons_prefix_cons.mpr ⟨rfl, hnow⟩, hquery.trans hquery', hnone,
        by simpa using hafter, ?_⟩
      exact hend.imp (fun ⟨h₁, h₂, h₃⟩ => ⟨h₁, h₂, by rw [h₃]⟩) (fun h => h)

/-! ## The phases of a feed -/

theorem Phase.handled_prefix (h : f.Phase arrived handled) : handled <+: arrived.tail := by
  cases h with
  | unasked | asked | answered => exact List.nil_prefix
  | flowing => exact List.prefix_rfl
  | closed _ _ hhandled _ => exact hhandled

/-- Nothing is handed out behind a first response that does not complete the connection. -/
theorem Phase.opened (h : f.Phase arrived handled)
    (hsome : f.state = .connected ∨ handled ≠ []) :
    ∃ first ∈ arrived.head?, opens f.query.table first = true := by
  cases h with
  | unasked hstate => simp [hstate] at hsome
  | asked hstate => simp [hstate] at hsome
  | @answered first _ hstate =>
    refine ⟨first, rfl, (hstate.resolve_left fun hconnecting => ?_).2⟩
    simp [hconnecting] at hsome
  | @flowing first _ _ hopens => exact ⟨first, rfl, hopens⟩
  | closed hstate _ _ hopens => exact hopens (hsome.resolve_left (by simp [hstate]))

/-- Only these parts of a feed tell how far it has come. -/
theorem Phase.congr {f' : Feed} (h : f.Phase arrived handled) (hquery : f'.query = f.query)
    (hstate : f'.state = f.state) (hfirst : f'.first = f.first)
    (hpending : f'.pending = f.pending) : f'.Phase arrived handled := by
  cases h with
  | unasked h₁ h₂ h₃ => exact .unasked (hstate.trans h₁) (hfirst.trans h₂) (hpending.trans h₃)
  | asked h₁ h₂ h₃ => exact .asked (hstate.trans h₁) (hfirst.trans h₂) (hpending.trans h₃)
  | answered h₁ h₂ h₃ =>
    exact .answered (by rwa [hstate, hquery]) (hfirst.trans h₂) (hpending.trans h₃)
  | flowing h₁ h₂ h₃ h₄ =>
    exact .flowing (hstate.trans h₁) (hquery ▸ h₂) (hfirst.trans h₃) (hpending.trans h₄)
  | closed h₁ h₂ h₃ h₄ => exact .closed (hstate.trans h₁) (hfirst ▸ h₂) h₃ (by rwa [hquery])

/-- A connected feed has had its first response, which completed the connection; the others were
handed out or are kept back. -/
theorem Phase.of_connected (h : f.Phase arrived handled) (hstate : f.state = .connected) :
    ∃ first queue, f.first = .arrived first ∧ opens f.query.table first = true ∧
      arrived = first :: queue ∧ handled ++ f.pending.getD [] = queue := by
  cases h with
  | unasked hother => simp [hstate] at hother
  | asked hother => simp [hstate] at hother
  | @answered first queue hother hfirst hpending =>
    refine ⟨first, queue, hfirst, (hother.resolve_left ?_).2, rfl, by simp [hpending]⟩
    simp [hstate]
  | @flowing first _ _ hopens hfirst hpending =>
    exact ⟨first, handled, hfirst, hopens, rfl, by simp [hpending]⟩
  | closed hother => simp [hstate] at hother

theorem Phase.of_disconnected (h : f.Phase arrived handled) (hstate : f.state = .disconnected) :
    arrived = [] ∧ handled = [] ∧ f.pending = some [] := by
  cases h with
  | unasked _ _ hpending => exact ⟨rfl, rfl, hpending⟩
  | asked hother => simp [hstate] at hother
  | answered hother => simp [hstate] at hother
  | flowing hother => simp [hstate] at hother
  | closed hother => simp [hstate] at hother

/-- A feed has gone on: it may have handed out more, which it does only while it is connected, and
its state is as before or it was closed. -/
structure Advances (f f' : Feed) (read : List FeedEvent) (arrived handled handled' : List Reply) :
    Prop where
  phase : f'.Phase arrived handled'
  told : f'.Told read handled'
  query : f'.query = f.query
  /-- What is no longer kept back is not kept back again. -/
  flushed : f.pending = none → f'.pending = none
  handed : handled' = handled ∨ f.state = .connected
  state : f'.state = f.state ∨ f'.state = .closed

theorem Phase.close (h : f.Phase arrived handled) (htold : f.Told read handled) :
    Advances f f.close.1 read arrived handled handled := by
  refine ⟨.closed f.state_close (first_close fun hclosed => ?_) h.handled_prefix fun hsome => ?_,
    htold.close, f.query_close, pending_close, .inl rfl, .inr f.state_close⟩
  · cases h with
    | unasked hother => simp [hclosed] at hother
    | asked hother => simp [hclosed] at hother
    | answered hother => simp [hclosed] at hother
    | flowing hother => simp [hclosed] at hother
    | closed _ hfirst => exact hfirst
  · rw [query_close]
    exact h.opened (.inr hsome)

/-- What arrives later does not matter for a prefix of what arrived before. -/
theorem prefix_tail_append (h : handled <+: arrived.tail) (reply : Reply) :
    handled <+: (arrived ++ [reply]).tail := by
  cases arrived with
  | nil => simpa using h
  | cons first rest => exact h.trans (List.prefix_append rest [reply])

/-- A response that arrives is the first one, is kept back, is handed out, or closes the feed. -/
theorem Phase.deliver (h : f.Phase arrived handled) (htold : f.Told read handled)
    (hasked : f.state ≠ .disconnected) (reply : Reply) :
    ∃ handled', Advances f (f.deliver reply).1 read (arrived ++ [reply]) handled handled' := by
  cases h with
  | unasked hstate => exact absurd hstate hasked
  | asked hstate hfirst hpending =>
    have hdeliver : (f.deliver reply).1 = { f with first := .arrived reply } := by
      simp only [Feed.deliver, hfirst]
    rw [hdeliver]
    exact ⟨[], .answered (.inl hstate) rfl hpending, ⟨htold.ends, htold.hears, htold.last⟩, rfl,
      fun h => h, .inl rfl, .inl rfl⟩
  | @answered first queue hstate hfirst hpending =>
    have hopen : f.state ≠ .closed := by rcases hstate with h | ⟨h, -⟩ <;> simp [h]
    have hdeliver : (f.deliver reply).1 = { f with pending := some (queue ++ [reply]) } := by
      unfold Feed.deliver
      simp only [hpending, if_neg hopen]
      split
      · next h => simp [hfirst] at h
      · rfl
    rw [hdeliver]
    exact ⟨[], .answered hstate hfirst rfl, ⟨htold.ends, htold.hears, htold.last⟩, rfl,
      fun h => by simp [hpending] at h, .inl rfl, .inl rfl⟩
  | @flowing first _ hstate hopens hfirst hpending =>
    have hopen : f.state ≠ .closed := by simp [hstate]
    have hdeliver : f.deliver reply = f.process reply := by
      simp only [Feed.deliver, hfirst, if_neg hopen, hpending]
    rw [hdeliver]
    cases hreply : isEnd reply with
    | true =>
      rw [(process_of_isEnd hreply).1]
      refine ⟨handled, .closed f.state_close ?_ (List.prefix_append handled [reply]) fun _ => ?_,
        htold.close, f.query_close, pending_close, .inl rfl, .inr f.state_close⟩
      · exact first_close fun hclosed => absurd hclosed hopen
      · rw [query_close]
        exact ⟨first, rfl, hopens⟩
    | false =>
      obtain ⟨-, hquery', hstate', hfirst', hpending', hafter⟩ := htold.process hopen hreply
      refine ⟨handled ++ [reply], ?_, hafter, hquery', fun h => hpending'.trans h, .inr hstate,
        .inl hstate'⟩
      exact .flowing (hstate'.trans hstate) (hquery' ▸ hopens) (hfirst'.trans hfirst)
        (hpending'.trans hpending)
  | closed hstate hfirst hhandled hopens =>
    have hdeliver : (f.deliver reply).1 = f := by
      unfold Feed.deliver
      split
      · next h => exact absurd h hfirst
      · rw [if_pos hstate]
    rw [hdeliver]
    refine ⟨handled, .closed hstate hfirst (prefix_tail_append hhandled reply) fun hsome => ?_,
      htold, rfl, fun h => h, .inl rfl, .inl rfl⟩
    obtain ⟨first, hmem, hopens⟩ := hopens hsome
    exact ⟨first, by rw [List.head?_append, Option.mem_def.mp hmem]; rfl, hopens⟩

/-- Handing out what was kept back hands out all of it, unless something in it closes the feed.
Nothing is kept back then. -/
theorem Phase.flush (h : f.Phase arrived handled) (htold : f.Told read handled) :
    ∃ handled', Advances f f.flush.1 read arrived handled handled' ∧
      (f.flush.1.state = .connected → f.flush.1.pending = none) := by
  by_cases hstate : f.state = .connected
  · obtain ⟨first, queue, hfirst, hopens, rfl, hqueue⟩ := h.of_connected hstate
    have htold' : ({ f with pending := none } : Feed).Told read handled :=
      ⟨htold.ends, htold.hears, htold.last⟩
    obtain ⟨now, hnow, hquery, hpending', hafter, hend⟩ :=
      htold'.processAll (f.pending.getD []) hstate hfirst rfl
    rw [Feed.flush, if_pos hstate]
    rw [← hquery] at hopens
    refine ⟨handled ++ now, ⟨?_, hafter, hquery, fun _ => hpending', .inr hstate, ?_⟩,
      fun _ => hpending'⟩
    · rcases hend with ⟨hstate', hfirst', rfl⟩ | ⟨hstate', hfirst'⟩
      · rw [hqueue]
        exact .flowing hstate' hopens hfirst' hpending'
      · refine .closed hstate' hfirst' ?_ fun _ => ⟨first, rfl, hopens⟩
        rw [List.tail_cons, ← hqueue]
        exact (List.prefix_append_right_inj handled).mpr hnow
    · exact hend.imp (fun ⟨hstate', _⟩ => hstate'.trans hstate.symm) (fun ⟨hstate', _⟩ => hstate')
  · rw [Feed.flush, if_neg hstate]
    exact ⟨handled, ⟨h, htold, rfl, fun h => h, .inl rfl, .inl rfl⟩,
      fun hother => absurd hother hstate⟩

/-- A first response is accepted if it completes the connection. -/
theorem opens_of_readFirst {reply : Reply} {answer : Option String × List Record}
    (h : f.readFirst reply = .ok answer) : opens f.query.table reply = true := by
  cases reply with
  | error cause => cases h
  | ok response =>
    simp only [Feed.readFirst] at h
    split at h
    · cases h
    · next hcancel =>
      split at h
      · next rows hrows => simp [opens, hcancel, hrows]
      · cases h

/-- A first response is what the connection is completed with, or the feed is closed. -/
theorem Phase.finishConnect (h : f.Phase arrived handled) (htold : f.Told read handled)
    (hstate : f.state ≠ .connected) {reply : Reply} (hfirst : f.first = .arrived reply) :
    (∃ rows, (f.finishConnect reply).2.2 = .ok rows ∧ f.state = .connecting ∧
        (f.finishConnect reply).1.Phase arrived handled ∧
        (f.finishConnect reply).1.Told read handled ∧
        (f.finishConnect reply).1.query = f.query ∧
        (f.finishConnect reply).1.state = .connected) ∨
      (∃ e, (f.finishConnect reply).2.2 = .error e) ∧
        Advances f (f.finishConnect reply).1 read arrived handled handled := by
  unfold Feed.finishConnect
  cases hread : f.readFirst reply with
  | error e => exact .inr ⟨⟨e, rfl⟩, h.close htold⟩
  | ok answer =>
    obtain ⟨id, rows⟩ := answer
    by_cases hclosed : f.state = .closed
    · simp only [if_pos hclosed]
      exact .inr ⟨⟨_, rfl⟩, h, htold, rfl, fun h => h, .inl rfl, .inl rfl⟩
    · simp only [if_neg hclosed]
      cases h with
      | unasked _ hother => simp [hfirst] at hother
      | asked _ hother => simp [hfirst] at hother
      | answered hasked harrived hpending =>
        rw [hfirst] at harrived
        cases harrived
        refine .inl ⟨rows, rfl, hasked.resolve_right fun h => hstate h.1, ?_,
          ⟨htold.ends, fun _ => htold.hears hclosed, fun h => by cases h⟩, trivial, trivial⟩
        exact .answered (.inr ⟨rfl, opens_of_readFirst hread⟩) hfirst hpending
      | flowing hconnected => exact absurd hconnected hstate
      | closed hstate => exact absurd hstate hclosed

/-! ## Runs -/

namespace Life

/-- The phase of the feed, and what follows from it for the tasks. -/
structure InPhase (query : Query) (s : Life) (handled : List Reply) : Prop where
  phase : s.feed.Phase s.arrived handled
  told : s.feed.Told s.read handled
  query : s.feed.query = query
  pumping : s.pumping = true → s.feed.state ≠ .disconnected
  running : s.feed.state ≠ .disconnected → s.feed.state ≠ .closed → s.pumping = true
  /-- What a connected feed keeps back is still to be handed out. -/
  connected : s.feed.state = .connected →
    s.task = .flush ∨ s.task = .finished ∧ s.feed.pending = none

variable {query : Query} {s : Life}

theorem inPhase_start (query : Query) (timeout : Nat) (options : List Json) :
    InPhase query (start query timeout options) [] where
  phase := .unasked rfl rfl rfl
  told := ⟨fun _ h => absurd h List.not_mem_nil,
    fun _ => ⟨[], EventBus.hears_subscribe_empty, rfl⟩, fun h => by cases h⟩
  query := rfl
  pumping := fun h => by cases h
  running := fun hasked => absurd rfl hasked
  connected := fun h => by cases h

/-- A feed that has gone on and is connected keeps back no more than before. -/
theorem InPhase.stays_connected {handled handled' arrived : List Reply}
    (h : InPhase query s handled)
    {f : Feed} (hfeed : Advances s.feed f s.read arrived handled handled')
    (hconnected : f.state = .connected) :
    s.task = .flush ∨ s.task = .finished ∧ f.pending = none := by
  rcases hfeed.state with hstate | hstate
  · refine (h.connected (hstate.symm.trans hconnected)).imp (fun h => h) ?_
    exact fun ⟨htask, hpending⟩ => ⟨htask, hfeed.flushed hpending⟩
  · simp [hstate] at hconnected

/-- A feed that has gone on is in a phase again, whatever task it was that worked on it. -/
theorem InPhase.advance {handled handled' : List Reply} (h : InPhase query s handled) {s' : Life}
    (hfeed : Advances s.feed s'.feed s.read s'.arrived handled handled') (hread : s'.read = s.read)
    (hpumping : s'.pumping = true → s.pumping = true)
    (hrunning : s.pumping = true → s'.feed.state ≠ .closed → s'.pumping = true)
    (htask : s'.feed.state = .connected →
      s'.task = .flush ∨ s'.task = .finished ∧ s'.feed.pending = none) :
    InPhase query s' handled' where
  phase := hfeed.phase
  told := hread ▸ hfeed.told
  query := hfeed.query.trans h.query
  pumping := by
    intro hpump
    rcases hfeed.state with hstate | hstate
    · rw [hstate]
      exact h.pumping (hpumping hpump)
    · simp [hstate]
  running := by
    intro hasked hopen
    rcases hfeed.state with hstate | hstate
    · rw [hstate] at hasked
      exact hrunning (h.running hasked (hstate ▸ hopen)) hopen
    · exact absurd hstate hopen
  connected := htask

/-- Reading moves an event from the queue to what was read. -/
theorem InPhase.receive {handled : List Reply} (h : InPhase query s handled) :
    InPhase query (s.step .read) handled where
  phase := h.phase.congr rfl rfl rfl rfl
  query := h.query
  told := by
    refine ⟨h.told.ends, fun hopen => ?_, fun hclosed => ?_⟩
    · obtain ⟨queue, hqueue, hread⟩ := h.told.hears hopen
      obtain ⟨rest, hrest, hsplit⟩ := hqueue.receive
      refine ⟨rest, hrest, ?_⟩
      rw [← hread, ← hsplit, ← List.append_assoc]
      rfl
    · obtain ⟨queue, hqueue, hread⟩ := h.told.last hclosed
      obtain ⟨rest, hrest, hsplit⟩ := EventBus.queued_receive hqueue
      refine ⟨rest, hrest, ?_⟩
      rw [← hread, ← hsplit, ← List.append_assoc]
      rfl
  pumping := h.pumping
  running := h.running
  connected := h.connected

theorem InPhase.resume {handled : List Reply} (h : InPhase query s handled)
    (htask : s.task = .awaitFirst) : InPhase query s.resume handled := by
  have hstate : s.feed.state ≠ .connected := by
    intro hconnected
    rcases h.connected hconnected with hother | ⟨hother, -⟩ <;> simp [htask] at hother
  unfold Life.resume
  cases hfirst : s.feed.first with
  | unasked => exact h
  | awaited => exact h
  | lost =>
    exact h.advance ⟨h.phase, h.told, rfl, fun h => h, .inl rfl, .inl rfl⟩ rfl (fun h => h)
      (fun h _ => h) (fun hconnected => absurd hconnected hstate)
  | arrived reply =>
    have hfinish := h.phase.finishConnect h.told hstate hfirst
    dsimp only
    generalize s.feed.finishConnect reply = result at hfinish ⊢
    obtain ⟨feed, notices, outcome⟩ := result
    rcases hfinish with
      ⟨rows, houtcome, hconnecting, hphase, htold, hquery, hconnected⟩ | ⟨⟨e, houtcome⟩, hadvance⟩
    · cases houtcome
      change feed.state = .connected at hconnected
      refine ⟨hphase, htold, hquery.trans h.query, fun _ hother => ?_, fun _ _ => ?_,
        fun _ => .inl rfl⟩
      · simp [hconnected] at hother
      · exact h.running (by simp [hconnecting]) (by simp [hconnecting])
    · cases houtcome
      refine h.advance hadvance rfl (fun h => h) (fun h _ => h) fun hconnected => ?_
      rcases hadvance.state with hsame | hclosed
      · exact absurd (hsame.symm.trans hconnected) hstate
      · cases hconnected.symm.trans hclosed

theorem InPhase.connect {handled : List Reply} (h : InPhase query s handled) :
    InPhase query (s.step .connect) handled := by
  by_cases hstate : s.feed.state = .disconnected
  · simp only [Life.step, Feed.beginConnect, if_pos hstate]
    obtain ⟨harrived, rfl, hpending⟩ := h.phase.of_disconnected hstate
    have hopen : s.feed.state ≠ .closed := by simp [hstate]
    refine ⟨?_, ⟨h.told.ends, fun _ => h.told.hears hopen, fun h => by cases h⟩, h.query,
      fun _ => by simp, fun _ _ => rfl, fun h => by cases h⟩
    rw [harrived]
    exact .asked rfl rfl hpending
  · simpa only [Life.step, Feed.beginConnect, if_neg hstate] using h

/-- What one step leads to. Something is handed out only while the feed is connected. -/
theorem step_phase {handled : List Reply} (h : InPhase query s handled) (move : Move) :
    ∃ handled', InPhase query (s.step move) handled' ∧
      (handled' = handled ∨ s.feed.state = .connected) := by
  cases move with
  | connect => exact ⟨handled, h.connect, .inl rfl⟩
  | deliver reply =>
    by_cases hpumping : s.pumping = true
    · obtain ⟨handled', hadvance⟩ := h.phase.deliver h.told (h.pumping hpumping) reply
      rw [Life.step, if_pos hpumping]
      refine ⟨handled', h.advance hadvance rfl (fun _ => hpumping) (fun _ hopen => ?_)
        (h.stays_connected hadvance), hadvance.handed⟩
      exact (s.feed.deliver_stops reply).resolve_right hopen
    · rw [Life.step, if_neg hpumping]
      exact ⟨handled, h, .inl rfl⟩
  | endOfStream =>
    by_cases hpumping : s.pumping = true
    · rw [Life.step, if_pos hpumping]
      exact ⟨handled, h.advance (h.phase.close h.told) rfl (fun h => by cases h)
        (fun _ hopen => absurd s.feed.state_close hopen)
        (h.stays_connected (h.phase.close h.told)), .inl rfl⟩
    · rw [Life.step, if_neg hpumping]
      exact ⟨handled, h, .inl rfl⟩
  | resume =>
    by_cases htask : s.task = .awaitFirst
    · rw [Life.step, if_pos htask]
      exact ⟨handled, h.resume htask, .inl rfl⟩
    · rw [Life.step, if_neg htask]
      exact ⟨handled, h, .inl rfl⟩
  | flush =>
    by_cases htask : s.task = .flush
    · obtain ⟨handled', hadvance, hnone⟩ := h.phase.flush h.told
      rw [Life.step, if_pos htask]
      exact ⟨handled', h.advance hadvance rfl (fun h => h) (fun h _ => h)
        (fun hconnected => .inr ⟨rfl, hnone hconnected⟩), hadvance.handed⟩
    · rw [Life.step, if_neg htask]
      exact ⟨handled, h, .inl rfl⟩
  | close =>
    exact ⟨handled, h.advance (h.phase.close h.told) rfl (fun h => h) (fun h _ => h)
      (h.stays_connected (h.phase.close h.told)), .inl rfl⟩
  | read => exact ⟨handled, h.receive, .inl rfl⟩

/-- What a run leads to. Nothing is handed out before the feed was connected. -/
theorem run_phase {handled : List Reply} (h : InPhase query s handled) (moves : List Move) :
    ∃ handled', InPhase query (s.run moves) handled' ∧
      (handled' = handled ∨ ∃ part, part <+: moves ∧ (s.run part).feed.state = .connected) := by
  induction moves generalizing s handled with
  | nil => exact ⟨handled, h, .inl rfl⟩
  | cons move rest ih =>
    obtain ⟨next, hnext, hstep⟩ := step_phase h move
    obtain ⟨handled', hafter, hrest⟩ := ih hnext
    refine ⟨handled', hafter, ?_⟩
    rcases hstep with rfl | hconnected
    · refine hrest.imp (fun h => h) ?_
      rintro ⟨part, hpart, hconnected⟩
      exact ⟨move :: part, List.cons_prefix_cons.mpr ⟨rfl, hpart⟩, hconnected⟩
    · exact .inr ⟨[], List.nil_prefix, hconnected⟩

theorem InPhase.seen_eq {handled : List Reply} (h : InPhase query s handled) :
    s.seen = handled.filterMap update? ++ (if s.feed.state = .closed then [.close] else []) := by
  unfold seen
  split
  · next hclosed =>
    obtain ⟨queue, hqueue, hread⟩ := h.told.last hclosed
    rw [hqueue, Option.getD_some, hread]
  · next hopen =>
    obtain ⟨queue, hqueue, hread⟩ := h.told.hears hopen
    rw [hqueue.queued, Option.getD_some, hread, List.append_nil]

/-- What has become of the responses that arrived, with those that were handed out. -/
structure Delivers (table : String) (s : Life) (handled : List Reply) : Prop where
  /-- What was handed out is a beginning of the responses after the first. -/
  ordered : handled <+: s.arrived.tail
  /-- No error and no cancellation was handed out. -/
  ends : ∀ reply ∈ handled, isEnd reply = false
  /-- The subscriber was sent the changes of what was handed out, each once, and then the end. -/
  seen : s.seen = handled.filterMap update? ++ if s.feed.state = .closed then [.close] else []
  /-- Nothing follows a first response that does not complete the connection. -/
  refused : ∀ first ∈ s.arrived.head?, opens table first = false →
    handled = [] ∧ s.feed.state ≠ .connected
  /-- While the feed is connected the pump is running, and what was not handed out is kept back. -/
  kept : s.feed.state = .connected →
    s.pumping = true ∧ handled ++ s.feed.pending.getD [] = s.arrived.tail
  /-- Once a connected feed was flushed, all that has arrived after the first response was handed
  out. -/
  flushed : s.feed.state = .connected →
    s.task = .flush ∨ s.task = .finished ∧ handled = s.arrived.tail

theorem InPhase.delivers {handled : List Reply} (h : InPhase query s handled) :
    Delivers query.table s handled where
  ordered := h.phase.handled_prefix
  ends := h.told.ends
  seen := h.seen_eq
  refused := by
    intro first hfirst hrefused
    have hnot : ¬ (s.feed.state = .connected ∨ handled ≠ []) := by
      intro hsome
      obtain ⟨other, hother, hopens⟩ := h.phase.opened hsome
      cases hfirst.symm.trans hother
      rw [h.query, hrefused] at hopens
      cases hopens
    exact ⟨Classical.not_not.mp fun hsome => hnot (.inr hsome), fun hstate => hnot (.inl hstate)⟩
  kept := by
    intro hstate
    obtain ⟨first, queue, -, -, harrived, hqueue⟩ := h.phase.of_connected hstate
    refine ⟨h.running (by simp [hstate]) (by simp [hstate]), ?_⟩
    rw [harrived, List.tail_cons, hqueue]
  flushed := by
    intro hstate
    obtain ⟨first, queue, -, -, harrived, hqueue⟩ := h.phase.of_connected hstate
    refine (h.connected hstate).imp (fun h => h) fun ⟨htask, hpending⟩ => ⟨htask, ?_⟩
    rw [harrived, List.tail_cons, ← hqueue, hpending, Option.getD_none, List.append_nil]

/-- **Whatever the order of the steps, changes are handed out in order and each once.** After any
run there is a beginning of the responses after the first, none of which ends the feed, such that
the subscriber was sent their changes and then, if the feed is closed, that it is. They are none
if the feed was never connected, or if the first response was no answer to the query. While it is
connected the pump is running, and all that has arrived besides them is kept back: nothing, once
that was handed out. -/
theorem seen_run (query : Query) (timeout : Nat) (options : List Json) (moves : List Move) :
    ∃ handled, Delivers query.table ((start query timeout options).run moves) handled ∧
      ((∀ part, part <+: moves →
        ((start query timeout options).run part).feed.state ≠ .connected) → handled = []) := by
  obtain ⟨handled, hphase, hconnected⟩ := run_phase (inPhase_start query timeout options) moves
  refine ⟨handled, hphase.delivers, fun hnever => ?_⟩
  rcases hconnected with hnone | ⟨part, hpart, hstate⟩
  · exact hnone
  · exact absurd hstate (hnever part hpart)

/-- A change of a row with a number. -/
def sampleChange (id : Nat) : Change :=
  ⟨.update, some (SortedMap.empty.insert "id" (.ofNat id)), none⟩

/-- Two changes arrive while the feed connects and one after it was flushed; between them is an
answer without a change. -/
def sampleMoves : List Move :=
  [.connect, .deliver (.ok (.initial (some "q") "t" [])),
    .deliver (.ok (.ofChange (sampleChange 1))), .resume, .deliver (.ok .empty),
    .deliver (.ok (.ofChange (sampleChange 2))), .read, .flush, .read,
    .deliver (.ok (.ofChange (sampleChange 3)))]

/-- All changes are seen in the order they arrived; what follows a cancellation is not, nor what
follows a first response for another table. -/
theorem seen_run_sampleMoves :
    ((start (.all "t") 5 []).run sampleMoves).seen =
        [.update (sampleChange 1), .update (sampleChange 2), .update (sampleChange 3)] ∧
      ((start (.all "t") 5 []).run (sampleMoves ++ [.deliver (.ok .cancelled),
        .deliver (.ok (.ofChange (sampleChange 4))), .close])).seen =
        [.update (sampleChange 1), .update (sampleChange 2), .update (sampleChange 3), .close] ∧
      ((start (.all "u") 5 []).run sampleMoves).seen = [.close] := by
  obtain ⟨handled, h, -⟩ := seen_run (.all "t") 5 [] sampleMoves
  refine ⟨?_, rfl, ?_⟩
  · obtain ⟨-, hall⟩ := (h.flushed rfl).resolve_left (by decide +kernel)
    rw [h.seen, hall]
    rfl
  · obtain ⟨handled, h, -⟩ := seen_run (.all "u") 5 [] sampleMoves
    rw [h.seen, (h.refused _ rfl rfl).1]
    rfl

end Life

end Feed

end LiveDocs
