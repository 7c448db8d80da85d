import LiveDocs.Proofs.Table.Writes

/-!
# The connection of a table

Several tasks work on a table: calls that connect it and wait for the first rows of a feed, those
who hand it the changes and the end of a feed, and the calls of its writes. A table that has lost
its feed may be connected again, with another feed, while somebody still follows the old one. A
connect call may be dropped, and the table may be closed, at any time.

Whatever the order of the steps, the state of the table, its feed and the tasks stay in line
(`Table.Link`): connecting is left only by the call that has started it, a connected table has a
feed that somebody follows, and writes wait only in a connected table.

## Main definitions

* `Table.Life`, `Table.Move`, `Table.Life.step`: a table with the tasks that work on it, and their
  steps.
* `Table.Link`, `Table.Life.Linked`: the state of the connection, the feed, and who follows it.

## Main results

* `Table.feedClosed_drained`, `Table.close_drained`: a lost feed and closing fail all that waits.
* `Table.Life.Linked.step`: a step leaves the connection in line.
* `Table.Life.Linked.connected_of_waiting`: writes wait only in a connected table.
-/

namespace LiveDocs

namespace Table

/-! ## Single operations -/

/-- The call of a write that has an outcome returns it, whether its limit has passed or not. -/
theorem resumeWrite_of_settled {t : Table} {w : LocalWrite} {outcome : Except TableError Unit}
    (h : t.settled.get? w.number = some outcome) (passed : Option Nat) :
    ∃ t' notices, t.resumeWrite w passed = some (outcome, t', notices) := by
  cases outcome with
  | ok => simp [resumeWrite, takeOutcome?, h]
  | error cause =>
    simp only [resumeWrite, takeOutcome?, h, Option.map_some, Option.some.injEq, Prod.mk.injEq,
      true_and]
    exact ⟨_, _, rfl⟩

/-- The call of a write that has no outcome waits until its limit has passed. -/
theorem resumeWrite_of_unsettled {t : Table} {w : LocalWrite}
    (h : t.settled.get? w.number = none) :
    t.resumeWrite w none = none ∧
      ∀ limit, ∃ t' notices,
        t.resumeWrite w (some limit) = some (.error (.timeout limit), t', notices) := by
  refine ⟨by simp [resumeWrite, takeOutcome?, h], fun limit => ?_⟩
  simp only [resumeWrite, takeOutcome?, h, Option.map_none, Option.map_some, Option.some.injEq,
    Prod.mk.injEq, true_and]
  exact ⟨_, _, rfl⟩

theorem settle_of_waiting {t : Table} {n : Nat} (h : n ∈ t.waiting)
    (outcome : Except TableError Unit) :
    t.settle n outcome =
      ({ t with waiting := t.waiting.filter (· != n), settled := t.settled.insert n outcome },
        [.outcome n]) := by
  simp [settle, h]

/-- An answer to a write that does not wait has no effect. -/
theorem settle_of_not_waiting {t : Table} {n : Nat} (h : n ∉ t.waiting)
    (outcome : Except TableError Unit) : t.settle n outcome = (t, []) := by
  simp [settle, h]

theorem get?_foldl_insert_const (numbers : List Nat) (outcome : Except TableError Unit)
    (m : SortedMap Nat (Except TableError Unit)) (n : Nat) :
    (numbers.foldl (fun m w => m.insert w outcome) m).get? n =
      if n ∈ numbers then some outcome else m.get? n := by
  induction numbers generalizing m with
  | nil => simp
  | cons number numbers ih =>
    rw [List.foldl_cons, ih, SortedMap.get?_insert]
    by_cases hn : n = number <;> simp [hn]

/-- A step after which nothing waits: all writes that have waited have failed in the same way, and
those who wait for them are told. -/
structure Drained (t : Table) (e : TableError) (result : Table × List TableNotice) : Prop where
  feed : result.1.feed = none
  waiting : result.1.waiting = []
  settled : ∀ n, result.1.settled.get? n =
    if n ∈ t.waiting then some (.error e) else t.settled.get? n
  nextWrite : result.1.nextWrite = t.nextWrite
  told : ∀ n ∈ t.waiting, .outcome n ∈ result.2

/-- A lost feed of the table fails all writes that wait. -/
theorem feedClosed_drained {t : Table} {feed : FeedId} (hfeed : t.feed = some feed)
    (hopen : t.state ≠ .closed) :
    Drained t .disconnected (t.feedClosed feed) ∧ (t.feedClosed feed).1.state = .disconnected := by
  simp only [feedClosed, forgetFeed, hfeed, hopen, if_true, if_false, failWaiting, emit]
  exact ⟨⟨rfl, rfl, get?_foldl_insert_const _ _ _, rfl, by simp⟩, trivial⟩

/-- Closing a table fails all writes that wait. -/
theorem close_drained {t : Table} (hopen : t.state ≠ .closed) :
    Drained t .closed t.close ∧ t.close.1.state = .closed := by
  simp only [close, hopen, if_false, failWaiting, emit]
  exact ⟨⟨rfl, rfl, get?_foldl_insert_const _ _ _, rfl, by simp⟩, trivial⟩

/-! ## A table and the tasks that work on it -/

/-- A table with the tasks that work on it. -/
structure Life where
  table : Table
  /-- The feeds of the connect calls that have not returned. -/
  attempts : List FeedId
  /-- The feeds whose changes are handed to the table. -/
  followed : List FeedId
  nextFeed : FeedId
  /-- The writes whose calls have not returned. -/
  calls : List LocalWrite
  /-- What the calls of writes have returned, with the numbers of the writes. -/
  returned : List (Nat × Except TableError Unit)
  /-- All notices so far. -/
  notices : List TableNotice

/-- A step of one of the tasks, or of whoever uses the table. -/
inductive Move where
  | connect
  /-- The feed of a connect call cannot be connected. -/
  | feedFailed (feed : FeedId)
  /-- The feed of a connect call has its first rows. -/
  | feedConnected (feed : FeedId) (rows : List Record)
  /-- A connect call is dropped, because somebody has waited too long for it. -/
  | abandon (feed : FeedId)
  /-- A change of a feed is handed to the table. -/
  | change (feed : FeedId) (c : Change)
  /-- The end of a feed is handed to the table, and nothing after it. -/
  | lose (feed : FeedId)
  | close
  /-- A write is started, plain or conditional; the condition is left to the data layer. -/
  | start (record : Record)
  /-- The answer to a write comes in, or the sender of the answer is lost. -/
  | answer (number : Nat) (reply : Option Reply)
  /-- The call of a write goes on, perhaps because its limit has passed. -/
  | resume (number : Nat) (passed : Option Nat)

namespace Life

def start (schema : Schema) (query : Query) (settings : Settings) : Life where
  table := .new schema query settings
  attempts := []
  followed := []
  nextFeed := 0
  calls := []
  returned := []
  notices := []

/-- The table makes a step. -/
def act (s : Life) (result : Table × List TableNotice) : Life :=
  { s with table := result.1, notices := s.notices ++ result.2 }

/-- One step. A step that is not to be done now changes nothing. -/
def step (s : Life) : Move → Life
  | .connect =>
    match s.table.beginConnect with
    | .error _ => s
    | .ok table =>
      { s.act ({ table with feed := some s.nextFeed }, [.state]) with
        attempts := s.attempts ++ [s.nextFeed]
        nextFeed := s.nextFeed + 1 }
  | .feedFailed feed =>
    if feed ∈ s.attempts then
      { s.act (s.table.connectFailed feed) with attempts := s.attempts.filter (· != feed) }
    else s
  | .feedConnected feed rows =>
    if feed ∈ s.attempts then
      match s.table.finishConnect rows with
      | .error _ => { s with attempts := s.attempts.filter (· != feed) }
      | .ok result =>
        { s.act result with
          attempts := s.attempts.filter (· != feed)
          followed := s.followed ++ [feed] }
    else s
  | .abandon feed => { s with attempts := s.attempts.filter (· != feed) }
  | .change feed c => if feed ∈ s.followed then s.act (s.table.applyChange c) else s
  | .lose feed =>
    if feed ∈ s.followed then
      { s.act (s.table.feedClosed feed) with followed := s.followed.filter (· != feed) }
    else s
  | .close => s.act s.table.close
  | .start record =>
    match s.table.beginWrite record with
    | .error _ => s
    | .ok (table, notices, w) => { s.act (table, notices) with calls := s.calls ++ [w] }
  | .answer number reply => s.act (s.table.settle number (writeOutcome reply))
  | .resume number passed =>
    match s.calls.find? (·.number == number) with
    | none => s
    | some w =>
      match s.table.resumeWrite w passed with
      | none => s
      | some (outcome, table, notices) =>
        { s.act (table, notices) with
          calls := s.calls.filter (·.number != number)
          returned := s.returned ++ [(number, outcome)] }

def run (s : Life) (moves : List Move) : Life := moves.foldl step s

end Life

/-! ## The connection -/

/-- How far the connection has come, and who works on it: connecting is left only by the call that
has started it, and a connected table has a feed that somebody follows. -/
inductive Link (s : Life) : Prop where
  | disconnected (hstate : s.table.state = .disconnected) (hfeed : s.table.feed = none)
      (hattempts : ∀ feed, feed ∉ s.attempts) (hwaiting : s.table.waiting = [])
  | connecting {feed : FeedId} (hstate : s.table.state = .connecting)
      (hfeed : s.table.feed = some feed) (hattempts : ∀ f ∈ s.attempts, f = feed)
      (hfollowed : feed ∉ s.followed) (hnext : feed < s.nextFeed) (hwaiting : s.table.waiting = [])
  | connected {feed : FeedId} (hstate : s.table.state = .connected)
      (hfeed : s.table.feed = some feed) (hattempts : ∀ feed, feed ∉ s.attempts)
      (hfollowed : feed ∈ s.followed)
  | closed (hstate : s.table.state = .closed) (hfeed : s.table.feed = none)
      (hwaiting : s.table.waiting = [])

/-- A step that leaves the connection and lets no write wait that would not. -/
theorem Link.congr {s s' : Life} (h : Link s) (hstate : s'.table.state = s.table.state)
    (hfeed : s'.table.feed = s.table.feed) (hattempts : ∀ feed ∈ s'.attempts, feed ∈ s.attempts)
    (hfollowed : s'.followed = s.followed) (hnext : s'.nextFeed = s.nextFeed)
    (hwaiting : s.table.state ≠ .connected → s.table.waiting = [] → s'.table.waiting = []) :
    Link s' := by
  cases h with
  | disconnected h₁ h₂ h₃ h₄ =>
    exact .disconnected (hstate.trans h₁) (hfeed.trans h₂) (fun f hf => h₃ f (hattempts f hf))
      (hwaiting (by simp [h₁]) h₄)
  | connecting h₁ h₂ h₃ h₄ h₅ h₆ =>
    exact .connecting (hstate.trans h₁) (hfeed.trans h₂) (fun f hf => h₃ f (hattempts f hf))
      (hfollowed ▸ h₄) (hnext ▸ h₅) (hwaiting (by simp [h₁]) h₆)
  | connected h₁ h₂ h₃ h₄ =>
    exact .connected (hstate.trans h₁) (hfeed.trans h₂) (fun f hf => h₃ f (hattempts f hf))
      (hfollowed ▸ h₄)
  | closed h₁ h₂ h₃ =>
    exact .closed (hstate.trans h₁) (hfeed.trans h₂) (hwaiting (by simp [h₁]) h₃)

namespace Life

/-- The connection of a table is in line, and the feeds that are followed have old numbers. -/
structure Linked (s : Life) : Prop where
  link : Link s
  old : ∀ feed ∈ s.followed, feed < s.nextFeed

namespace Linked

variable {s : Life}

/-- A step of the table that leaves its connection, whatever becomes of the calls of writes. -/
theorem act (hs : s.Linked) {parts : List Part} {result : Table × List TableNotice}
    (h : Alters parts s.table result.1) (hrest : Part.connection ∉ parts)
    (hwaiting : s.table.state ≠ .connected → s.table.waiting = [] → result.1.waiting = [])
    (calls : List LocalWrite) (returned : List (Nat × Except TableError Unit)) :
    ({ s.act result with calls, returned } : Life).Linked :=
  ⟨hs.link.congr (h.state hrest) (h.feed hrest) (fun _ h => h) rfl rfl hwaiting, hs.old⟩

/-- A table with writes that wait is connected, and its feed is followed. -/
theorem connected_of_waiting (hs : s.Linked) (h : s.table.waiting ≠ []) :
    s.table.state = .connected ∧ ∃ feed ∈ s.followed, s.table.feed = some feed := by
  cases hs.link with
  | disconnected _ _ _ hwaiting => exact absurd hwaiting h
  | connecting _ _ _ _ _ hwaiting => exact absurd hwaiting h
  | connected hstate hfeed _ hfollowed => exact ⟨hstate, _, hfollowed, hfeed⟩
  | closed _ _ hwaiting => exact absurd hwaiting h

/-- A table that has a feed is not closed. -/
theorem open_of_feed (hs : s.Linked) {feed : FeedId} (hfeed : s.table.feed = some feed) :
    s.table.state ≠ .closed := by
  cases hs.link with
  | disconnected hstate => simp [hstate]
  | connecting hstate => simp [hstate]
  | connected hstate => simp [hstate]
  | closed _ hnone => simp [hnone] at hfeed

theorem connect (hs : s.Linked) : (s.step .connect).Linked := by
  simp only [Life.step]
  cases hs.link with
  | disconnected hstate hfeed hattempts hwaiting =>
    simp only [beginConnect, hstate]
    refine ⟨.connecting rfl rfl ?_ ?_ (Nat.lt_succ_self _) hwaiting, fun feed hfeed => ?_⟩
    · intro feed hf
      rcases List.mem_append.mp hf with hf | hf
      · exact absurd hf (hattempts feed)
      · exact List.mem_singleton.mp hf
    · exact fun hf => Nat.lt_irrefl _ (hs.old _ hf)
    · exact Nat.lt_succ_of_lt (hs.old feed hfeed)
  | connecting hstate => simpa only [beginConnect, hstate] using hs
  | connected hstate => simpa only [beginConnect, hstate] using hs
  | closed hstate => simpa only [beginConnect, hstate] using hs

theorem feedFailed (hs : s.Linked) (feed : FeedId) : (s.step (.feedFailed feed)).Linked := by
  simp only [Life.step]
  split
  · next hmem =>
    refine ⟨?_, hs.old⟩
    cases hs.link with
    | disconnected _ _ hattempts => exact absurd hmem (hattempts feed)
    | connecting hstate hfeed hattempts _ _ hwaiting =>
      obtain rfl := hattempts feed hmem
      refine .disconnected ?_ ?_ (fun f hf => ?_) ?_
      · simp [Life.act, connectFailed, forgetFeed, hfeed, hstate]
      · simp [Life.act, connectFailed, forgetFeed, hfeed, hstate]
      · obtain ⟨hf, hne⟩ := List.mem_filter.mp hf
        simp [hattempts f hf] at hne
      · simp [Life.act, connectFailed, forgetFeed, hfeed, hstate, hwaiting]
    | connected _ _ hattempts => exact absurd hmem (hattempts feed)
    | closed hstate hfeed hwaiting =>
      refine .closed ?_ ?_ ?_ <;>
        simp [Life.act, connectFailed, forgetFeed, hfeed, hstate, hwaiting]
  · exact hs

theorem feedConnected (hs : s.Linked) (feed : FeedId) (rows : List Record) :
    (s.step (.feedConnected feed rows)).Linked := by
  simp only [Life.step]
  split
  · next hmem =>
    cases hs.link with
    | disconnected _ _ hattempts => exact absurd hmem (hattempts feed)
    | connecting hstate hfeed hattempts _ hnext =>
      obtain rfl := hattempts feed hmem
      simp only [finishConnect, hstate]
      refine ⟨.connected rfl hfeed (fun f hf => ?_) ?_, fun f hf => ?_⟩
      · obtain ⟨hf, hne⟩ := List.mem_filter.mp hf
        simp [hattempts f hf] at hne
      · exact List.mem_append_right _ (List.mem_singleton_self _)
      · rcases List.mem_append.mp hf with hf | hf
        · exact hs.old f hf
        · exact List.mem_singleton.mp hf ▸ hnext
    | connected _ _ hattempts => exact absurd hmem (hattempts feed)
    | closed hstate hfeed hwaiting =>
      simp only [finishConnect, hstate, if_true]
      exact ⟨.closed hstate hfeed hwaiting, hs.old⟩
  · exact hs

theorem abandon (hs : s.Linked) (feed : FeedId) : (s.step (.abandon feed)).Linked :=
  ⟨hs.link.congr rfl rfl (fun _ hf => (List.mem_filter.mp hf).1) rfl rfl fun _ h => h, hs.old⟩

theorem lose (hs : s.Linked) (feed : FeedId) : (s.step (.lose feed)).Linked := by
  simp only [Life.step]
  split
  · next hmem =>
    refine ⟨?_, fun f hf => hs.old f (List.mem_filter.mp hf).1⟩
    by_cases hfeed : s.table.feed = some feed
    · obtain ⟨hdrained, hstate⟩ := feedClosed_drained hfeed (hs.open_of_feed hfeed)
      refine .disconnected hstate hdrained.feed ?_ hdrained.waiting
      cases hs.link with
      | disconnected _ _ hattempts => exact hattempts
      | connecting _ hfeed' _ hfollowed =>
        rw [hfeed] at hfeed'
        exact absurd (Option.some.inj hfeed' ▸ hmem) hfollowed
      | connected _ _ hattempts => exact hattempts
      | closed _ hnone => simp [hfeed] at hnone
    · rw [feedClosed_of_ne hfeed]
      cases hs.link with
      | disconnected hstate hfeed hattempts hwaiting =>
        exact .disconnected hstate hfeed hattempts hwaiting
      | connecting hstate hfeed hattempts hfollowed hnext hwaiting =>
        exact .connecting hstate hfeed hattempts
          (fun hf => hfollowed (List.mem_filter.mp hf).1) hnext hwaiting
      | connected hstate hfeed' hattempts hfollowed =>
        -- The feed of the table is another one than the lost one, and is still followed.
        refine .connected hstate hfeed' hattempts (List.mem_filter.mpr ⟨hfollowed, ?_⟩)
        simp only [bne_iff_ne, ne_eq]
        rintro rfl
        exact hfeed hfeed'
      | closed hstate hfeed hwaiting => exact .closed hstate hfeed hwaiting
  · exact hs

theorem close (hs : s.Linked) : (s.step .close).Linked := by
  refine ⟨?_, hs.old⟩
  by_cases hstate : s.table.state = .closed
  · simp only [Life.step, close_of_closed hstate]
    exact hs.link.congr rfl rfl (fun _ h => h) rfl rfl fun _ h => h
  · obtain ⟨hdrained, hclosed⟩ := close_drained hstate
    exact .closed hclosed hdrained.feed hdrained.waiting

theorem start (hs : s.Linked) (record : Record) : (s.step (.start record)).Linked := by
  simp only [Life.step]
  split
  · exact hs
  · next t notices w hok =>
    have hstate := (beginWrite_waits hok).1
    exact hs.act (alters_beginWrite hok) (by decide) (fun hne => absurd hstate hne) _ _

theorem answer (hs : s.Linked) (number : Nat) (reply : Option Reply) :
    (s.step (.answer number reply)).Linked := by
  refine hs.act (s.table.alters_settle number (writeOutcome reply)) (by decide) (fun _ h => ?_) _ _
  unfold settle
  split
  · simp [h]
  · exact h

theorem resume (hs : s.Linked) (number : Nat) (passed : Option Nat) :
    (s.step (.resume number passed)).Linked := by
  simp only [Life.step]
  split
  · exact hs
  · next w _ =>
    split
    · exact hs
    · next outcome t notices hreturns =>
      refine hs.act (alters_resumeWrite hreturns) (by decide) (fun _ h => ?_) _ _
      obtain ⟨t₁, -, hrows, htaken, -⟩ := resumeWrite_cases hreturns
      refine (hrows.waiting (by decide)).trans ?_
      rcases htaken with ⟨-, rfl⟩ | ⟨-, -, rfl⟩
      · exact h
      · simp [expire, h]

theorem step (hs : s.Linked) (m : Move) : (s.step m).Linked := by
  cases m with
  | connect => exact hs.connect
  | feedFailed feed => exact hs.feedFailed feed
  | feedConnected feed rows => exact hs.feedConnected feed rows
  | abandon feed => exact hs.abandon feed
  | change feed c =>
    have hrows := s.table.alters_applyChange c
    simp only [Life.step]
    split
    · exact hs.act hrows (by decide) (fun _ h => (hrows.waiting (by decide)).trans h) _ _
    · exact hs
  | lose feed => exact hs.lose feed
  | close => exact hs.close
  | start record => exact hs.start record
  | answer number reply => exact hs.answer number reply
  | resume number passed => exact hs.resume number passed

end Linked

end Life

end Table

end LiveDocs
