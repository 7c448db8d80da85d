import LiveDocs.Proofs.Engine.Runs

/-!
# Sessions connect lost tables only

A session has a table of its own and connects it again whenever it hears that the connection was
lost. It hears of a loss later than it happens, so an old report that is read when the table is
connected again would make it try to connect forever. This never happens, as long as nobody else
connects the table (`Engine.reconnects_run`): whenever a session is about to connect its table, the
table is disconnected or closed.

The invariant (`Engine.Owned`) goes by the stages of a session. While it connects, or waits to try
again, there is no report of a loss that it has yet to hear; while it follows its table, there is at
most one, and only if the table is disconnected and has no feed that could be lost once more.

## Main definitions

* `Table.IsAt`: how the table of a session stands in a stage of the session.
* `Job.Serves`: a job of the session of a table.
* `Engine.Owned`, `Engine.Reserved`: the invariant, for a table with a session and for any table.
* `Engine.Reconnects`: what is said of a session that connects its table.

## Main results

* `Table.Motion.isAt`: what all others do leaves the table as it stands.
* `Engine.look_upholds`: what the session itself does takes it from stage to stage.
* `Engine.reconnects_run`: a session connects its table only when it is disconnected or closed.
-/

namespace LiveDocs

/-! ## Stages -/

/-- The stages of a session. -/
inductive SessionStage where
  /-- It is about to connect its table, or waits before it does. -/
  | idle
  /-- It waits for the first response of a feed. -/
  | seeking (feed : FeedId)
  /-- It follows the events of its table. -/
  | following

namespace Table

/-- How the table of a session stands in a stage of the session, which listens with a
subscription. -/
def IsAt (t : Table) (sub : Nat) (stage : SessionStage) : Prop :=
  t.state = .closed ∨
    match stage with
    | .idle => t.state = .disconnected ∧ t.feed = none ∧ t.losses sub = 0
    | .seeking feed => t.state = .connecting ∧ t.feed = some feed ∧ t.losses sub = 0
    | .following =>
      t.state = .connected ∧ t.losses sub = 0 ∨
        t.state = .disconnected ∧ t.feed = none ∧ t.losses sub ≤ 1

variable {t t' : Table} {sub : Nat} {stage : SessionStage}

/-- What leaves the connection of a table alone leaves it at its stage. Losses that were read are
fewer to hear of, which does no harm. -/
theorem Alters.isAt {parts : List Part} (h : Alters parts t t') (hrest : Part.connection ∉ parts)
    (horderly : t.events.Orderly) (ht : t.IsAt sub stage) : t'.IsAt sub stage := by
  have hlosses := h.losses hrest horderly sub
  unfold IsAt at ht ⊢
  rw [h.state hrest, h.feed hrest]
  refine ht.imp_right fun ht => ?_
  cases stage with
  | idle => exact ⟨ht.1, ht.2.1, by omega⟩
  | seeking feed => exact ⟨ht.1, ht.2.1, by omega⟩
  | following =>
    rcases ht with ⟨hstate, hnone⟩ | ⟨hstate, hfeed, hone⟩
    · exact .inl ⟨hstate, by omega⟩
    · exact .inr ⟨hstate, hfeed, by omega⟩

/-- The feed of a connected table is lost. -/
theorem isAt_feedClosed (horderly : t.events.Orderly) {feed : FeedId} (hfeed : t.feed = some feed)
    (hstate : t.state = .connected) (hlosses : t.losses sub = 0) :
    (t.feedClosed feed).1.IsAt sub .following := by
  let t₁ : Table :=
    ({ t with state := .disconnected, feed := none } : Table).failWaiting .disconnected |>.1
  have heq : (t.feedClosed feed).1 = t₁.emit .disconnected := by
    simp [feedClosed, forgetFeed, hfeed, hstate, t₁]
  have hle := losses_emit_le (t := t₁) horderly .disconnected sub
  have hlosses₁ : t₁.losses sub = 0 := hlosses
  rw [heq]
  exact .inr (.inr ⟨rfl, rfl, by simp only [if_true] at hle; omega⟩)

/-- What all others do leaves the table of a session as it stands. -/
theorem Motion.isAt {seeks : Prop} {follows : FeedId → Prop} (h : Motion seeks follows t t')
    (hseeks : ¬ seeks) (hfollows : ∀ feed, stage = .seeking feed → ¬ follows feed)
    (horderly : t.events.Orderly) (ht : t.IsAt sub stage) : t'.IsAt sub stage := by
  by_cases hclosed : t.state = .closed
  · exact .inl (h.closed hclosed)
  cases h with
  | rest h hrest => exact h.isAt hrest horderly ht
  | seek h => exact absurd h hseeks
  | close => exact .inl t.state_close
  | @lose feed h =>
    by_cases hfeed : t.feed = some feed
    · have ht := ht.resolve_left hclosed
      cases stage with
      | idle => simp [ht.2.1] at hfeed
      | seeking feed' =>
        rw [ht.2.1, Option.some.injEq] at hfeed
        exact absurd (hfeed ▸ h) (hfollows feed' rfl)
      | following =>
        rcases ht with ⟨hstate, hlosses⟩ | ⟨-, hnone, -⟩
        · exact isAt_feedClosed horderly hfeed hstate hlosses
        · simp [hnone] at hfeed
    · rw [feedClosed_of_ne hfeed]
      exact ht

/-- A table that starts to connect gets the feed that the session waits for. -/
theorem isAt_beginConnect (ht : t.IsAt sub .idle) (h : t.beginConnect = .ok t') (feed : FeedId) :
    ({ t' with feed := some feed } : Table).IsAt sub (.seeking feed) := by
  unfold beginConnect at h
  split at h
  · next hstate =>
    cases h
    have hidle := ht.resolve_left (by simp [hstate])
    exact .inr ⟨rfl, rfl, hidle.2.2⟩
  · cases h
  · cases h

/-- After a failed attempt there is no feed and nothing to hear of, so the session may wait. -/
theorem isAt_connectFailed {feed : FeedId} (ht : t.IsAt sub (.seeking feed)) :
    (t.connectFailed feed).1.IsAt sub .idle := by
  rcases ht with hclosed | ⟨hconnecting, hfeed, hlosses⟩
  · exact .inl ((t.alters_connectFailed feed).closed.mpr hclosed)
  · right
    simpa [connectFailed, forgetFeed, hfeed, hconnecting, losses] using hlosses

/-- A table that is connected reports that, which is no loss. -/
theorem isAt_finishConnect {feed : FeedId} (horderly : t.events.Orderly)
    (ht : t.IsAt sub (.seeking feed)) {rows : List Record} {notices : List TableNotice}
    (h : t.finishConnect rows = .ok (t', notices)) : t'.IsAt sub .following := by
  unfold finishConnect at h
  split at h
  · cases h
  · next hopen =>
    cases h
    have hseeking := ht.resolve_left hopen
    have hlosses := hseeking.2.2
    refine .inr (.inl ⟨rfl, ?_⟩)
    have hle := losses_emit_le (t := { t with state := .connected }) horderly .connected sub
    simp only [losses, emit] at hle hlosses ⊢
    simpa [hlosses] using hle

/-- A session that hears of a loss has a disconnected table, and there is no other loss to hear
of. -/
theorem isAt_receive (ht : t.IsAt sub .following)
    (h : (t.events.receive sub).1 = some .disconnected) :
    ({ t with events := (t.events.receive sub).2 } : Table).IsAt sub .idle := by
  refine ht.imp_right fun ht => ?_
  rw [EventBus.receive_fst] at h
  obtain ⟨rest, hunread⟩ : ∃ rest, t.events.unread sub = .disconnected :: rest := by
    cases hlist : t.events.unread sub with
    | nil => simp [hlist] at h
    | cons event rest => exact ⟨rest, by simpa [hlist] using h⟩
  have hlosses : t.losses sub = rest.count .disconnected + 1 := by simp [losses, hunread]
  rcases ht with ⟨-, hnone⟩ | ⟨hstate, hfeed, hone⟩
  · omega
  · refine ⟨hstate, hfeed, ?_⟩
    simp only [losses, EventBus.unread_receive, if_true, hunread, List.tail_cons]
    omega

/-- Only a closed table refuses the rows of its feed. -/
theorem eq_closed_of_finishConnect {rows : List Record} {cause : TableError}
    (h : t.finishConnect rows = .error cause) : cause = .closed := by
  unfold finishConnect at h
  split at h <;> cases h
  rfl

end Table

/-- What answers a feed that connects is never that it is not disconnected. -/
theorem Feed.finishConnect_ne (f : Feed) (reply : Reply) (state : ConnectionState) :
    (f.finishConnect reply).2.2 ≠ .error (.notDisconnected state) := by
  have hread : f.readFirst reply ≠ .error (.notDisconnected state) := by
    unfold readFirst
    repeat' split
    all_goals simp
  unfold finishConnect
  split
  · next hcause => simpa [hcause] using hread
  · split <;> simp

/-- A job of the session of a table, with its stage and its subscription to the table. -/
inductive Job.Serves (table : TableId) : Job → SessionStage → Nat → Prop
  | connect (s : Session) (delay : Nat) (isFirst : Bool) (h : s.table = table) :
      Serves table (.connect table (.session s delay isFirst)) .idle s.events
  | sleep (s : Session) (wakeAt delay : Nat) (isFirst : Bool) (h : s.table = table) :
      Serves table (.sleep s wakeAt delay isFirst) .idle s.events
  | connectFeed (feed : FeedId) (sub : Nat) (s : Session) (delay : Nat) (isFirst : Bool)
      (h : s.table = table) :
      Serves table (.connectFeed feed (.table table sub (.session s delay isFirst))) (.seeking feed)
        s.events
  | awaitFirst (feed : FeedId) (sub : Nat) (s : Session) (delay : Nat) (isFirst : Bool)
      (h : s.table = table) :
      Serves table (.awaitFirst feed (.table table sub (.session s delay isFirst))) (.seeking feed)
        s.events
  | followRows (s : Session) (h : s.table = table) :
      Serves table (.followRows s) .following s.events

theorem Job.Grounded.contains_feed {job : Job} {e : Engine} (h : job.Grounded e) {table : TableId}
    {feed : FeedId} (hfollows : job.Follows table feed) : e.feeds.contains feed = true := by
  unfold Follows at hfollows
  split at hfollows
  · rw [hfollows.2]
    exact h
  · exact hfollows.elim

section Calls

variable {job : Job} (h : job.isCall = true)
include h

theorem Job.session?_of_isCall : job.session? = none := by
  unfold isCall at h
  split at h
  any_goals rfl
  cases h

/-- A call connects a table only if it says so. -/
theorem Job.eq_connect_of_isCall {table : TableId} (hclaims : job.Claims table) :
    ∃ call, job = .connect table (.call call) := by
  cases job with
  | connect t next =>
    cases next with
    | call call =>
      rcases hclaims with rfl | hclaims
      · exact ⟨call, rfl⟩
      · exact hclaims.elim
    | _ => cases h
  | connectFeed feed next =>
    cases next with
    | call => exact hclaims.elim
    | table => cases h
  | awaitFirst | reconnectTables | followRows | sleep => cases h
  | _ => exact hclaims.elim

theorem Job.not_follows_of_isCall (table : TableId) (feed : FeedId) : ¬ job.Follows table feed := by
  unfold isCall at h
  split at h
  any_goals exact id
  cases h

end Calls

namespace Job.Serves

variable {job : Job} {table table' : TableId} {stage stage' : SessionStage} {sub sub' : Nat}

/-- A job tells its stage and its subscription. -/
theorem unique (h : job.Serves table stage sub) (h' : job.Serves table' stage' sub') :
    table = table' ∧ stage = stage' ∧ sub = sub' := by
  cases h <;> cases h' <;> simp_all

/-- Whoever serves a table may connect it. -/
theorem claims (h : job.Serves table stage sub) : job.Claims table := by
  cases h with
  | connect | connectFeed | awaitFirst => exact .inl rfl
  | sleep _ _ _ _ h | followRows _ h => exact h.symm

theorem not_follows (h : job.Serves table stage sub) (table' : TableId) (feed : FeedId) :
    ¬ job.Follows table' feed := by
  cases h <;> exact id

theorem session (h : job.Serves table stage sub) :
    ∃ s, job.session? = some s ∧ s.table = table ∧ s.events = sub := by
  cases h with
  | connect s _ _ h | sleep s _ _ _ h | connectFeed _ _ s _ _ h | awaitFirst _ _ s _ _ h
  | followRows s h => exact ⟨s, rfl, h, rfl⟩

theorem of_connect {next : ConnectReturn} (h : (Job.connect table' next).Serves table stage sub) :
    table' = table ∧ stage = .idle := by
  cases h
  exact ⟨rfl, rfl⟩

theorem eq_followRows (h : job.Serves table .following sub) {s : Session}
    (hsession : job.session? = some s) : job = .followRows s := by
  cases h
  exact congrArg Job.followRows (Option.some.inj hsession)

end Job.Serves

namespace Engine

variable {σ : Scope} {e e' : Engine} {table : TableId} {stage stage' : SessionStage} {sub : Nat}
  {j : JobId}

/-! ## Tables with a session -/

/-- A job owns the table of its session: only this job may connect it, it belongs to no document,
nobody follows the feed that is being connected, and it stands as the stage of the session says. -/
structure Owned (table : TableId) (stage : SessionStage) (sub : Nat) (j : JobId) (e : Engine) :
    Prop where
  sole : ∀ i job, e.jobs.get? i = some job → job.Claims table → i = j
  unled : ∀ i job feed, e.jobs.get? i = some job → stage = .seeking feed → ¬ job.Follows table feed
  free : ∀ id d, e.docs.get? id = some d → table ≠ d.strings ∧ table ≠ d.patches
  stands : ∃ t, e.tables.get? table = some t ∧ t.IsAt sub stage

namespace Owned

theorem contains (h : Owned table stage sub j e) : e.tables.contains table = true := by
  obtain ⟨t, ht, -⟩ := h.stands
  exact SortedMap.contains_of_get? ht

theorem isAt (h : Owned table stage sub j e) {t : Table} (ht : e.tables.get? table = some t) :
    t.IsAt sub stage := by
  obtain ⟨t', ht', hat⟩ := h.stands
  rw [ht, Option.some.injEq] at ht'
  exact ht' ▸ hat

/-- Only jobs change: those that are new may connect the table only if they own it, and follow none
of its feeds. -/
theorem of_jobs (h : Owned table stage sub j e) (htables : e'.tables = e.tables)
    (hdocs : e'.docs = e.docs)
    (hjobs : ∀ i job, e'.jobs.get? i = some job → e.jobs.get? i = some job ∨
      (job.Claims table → i = j) ∧ ∀ feed, stage = .seeking feed → ¬ job.Follows table feed) :
    Owned table stage sub j e' where
  sole := fun i job hjob hclaims => by
    rcases hjobs i job hjob with hold | ⟨hown, -⟩
    · exact h.sole i job hold hclaims
    · exact hown hclaims
  unled := fun i job feed hjob hstage => by
    rcases hjobs i job hjob with hold | ⟨-, hfollows⟩
    · exact h.unled i job feed hold hstage
    · exact hfollows feed hstage
  free := hdocs ▸ h.free
  stands := htables ▸ h.stands

/-- The job that owns the table goes on, or some other job that has nothing to do with it. -/
theorem insert_job (h : Owned table stage sub j e) {i : JobId} {job : Job}
    (hclaims : job.Claims table → i = j)
    (hfollows : ∀ feed, stage = .seeking feed → ¬ job.Follows table feed) :
    Owned table stage sub j { e with jobs := e.jobs.insert i job } := by
  refine h.of_jobs rfl rfl fun i' job' hjob' => ?_
  rw [SortedMap.get?_insert] at hjob'
  split at hjob'
  · next hi =>
    cases hjob'
    exact .inr ⟨fun h => hi ▸ hclaims h, hfollows⟩
  · exact .inl hjob'

theorem spawn (h : Owned table stage sub j e) {job : Job} (hclaims : ¬ job.Claims table)
    (hfollows : ∀ feed, stage = .seeking feed → ¬ job.Follows table feed) :
    Owned table stage sub j (e.spawn job) := by
  refine h.of_jobs rfl rfl fun i job' hjob' => ?_
  simp only [Engine.spawn, SortedMap.get?_insert] at hjob'
  split at hjob'
  · cases hjob'
    exact .inr ⟨fun h => absurd h hclaims, hfollows⟩
  · exact .inl hjob'

/-- The owner may take the table to another stage, unless somebody follows the feed that it then
seeks. -/
theorem insert_table (h : Owned table stage sub j e) {t : Table} (ht : t.IsAt sub stage')
    (hunled : ∀ i job feed, e.jobs.get? i = some job → stage' = .seeking feed →
      ¬ job.Follows table feed) :
    Owned table stage' sub j { e with tables := e.tables.insert table t } :=
  ⟨h.sole, hunled, h.free, t, by simp, ht⟩

theorem insert_doc (h : Owned table stage sub j e) {id : DocId} {d : Document}
    (hd : table ≠ d.strings ∧ table ≠ d.patches) :
    Owned table stage sub j { e with docs := e.docs.insert id d } := by
  refine ⟨h.sole, h.unled, fun id' d' hd' => ?_, h.stands⟩
  rw [SortedMap.get?_insert] at hd'
  split at hd'
  · cases hd'
    exact hd
  · exact h.free id' d' hd'

/-- A document that keeps its place. -/
theorem replace_doc (h : Owned table stage sub j e) {id : DocId} {d d' : Document}
    (hd : e.docs.get? id = some d) (hstrings : d'.strings = d.strings)
    (hpatches : d'.patches = d.patches) :
    Owned table stage sub j { e with docs := e.docs.insert id d' } := by
  refine h.insert_doc ?_
  rw [hstrings, hpatches]
  exact h.free id d hd

theorem reading (h : Owned table stage sub j e) {read : DocId → Nat → List DocumentEvent}
    (hread : Reading e read e') : Owned table stage sub j e' := by
  cases hread with
  | none => exact h
  | some hd => exact h.replace_doc hd rfl rfl

/-! ### What all others do -/

section Others

variable (hs : Sound e) (hclaims : ¬ σ.Claims table)
  (hfollows : ∀ feed, stage = .seeking feed → ¬ σ.Follows table feed) (hfresh : table < σ.fresh)
include hs hclaims hfollows hfresh

/-- The step lemma for what others do to feeds, tables and jobs: they may not connect this table,
and what else they may do leaves it at its stage. -/
theorem stir (h : Owned table stage sub j e) (hstir : Stir σ e e') :
    Owned table stage sub j e' := by
  cases hstir with
  | aside _ tables docs _ jobs => exact h.of_jobs tables docs fun i job hjob => .inl (jobs ▸ hjob)
  | spawn hstarts =>
    refine h.spawn (fun hnew => ?_) fun feed _ hnew => hclaims (hstarts.follows table feed hnew)
    exact Nat.not_lt.mpr (hstarts.claims table hnew).1 hfresh
  | feed => exact h.of_jobs rfl rfl fun _ _ => .inl
  | @table id t t' ht hmotion =>
    by_cases hid : id = table
    · subst hid
      exact h.insert_table (hmotion.isAt hclaims hfollows (hs.orderly _ _ ht) (h.isAt ht)) h.unled
    · obtain ⟨t₀, ht₀, hat⟩ := h.stands
      exact ⟨h.sole, h.unled, h.free, t₀, by simp [Ne.symm hid, ht₀], hat⟩
  | newTable =>
    obtain ⟨t₀, ht₀, hat⟩ := h.stands
    have hne : table ≠ e.tables.size := fun heq => by simp [heq, hs.tables.get?_size] at ht₀
    exact ⟨h.sole, h.unled, h.free, t₀, by simp [hne, ht₀], hat⟩

theorem stirs (h : Owned table stage sub j e) (hstirs : Stirs σ e e') :
    Owned table stage sub j e' := by
  induction hstirs with
  | refl => exact h
  | tail hstirs hstir ih => exact ih.stir (hs.stirs hstirs) hclaims hfollows hfresh hstir

/-- The step lemma for all that others do. New documents get new tables, and documents that are
closed close tables of their own. -/
theorem deed (h : Owned table stage sub j e) (hdeed : Deed σ e e') :
    Owned table stage sub j e' := by
  cases hdeed with
  | stir hstir => exact h.stir hs hclaims hfollows hfresh hstir
  | turn hd hturns =>
    obtain ⟨-, hstrings, hpatches⟩ := hturns.trail.place
    exact h.replace_doc hd hstrings hpatches
  | @close _ id d hd hopen _ hstirs =>
    have htrail : Document.Trail false d d.close.1 := .single (.inr ⟨rfl, hopen, rfl⟩)
    obtain ⟨-, hstrings, hpatches⟩ := htrail.place
    exact (h.replace_doc hd hstrings hpatches).stirs
      (hs.trail hd htrail) hclaims hfollows hfresh hstirs
  | make _ _ hsited =>
    exact h.insert_doc ⟨Nat.ne_of_lt (Nat.lt_of_lt_of_le hfresh (hsited _ (.inl rfl)).1),
      Nat.ne_of_lt (Nat.lt_of_lt_of_le hfresh (hsited _ (.inr rfl)).1)⟩
  | register => exact h.of_jobs rfl rfl fun _ _ => .inl

theorem deeds (h : Owned table stage sub j e) (hdeeds : Deeds σ e e') :
    Owned table stage sub j e' := by
  induction hdeeds with
  | refl => exact h
  | tail hdeeds hdeed ih => exact ih.deed (hs.deeds hdeeds) hclaims hfollows hfresh hdeed

end Others

/-- What is done on behalf of nobody in particular. -/
theorem aside (h : Owned table stage sub j e) (hs : Sound e)
    (hstirs : Stirs (.outside e false) e e') :
    Owned table stage sub j e' :=
  h.stirs hs (by simp) (by simp) ((hs.tables table).mp h.contains) hstirs

end Owned

end Engine

/-! ## What the session does -/

/-- If a session goes on, it does so as a job of the same session, and it owns its table if it
did. -/
def Progress.Upholds (owned : Prop) (table : TableId) (j : JobId) : Progress → Prop
  | .goOn e job => ∃ stage sub, job.Serves table stage sub ∧ (owned → e.Owned table stage sub j)
  | .yield _ => False
  | .wait | .finish _ => True

namespace Engine

variable {e e' : Engine} {table : TableId} {stage : SessionStage} {sub : Nat} {j : JobId}
  {owned : Prop}

theorem Sound.putTable (hs : Sound e) {t : Table} (ht : t.events.Orderly)
    (hin : e.tables.contains table = true) (notices : List TableNotice) :
    Sound (e.putTable table t notices) :=
  (hs.insert_table ht (.inl hin)).stirs (σ := .outside e false)
    (foldl_heedTable_stirs _ table notices)

theorem Sound.onTable (hs : Sound e) {step : Table → Table × List TableNotice}
    (hstep : ∀ t : Table, t.events.Orderly → (step t).1.events.Orderly) :
    Sound (e.onTable table step) := by
  unfold Engine.onTable
  split
  · exact hs
  · next t ht => exact hs.putTable (hstep t (hs.orderly _ t ht)) (SortedMap.contains_of_get? ht) _

/-- The owner replaces its table; what the notices lead to is done on behalf of nobody. -/
theorem Owned.putTable {stage' : SessionStage} (h : Owned table stage sub j e) (hs : Sound e)
    {t : Table} (ht : t.events.Orderly) (hat : t.IsAt sub stage')
    (hunled : ∀ i job feed, e.jobs.get? i = some job → stage' = .seeking feed →
      ¬ job.Follows table feed)
    (notices : List TableNotice) : Owned table stage' sub j (e.putTable table t notices) :=
  (h.insert_table hat hunled).aside (hs.insert_table ht (.inl h.contains))
    (foldl_heedTable_stirs _ table notices)

/-- A session that opens rows goes on to follow its table. -/
theorem openSessionRows_upholds (hs : Sound e) {s : Session} (htable : s.table = table)
    (keys : Option (List String)) (h : owned → e.Owned table .following s.events j) :
    (Progress.goOn (e.openSessionRows s keys).1 (.followRows (e.openSessionRows s keys).2)).Upholds
      owned table j := by
  obtain ⟨hstirs, htable', hevents⟩ :=
    openSessionRows_stirs (σ := .outside e false) (Nat.le_refl _) s keys
  refine ⟨_, _, .followRows _ (htable'.trans htable), fun howned => ?_⟩
  rw [hevents]
  exact (h howned).aside hs hstirs

/-- An attempt to connect has ended. -/
theorem connected_upholds (hs : Sound e) {s : Session} (htable : s.table = table) (delay : Nat)
    (isFirst : Bool) (result : Except TableError Unit)
    (hfail : ∀ cause, result = .error cause → cause ≠ .closed → owned →
      e.Owned table .idle s.events j)
    (hok : result = .ok () → owned → e.Owned table .following s.events j) :
    (e.connected (.session s delay isFirst) result).Upholds owned table j := by
  rcases result with cause | ⟨⟩
  · have hsleep (hcause : cause ≠ .closed) :
        (Progress.goOn e (.sleep s (e.now + delay) delay isFirst)).Upholds owned table j :=
      ⟨_, _, .sleep s _ _ _ htable, hfail cause rfl hcause⟩
    cases cause with
    | closed => trivial
    | _ => exact hsleep (by simp)
  · simp only [connected]
    split
    · exact openSessionRows_upholds hs htable none (hok rfl)
    · exact ⟨_, _, .followRows s htable, hok rfl⟩

/-- The feed of the table was connected, or not. -/
theorem feedConnected_upholds (hs : Sound e) {s : Session} (htable : s.table = table)
    {feed : FeedId}
    (hfeed : e.feeds.contains feed = true) (subscription : Nat) (delay : Nat) (isFirst : Bool)
    (result : Except ConnectionError (List Record))
    (h : owned → e.Owned table (.seeking feed) s.events j) :
    (e.feedConnected feed (.table table subscription (.session s delay isFirst)) result).Upholds
      owned table j := by
  simp only [feedConnected]
  cases result with
  | error cause =>
    let e₁ := e.unsubscribeFeed feed subscription
    have hstirs₁ : Stirs (.outside e false) e e₁ := onFeed_stirs e feed _
    have hs₁ : Sound e₁ := hs.stirs hstirs₁
    have horderly (t : Table) (ht : t.events.Orderly) := (t.alters_connectFailed feed).orderly ht
    simp only [tableFeedConnected]
    refine connected_upholds (hs₁.onTable horderly) htable delay isFirst
      (.error (.connection cause))
      (fun _ _ _ howned => ?_) (by simp)
    have h₁ := (h howned).aside hs hstirs₁
    obtain ⟨t, ht, hat⟩ := h₁.stands
    simp only [onTable, ht]
    exact h₁.putTable hs₁ (horderly t (hs₁.orderly _ t ht))
      (Table.isAt_connectFailed hat) (by simp) _
  | ok rows =>
    simp only [tableFeedConnected]
    split
    · trivial
    · next t ht =>
      split
      · next cause hconnect =>
        have hcause := Table.eq_closed_of_finishConnect hconnect
        have hstirs : Stirs (.outside e false) e (e.closeFeed feed) := onFeed_stirs e feed _
        refine connected_upholds (hs.stirs hstirs) htable delay isFirst _ ?_ (by simp)
        intro cause' heq hne
        cases heq
        exact absurd hcause hne
      · next t' notices hconnect =>
        have horderly := hs.orderly table t ht
        have horderly' := (Table.alters_finishConnect hconnect).orderly horderly
        have hs₁ := hs.putTable horderly' (SortedMap.contains_of_get? ht) notices
        have hstirs₁ : Stirs (.outside e false) { e with tables := e.tables.insert table t' }
            (e.putTable table t' notices) := foldl_heedTable_stirs _ table notices
        have hs₂ : Sound ((e.putTable table t' notices).spawn (.follow table feed subscription)) :=
          hs₁.spawn (hstirs₁.grows.feeds feed hfeed)
        refine connected_upholds hs₂ htable delay isFirst _ (by simp) fun _ howned => ?_
        have hat := Table.isAt_finishConnect horderly ((h howned).isAt ht) hconnect
        exact ((h howned).putTable hs horderly' hat (by simp) notices).spawn id (by simp)

/-- **What a session does takes it from stage to stage.** -/
theorem look_upholds (hs : Sound e) {job : Job} (hjob : job.Serves table stage sub) :
    (e.look job).Upholds (e.Owned table stage sub j) table j := by
  cases hjob with
  | connect s delay isFirst htable =>
    simp only [look, lookConnect]
    split
    · trivial
    · next t ht =>
      split
      · exact connected_upholds hs htable delay isFirst _ (fun _ _ _ howned => howned) (by simp)
      · next t' hconnect =>
        refine ⟨_, _, .connectFeed _ _ s delay isFirst htable, fun howned => ?_⟩
        have hfeed (f : Feed) : Stirs (.outside e false) e (e.newFeed f).2 :=
          .single (.feed f (.inr rfl))
        let t₁ : Table := { t' with feed := some e.feeds.size }
        have horderly := (Table.alters_beginConnect hconnect (some e.feeds.size)).orderly
            (hs.orderly _ t ht)
        refine (howned.aside hs (hfeed _)).putTable (t := t₁) (hs.stirs (hfeed _)) horderly
          (Table.isAt_beginConnect (howned.isAt ht) hconnect _)
          (fun i job feed hjob hstage hfollows => ?_) _
        -- A job that follows a feed has one that exists, and this one is new.
        cases hstage
        have hin := (hs.jobs i job hjob).2.contains_feed hfollows
        simp [SortedMap.contains, hs.feeds.get?_size] at hin
  | sleep s wakeAt delay isFirst htable =>
    simp only [look, lookSleep]
    split
    · rw [htable]
      exact ⟨_, _, .connect s _ isFirst htable, id⟩
    · trivial
  | connectFeed feed subscription s delay isFirst htable =>
    simp only [look, lookConnectFeed]
    split
    · trivial
    · next f hf =>
      have hfeed := SortedMap.contains_of_get? hf
      split
      · exact feedConnected_upholds hs htable hfeed subscription delay isFirst _ id
      · next f' _ =>
        have hinsert : Stirs (.outside e false) e { e with feeds := e.feeds.insert feed f' } :=
          .single (.feed f' (.inl hfeed))
        have hask := hinsert.trans (ask_stirs _ f'.request)
        have hpump (sink : SinkId) := hask.trans (spawn_plain_stirs _ (.pump feed sink) rfl)
        exact ⟨_, _, .awaitFirst feed subscription s delay isFirst htable,
          fun howned => howned.aside hs (hpump _)⟩
  | awaitFirst feed subscription s delay isFirst htable =>
    simp only [look, lookAwaitFirst]
    split
    · trivial
    · next f hf =>
      have hfeed := SortedMap.contains_of_get? hf
      split
      · next reply _ =>
        have hput : Stirs (.outside e false) e
            (e.putFeed feed (f.finishConnect reply).1 (f.finishConnect reply).2.1) :=
          putFeed_stirs hfeed _ _
        have hflush := hput.trans (spawn_plain_stirs _ (.flush feed false) rfl)
        have hdone {e' : Engine} (h : Stirs (.outside e false) e e')
            (result : Except ConnectionError (List Record)) :
            (e'.feedConnected feed (.table table subscription (.session s delay isFirst))
              result).Upholds (e.Owned table (.seeking feed) s.events j) table j :=
          feedConnected_upholds (hs.stirs h) htable (h.grows.feeds feed hfeed) subscription delay
            isFirst result fun howned => howned.aside hs h
        split
        · exact hdone hflush _
        · exact hdone hput _
      · exact feedConnected_upholds hs htable hfeed subscription delay isFirst _ id
      all_goals trivial
  | followRows s htable =>
    simp only [look, lookFollowRows, htable]
    split
    · trivial
    · next t ht =>
      have hread : Stirs (.outside e false) e { e with
          tables := e.tables.insert table { t with events := (t.events.receive s.events).2 } } :=
        .single (.table ht (Table.motion_reads (t.events.reads_receive s.events)))
      have hopened (keys : Option (List String)) :=
        openSessionRows_upholds (hs.stirs hread) htable keys
          fun howned : e.Owned table .following s.events j => howned.aside hs hread
      split
      · exact hopened none
      · exact hopened _
      · next hevent =>
        refine ⟨_, _, .connect s shortestDelay false htable, fun howned => ?_⟩
        exact howned.insert_table (Table.isAt_receive (howned.isAt ht) hevent) (by simp)
      · trivial
      · split <;> trivial

/-- A session starts with a new table. -/
theorem look_session (hs : Sound e) {client : ClientId} {settings : Settings} {call : CallId}
    {job' : Job} (hlook : e.look (.session client settings call) = .goOn e' job') :
    ∃ sub, job'.Serves e.tables.size .idle sub ∧
      ((∀ i job, e.jobs.get? i = some job → ¬ job.Claims e.tables.size) →
        Owned e.tables.size .idle sub j e') := by
  have hget : (e.newTable .syncstrings (Query.all Schema.syncstrings.name) settings).2.tables.get?
      e.tables.size = some (.new .syncstrings (Query.all Schema.syncstrings.name) settings) := by
    simp [newTable]
  have hfst : (e.newTable .syncstrings (Query.all Schema.syncstrings.name) settings).1 =
      e.tables.size :=
    rfl
  simp only [look, lookSession, subscribeTable, hfst, hget, Progress.goOn.injEq] at hlook
  obtain ⟨rfl, rfl⟩ := hlook
  refine ⟨_, .connect _ _ _ rfl, fun hnone => ?_⟩
  have hfree (id : DocId) (d : Document) (hd : e.docs.get? id = some d) (table : TableId)
      (htable : table = d.strings ∨ table = d.patches) : e.tables.size ≠ table := fun heq => by
    have hin := hs.sited id d hd table htable
    simp [← heq, SortedMap.contains, hs.tables.get?_size] at hin
  refine ⟨fun i job hjob hclaims => absurd hclaims (hnone i job hjob), by simp,
    fun id d hd => ?_, ?_⟩
  · exact ⟨hfree id d hd _ (.inl rfl), hfree id d hd _ (.inr rfl)⟩
  · let t : Table := .new .syncstrings (Query.all Schema.syncstrings.name) settings
    refine ⟨{ t with events := t.events.subscribe.2 }, by simp [t], .inr ⟨rfl, rfl, ?_⟩⟩
    simp [t, Table.losses, Table.new, EventBus.subscribe, EventBus.unread]

/-! ## Jobs and deeds -/

/-- A job was there before, or it was started by then and nothing it refers to has gone since. -/
theorem Stirs.job {σ : Scope} (h : Stirs σ e e') {i : JobId} {job : Job}
    (hjob : e'.jobs.get? i = some job) :
    e.jobs.get? i = some job ∨ ∃ e₁, σ.Starts e₁ job ∧ Grows e₁ e' := by
  induction h with
  | refl => exact .inl hjob
  | @tail e₁ e₂ _ hstir ih =>
    have hgrows := hstir.grows
    have hold (hjob : e₁.jobs.get? i = some job) :
        e.jobs.get? i = some job ∨ ∃ e₀, σ.Starts e₀ job ∧ Grows e₀ e₂ :=
      (ih hjob).imp_right fun ⟨e₀, hstarts, hgrows₀⟩ => ⟨e₀, hstarts, hgrows₀.trans hgrows⟩
    cases hstir with
    | aside _ _ _ _ jobs => exact hold (jobs ▸ hjob)
    | spawn hstarts =>
      simp only [spawn, SortedMap.get?_insert] at hjob
      split at hjob
      · cases hjob
        exact .inr ⟨e₁, hstarts, hgrows⟩
      · exact hold hjob
    | feed | table | newTable => exact hold hjob

/-- A job was there before, or it was started. -/
theorem Deeds.job {σ : Scope} (h : Deeds σ e e') {i : JobId} {job : Job}
    (hjob : e'.jobs.get? i = some job) :
    e.jobs.get? i = some job ∨ ∃ e₁, σ.Starts e₁ job ∧ Grows e₁ e' := by
  induction h with
  | refl => exact .inl hjob
  | @tail e₁ e₂ _ hdeed ih =>
    have hgrows := hdeed.grows
    have hold (hjob : e₁.jobs.get? i = some job) :
        e.jobs.get? i = some job ∨ ∃ e₀, σ.Starts e₀ job ∧ Grows e₀ e₂ :=
      (ih hjob).imp_right fun ⟨e₀, hstarts, hgrows₀⟩ => ⟨e₀, hstarts, hgrows₀.trans hgrows⟩
    cases hdeed with
    | stir hstir => exact (Stirs.job (.single hstir) hjob).elim hold .inr
    | close _ _ _ hstirs => exact (hstirs.job hjob).elim hold .inr
    | turn | make | register => exact hold hjob

/-! ## Every table -/

/-- Jobs may connect a table only if it exists, jobs of sessions serve the tables of their sessions,
and one that serves this table owns it. -/
structure Reserved (table : TableId) (e : Engine) : Prop where
  exists_of_claims : ∀ i job, e.jobs.get? i = some job → job.Claims table →
    e.tables.contains table = true
  serves : ∀ i job s, e.jobs.get? i = some job → job.session? = some s →
    ∃ stage, job.Serves s.table stage s.events
  owned : ∀ i job stage sub, e.jobs.get? i = some job → job.Serves table stage sub →
    Owned table stage sub i e

theorem reserved_new (backend : Backend) (table : TableId) : Reserved table (new backend) :=
  ⟨by simp [new], by simp [new], by simp [new]⟩

theorem Reading.tables {read : DocId → Nat → List DocumentEvent} (h : Reading e read e') :
    e'.tables = e.tables := by
  cases h <;> rfl

namespace Reserved

/-- Jobs are added that connect nothing, follow nothing and belong to no session, or taken away. -/
theorem of_jobs (h : Reserved table e) (htables : e'.tables = e.tables) (hdocs : e'.docs = e.docs)
    (hjobs : ∀ i job, e'.jobs.get? i = some job → e.jobs.get? i = some job ∨
      job.session? = none ∧ ¬ job.Claims table ∧ ∀ feed, ¬ job.Follows table feed) :
    Reserved table e' where
  exists_of_claims := by
    intro i job hjob hclaims
    rw [htables]
    rcases hjobs i job hjob with hold | ⟨-, hnot, -⟩
    · exact h.exists_of_claims i job hold hclaims
    · exact absurd hclaims hnot
  serves := by
    intro i job s hjob hsession
    rcases hjobs i job hjob with hold | ⟨hnone, -⟩
    · exact h.serves i job s hold hsession
    · simp [hnone] at hsession
  owned := by
    intro i job stage sub hjob hserves
    rcases hjobs i job hjob with hold | ⟨-, hnot, -⟩
    · refine (h.owned i job stage sub hold hserves).of_jobs htables hdocs fun i' job' hjob' => ?_
      exact (hjobs i' job' hjob').imp_right fun ⟨_, hclaims, hfollows⟩ =>
        ⟨fun h => absurd h hclaims, fun feed _ => hfollows feed⟩
    · exact absurd hserves.claims hnot

section Deeds

variable {σ : Scope} (h : Reserved table e) (hs : Sound e) (hdeeds : Deeds σ e e')
include h hs hdeeds

/-- Somebody is at work who may not connect the table, if this job is of its session, nor follow the
feed that the session connects. -/
theorem entry {i : JobId} {job : Job} (hjob : e'.jobs.get? i = some job)
    (hσ : ∀ stage sub, e.jobs.get? i = some job → job.Serves table stage sub →
      table < σ.fresh ∧ ¬ σ.Claims table ∧ ∀ feed, stage = .seeking feed → ¬ σ.Follows table feed) :
    (job.Claims table → e'.tables.contains table = true) ∧
      (∀ s, job.session? = some s → ∃ stage, job.Serves s.table stage s.events) ∧
      ∀ stage sub, job.Serves table stage sub →
        Owned table stage sub i e' ∧ e.jobs.get? i = some job := by
  rcases hdeeds.job hjob with hold | ⟨e₁, hstarts, hgrows⟩
  · refine ⟨fun hclaims => ?_, fun s => h.serves i job s hold, fun stage sub hserves => ?_⟩
    · exact hdeeds.grows.tables table (h.exists_of_claims i job hold hclaims)
    · obtain ⟨hfresh, hclaims, hfollows⟩ := hσ stage sub hold hserves
      exact ⟨(h.owned i job stage sub hold hserves).deeds hs hclaims hfollows hfresh hdeeds, hold⟩
  · refine ⟨fun hclaims => hgrows.tables table (hstarts.claims table hclaims).2, ?_, ?_⟩
    · simp [hstarts.session]
    · intro stage sub hserves
      obtain ⟨s, hsession, -⟩ := hserves.session
      simp [hstarts.session] at hsession

/-- The run lemma for whoever is at work, if a session's table is old and out of its reach. -/
theorem deeds
    (hσ : ∀ i job stage sub, e.jobs.get? i = some job → job.Serves table stage sub →
      table < σ.fresh ∧ ¬ σ.Claims table ∧ ∀ feed, stage = .seeking feed → ¬ σ.Follows table feed) :
    Reserved table e' := by
  have hentry {i : JobId} {job : Job} (hjob : e'.jobs.get? i = some job) :=
    h.entry hs hdeeds hjob (hσ i job)
  exact ⟨fun i job hjob => (hentry hjob).1, fun i job s hjob => (hentry hjob).2.1 s,
    fun i job stage sub hjob hserves => ((hentry hjob).2.2 stage sub hserves).1⟩

end Deeds

theorem reading (h : Reserved table e) {read : DocId → Nat → List DocumentEvent}
    (hread : Reading e read e') : Reserved table e' := by
  have howned (i : JobId) (job : Job) (stage : SessionStage) (sub : Nat)
      (hjob : e.jobs.get? i = some job) (hserves : job.Serves table stage sub) :
      Owned table stage sub i e' :=
    (h.owned i job stage sub hjob hserves).reading hread
  cases hread with
  | none => exact h
  | some => exact ⟨h.exists_of_claims, h.serves, howned⟩

theorem hear (h : Reserved table e) {job : Job} (hjob : e.jobs.get? j = some job) :
    Reserved table (e.hear job) := by
  have hlisten := h.reading (reading_listen e (.step j))
  simpa only [listen, hjob] using hlisten

section Steps

variable (h : Reserved table e) (hs : Sound e) {job : Job} (hjob : e.jobs.get? j = some job)
include h hs hjob

/-- A job at work is within its bounds if the table has a session that it is not of. -/
theorem scope {i : JobId} {job' : Job} (hjob' : e.jobs.get? i = some job')
    (hserves : job'.Serves table stage sub) (hne : j ≠ i) :
    table < e.tables.size ∧ ¬ job.Claims table ∧
      ∀ feed, stage = .seeking feed → ¬ job.Follows table feed := by
  have howned := h.owned i job' stage sub hjob' hserves
  exact ⟨(hs.tables table).mp howned.contains, fun hclaims => hne (howned.sole j job hjob hclaims),
    fun feed => howned.unled j job feed hjob⟩

/-- A job of a session serves its table, and owns it if the table is the one at issue. -/
theorem owned_goOn {job' : Job} (hlook : e.look job = .goOn e' job') {s : Session}
    (hsession : job'.session? = some s) :
    ∃ stage, job'.Serves s.table stage s.events ∧
      (s.table = table → Owned table stage s.events j e') := by
  have hsame {table' : TableId} {stage : SessionStage} {sub : Nat}
      (hserves : job'.Serves table' stage sub)
      (howned : table' = table → Owned table' stage sub j e') :
      ∃ stage, job'.Serves s.table stage s.events ∧
        (s.table = table → Owned table stage s.events j e') := by
    obtain ⟨s', hsession', rfl, rfl⟩ := hserves.session
    obtain rfl : s = s' := Option.some.inj (hsession.symm.trans hsession')
    exact ⟨stage, hserves, fun heq => heq ▸ howned heq⟩
  obtain ⟨-, hheir⟩ := hs.goOn hjob hlook
  obtain ⟨job₀, hjob₀, hisSession⟩ := hheir.session (by simp [hsession])
  obtain rfl : job = job₀ := Option.some.inj hjob₀
  cases hown : job.session? with
  | some s₀ =>
    obtain ⟨stage, hserves⟩ := h.serves j job s₀ hjob hown
    have hupholds := look_upholds (j := j) hs hserves
    rw [hlook] at hupholds
    obtain ⟨stage', sub', hserves', howned⟩ := hupholds
    refine hsame hserves' fun heq => howned ?_
    rw [heq] at hserves ⊢
    exact h.owned j job stage _ hjob hserves
  | none =>
    cases job with
    | session client settings call =>
      obtain ⟨sub, hserves, howned⟩ := look_session (j := j) hs hlook
      refine hsame hserves fun heq => howned fun i job hjob hclaims => ?_
      have hin := h.exists_of_claims i job hjob (heq ▸ hclaims)
      simp [← heq, SortedMap.contains, hs.tables.get?_size] at hin
    | _ => simp [Job.isSession, hown] at hisSession

/-- Whatever a job does, all others stay within their bounds. -/
theorem others (hdeeds : Deeds (job.scope e) (e.hear job) e') {i : JobId} {job₁ : Job}
    (hjob₁ : e'.jobs.get? i = some job₁) (hi : j ≠ i) :
    (job₁.Claims table → e'.tables.contains table = true) ∧
      (∀ s, job₁.session? = some s → ∃ stage, job₁.Serves s.table stage s.events) ∧
      ∀ stage sub, job₁.Serves table stage sub →
        Owned table stage sub i e' ∧ e.jobs.get? i = some job₁ := by
  obtain ⟨-, -, -, hjobs, -, -⟩ := e.hear_frame job
  rw [← hjobs]
  refine (h.hear hjob).entry (hs.hear hjob) hdeeds hjob₁ fun stage sub hold hserves => ?_
  obtain ⟨hlt, hclaims, hfollows⟩ := h.scope hs hjob (hjobs ▸ hold) hserves hi
  exact ⟨hlt, by simpa using hclaims, by simpa using hfollows⟩

/-- The job at work has gone on. If it serves this table, the session upholds that it owns it; if
not, its heir claims no table that another job serves. -/
theorem goOn {job' : Job} (hlook : e.look job = .goOn e' job') :
    Reserved table { e' with jobs := e'.jobs.insert j job' } := by
  obtain ⟨hdeeds, hheir⟩ := hs.goOn hjob hlook
  have hs₁ := (hs.hear hjob).deeds hdeeds
  refine ⟨fun i job₁ hjob₁ hclaims => ?_, fun i job₁ s hjob₁ hsession => ?_,
    fun i job₁ stage sub hjob₁ hserves => ?_⟩ <;> rw [SortedMap.get?_insert] at hjob₁ <;>
      split at hjob₁
  · cases hjob₁
    rcases hheir.claims table hclaims with hold | ⟨-, hin⟩ | ⟨id, d, hd, htable⟩
    · have hin := (h.hear hjob).exists_of_claims j job ((e.hear_frame job).2.2.2.1 ▸ hjob)
        (by simpa using hold)
      exact hdeeds.grows.tables table hin
    · exact hin
    · exact hs₁.sited id d hd table htable
  · next hi => exact (h.others hs hjob hdeeds hjob₁ (Ne.symm hi)).1 hclaims
  · cases hjob₁
    obtain ⟨stage, hserves, -⟩ := h.owned_goOn hs hjob hlook hsession
    exact ⟨stage, hserves⟩
  · next hi => exact (h.others hs hjob hdeeds hjob₁ (Ne.symm hi)).2.1 s hsession
  · next hi =>
    cases hjob₁
    subst hi
    obtain ⟨s, hsession, rfl, rfl⟩ := hserves.session
    obtain ⟨stage', hserves', howned⟩ := h.owned_goOn hs hjob hlook hsession
    obtain ⟨-, rfl, -⟩ := hserves.unique hserves'
    exact (howned rfl).insert_job (fun _ => rfl) fun feed _ => hserves.not_follows _ feed
  · next hi =>
    obtain ⟨howned, hold⟩ := (h.others hs hjob hdeeds hjob₁ (Ne.symm hi)).2.2 stage sub hserves
    obtain ⟨hlt, hclaims, hfollows⟩ := h.scope hs hjob hold hserves (Ne.symm hi)
    refine howned.insert_job (fun hclaims' => ?_) fun feed hstage hfollows' => ?_
    · rcases hheir.claims table hclaims' with hclaims' | ⟨hle, -⟩ | ⟨id, d, hd, htable⟩
      · exact absurd (by simpa using hclaims') hclaims
      · exact absurd hlt (Nat.not_lt.mpr hle)
      · exact absurd htable (not_or.mpr (howned.free id d hd))
    · have hold := hheir.follows table feed hfollows'
      exact hfollows feed hstage (by simpa using hold)

/-- A job that has ended claims nothing any more, and the one who waits for it is woken. -/
theorem finish (hlook : e.look job = .finish e') :
    Reserved table (({ e' with jobs := e'.jobs.erase j }.dequeue j).wake (.finished j)) := by
  have hdeeds := hs.finish hjob hlook
  have hjobs {i : JobId} {job₁ : Job} (hjob₁ : (e'.jobs.erase j).get? i = some job₁) :
      e'.jobs.get? i = some job₁ ∧ j ≠ i := by
    rw [SortedMap.get?_erase] at hjob₁
    split at hjob₁
    · cases hjob₁
    · next hi => exact ⟨hjob₁, Ne.symm hi⟩
  refine ⟨fun i job₁ hjob₁ => ?_, fun i job₁ s hjob₁ => ?_,
    fun i job₁ stage sub hjob₁ hserves => ?_⟩ <;>
    obtain ⟨hjob₁, hi⟩ := hjobs hjob₁
  · exact (h.others hs hjob hdeeds hjob₁ hi).1
  · exact (h.others hs hjob hdeeds hjob₁ hi).2.1 s
  · have howned := ((h.others hs hjob hdeeds hjob₁ hi).2.2 stage sub hserves).1
    exact howned.of_jobs rfl rfl fun _ _ hjob₂ => .inl (hjobs hjob₂).1

end Steps

/-- Whatever comes next, unless somebody else connects the table. -/
theorem worked (h : Reserved table e) (hs : Sound e) {a : Act}
    (ha : ∀ call, a ≠ .start (.connect table (.call call))) (hwork : Worked e a e') :
    Reserved table e' := by
  cases hwork with
  | step j =>
    have hstep := stepped_stepJob e j
    generalize e.stepJob j = e₁ at hstep ⊢
    cases hstep with
    | absent | wait => exact h.of_jobs rfl rfl fun _ _ => .inl
    | goOn hjob hlook => exact h.goOn hs hjob hlook
    | @yield job job' hjob hlook =>
      have hdoes := e.look_does (hs.jobs j job hjob).2
      rw [hlook] at hdoes
      obtain ⟨feed, rfl⟩ := hdoes
      refine h.of_jobs rfl rfl fun i job₁ hjob₁ => ?_
      rw [SortedMap.get?_insert] at hjob₁
      split at hjob₁
      · cases hjob₁
        exact .inr ⟨rfl, id, fun _ => id⟩
      · exact .inl hjob₁
    | finish hjob hlook => exact h.finish hs hjob hlook
  | @start job hcall =>
    refine h.of_jobs rfl rfl fun i job₁ hjob₁ => ?_
    simp only [Engine.spawn, SortedMap.get?_insert] at hjob₁
    split at hjob₁
    · cases hjob₁
      refine .inr ⟨Job.session?_of_isCall hcall, fun hclaims => ?_,
        Job.not_follows_of_isCall hcall table⟩
      obtain ⟨call, rfl⟩ := Job.eq_connect_of_isCall hcall hclaims
      exact ha call rfl
    · exact .inl hjob₁
  | deeds hdeeds =>
    have hreading := e.reading_listen a
    refine (h.reading hreading).deeds
      (hs.reading hreading) hdeeds fun i job stage sub hjob hserves => ?_
    have hin := ((h.reading hreading).owned i job stage sub hjob hserves).contains
    rw [hreading.tables] at hin
    exact ⟨(hs.tables table).mp hin, by simp, by simp⟩

end Reserved

/-- By induction on the acts. The premise is that nobody connects the table from outside. -/
theorem reserved_run (backend : Backend) {table : TableId} {acts : List Act}
    (halone : ∀ call, .start (.connect table (.call call)) ∉ acts) :
    Reserved table ((new backend).run acts) := by
  induction acts using List.reverseRecOn with
  | nil => exact reserved_new backend table
  | append_singleton acts a ih =>
    rw [run_concat]
    refine (ih fun call hmem => halone call (List.mem_append_left _ hmem)).worked
      (sound_run backend acts) (fun call heq => ?_) (worked_act _ a)
    exact halone call (heq ▸ List.mem_append_right _ List.mem_cons_self)

/-! ## Connecting -/

/-- A call that connects a disconnected table passes both checks, of the table and of the feed, and
waits for an answer. Whoever is woken in between comes later in the queue. -/
theorem stepJob_connect {next : ConnectReturn} (hjob : e.jobs.get? j = some (.connect table next))
    {t : Table} (ht : e.tables.get? table = some t) (hstate : t.state = .disconnected) :
    (∃ woken, (e.stepJob j).queue = e.queue ++ woken) ∧
      ∃ feed sub, ((e.stepJob j).stepJob j).jobs.get? j =
        some (.awaitFirst feed (.table table sub next)) := by
  let f : Feed := { Feed.new t.query t.settings.feedTimeout.toNat [] with
    events := EventBus.empty.subscribe.2 }
  let e₁ : Engine := (e.newFeed f).2.putTable table
    { t with state := .connecting, feed := some e.feeds.size } [.state]
  have hstep : e.stepJob j = { e₁ with
      jobs := e₁.jobs.insert j (.connectFeed e.feeds.size (.table table 0 next)) } := by
    simp only [stepJob, hjob, look, lookConnect, ht, Table.beginConnect, hstate]
    rfl
  have hf : (e.stepJob j).feeds.get? e.feeds.size = some f := by
    rw [hstep]
    simp [e₁, putTable, heedTable, wake, enqueue, newFeed]
  have hjob₁ : (e.stepJob j).jobs.get? j =
      some (.connectFeed e.feeds.size (.table table 0 next)) := by
    rw [hstep]
    simp
  have hqueue : ∃ woken, (e.stepJob j).queue = e.queue ++ woken := by
    rw [hstep]
    exact ⟨_, rfl⟩
  refine ⟨hqueue, e.feeds.size, 0, ?_⟩
  generalize e.stepJob j = e₂ at hf hjob₁ ⊢
  simp [stepJob, hjob₁, look, lookConnectFeed, hf, Feed.beginConnect, f, Feed.new]

/-- A session whose table is closed ends. -/
theorem stepJob_connect_closed {s : Session} {delay : Nat} {isFirst : Bool}
    (hjob : e.jobs.get? j = some (.connect table (.session s delay isFirst))) {t : Table}
    (ht : e.tables.get? table = some t) (hstate : t.state = .closed) :
    (e.stepJob j).jobs.get? j = none ∧
      (e.stepJob j).done = e.done ++ [(s.call, .sessionEnded (.error .closed))] := by
  simp [stepJob, hjob, look, lookConnect, ht, Table.beginConnect, hstate, connected, answer, report,
    wake, enqueue, dequeue]

/-- What is said of a job of a session. -/
structure Reconnects (e : Engine) (j : JobId) (job : Job) (s : Session) : Prop where
  /-- Whenever the session is about to connect its table, the table is disconnected, and the call
  gets as far as waiting for an answer, with nobody put before it in the queue, or it is closed, and
  the session ends. -/
  lost : ∀ table delay isFirst, job = .connect table (.session s delay isFirst) → table = s.table ∧
    ∃ t, e.tables.get? table = some t ∧
      (t.state = .disconnected ∧ (∃ woken, (e.stepJob j).queue = e.queue ++ woken) ∧
          (∃ feed sub, ((e.stepJob j).stepJob j).jobs.get? j =
            some (.awaitFirst feed (.table table sub (.session s delay isFirst)))) ∨
        t.state = .closed ∧ (e.stepJob j).jobs.get? j = none ∧
          (e.stepJob j).done = e.done ++ [(s.call, .sessionEnded (.error .closed))])
  /-- The table does not refuse because it is not disconnected. -/
  accepted : ∀ table delay isFirst t state, job = .connect table (.session s delay isFirst) →
    e.tables.get? table = some t → t.beginConnect ≠ .error (.connection (.notDisconnected state))
  /-- Nor does the answer say so. -/
  answered : ∀ feed sub delay isFirst f reply state,
    job = .awaitFirst feed (.table s.table sub (.session s delay isFirst)) →
    e.feeds.get? feed = some f → f.first = .arrived reply →
    (f.finishConnect reply).2.2 ≠ .error (.notDisconnected state)
  /-- As long as the session tries to connect its table, the table is not connected. -/
  unconnected : job ≠ .followRows s → ∃ t, e.tables.get? s.table = some t ∧ t.state ≠ .connected

/-- What the invariant says of a session that is about to connect. -/
theorem Reserved.reconnects {job : Job} {s : Session} (h : Reserved s.table e)
    (hjob : e.jobs.get? j = some job) (hsession : job.session? = some s) :
    Reconnects e j job s := by
  obtain ⟨stage, hserves⟩ := h.serves j job s hjob hsession
  obtain ⟨t, ht, hat⟩ := (h.owned j job stage s.events hjob hserves).stands
  have hlost (table : TableId) (next : ConnectReturn) (heq : job = .connect table next) :
      table = s.table ∧ (t.state = .disconnected ∨ t.state = .closed) := by
    obtain ⟨htable, rfl⟩ := (heq ▸ hserves).of_connect
    exact ⟨htable, hat.symm.imp_left And.left⟩
  refine ⟨fun table delay isFirst heq => ?_, fun table delay isFirst t' state heq ht' => ?_,
    fun _ _ _ _ f reply state _ _ _ => f.finishConnect_ne reply state, fun hne => ⟨t, ht, ?_⟩⟩
  · obtain ⟨htable, hstate⟩ := hlost table _ heq
    subst heq htable
    refine ⟨rfl, t, ht, hstate.imp (fun hstate => ⟨hstate, ?_⟩) fun hstate => ⟨hstate, ?_⟩⟩
    · exact stepJob_connect hjob ht hstate
    · exact stepJob_connect_closed hjob ht hstate
  · obtain ⟨rfl, hstate⟩ := hlost table _ heq
    obtain rfl : t = t' := Option.some.inj (ht.symm.trans ht')
    rcases hstate with hstate | hstate <;> simp [Table.beginConnect, hstate]
  · rcases hat with hclosed | hat
    · simp [hclosed]
    · cases stage with
      | idle | seeking => simp [hat.1]
      | following => exact absurd (hserves.eq_followRows hsession) hne

/-- **A session only ever reconnects a lost table**, as long as nobody else connects its table. -/
theorem reconnects_run (backend : Backend) (acts : List Act) {j : JobId} {job : Job} {s : Session}
    (hjob : ((new backend).run acts).jobs.get? j = some job) (hsession : job.session? = some s)
    (halone : ∀ call, .start (.connect s.table (.call call)) ∉ acts) :
    Reconnects ((new backend).run acts) j job s :=
  (reserved_run backend halone).reconnects hjob hsession

/-- A session connects its table, loses it and hears of it. -/
def losing : List Act :=
  .start (.session 0 .standard 0) :: [0, 0, 0, 0, 1].map .step ++
    .serve (.script .new) [.send 0 (.ok (.initial none "syncstrings" []))] ::
      [1, 1, 0, 0, 0, 2, 3].map .step ++ [.resume, .step 2] ++
    .serve (.script .new) [.send 0 (.error .disconnected)] :: [1, 3, 0].map .step

theorem reconnects_run_losing :
    let e := (new (.script .new)).run losing
    let s : Session := ⟨0, .standard, 0, 0, .empty, 0⟩
    let job : Job := .connect 0 (.session s 100 false)
    e.jobs.get? 0 = some job ∧ job.session? = some s ∧
      (∀ call, .start (.connect s.table (.call call)) ∉ losing) ∧ Reconnects e 0 job s := by
  intro e s job
  have hjob : e.jobs.get? 0 = some job := rfl
  have halone (call : CallId) : .start (.connect s.table (.call call)) ∉ losing := by simp [losing]
  exact ⟨hjob, rfl, halone, reconnects_run _ _ hjob rfl halone⟩

end Engine

end LiveDocs
