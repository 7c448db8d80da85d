import LiveDocs.Proofs.Engine.Deeds

/-!
# What jobs do

A job that is looked at does deeds within its scope, and if it goes on, it goes on as an heir: it
claims no other tables than before, but for those of documents and new ones, and it follows, watches
and serves what it did before (`Engine.look_does`). A job that watches a document first reads one of
its events (`Engine.hear`), which is told apart from all else because what subscribers have read
matters.

## Main definitions

* `Progress.Does`: what a job comes to is within a scope.
* `Engine.hear`: an engine after a job has read the next event of the document that it watches.

## Main results

* `Engine.connected_does`, `Engine.written_does` and the like: results that are handed on.
* `Engine.look_does`: every job keeps within its scope.
-/

namespace LiveDocs

/-- What a job comes to is within a scope. -/
def Progress.Does (σ : Scope) (e : Engine) : Progress → Prop
  | .wait => True
  | .goOn e' job => e.Deeds σ e' ∧ σ.Heir e' job
  | .yield job => ∃ feed, job = .flush feed true
  | .finish e' => e.Deeds σ e'

/-- What a job comes to after some deeds of its own, it also comes to before them. -/
theorem Progress.Does.after {σ : Scope} {e e' : Engine} {p : Progress} (hp : p.Does σ e')
    (h : e.Deeds σ e') : p.Does σ e := by
  cases p with
  | wait => trivial
  | goOn => exact ⟨h.trans hp.1, hp.2⟩
  | yield => exact hp
  | finish => exact h.trans hp

namespace Engine

variable {σ : Scope} {e e' : Engine}

/-- A job that goes on as a plain one. -/
theorem does_goOn {job : Job} (h : Deeds σ e e') (hjob : job.isPlain = true) :
    (Progress.goOn e' job).Does σ e :=
  ⟨h, Scope.heir_of_isPlain hjob e'⟩

/-! ## Calls and failures -/

theorem report_stirs (e : Engine) (call : CallId) (outcome : CallOutcome) :
    Stirs σ e (e.report call outcome) :=
  stirs_aside rfl rfl rfl rfl rfl rfl fun _ => id

theorem answer_does (e : Engine) (call : CallId) (outcome : CallOutcome) :
    (e.answer call outcome).Does σ e :=
  (report_stirs e call outcome).deeds

/-- A failure is no work on a commit, which is why the scope may not be that of one. -/
theorem fail_deeds (hcommits : σ.commits = false) (e : Engine) (id : DocId) (detail : String) :
    Deeds σ e (e.onDocument id fun d => d.fail detail) :=
  onDocument_deeds fun d _ => hcommits ▸ d.turns_fail detail

theorem initializationFailed_does (hcommits : σ.commits = false) (e : Engine)
    (init : Initialization) (cause : SyncError) : (e.initializationFailed init cause).Does σ e :=
  fail_deeds hcommits e init.doc _

theorem ingestAll_deeds (hcommits : σ.commits = false) (e : Engine) (id : DocId) :
    Deeds σ e (e.ingestAll id) :=
  onDocument_deeds fun d _ => hcommits ▸ d.turns_ingestRows _ _

theorem checkRow_deeds (hcommits : σ.commits = false) (e : Engine) (id : DocId) :
    Deeds σ e (e.checkRow id) :=
  onDocument_deeds fun d _ => hcommits ▸ d.turns_checkRow _

/-! ## Sessions -/

/-- Opening a row makes a new table and starts two jobs for it. -/
theorem openSessionRow_stirs (hfresh : σ.fresh ≤ e.tables.size) (s : Session) (row : Record) :
    Stirs σ e (e.openSessionRow s row).1 ∧ (e.openSessionRow s row).2.table = s.table ∧
      (e.openSessionRow s row).2.events = s.events := by
  simp only [openSessionRow]
  split
  · exact ⟨.refl, rfl, rfl⟩
  · split
    · exact ⟨.refl, rfl, rfl⟩
    · next id path _ _ =>
      let e₁ := (e.newTable .syncstrings (documentQuery .syncstrings id) s.settings).2
      have h₁ : Stirs σ e e₁ := newTable_stirs e _ _ _
      have hopener : σ.Starts e₁
          (.awaitConnected e.tables.size none (.opening ⟨s.client, e.tables.size, none⟩)) :=
        ⟨by simp [Job.Grounded, e₁, newTable], fun _ => False.elim, fun _ _ => False.elim, rfl,
          by simp [Job.isWatch]⟩
      refine ⟨h₁.trans (.trans (spawn_stirs hopener) (spawn_stirs ⟨trivial, ?_, ?_, rfl, ?_⟩)), rfl,
        rfl⟩
      · rintro table (rfl | hclaims)
        · exact ⟨hfresh, by simp [newTable, spawn, e₁]⟩
        · exact hclaims.elim
      · exact fun _ _ => False.elim
      · simp [Job.isWatch]

/-- The rows are opened one after the other, and the session stays at its table. -/
theorem openSessionRows_stirs (hfresh : σ.fresh ≤ e.tables.size) (s : Session)
    (keys : Option (List String)) :
    Stirs σ e (e.openSessionRows s keys).1 ∧ (e.openSessionRows s keys).2.table = s.table ∧
      (e.openSessionRows s keys).2.events = s.events := by
  have hrows (rows : List Record) (p : Engine × Session) (hfresh : σ.fresh ≤ p.1.tables.size) :
      Stirs σ p.1 (rows.foldl (fun p row => p.1.openSessionRow p.2 row) p).1 ∧
        (rows.foldl (fun p row => p.1.openSessionRow p.2 row) p).2.table = p.2.table ∧
        (rows.foldl (fun p row => p.1.openSessionRow p.2 row) p).2.events = p.2.events := by
    induction rows generalizing p with
    | nil => exact ⟨.refl, rfl, rfl⟩
    | cons row rows ih =>
      obtain ⟨hstirs, htable, hevents⟩ := openSessionRow_stirs hfresh p.2 row
      obtain ⟨hstirs', htable', hevents'⟩ :=
        ih (p.1.openSessionRow p.2 row) (Nat.le_trans hfresh hstirs.grows.size)
      exact ⟨hstirs.trans hstirs', htable'.trans htable, hevents'.trans hevents⟩
  exact hrows _ (e, _) hfresh

/-! ## Connecting -/

section Connecting

variable {next : ConnectReturn} (hcommits : σ.commits = false) (hfresh : σ.fresh ≤ e.tables.size)
  (hclaims : ∀ table, next.Claims table → σ.Claims table)
  (hsession : next.session?.isSome = true → ∃ job ∈ σ.job, job.isSession = true)
include hcommits hfresh hclaims hsession

/-- A document whose row is there goes on to the table of its patches, sessions and reconnections go
on with tables that they claim already, and all others end or go on as plain jobs. -/
theorem connected_does (result : Except TableError Unit) : (e.connected next result).Does σ e := by
  cases next with
  | call call => exact answer_does e _ _
  | strings init =>
    rcases result with cause | ⟨⟩
    · exact initializationFailed_does hcommits e init _
    · simp only [connected]
      split
      · next d hd =>
        refine ⟨.refl, .of_claims trivial ?_ (fun _ _ => id) rfl rfl⟩
        rintro table (rfl | hclaims)
        · exact .inr (.inr ⟨init.doc, d, hd, .inr rfl⟩)
        · exact hclaims.elim
      · exact .refl
  | patches init =>
    rcases result with cause | ⟨⟩
    · exact initializationFailed_does hcommits e init _
    · exact does_goOn .refl rfl
  | reconnect doc rest call =>
    rcases result with cause | ⟨⟩
    · exact answer_does e _ _
    · exact ⟨.refl, .of_claims trivial (fun table h => .inl (hclaims table h))
        (fun _ _ => id) rfl rfl⟩
  | session s delay isFirst =>
    have hheir (e' : Engine) (job : Job) (hgrounded : job.Grounded e')
        (hjob : ∀ table, job.Claims table → table = s.table)
        (hfollows : ∀ table feed, ¬ job.Follows table feed) (hwatch : job.isWatch = false) :
        σ.Heir e' job :=
      .of_session hgrounded (fun table h => .inl (hclaims table (hjob table h))) hfollows hwatch
        fun _ => hsession rfl
    rcases result with cause | ⟨⟩
    · cases cause with
      | closed => exact answer_does e _ _
      | _ => exact ⟨.refl, hheir e _ trivial (fun _ => id) (fun _ _ => id) rfl⟩
    · simp only [connected]
      split
      · obtain ⟨hstirs, htable, -⟩ := openSessionRows_stirs hfresh s none
        exact ⟨hstirs.deeds, hheir _ _ trivial (fun _ h => h.trans htable) (fun _ _ => id) rfl⟩
      · exact ⟨.refl, hheir e _ trivial (fun _ => id) (fun _ _ => id) rfl⟩
  | opening table opener =>
    rcases result with cause | ⟨⟩
    · exact (closeTable_stirs e table).deeds
    · exact does_goOn .refl rfl

theorem connected_does_after (h : Stirs σ e e') (result : Except TableError Unit) :
    (e'.connected next result).Does σ e :=
  have hfresh' := Nat.le_trans hfresh h.grows.size
  (connected_does hcommits hfresh' hclaims hsession result).after h.deeds

/-- The table takes in its rows and a job starts to follow its feed, or the table gives the feed
up. -/
theorem tableFeedConnected_does {table : TableId} (htable : σ.Claims table) {feed : FeedId}
    (hfeed : e.feeds.contains feed = true) (subscription : Nat)
    (result : Except ConnectionError (List Record)) :
    (e.tableFeedConnected table feed subscription next result).Does σ e := by
  cases result with
  | error cause =>
    have hunsubscribe : Stirs σ e (e.unsubscribeFeed feed subscription) := onFeed_stirs e feed _
    have hfailed : Stirs σ (e.unsubscribeFeed feed subscription)
        ((e.unsubscribeFeed feed subscription).onTable table fun t => t.connectFailed feed) :=
      onTable_stirs fun t _ => .seek htable (t.alters_connectFailed feed)
    have hstirs : Stirs σ e _ := hunsubscribe.trans hfailed
    exact connected_does_after hcommits hfresh hclaims hsession hstirs _
  | ok rows =>
    simp only [tableFeedConnected]
    split
    · exact .refl
    · next t ht =>
      split
      · next cause _ =>
        have hstirs : Stirs σ e (e.closeFeed feed) := onFeed_stirs e feed _
        exact connected_does_after hcommits hfresh hclaims hsession hstirs _
      · next t' notices hconnect =>
        have hput : Stirs σ e (e.putTable table t' notices) :=
          putTable_stirs ht (.seek htable (Table.alters_finishConnect hconnect)) notices
        have hstarts : σ.Starts (e.putTable table t' notices)
            (.follow table feed subscription) := by
          refine ⟨hput.grows.feeds feed hfeed, fun _ => False.elim, ?_, rfl, by simp [Job.isWatch]⟩
          rintro _ _ ⟨rfl, rfl⟩
          exact htable
        have hstirs : Stirs σ e _ := hput.trans (spawn_stirs hstarts)
        exact connected_does_after hcommits hfresh hclaims hsession hstirs _

end Connecting

section Feeds

variable {feed : FeedId} {next : FeedReturn} (hcommits : σ.commits = false)
include hcommits

theorem feedConnected_does (hfresh : σ.fresh ≤ e.tables.size)
    (hclaims : ∀ table, next.Claims table → σ.Claims table)
    (hsession : next.session?.isSome = true → ∃ job ∈ σ.job, job.isSession = true)
    (hfeed : e.feeds.contains feed = true) (result : Except ConnectionError (List Record)) :
    (e.feedConnected feed next result).Does σ e := by
  cases next with
  | call call => exact answer_does e _ _
  | table table subscription next =>
    exact tableFeedConnected_does hcommits hfresh (fun id h => hclaims id (.inr h)) hsession
      (hclaims table (.inl rfl)) hfeed subscription result

theorem feedTimedOut_does (limit : Limit) : (e.feedTimedOut feed next limit).Does σ e := by
  have hunsubscribe (subscription : Nat) : Stirs σ e (e.unsubscribeFeed feed subscription) :=
    onFeed_stirs e feed _
  unfold feedTimedOut
  split
  · exact (initializationFailed_does hcommits _ _ _).after (hunsubscribe _).deeds
  · exact (initializationFailed_does hcommits _ _ _).after (hunsubscribe _).deeds
  · exact .refl

end Feeds

/-! ## Commits and loading -/

theorem loaded_does (e : Engine) (next : LoadReturn) (result : Except SyncError Bool) :
    (e.loaded next result).Does σ e := by
  cases next with
  | call call => exact answer_does e _ _
  | setUp init => exact does_goOn .refl rfl

theorem committed_does (e : Engine) (doc : DocId) (next : CommitReturn)
    (result : Except SyncError (Option PatchId)) : (e.committed doc next result).Does σ e := by
  cases next with
  | call call => exact answer_does e _ _
  | load next =>
    cases result with
    | error cause => exact loaded_does e next _
    | ok id =>
      exact (loaded_does _ next _).after
        (onDocument_deeds fun _ _ => Document.turns_of_same rfl rfl rfl rfl rfl)

theorem endCommit_does (e : Engine) (doc : DocId) (ticket : Nat) (next : CommitReturn)
    (result : Except SyncError (Option PatchId)) :
    (e.endCommit doc ticket next result).Does σ e :=
  (committed_does _ doc next result).after
    (onDocument_deeds fun _ _ => Document.turns_of_same rfl rfl rfl rfl rfl)

/-- The one place where a document starts to sync. All else that a commit does is a turn that other
work may make as well. -/
theorem runCommit_does (hcommits : σ.commits = true) (e : Engine) (id : DocId) (ticket : Nat)
    (edit : UserEdit) (next : CommitReturn) : (e.runCommit id ticket edit next).Does σ e := by
  unfold runCommit
  split
  · exact .refl
  · next d hd =>
    split
    · exact endCommit_does e id ticket next _
    · exact endCommit_does e id ticket next _
    · next d' patch hbegin =>
      have hput : Deeds σ e (e.putDocument id d' [.events]) :=
        putDocument_deeds hd (Document.turns_beginCommit hbegin) _
      refine does_goOn (hput.trans (onDocument_deeds fun d _ => ?_)) rfl
      rw [hcommits]
      exact d.turns_sync

theorem accepted_does (e : Engine) (c : Commit) : (e.accepted c).Does σ e := by
  unfold accepted
  split
  · exact .refl
  · split
    · exact endCommit_does e c.doc c.ticket c.next _
    · exact does_goOn .refl rfl

/-! ## Writes -/

theorem registered_does (hcommits : σ.commits = false) (e : Engine) (init : Initialization)
    (user : UInt32) : (e.registered init user).Does σ e := by
  have huser : Deeds σ e (e.onDocument init.doc fun d => ({ d with user := some user }, [])) :=
    onDocument_deeds fun _ _ => Document.turns_of_same rfl rfl rfl rfl rfl
  have hdeeds := huser.trans (ingestAll_deeds hcommits _ init.doc)
  simp only [registered]
  split
  · exact hdeeds
  · split
    · exact does_goOn hdeeds rfl
    · exact does_goOn hdeeds rfl

/-- Whatever was written, a document at most fails, takes its patch back or notes its snapshot, and
the job goes on as a plain one. -/
theorem written_does (hcommits : σ.commits = false) (e : Engine) (next : WriteReturn)
    (result : Except TableError Unit) : (e.written next result).Does σ e := by
  cases next with
  | call call => exact answer_does e _ _
  | register init attempt place seen =>
    simp only [written]
    split
    · exact registered_does hcommits e init _
    · split
      · exact .refl
      · exact does_goOn .refl rfl
    · exact initializationFailed_does hcommits e init _
  | commit c =>
    have hsynced : Deeds σ e (e.onDocument c.doc fun d => d.transition .syncing .ready) :=
      onDocument_deeds fun d _ => hcommits ▸ d.turns_synced
    rcases result with cause | ⟨⟩
    · refine (endCommit_does _ _ _ _ _).after (hsynced.trans (onDocument_deeds fun d _ => ?_))
      rw [hcommits]
      exact d.turns_withdraw c.id
    · exact (accepted_does _ c).after hsynced
  | snapshot c id text =>
    rcases result with cause | ⟨⟩
    · exact endCommit_does e _ _ _ _
    · have hrecord : Deeds σ e (e.onDocument c.doc fun d => (d.recordSnapshot id text, [])) :=
        onDocument_deeds fun _ _ => Document.turns_of_same rfl rfl rfl rfl rfl
      simp only [written]
      split
      · exact hrecord
      · exact does_goOn hrecord rfl
  | snapshotNote c => exact endCommit_does e _ _ _ _

/-! ## Documents from rows -/

theorem startHook_stirs (e : Engine) (doc : DocId) (client : ClientId) (path : String) :
    Stirs σ e (e.startHook doc client path) := by
  unfold startHook
  split
  · exact spawn_plain_stirs e _ rfl
  · exact .refl

/-- A document that was made from a descriptor has the options in that descriptor. -/
theorem createDocument_eq_ok {client : ClientId} {descriptor : Descriptor} {path : String}
    {stringId : Option String} {id : DocId}
    (h : e.createDocument client descriptor path stringId = .ok (id, e')) :
    ∃ o : DocumentOptions, DocumentOptions.ofRecord descriptor.kind path
      descriptor.options = .ok o ∧
      e.newDocument client descriptor.kind { o with stringId } = .ok (id, e') := by
  simp only [createDocument] at h
  split at h
  · cases h
  · next o ho =>
    split at h
    · cases h
    · next made hmade =>
      cases h
      exact ⟨o, ho, hmade⟩

/-- A document that is watched exists, and so does the table that it was opened from. -/
theorem watch_deeds (hcommits : σ.commits = false) (hadmits : σ.admits = true) {doc : DocId}
    (hdoc : e.docs.contains doc = true) {table : TableId}
    (htable : e.tables.contains table = true) :
    Deeds σ e (e.watch doc table) := by
  have h₁ : Deeds σ e (e.subscribeDocument doc).2 := subscribeDocument_deeds e doc
  have h₂ : Deeds σ e ((e.subscribeDocument doc).2.subscribeTable table).2 :=
    h₁.trans (subscribeTable_stirs _ table).deeds
  simp only [watch]
  split
  · have h₃ : Deeds σ e (((e.subscribeDocument doc).2.subscribeTable table).2.closeDocument doc) :=
      h₂.trans (closeDocument_deeds hcommits _ doc)
    refine h₃.trans (spawn_stirs ⟨?_, fun _ => False.elim, fun _ _ => False.elim, rfl, ?_⟩).deeds
    · exact ⟨h₃.grows.docs doc hdoc, h₃.grows.tables table htable⟩
    · exact fun _ => hadmits
  · refine h₂.trans (spawn_stirs ⟨?_, fun _ => False.elim, fun _ _ => False.elim, rfl, ?_⟩).deeds
    · exact ⟨h₂.grows.docs doc hdoc, h₂.grows.tables table htable⟩
    · exact fun _ => hadmits

/-- A document that is opened from a row is made, registered and watched. Its tables are new, so no
session can have claimed them. -/
theorem openRow_deeds (hcommits : σ.commits = false) (hadmits : σ.admits = true)
    (hfresh : σ.fresh ≤ e.tables.size) {o : Opening} (htable : e.tables.contains o.table = true)
    (row : Record) : Deeds σ e (e.openRow o row).1 := by
  simp only [openRow]
  split
  · exact .refl
  · split
    · exact .refl
    · next doc e' hmade =>
      obtain ⟨options, -, hnew⟩ := createDocument_eq_ok hmade
      have h₁ : Deeds σ e e' := newDocument_deeds hadmits hfresh hnew
      have hdoc : e'.docs.contains doc = true := by
        obtain ⟨_, _, _, _, _, -, -, rfl, rfl⟩ := newDocument_eq_ok hnew
        simp [spawn]
      let path := (row.getStr? "path").getD ""
      let e₂ : Engine := { e' with registry := e'.registry.insert path doc }
      have h₂ : Deeds σ e' e₂ := .single (.register e' _ hadmits)
      have h₃ : Deeds σ e₂ (e₂.watch doc o.table) :=
        watch_deeds (e := e₂) hcommits hadmits hdoc (h₁.grows.tables _ htable)
      exact ((h₁.trans h₂).trans h₃).trans (startHook_stirs _ doc o.client path).deeds

theorem openingEnded_does (e : Engine) (o : Opening) (path : Option String) :
    (e.openingEnded o path).Does σ e := by
  unfold openingEnded
  split
  · exact answer_does e _ _
  · exact .refl

/-- Only jobs that wait for the row of a document may change the registry. -/
theorem gotRows_does (hcommits : σ.commits = false) (hfresh : σ.fresh ≤ e.tables.size)
    {next : RowsReturn}
    (hopening : ∀ o, next = .opening o → σ.admits = true ∧ e.tables.contains o.table = true)
    (result : Except TableError Rows) : (e.gotRows next result).Does σ e := by
  cases next with
  | call call => exact answer_does e _ _
  | register init attempt =>
    cases result with
    | error cause => exact initializationFailed_does hcommits e init _
    | ok rows => exact does_goOn .refl rfl
  | opening o =>
    cases result with
    | error cause => exact openingEnded_does e o none
    | ok rows =>
      obtain ⟨hadmits, htable⟩ := hopening o rfl
      simp only [gotRows]
      split
      · exact openingEnded_does e o none
      · exact (openingEnded_does _ o _).after (openRow_deeds hcommits hadmits hfresh htable _)

theorem gotConnected_does {next : ConnectedReturn}
    (hopening : ∀ o, next = .opening o → e.tables.contains o.table = true)
    (result : Except TableError Unit) : (e.gotConnected next result).Does σ e := by
  cases next with
  | call call => exact answer_does e _ _
  | opening o =>
    rcases result with cause | ⟨⟩
    · exact openingEnded_does e o none
    · exact ⟨.refl, .of_claims (hopening o rfl) (fun _ => False.elim) (fun _ _ => id) rfl rfl⟩

theorem gotReady_does (e : Engine) (doc : DocId) (next : ReadyReturn)
    (result : Except SyncError Unit) : (e.gotReady doc next result).Does σ e := by
  have haside (hookRuns : List HookRun) : Stirs σ e { e with hookRuns } :=
    stirs_aside rfl rfl rfl rfl rfl rfl fun _ => id
  unfold gotReady
  split
  · exact answer_does e _ _
  · exact (haside _).deeds
  · exact .refl

/-! ## Feeds and tables -/

/-- Handing on a response, or the end of all responses, concerns a feed and its channel alone. -/
theorem lookPump_does (e : Engine) (feed : FeedId) (sink : SinkId) :
    (e.lookPump feed sink).Does σ e := by
  have hchannels (e : Engine) (channels : Channels) : Deeds σ e { e with channels } :=
    (channels_stirs e channels).deeds
  simp only [lookPump]
  split
  · split
    · exact (hchannels e _).trans (hchannels _ _)
    · split
      · exact (hchannels e _).trans (hchannels _ _)
      · next f hf =>
        have hput (channels : Channels) (f' : Feed) (notices : List FeedNotice) :
            Deeds σ e (Engine.putFeed { e with channels } feed f' notices) :=
          (hchannels e channels).trans (putFeed_stirs (e := { e with channels })
            (SortedMap.contains_of_get? hf) f' notices).deeds
        split
        · exact does_goOn (hput _ _ _) rfl
        · exact (hput _ _ _).trans (hchannels _ _)
  · split
    · trivial
    · split
      · exact hchannels e _
      · exact (onFeed_stirs e feed _).deeds.trans (hchannels _ _)

section Looks

variable (hcommits : σ.commits = false)
include hcommits

theorem lookConnectFeed_does (hfresh : σ.fresh ≤ e.tables.size) {feed : FeedId} {next : FeedReturn}
    (hclaims : ∀ table, next.Claims table → σ.Claims table)
    (hsession : next.session?.isSome = true → ∃ job ∈ σ.job, job.isSession = true) :
    (e.lookConnectFeed feed next).Does σ e := by
  simp only [lookConnectFeed]
  split
  · exact .refl
  · next f hf =>
    have hfeed := SortedMap.contains_of_get? hf
    split
    · exact feedConnected_does hcommits hfresh hclaims hsession hfeed _
    · next f' _ =>
      have hinsert : Stirs σ e { e with feeds := e.feeds.insert feed f' } :=
        .single (.feed f' (.inl hfeed))
      have hask := hinsert.trans (ask_stirs _ f'.request)
      have hpump (sink : SinkId) := hask.trans (spawn_plain_stirs _ (.pump feed sink) rfl)
      exact ⟨(hpump _).deeds, .of_session trivial (fun table h => .inl (hclaims table h))
        (fun _ _ => id) rfl hsession⟩

theorem lookAwaitFirst_does (hfresh : σ.fresh ≤ e.tables.size) {feed : FeedId} {next : FeedReturn}
    (hclaims : ∀ table, next.Claims table → σ.Claims table)
    (hsession : next.session?.isSome = true → ∃ job ∈ σ.job, job.isSession = true) :
    (e.lookAwaitFirst feed next).Does σ e := by
  simp only [lookAwaitFirst]
  split
  · exact .refl
  · next f hf =>
    have hfeed := SortedMap.contains_of_get? hf
    split
    · next reply _ =>
      have hput : Stirs σ e (e.putFeed feed (f.finishConnect reply).1
          (f.finishConnect reply).2.1) :=
        putFeed_stirs hfeed _ _
      have hflush := hput.trans (spawn_plain_stirs _ (.flush feed false) rfl)
      have hdone {e' : Engine} (h : Stirs σ e e') (result : Except ConnectionError (List Record)) :
          (e'.feedConnected feed next result).Does σ e :=
        (feedConnected_does hcommits (Nat.le_trans hfresh h.grows.size) hclaims hsession
          (h.grows.feeds feed hfeed) result).after h.deeds
      split
      · exact hdone hflush _
      · exact hdone hput _
    · exact feedConnected_does hcommits hfresh hclaims hsession hfeed _
    all_goals
      split
      · exact feedTimedOut_does hcommits _
      · trivial

/-- The table seeks its feed, which it may since the job claims it, and the job goes on with the new
feed. -/
theorem lookConnect_does (hfresh : σ.fresh ≤ e.tables.size) {table : TableId} {next : ConnectReturn}
    (htable : σ.Claims table) (hclaims : ∀ table, next.Claims table → σ.Claims table)
    (hsession : next.session?.isSome = true → ∃ job ∈ σ.job, job.isSession = true) :
    (e.lookConnect table next).Does σ e := by
  simp only [lookConnect]
  split
  · exact .refl
  · next t ht =>
    split
    · exact connected_does hcommits hfresh hclaims hsession _
    · next t' hconnect =>
      have hfeed (f : Feed) : Stirs σ e (e.newFeed f).2 := .single (.feed f (.inr rfl))
      have hput (f : Feed) (id : FeedId) :
          Stirs σ (e.newFeed f).2
            ((e.newFeed f).2.putTable table { t' with feed := some id } [.state]) :=
        putTable_stirs (e := (e.newFeed f).2) ht
          (.seek htable (Table.alters_beginConnect hconnect _)) _
      refine ⟨((hfeed _).trans (hput _ _)).deeds,
        .of_session trivial ?_ (fun _ _ => id) rfl hsession⟩
      rintro id (rfl | hid)
      · exact .inl htable
      · exact .inl (hclaims id hid)

end Looks

/-- Only the job that follows a feed may tell the table that it is lost. -/
theorem lookFollow_does {table : TableId} {feed : FeedId} (hfollows : σ.Follows table feed)
    (subscription : Nat) : (e.lookFollow table feed subscription).Does σ e := by
  simp only [lookFollow]
  split
  · exact .refl
  · next f hf =>
    have hfeed := SortedMap.contains_of_get? hf
    have hinsert (f' : Feed) : Stirs σ e { e with feeds := e.feeds.insert feed f' } :=
      .single (.feed f' (.inl hfeed))
    have hstop (e' : Engine) (h : Stirs σ e e') :
        Deeds σ e (e'.unsubscribeFeed feed subscription) :=
      (h.trans (onFeed_stirs e' feed _)).deeds
    split
    · split
      · exact hstop _ (hinsert _)
      · trivial
    · split
      · exact hstop _ ((hinsert _).trans (onFeed_stirs _ feed _))
      · split
        · next change _ =>
          have happly (e : Engine) : Stirs σ e (e.onTable table fun t => t.applyChange change) :=
            onTable_stirs fun t _ => .rest (t.alters_applyChange change) (by decide)
          have hchange := (hinsert { f with events := (f.events.receive subscription).2 }).trans
            (happly _)
          refine ⟨hchange.deeds, ?_, fun _ => False.elim, ?_, by simp [Job.session?],
            by simp [Job.isWatch]⟩
          · exact hchange.grows.feeds feed hfeed
          · rintro _ _ ⟨rfl, rfl⟩
            exact hfollows
        · exact hstop _ ((hinsert _).trans (onTable_stirs fun _ _ => .lose hfollows))

theorem lookWrite_does (hcommits : σ.commits = false) (e : Engine) (table : TableId)
    (record : Record) (expected : Option Record) (next : WriteReturn) :
    (e.lookWrite table record expected next).Does σ e := by
  simp only [lookWrite]
  split
  · exact .refl
  · next t ht =>
    split
    · exact written_does hcommits e next _
    · next t' notices write hbegin =>
      have hput : Stirs σ e (e.putTable table t' notices) :=
        putTable_stirs ht (.rest (Table.alters_beginWrite hbegin) (by decide)) notices
      exact does_goOn (hput.trans ((ask_stirs _ _).trans (spawn_plain_stirs _ _ rfl))).deeds rfl

theorem lookAwaitAnswer_does (e : Engine) (table : TableId) (write : Nat) (sink : SinkId) :
    (e.lookAwaitAnswer table write sink).Does σ e := by
  have hsettle (reply : Option Reply) : Deeds σ e
      (Engine.onTable { e with channels := e.channels.dropReceiver sink } table fun t =>
        t.settle write (Table.writeOutcome reply)) :=
    ((channels_stirs e _).trans
      (onTable_stirs fun t _ => .rest (t.alters_settle write _) (by decide))).deeds
  simp only [lookAwaitAnswer]
  split
  · exact hsettle _
  · split
    · trivial
    · exact hsettle none

theorem lookAwaitOutcome_does (hcommits : σ.commits = false) (e : Engine) (table : TableId)
    (write : LocalWrite) (limit : Limit) (next : WriteReturn) :
    (e.lookAwaitOutcome table write limit next).Does σ e := by
  simp only [lookAwaitOutcome]
  split
  · exact .refl
  · next t ht =>
    split
    · next outcome t' notices hresume =>
      exact (written_does hcommits _ next outcome).after
        (putTable_stirs ht (.rest (Table.alters_resumeWrite hresume) (by decide)) notices).deeds
    · trivial

theorem lookAwaitRows_does (hcommits : σ.commits = false) (hfresh : σ.fresh ≤ e.tables.size)
    (table : TableId) (condition : RowsCondition) (limit : Option Limit) {next : RowsReturn}
    (hopening : ∀ o, next = .opening o → σ.admits = true ∧ e.tables.contains o.table = true) :
    (e.lookAwaitRows table condition limit next).Does σ e := by
  unfold lookAwaitRows
  split
  · exact gotRows_does hcommits hfresh hopening _
  · split
    · exact gotRows_does hcommits hfresh hopening _
    · split
      · exact gotRows_does hcommits hfresh hopening _
      · trivial

theorem lookAwaitConnected_does (table : TableId) (limit : Option Limit) {next : ConnectedReturn}
    (hopening : ∀ o, next = .opening o → e.tables.contains o.table = true) :
    (e.lookAwaitConnected table limit next).Does σ e := by
  unfold lookAwaitConnected
  split
  · exact gotConnected_does hopening _
  · split
    · exact gotConnected_does hopening _
    · split
      · exact gotConnected_does hopening _
      · trivial

/-! ## Documents -/

theorem lookAwaitReady_does (e : Engine) (doc : DocId) (limit : Option Limit) (next : ReadyReturn) :
    (e.lookAwaitReady doc limit next).Does σ e := by
  unfold lookAwaitReady
  split
  · exact gotReady_does e doc next _
  · split
    · exact gotReady_does e doc next _
    · trivial

theorem lookSetUp_does (e : Engine) (id : DocId) : (e.lookSetUp id).Does σ e := by
  simp only [lookSetUp]
  split
  · exact .refl
  · next d hd =>
    have hstirs := (subscribeTable_stirs (σ := σ) e d.strings).trans
        (subscribeTable_stirs _ d.patches)
    refine ⟨hstirs.deeds, .of_claims trivial ?_ (fun _ _ h => h) rfl rfl⟩
    rintro table (rfl | hclaims)
    · exact .inr (.inr ⟨id, d, by rw [hstirs.docs, hd], .inl rfl⟩)
    · exact hclaims.elim

theorem lookRegister_does (hcommits : σ.commits = false) (e : Engine) (init : Initialization)
    (attempt : Nat) : (e.lookRegister init attempt).Does σ e := by
  simp only [lookRegister]
  split
  · exact .refl
  · split
    · exact does_goOn .refl rfl
    · exact initializationFailed_does hcommits e init _

theorem lookBecomeReady_does (hcommits : σ.commits = false) (e : Engine) (init : Initialization) :
    (e.lookBecomeReady init).Does σ e := by
  simp only [lookBecomeReady]
  split
  · exact .refl
  · next d _ =>
    split
    · have hready : Deeds σ e (e.onDocument init.doc Document.becomeReady) :=
        onDocument_deeds fun d _ => hcommits ▸ d.turns_becomeReady
      have hpatches := hready.trans (spawn_plain_stirs _
        (.followPatches init.doc d.patches init.patchesEvents) rfl).deeds
      have hstrings := hpatches.trans (spawn_plain_stirs _
        (.followStrings init.doc d.strings init.stringsEvents) rfl).deeds
      exact hstrings.trans (checkRow_deeds hcommits _ init.doc)
    · exact ((unsubscribeTable_stirs e _ _).trans (unsubscribeTable_stirs _ _ _)).deeds

/-- What is done at a change is an argument, as documents follow two tables in the same way. -/
theorem lookFollowTable_does (hcommits : σ.commits = false) (e : Engine) (doc : DocId)
    (table : TableId) (subscription : Nat) {job : Job} (hjob : job.isPlain = true)
    {onChange : Engine → List String → Engine}
    (honChange : ∀ e keys, Deeds σ e (onChange e keys)) :
    (e.lookFollowTable doc table subscription job onChange).Does σ e := by
  simp only [lookFollowTable]
  split
  · exact .refl
  · next t ht =>
    have hread : Deeds σ e { e with
        tables := e.tables.insert table { t with events := (t.events.receive subscription).2 } } :=
      .single (.stir (.table ht (Table.motion_reads (t.events.reads_receive subscription))))
    split
    · exact does_goOn (hread.trans (honChange _ _)) hjob
    · exact does_goOn (hread.trans (ingestAll_deeds hcommits _ doc)) hjob
    · exact does_goOn hread hjob
    · exact (hread.trans (closeDocument_deeds hcommits _ doc)).trans
        (unsubscribeTable_stirs _ table subscription).deeds
    · split
      · exact hread
      · trivial

theorem ingestKeys_deeds (hcommits : σ.commits = false) (doc : DocId) (e : Engine)
    (keys : List String) : Deeds σ e (ingestKeys doc e keys) :=
  onDocument_deeds fun d _ => hcommits ▸ d.turns_ingestRows _ _

theorem lookEdit_does (e : Engine) (doc : DocId) (edit : UserEdit) (call : CallId) :
    (e.lookEdit doc edit call).Does σ e := by
  unfold lookEdit
  split
  · exact .refl
  · split
    · exact answer_does e _ _
    · exact does_goOn .refl rfl

theorem lookCommit_does (e : Engine) (doc : DocId) (edit : UserEdit) (next : CommitReturn) :
    (e.lookCommit doc edit next).Does σ e := by
  simp only [lookCommit]
  split
  · exact .refl
  · next d hd =>
    have hticket : Document.Turns σ.commits d d.takeTicket.2 :=
      Document.turns_of_same rfl rfl rfl rfl rfl
    exact does_goOn (putDocument_deeds hd hticket []) rfl

theorem lookAwaitTurn_does (hcommits : σ.commits = true) (e : Engine) (doc : DocId) (ticket : Nat)
    (edit : UserEdit) (next : CommitReturn) : (e.lookAwaitTurn doc ticket edit next).Does σ e := by
  unfold lookAwaitTurn
  split
  · exact .refl
  · split
    · exact runCommit_does hcommits e doc ticket edit next
    · trivial

theorem lookSave_does (e : Engine) (doc : DocId) (call : CallId) :
    (e.lookSave doc call).Does σ e := by
  simp only [lookSave]
  split
  · exact .refl
  · next d hd =>
    split
    · exact answer_does e _ _
    · split
      · exact answer_does e _ _
      · next disk _ =>
        have hdisk : Stirs σ e { e with disk } := stirs_aside rfl rfl rfl rfl rfl rfl fun _ => id
        have hsaved : Document.Turns σ.commits d
            (({ d with saved := some d.text } : Document).emit .saved) :=
          .single ⟨rfl, rfl, rfl, .tell _ _ rfl⟩
        exact (answer_does _ call _).after
          (hdisk.deeds.trans (putDocument_deeds (e := { e with disk }) hd hsaved [.events]))

theorem lookLoad_does (e : Engine) (doc : DocId) (next : LoadReturn) :
    (e.lookLoad doc next).Does σ e := by
  unfold lookLoad
  split
  · exact .refl
  · split
    · exact loaded_does e next _
    · split
      · exact loaded_does e next _
      · exact loaded_does e next _
      · split
        · exact loaded_does e next _
        · exact does_goOn .refl rfl

theorem lookReconnect_does (e : Engine) (doc : DocId) (call : CallId) :
    (e.lookReconnect doc call).Does σ e := by
  unfold lookReconnect
  split
  · exact .refl
  · next d hd =>
    split
    · exact answer_does e _ _
    · refine ⟨.refl, .of_claims trivial ?_ (fun _ _ => id) rfl rfl⟩
      intro table htable
      exact .inr (.inr ⟨doc, d, hd, by simpa [Job.Claims] using htable⟩)

/-- The tables are connected in turn; those that are left are claimed already. -/
theorem lookReconnectTables_does (hcommits : σ.commits = false) {doc : DocId}
    {tables : List TableId} (hclaims : ∀ table ∈ tables, σ.Claims table) (call : CallId) :
    (e.lookReconnectTables doc tables call).Does σ e := by
  cases tables with
  | nil => exact (answer_does _ call _).after (ingestAll_deeds hcommits e doc)
  | cons table rest =>
    have hrest (id : TableId) (hid : id ∈ rest) : σ.Claims id :=
      hclaims id (List.mem_cons_of_mem _ hid)
    simp only [lookReconnectTables]
    split
    · refine ⟨.refl, .of_claims trivial ?_ (fun _ _ => id) rfl rfl⟩
      rintro id (rfl | hid)
      · exact .inl (hclaims id List.mem_cons_self)
      · exact .inl (hrest id hid)
    · exact ⟨.refl, .of_claims trivial (fun id hid => .inl (hrest id hid)) (fun _ _ h => h) rfl rfl⟩

/-! ## Registry and sessions -/

/-- The engine after a job has read the next event of the document that it watches. -/
def hear (e : Engine) : Job → Engine
  | .watch doc table docEvents _ =>
    match e.docs.get? doc, e.tables.get? table with
    | some d, some _ =>
      { e with docs := e.docs.insert doc { d with events := (d.events.receive docEvents).2 } }
    | _, _ => e
  | _ => e

theorem hear_of_none {doc : DocId} {d : Document} (hd : e.docs.get? doc = some d) {docEvents : Nat}
    (hnone : (d.events.receive docEvents).1 = none) (table : TableId) (tableEvents : Nat) :
    e.hear (.watch doc table docEvents tableEvents) = e := by
  have hsame : (d.events.receive docEvents).2 = d.events := by
    rw [EventBus.receive] at hnone ⊢
    split at hnone <;> simp_all
  simp only [hear, hd]
  split
  · next hd' _ =>
    cases hd'
    rw [hsame, SortedMap.insert_get? hd]
  · rfl

/-- The table is closed and the entry is cleared, which takes a scope that may change the
registry. -/
theorem endWatch_does (hadmits : σ.admits = true) (e : Engine) (doc : DocId) (table : TableId) :
    (e.endWatch doc table).Does σ e := by
  have hclose : Deeds σ e (e.closeTable table) := (closeTable_stirs e table).deeds
  simp only [endWatch]
  split
  · exact hclose
  · exact hclose.trans (.single (.register _ _ hadmits))

/-- All this happens after the event was read, so it is said of the engine that has heard it. -/
theorem lookWatch_does (hcommits : σ.commits = false) (hadmits : σ.admits = true) {doc : DocId}
    {table : TableId} {docEvents tableEvents : Nat}
    (hjob : σ.job = some (.watch doc table docEvents tableEvents))
    (hgrounded : (Job.watch doc table docEvents tableEvents).Grounded e) :
    (e.lookWatch doc table docEvents tableEvents).Does σ
      (e.hear (.watch doc table docEvents tableEvents)) := by
  have hgoOn {e₁ e₂ : Engine} (h₁ : Grows e e₁) (h : Deeds σ e₁ e₂) :
      (Progress.goOn e₂ (.watch doc table docEvents tableEvents)).Does σ e₁ := by
    refine ⟨h, ?_, fun _ => False.elim, fun _ _ => False.elim, by simp [Job.session?],
      fun _ => hjob⟩
    have hgrows := h₁.trans h.grows
    exact ⟨hgrows.docs doc hgrounded.1, hgrows.tables table hgrounded.2⟩
  obtain ⟨d, hd⟩ := SortedMap.get?_of_contains hgrounded.1
  obtain ⟨t, ht⟩ := SortedMap.get?_of_contains hgrounded.2
  cases hevent : (d.events.receive docEvents).1 with
  | some event =>
    simp only [lookWatch, hear, hd, ht, hevent]
    split
    · exact hgoOn (.insert_doc e _ _) (closeDocument_deeds hcommits _ doc)
    · exact endWatch_does hadmits _ doc table
    · exact hgoOn (.insert_doc e _ _) .refl
  | none =>
    rw [hear_of_none hd hevent]
    have hread : Deeds σ e { e with
        tables := e.tables.insert table { t with events := (t.events.receive tableEvents).2 } } :=
      .single (.stir (.table ht (Table.motion_reads (t.events.reads_receive tableEvents))))
    have hend : ((Engine.closeDocument { e with
        tables := e.tables.insert table
          { t with events := (t.events.receive tableEvents).2 } } doc).endWatch
            doc table).Does σ e :=
      (endWatch_does hadmits _ doc table).after (hread.trans (closeDocument_deeds hcommits _ doc))
    simp only [lookWatch, hd, ht, hevent]
    split
    · exact endWatch_does hadmits e doc table
    · split
      · exact hend
      · exact hgoOn (.refl e) hread
      · split
        · exact hend
        · trivial

theorem lookSession_does (hfresh : σ.fresh ≤ e.tables.size)
    (hsession : ∃ job ∈ σ.job, job.isSession = true) (client : ClientId) (settings : Settings)
    (call : CallId) : (e.lookSession client settings call).Does σ e := by
  have hnew : Stirs σ e (e.newTable .syncstrings (Query.all Schema.syncstrings.name) settings).2 :=
    newTable_stirs e _ _ _
  have hsubscribe : Stirs σ _ _ := subscribeTable_stirs
    (e.newTable .syncstrings (Query.all Schema.syncstrings.name) settings).2 e.tables.size
  have hin := hsubscribe.grows.tables e.tables.size (by simp [newTable])
  refine ⟨(hnew.trans hsubscribe).deeds,
    .of_session trivial ?_ (fun _ _ => id) rfl fun _ => hsession⟩
  rintro table (rfl | rfl) <;> exact .inr (.inl ⟨hfresh, hin⟩)

/-- A session that hears of a loss goes on to connect its own table, and at a change of rows it
opens the documents in them. -/
theorem lookFollowRows_does (hfresh : σ.fresh ≤ e.tables.size) {s : Session}
    (hclaims : σ.Claims s.table) (hsession : ∃ job ∈ σ.job, job.isSession = true) :
    (e.lookFollowRows s).Does σ e := by
  simp only [lookFollowRows]
  split
  · exact .refl
  · next t ht =>
    have hread : Stirs σ e { e with
        tables := e.tables.insert s.table { t with events := (t.events.receive s.events).2 } } :=
      .single (.table ht (Table.motion_reads (t.events.reads_receive s.events)))
    have hopened {e₁ : Engine} (h : Stirs σ e e₁) (keys : Option (List String)) :
        (Progress.goOn (e₁.openSessionRows s keys).1
          (.followRows (e₁.openSessionRows s keys).2)).Does σ e := by
      obtain ⟨hstirs, htable, -⟩ := openSessionRows_stirs (Nat.le_trans hfresh h.grows.size) s keys
      refine ⟨(h.trans hstirs).deeds,
        .of_session trivial (fun table heq => ?_) (fun _ _ => id) rfl fun _ => hsession⟩
      have htable' : table = s.table := Eq.trans heq htable
      rw [htable']
      exact .inl hclaims
    split
    · exact hopened hread none
    · exact hopened hread _
    · refine ⟨hread.deeds, .of_session trivial ?_ (fun _ _ => id) rfl fun _ => hsession⟩
      rintro table (rfl | rfl) <;> exact .inl hclaims
    · exact (answer_does _ _ _).after hread.deeds
    · split
      · exact (answer_does _ _ _).after hread.deeds
      · trivial

theorem lookSleep_does (e : Engine) {s : Session} (hclaims : σ.Claims s.table)
    (hsession : ∃ job ∈ σ.job, job.isSession = true) (wakeAt delay : Nat) (isFirst : Bool) :
    (e.lookSleep s wakeAt delay isFirst).Does σ e := by
  unfold lookSleep
  split
  · refine ⟨.refl, .of_session trivial ?_ (fun _ _ => id) rfl fun _ => hsession⟩
    rintro table (rfl | rfl) <;> exact .inl hclaims
  · trivial

theorem lookJoin_does (e : Engine) (table : TableId) (job : JobId) :
    (e.lookJoin table job).Does σ e := by
  simp only [lookJoin]
  split
  · trivial
  · split
    · exact .refl
    · exact (onTable_stirs fun t _ => .rest t.alters_release (by decide)).deeds

/-! ## All jobs -/

/-- **Every job keeps within its scope.** -/
theorem look_does (e : Engine) {job : Job} (hgrounded : job.Grounded e) :
    (e.look job).Does (job.scope e) (e.hear job) := by
  have hfresh : (job.scope e).fresh ≤ e.tables.size := Nat.le_refl _
  have hclaims (table : TableId) (h : job.Claims table) : (job.scope e).Claims table := by
    simpa using h
  have hself (h : job.isSession = true) : ∃ job' ∈ (job.scope e).job, job'.isSession = true :=
    ⟨job, rfl, h⟩
  cases job with
  | pump feed sink => exact lookPump_does e feed sink
  | flush feed waited =>
    cases waited with
    | false => exact ⟨feed, rfl⟩
    | true => exact (onFeed_stirs e feed _).deeds
  | cancel id => exact ((backend_stirs e _).trans (deliver_stirs _ _)).deeds
  | connectFeed feed next => exact lookConnectFeed_does rfl hfresh hclaims hself
  | awaitFirst feed next => exact lookAwaitFirst_does rfl hfresh hclaims hself
  | connect table next =>
    exact lookConnect_does rfl hfresh (hclaims table (.inl rfl))
      (fun id h => hclaims id (.inr h)) hself
  | follow table feed subscription => exact lookFollow_does (by simp [Job.Follows]) subscription
  | write table record expected next => exact lookWrite_does rfl e table record expected next
  | awaitAnswer table write sink => exact lookAwaitAnswer_does e table write sink
  | awaitOutcome table write limit next => exact lookAwaitOutcome_does rfl e table write limit next
  | awaitRows table condition limit next =>
    refine lookAwaitRows_does rfl hfresh table condition limit fun o ho => ?_
    subst ho
    exact ⟨rfl, hgrounded⟩
  | awaitConnected table limit next =>
    refine lookAwaitConnected_does table limit fun o ho => ?_
    subst ho
    exact hgrounded
  | awaitReady doc limit next => exact lookAwaitReady_does e doc limit next
  | setUp doc => exact lookSetUp_does e doc
  | register init attempt => exact lookRegister_does rfl e init attempt
  | becomeReady init => exact lookBecomeReady_does rfl e init
  | followPatches doc table subscription =>
    exact lookFollowTable_does rfl e doc table subscription rfl (ingestKeys_deeds rfl doc)
  | followStrings doc table subscription =>
    exact lookFollowTable_does rfl e doc table subscription rfl fun e _ => checkRow_deeds rfl e doc
  | edit doc edit call => exact lookEdit_does e doc edit call
  | commit doc edit next => exact lookCommit_does e doc edit next
  | awaitTurn doc ticket edit next => exact lookAwaitTurn_does rfl e doc ticket edit next
  | save doc call => exact lookSave_does e doc call
  | load doc next => exact lookLoad_does e doc next
  | reconnect doc call => exact lookReconnect_does e doc call
  | reconnectTables doc tables call => exact lookReconnectTables_does rfl hclaims call
  | watch doc table docEvents tableEvents => exact lookWatch_does rfl rfl rfl hgrounded
  | session client settings call => exact lookSession_does hfresh (hself rfl) client settings call
  | followRows s => exact lookFollowRows_does hfresh (hclaims s.table rfl) (hself rfl)
  | sleep s wakeAt delay isFirst =>
    exact lookSleep_does e (hclaims s.table rfl) (hself rfl) wakeAt delay isFirst
  | join table other => exact lookJoin_does e table other

end Engine

end LiveDocs
