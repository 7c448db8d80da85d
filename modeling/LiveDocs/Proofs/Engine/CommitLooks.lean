import LiveDocs.Proofs.Engine.Hosting

/-!
# Looks at jobs of one document

A look at a job of a hosted document may move a commit on: it takes a ticket, its patch is added,
its snapshot is due or was taken, or it ends (`Progress.MovesCommit`). All other looks leave the
document with the patches and commits that it has (`Progress.Rests`). This holds as long as the
patches and snapshots that are written are accepted (`Engine.rejects`).

## Main definitions

* `Progress.Rests`, `Progress.MovesCommit`: what a look comes to, without and with a commit in view.
* `Engine.rejects`: a patch or a snapshot is not accepted.

## Main results

* `Engine.Hosts.runCommit`, `Engine.Hosts.written`: commits that go on.
* `Engine.Hosts.look`: a look makes one step of a commit, or none.
-/

namespace LiveDocs

/-- What a look comes to that leaves the commits of a document as they are. -/
def Progress.Rests (doc : DocId) (d : Document) (start : JobId) : Progress → Prop
  | .wait => True
  | .goOn e job => e.Hosts doc d start ∧ job.Fits doc d ∧ job.phase? = none
  | .yield _ => False
  | .finish e => e.Hosts doc d start

/-- What a look comes to that may move a commit on. -/
def Progress.MovesCommit (doc : DocId) (d : Document) (start : JobId) (p : Option CommitPhase) :
    Progress → Prop
  | .wait => True
  | .goOn e job => ∃ d', d.Passes p d' job.phase? ∧ e.Hosts doc d' start ∧ job.Fits doc d'
  | .yield job => p = none ∧ ∃ feed, job = .flush feed true
  | .finish e => ∃ d', d.Passes p d' none ∧ e.Hosts doc d' start

namespace Progress

variable {doc : DocId} {d d' : Document} {start : JobId} {r : Progress}

/-- A look that leaves commits alone is a step of none. -/
theorem Rests.movesCommit (h : r.Rests doc d start) (hd : d.Honest) :
    r.MovesCommit doc d start none := by
  have hstay : d.Passes none d none := .stay none (Document.continues_refl hd)
  cases r with
  | wait => trivial
  | goOn e job => exact ⟨d, by rw [h.2.2]; exact hstay, h.1, h.2.1⟩
  | yield job => exact h.elim
  | finish e => exact ⟨d, hstay, h⟩

/-- A commit has ended, and what follows is no commit. -/
theorem Rests.ends {p : CommitPhase} (h : r.Rests doc d' start)
    (hpass : d.Passes (some p) d' none) : r.MovesCommit doc d start (some p) := by
  cases r with
  | wait => trivial
  | goOn e job => exact ⟨d', by rw [h.2.2]; exact hpass, h.1, h.2.1⟩
  | yield job => exact h.elim
  | finish e => exact ⟨d', hpass, h⟩

end Progress

namespace Engine.Hosts

variable {doc : DocId} {d d₁ : Document} {start : JobId} {e : Engine} (h : e.Hosts doc d start)
include h

/-! ### Calls and failures -/

theorem answer (call : CallId) (outcome : CallOutcome) :
    (e.answer call outcome).Rests doc d start := by
  have hreport : (e.report call outcome).Hosts doc d start := h.of_same rfl rfl rfl rfl rfl rfl
  exact hreport

theorem initializationFailed (init : Initialization) (cause : SyncError) :
    (e.initializationFailed init cause).Rests doc d start :=
  h.onDocument init.doc fun _ hd => Document.continues_fail hd.honest _

/-! ### Connecting -/

/-- Sessions and openings are ruled out; a document that is being initialized goes on to the next
table. -/
theorem connected {next : ConnectReturn} (hnext : next.opensNone = true)
    (result : Except TableError Unit) : (e.connected next result).Rests doc d start := by
  cases next with
  | call call => exact h.answer _ _
  | strings init =>
    rcases result with cause | ⟨⟩
    · exact h.initializationFailed init _
    · simp only [Engine.connected]
      split
      · exact ⟨h, rfl, rfl⟩
      · exact h
  | patches init =>
    rcases result with cause | ⟨⟩
    · exact h.initializationFailed init _
    · exact ⟨h, trivial, rfl⟩
  | reconnect id rest call =>
    rcases result with cause | ⟨⟩
    · exact h.answer _ _
    · exact ⟨h, trivial, rfl⟩
  | session => cases hnext
  | opening => cases hnext

/-- The first rows of a feed are owned, so the table may take them in. -/
theorem feedConnected {next : FeedReturn} (hnext : next.opensNone = true) (feed : FeedId)
    {result : Except ConnectionError (List Record)}
    (hresult : ∀ rows, result = .ok rows → ∀ row ∈ rows, d.Owns row) :
    (e.feedConnected feed next result).Rests doc d start := by
  cases next with
  | call call => exact h.answer _ _
  | table table subscription next =>
    simp only [Engine.feedConnected]
    cases result with
    | error cause =>
      exact ((h.unsubscribeFeed feed subscription).onTable table
        fun t => (t.alters_connectFailed feed).keeps (by decide)).connected hnext _
    | ok rows =>
      simp only [tableFeedConnected]
      split
      · exact h
      · next t ht =>
        split
        · exact (h.closeFeed feed).connected hnext _
        · next t' notices hconnect =>
          have hkeeps : t.Keeps d.Owns t' := Table.keeps_finishConnect (hresult rows rfl) hconnect
          exact ((h.putTable ht hkeeps notices).spawn rfl).connected hnext _

theorem feedTimedOut (feed : FeedId) (next : FeedReturn) (limit : Limit) :
    (e.feedTimedOut feed next limit).Rests doc d start := by
  unfold Engine.feedTimedOut
  split
  · exact (h.unsubscribeFeed feed _).initializationFailed _ _
  · exact (h.unsubscribeFeed feed _).initializationFailed _ _
  · exact h

/-! ### Commits -/

theorem loaded (next : LoadReturn) (result : Except SyncError Bool) :
    (e.loaded next result).Rests doc d start := by
  cases next with
  | call call => exact h.answer _ _
  | setUp init => exact ⟨h, trivial, rfl⟩

/-- The one who wanted the commit hears of it. The commit itself is over by then. -/
theorem committed (id : DocId) (next : CommitReturn) (result : Except SyncError (Option PatchId)) :
    (e.committed id next result).Rests doc d start := by
  cases next with
  | call call => exact h.answer _ _
  | load next =>
    cases result with
    | error cause => exact h.loaded next _
    | ok found =>
      exact (h.onDocument id fun _ hd => hd.honest.continues _ _ _ _ _).loaded next _

/-- A commit returns its ticket and ends. -/
theorem endCommit {p : CommitPhase} {ticket : Nat} (hd : e.docs.get? doc = some d₁)
    (hpass : d.Passes (some p) (d₁.returnTicket ticket).1 none) (next : CommitReturn)
    (result : Except SyncError (Option PatchId)) :
    (e.endCommit doc ticket next result).MovesCommit doc d start (some p) := by
  have hreturned : (e.onDocument doc fun d => d.returnTicket ticket).Hosts doc
      (d₁.returnTicket ticket).1 start := by
    simp only [Engine.onDocument, hd]
    exact h.replaceDocument hd ((h.continues hd).2.honest.advances_returnTicket ticket) _
  exact (hreturned.committed doc next result).ends hpass

/-- A commit that has its turn adds a patch, or ends. -/
theorem runCommit (htimes : ∀ d₁, e.docs.get? doc = some d₁ →
      ∀ id ∈ d₁.versions, id.time < 0xffffffffffffffff)
    (hd : e.docs.get? doc = some d₁) {ticket : Nat} (hturn : d₁.hasTurn ticket = true)
    (edit : UserEdit) (next : CommitReturn) :
    (e.runCommit doc ticket edit next).MovesCommit doc d start (some (.waiting ticket)) := by
  have hold := (h.continues hd).2
  simp only [Engine.runCommit, hd]
  split
  · exact h.endCommit hd (.dismiss hold hturn) next _
  · exact h.endCommit hd (.dismiss hold hturn) next _
  · next d' patch hbegin =>
    obtain ⟨hadvances, hturns, hticket, howns, hsince⟩ :=
      Document.beginCommit_spec hold.honest (htimes d₁ hd) hbegin
    have hput := h.replaceDocument hd hadvances [.events]
    have hsyncing := hput.onDocument doc
      fun d₂ hd₂ => Document.continues_transition hd₂.honest .ready .syncing
    exact ⟨d', .write hold hturn hadvances hturns hticket hsince, hsyncing,
      ⟨hadvances.patches.symm, rfl⟩, howns⟩

/-- A commit whose patch was accepted goes on with a snapshot if one is due. -/
theorem accepted {c : Commit} (hc : c.doc = doc) :
    (e.accepted c).MovesCommit doc d start (some (.patch c.ticket)) := by
  subst hc
  obtain ⟨d₁, hd, hold⟩ := h.here
  simp only [Engine.accepted, hd]
  split
  · next hdue =>
    exact h.endCommit hd (.accept hold (Document.since_lt_of_dueSnapshot? hdue)) c.next _
  · next id text hdue =>
    obtain ⟨hlatest, rfl⟩ := Document.dueSnapshot?_eq_some hold.honest hdue
    have hid : id ∈ d₁.versions := History.mem_ids_of_latest? hlatest
    exact ⟨d₁, .due hold hlatest rfl, h.rebase_self hd, ⟨rfl, rfl⟩,
      Document.owns_encodeSnapshot hid d₁.stringId⟩

/-! ### Writes -/

theorem registered (init : Initialization) (user : UInt32) :
    (e.registered init user).Rests doc d start := by
  have huser : (e.onDocument init.doc fun d => ({ d with user := some user }, [])).Hosts
      doc d start :=
    h.onDocument init.doc fun d₁ hd => hd.honest.continues d₁.state (some user) d₁.saved d₁.failure
      d₁.events
  have hknown := huser.ingestAll init.doc
  simp only [Engine.registered]
  split
  · exact hknown
  · split
    · exact ⟨hknown, trivial, rfl⟩
    · exact ⟨hknown, trivial, rfl⟩

/-- A write has its outcome. That of a patch or a snapshot was accepted. -/
theorem written {table : TableId} {next : WriteReturn} (hfits : next.Fits doc d table)
    {result : Except TableError Unit} (haccepted : next.schema = .patches → result = .ok ())
    (hdue : ∀ ticket id text, next.phase? = some (.snapshot ticket id text) →
      id ∈ d.versions ∧ text = d.textAt id) :
    (e.written next result).MovesCommit doc d start next.phase? := by
  cases next with
  | call => exact hfits.elim
  | register init attempt place seen =>
    refine Progress.Rests.movesCommit ?_ h.honest
    simp only [Engine.written]
    split
    · exact h.registered init _
    · split
      · exact h
      · exact ⟨h, trivial, rfl⟩
    · exact h.initializationFailed init _
  | commit c =>
    cases haccepted rfl
    exact (h.onDocument c.doc fun d₁ hd =>
      Document.continues_transition hd.honest .syncing .ready).accepted hfits.2
  | snapshot c id text =>
    cases haccepted rfl
    obtain ⟨-, rfl⟩ := hfits
    obtain ⟨d₁, hd, hold⟩ := h.here
    obtain ⟨hid, htext⟩ := hdue c.ticket id text rfl
    have htrue : text = d₁.textAt id := htext.trans (hold.known id hid).2.symm
    have hrecorded := h.replaceDocument hd
      (Document.continues_recordSnapshot hold.honest htrue).toAdvances []
    have hget : (e.putDocument c.doc (d₁.recordSnapshot id text) []).docs.get? c.doc =
        some (d₁.recordSnapshot id text) := by simp [Engine.putDocument]
    simp only [Engine.written, Engine.onDocument, hd, hget]
    refine ⟨_, .record hold, hrecorded, ⟨rfl, rfl⟩, .of_timeless (Document.rowTrait_owns _) ?_ _⟩
    simp [Document.snapshotNote, SortedMap.ofList]
  | snapshotNote c =>
    obtain ⟨-, rfl⟩ := hfits
    obtain ⟨d₁, hd, hold⟩ := h.here
    exact h.endCommit hd (.finish hold) c.next _

/-! ### Feeds and tables -/

theorem lookPump (feed : FeedId) (sink : SinkId) : (e.lookPump feed sink).Rests doc d start := by
  have hdrop {e : Engine} (h : e.Hosts doc d start) := h.withChannels (h.channels.dropReceiver sink)
  simp only [Engine.lookPump]
  split
  · next reply rest hqueue =>
    have htaken := h.withChannels (h.channels.takeFirst hqueue)
    have hreply : Reply.Bears d.Owns reply := h.channels.queue (hqueue ▸ List.mem_cons_self)
    split
    · exact hdrop htaken
    · split
      · exact hdrop htaken
      · next f hf =>
        have hput := htaken.putFeed feed ((h.feeds hf).deliver hreply) (f.deliver reply).2.1
        split
        · exact ⟨hput, trivial, rfl⟩
        · exact hdrop hput
  · split
    · trivial
    · split
      · exact hdrop h
      · exact hdrop (h.onFeed feed fun _ hf => hf.close)

theorem lookConnectFeed {next : FeedReturn} (hnext : next.opensNone = true) (feed : FeedId) :
    (e.lookConnectFeed feed next).Rests doc d start := by
  simp only [Engine.lookConnectFeed]
  split
  · exact h
  · next f hf =>
    split
    · exact h.feedConnected hnext feed fun rows hrows => by cases hrows
    · next f' hbegin =>
      have hfeed := h.withFeed feed ((h.feeds hf).beginConnect hbegin)
      have hrequest (sink : SinkId) (w : HeldWrite)
          (hw : Database.setQuery? f'.request sink = some w) : Suits d.Owns w.table w.row := by
        rw [f'.setQuery?_request sink] at hw
        cases hw
      exact ⟨(hfeed.ask hrequest).spawn rfl, hnext, rfl⟩

theorem lookAwaitFirst {next : FeedReturn} (hnext : next.opensNone = true) (feed : FeedId) :
    (e.lookAwaitFirst feed next).Rests doc d start := by
  simp only [Engine.lookAwaitFirst]
  split
  · exact h
  · next f hf =>
    split
    · next reply hfirst =>
      obtain ⟨hfinished, hrows⟩ := (h.feeds hf).finishConnect ((h.feeds hf).first hfirst)
      have hput := h.putFeed feed hfinished (f.finishConnect reply).2.1
      split
      · exact (hput.spawn rfl).feedConnected hnext feed hrows
      · exact hput.feedConnected hnext feed hrows
    · exact h.feedConnected hnext feed fun rows hrows => by cases hrows
    all_goals
      split
      · exact h.feedTimedOut feed next _
      · trivial

theorem lookConnect {next : ConnectReturn} (hnext : next.opensNone = true) (table : TableId) :
    (e.lookConnect table next).Rests doc d start := by
  simp only [Engine.lookConnect]
  split
  · exact h
  · next t ht =>
    split
    · exact h.connected hnext _
    · next t' hbegin =>
      have hfeed (query : Query) (timeout : Nat) := Feed.bears_new (P := d.Owns) query timeout []
      have hnew := h.withFeed e.feeds.size
        ((hfeed t'.query t'.settings.feedTimeout.toNat).withEvents
          (hfeed t'.query 0).events.subscribe)
      have hput := hnew.putTable ht
          ((Table.alters_beginConnect hbegin (some e.feeds.size)).keeps (by decide)) [.state]
      exact ⟨hput, hnext, rfl⟩

theorem lookFollow (table : TableId) (feed : FeedId) (subscription : Nat) :
    (e.lookFollow table feed subscription).Rests doc d start := by
  simp only [Engine.lookFollow]
  split
  · exact h
  · next f hf =>
    have hread := h.withFeed feed ((h.feeds hf).withEvents
      ((h.feeds hf).events.reads (f.events.reads_receive subscription)))
    split
    · split
      · exact hread.unsubscribeFeed feed subscription
      · trivial
    · next event hevent =>
      split
      · exact (hread.onFeed feed fun _ hf => ⟨hf.first, hf.pending, hf.events⟩).unsubscribeFeed feed
          subscription
      · split
        · next change =>
          have hmem : .update change ∈ f.events.unread subscription := by
            rw [EventBus.receive_fst] at hevent
            exact List.mem_of_mem_head? hevent
          have hrow (row : Record) (hnew : change.newRow = some row) : d.Owns row :=
            (h.feeds hf).events.rows hmem hnew
          exact ⟨hread.onTable table fun t => t.keeps_applyChange d.rowTrait_owns hrow,
            trivial, rfl⟩
        · have hclosed := hread.onTable table fun t => (t.alters_feedClosed feed).keeps (by decide)
          exact hclosed.unsubscribeFeed feed subscription

theorem lookAwaitAnswer (table : TableId) (write : Nat) (sink : SinkId) :
    (e.lookAwaitAnswer table write sink).Rests doc d start := by
  have hsettle (outcome : Except TableError Unit) :=
    (h.withChannels (h.channels.dropReceiver sink)).onTable table fun t =>
      (t.alters_settle write outcome).keeps (by decide)
  simp only [Engine.lookAwaitAnswer]
  split
  · exact hsettle _
  · split
    · trivial
    · exact hsettle _

/-- Waiting for rows ends in an answer or in another attempt to register, never in a document that
is opened. -/
theorem gotRows {next : RowsReturn} (hnext : ∀ o, next ≠ .opening o)
    (result : Except TableError Rows) : (e.gotRows next result).Rests doc d start := by
  cases next with
  | call call => exact h.answer _ _
  | register init attempt =>
    cases result with
    | error cause => exact h.initializationFailed init _
    | ok rows => exact ⟨h, trivial, rfl⟩
  | opening o => exact absurd rfl (hnext o)

theorem lookAwaitRows (table : TableId) (condition : RowsCondition) (limit : Option Limit)
    {next : RowsReturn} (hnext : ∀ o, next ≠ .opening o) :
    (e.lookAwaitRows table condition limit next).Rests doc d start := by
  unfold Engine.lookAwaitRows
  split
  · exact h.gotRows hnext _
  · split
    · exact h.gotRows hnext _
    · split
      · exact h.gotRows hnext _
      · trivial

theorem lookAwaitConnected (table : TableId) (limit : Option Limit) (call : CallId) :
    (e.lookAwaitConnected table limit (.call call)).Rests doc d start := by
  unfold Engine.lookAwaitConnected
  split
  · exact h.answer _ _
  · split
    · exact h.answer _ _
    · split
      · exact h.answer _ _
      · trivial

/-! ### Documents -/

theorem gotReady (id : DocId) (next : ReadyReturn) (result : Except SyncError Unit) :
    (e.gotReady id next result).Rests doc d start := by
  unfold Engine.gotReady
  split
  · exact h.answer _ _
  · have hrun (hookRuns : List HookRun) : ({ e with hookRuns } : Engine).Hosts doc d start :=
      h.of_same rfl rfl rfl rfl rfl rfl
    exact hrun _
  · exact h

theorem lookAwaitReady (id : DocId) (limit : Option Limit) (next : ReadyReturn) :
    (e.lookAwaitReady id limit next).Rests doc d start := by
  unfold Engine.lookAwaitReady
  split
  · exact h.gotReady id next _
  · split
    · exact h.gotReady id next _
    · trivial

theorem lookSetUp (id : DocId) : (e.lookSetUp id).Rests doc d start := by
  simp only [Engine.lookSetUp]
  split
  · exact h
  · next d₁ _ => exact ⟨(h.subscribeTable d₁.strings).subscribeTable d₁.patches, rfl, rfl⟩

/-- The row with which a client joins the list of users has no time. -/
theorem lookRegister (init : Initialization) (attempt : Nat) :
    (e.lookRegister init attempt).Rests doc d start := by
  simp only [Engine.lookRegister]
  split
  · exact h
  · next d₁ hd =>
    split
    · refine ⟨h, ⟨(h.continues hd).2.strings, .of_timeless d.rowTrait_owns ?_ _⟩, rfl⟩
      simp only [Document.registration, SortedMap.ofList]
      split <;> simp
    · exact h.initializationFailed init _

theorem lookBecomeReady (init : Initialization) : (e.lookBecomeReady init).Rests doc d start := by
  simp only [Engine.lookBecomeReady]
  split
  · exact h
  · split
    · have hready := h.onDocument init.doc fun _ hd => Document.continues_becomeReady hd.honest
      exact ((hready.spawn rfl).spawn rfl).checkRow init.doc
    · exact (h.unsubscribeTable _ _).unsubscribeTable _ _

/-- What is done at a change is an argument, and it has to leave the engine a host. -/
theorem lookFollowTable (id : DocId) (table : TableId) (subscription : Nat) {job : Job}
    (hjob : job.isHelper = true) {onChange : Engine → List String → Engine}
    (honChange : ∀ {e : Engine} keys, e.Hosts doc d start → (onChange e keys).Hosts doc d start) :
    (e.lookFollowTable id table subscription job onChange).Rests doc d start := by
  have hgoOn {e : Engine} (h : e.Hosts doc d start) : (Progress.goOn e job).Rests doc d start :=
    ⟨h, Job.fits_of_isHelper hjob doc d, Job.phase?_of_isHelper hjob⟩
  simp only [Engine.lookFollowTable]
  split
  · exact h
  · next t ht =>
    have hread (events : EventBus TableEvent) :
        ({ e with tables := e.tables.insert table { t with events } } : Engine).Hosts doc d start :=
      h.withTable ht (Table.keeps_of_same rfl rfl)
    split
    · exact hgoOn (honChange _ (hread _))
    · exact hgoOn ((hread _).ingestAll id)
    · exact hgoOn (hread _)
    · exact ((hread _).closeDocument id).unsubscribeTable table subscription
    · split
      · exact hread _
      · trivial

theorem lookEdit (id : DocId) (edit : UserEdit) (call : CallId) :
    (e.lookEdit id edit call).Rests doc d start := by
  unfold Engine.lookEdit
  split
  · exact h
  · split
    · exact h.answer _ _
    · exact ⟨h, trivial, rfl⟩

/-- A commit takes a ticket. -/
theorem lookCommit (id : DocId) (edit : UserEdit) (next : CommitReturn) :
    (e.lookCommit id edit next).MovesCommit doc d start none := by
  simp only [Engine.lookCommit]
  split
  · exact Progress.Rests.movesCommit h h.honest
  · next d₁ hd =>
    obtain ⟨rfl, hold⟩ := h.continues hd
    exact ⟨_, .take hold, h.replaceDocument hd (hold.honest.advances_turns _ _) [], rfl⟩

/-- A commit whose turn it is has its patch added. The times of all known patches are below the last
one, so the new patch gets a time of its own. -/
theorem lookAwaitTurn (htimes : ∀ d₁, e.docs.get? doc = some d₁ →
      ∀ id ∈ d₁.versions, id.time < 0xffffffffffffffff) (ticket : Nat) (edit : UserEdit)
    (next : CommitReturn) :
    (e.lookAwaitTurn doc ticket edit next).MovesCommit doc d start (some (.waiting ticket)) := by
  obtain ⟨d₁, hd, -⟩ := h.here
  simp only [Engine.lookAwaitTurn, hd]
  split
  · next hturn => exact h.runCommit htimes hd hturn edit next
  · trivial

theorem lookSave (id : DocId) (call : CallId) : (e.lookSave id call).Rests doc d start := by
  simp only [Engine.lookSave]
  split
  · exact h
  · next d₁ hd =>
    split
    · exact h.answer _ _
    · split
      · exact h.answer _ _
      · next disk _ =>
        have hdisk : ({ e with disk } : Engine).Hosts doc d start :=
          h.of_same rfl rfl rfl rfl rfl rfl
        have hsaved : d₁.Continues (({ d₁ with saved := some d₁.text } : Document).emit .saved) :=
          (h.continues hd).2.honest.continues d₁.state d₁.user _ d₁.failure _
        exact (hdisk.putDocument hd hsaved [.events]).answer _ _

theorem lookLoad (id : DocId) (next : LoadReturn) : (e.lookLoad id next).Rests doc d start := by
  unfold Engine.lookLoad
  split
  · exact h
  · split
    · exact h.loaded next _
    · split
      · exact h.loaded next _
      · exact h.loaded next _
      · split
        · exact h.loaded next _
        · exact ⟨h, trivial, rfl⟩

theorem lookReconnect (id : DocId) (call : CallId) :
    (e.lookReconnect id call).Rests doc d start := by
  unfold Engine.lookReconnect
  split
  · exact h
  · split
    · exact h.answer _ _
    · exact ⟨h, trivial, rfl⟩

theorem lookReconnectTables (id : DocId) (tables : List TableId) (call : CallId) :
    (e.lookReconnectTables id tables call).Rests doc d start := by
  cases tables with
  | nil => exact (h.ingestAll id).answer _ _
  | cons table rest =>
    simp only [Engine.lookReconnectTables]
    split
    · exact ⟨h, rfl, rfl⟩
    · exact ⟨h, trivial, rfl⟩

end Engine.Hosts

/-! ## Writes of the document -/

namespace Engine

/-- What a job is told of its write when it is looked at. -/
def outcome? (e : Engine) : Job → Option (Except TableError Unit)
  | .write table record _ _ =>
    (e.tables.get? table).bind fun t =>
      match t.beginWrite record with
      | .error cause => some (.error cause)
      | .ok _ => none
  | .awaitOutcome table write limit _ =>
    (e.tables.get? table).bind fun t =>
      (t.resumeWrite write
        (if limit.deadline ≤ e.now then some limit.duration else none)).map Prod.fst
  | _ => none

/-- Whether the patch or the snapshot that a job writes is not accepted. -/
def rejects (e : Engine) (job : Job) : Bool :=
  job.phase?.any CommitPhase.isLogging && (e.outcome? job).any fun outcome => !outcome.isOk

/-- If no patch or snapshot is rejected, a commit that hears of its write hears that it was
accepted. -/
theorem eq_ok_of_not_rejects {e : Engine} {job : Job} (h : e.rejects job = false)
    (hjob : job.phase?.any CommitPhase.isLogging = true) {outcome : Except TableError Unit}
    (houtcome : e.outcome? job = some outcome) : outcome = .ok () := by
  rcases outcome with cause | ⟨⟩
  · simp [rejects, hjob, houtcome, Except.isOk, Except.toBool] at h
  · rfl

end Engine

/-- Patches and snapshots are written to the table of patches. -/
theorem WriteReturn.isLogging_of_schema {next : WriteReturn} (h : next.schema = .patches) :
    next.phase?.any CommitPhase.isLogging = true := by
  have hne : Schema.syncstrings ≠ Schema.patches := by decide
  cases next with
  | commit | snapshot => rfl
  | call | register | snapshotNote => exact absurd h hne

namespace Engine.Hosts

variable {doc : DocId} {d : Document} {start : JobId} {e : Engine} (h : e.Hosts doc d start)
include h

section Writes

variable {table : TableId} {next : WriteReturn} (hfits : next.Fits doc d table)
  (hdue : ∀ ticket id text, next.phase? = some (.snapshot ticket id text) →
    id ∈ d.versions ∧ text = d.textAt id)
include hfits hdue

/-- A write that fails at once has its outcome here; any other is applied to the table and sent. -/
theorem lookWrite {record : Record} (hrecord : Suits d.Owns next.schema.name record)
    {expected : Option Record} (hrejects : e.rejects (.write table record expected next) = false) :
    (e.lookWrite table record expected next).MovesCommit doc d start next.phase? := by
  have htrait := d.rowTrait_owns
  obtain ⟨t, ht, hsort⟩ := h.site hfits
  simp only [Engine.lookWrite, ht]
  split
  · next cause hbegin =>
    refine h.written hfits (fun hschema => ?_) hdue
    exact eq_ok_of_not_rejects hrejects (WriteReturn.isLogging_of_schema hschema)
      (by simp [outcome?, ht, hbegin])
  · next t' notices write hbegin =>
    have hkeeps : t.Keeps d.Owns t' := Table.keeps_beginWrite htrait (hrecord.trait htrait) hbegin
    have hrequest (sink : SinkId) (w : HeldWrite)
        (hw : Database.setQuery? (t'.request record expected) sink = some w) :
        Suits d.Owns w.table w.row := by
      obtain ⟨htable, hrow⟩ := Table.setQuery?_request hw
      rw [htable, hrow, hkeeps.schema, hsort]
      exact hrecord
    have hasked := (h.putTable ht hkeeps notices).ask hrequest
    exact ⟨d, .stay _ (Document.continues_refl h.honest), hasked.spawn rfl, hfits⟩

/-- The outcome of a write moves its commit on. A write of a patch or a snapshot that takes too long
counts as rejected. -/
theorem lookAwaitOutcome {write : LocalWrite} {limit : Limit}
    (hrejects : e.rejects (.awaitOutcome table write limit next) = false) :
    (e.lookAwaitOutcome table write limit next).MovesCommit doc d start next.phase? := by
  obtain ⟨t, ht, hsort⟩ := h.site hfits
  simp only [Engine.lookAwaitOutcome, ht]
  split
  · next outcome t' notices hresume =>
    have haccepted (hschema : next.schema = .patches) : outcome = .ok () :=
      eq_ok_of_not_rejects hrejects (WriteReturn.isLogging_of_schema hschema)
        (by simp [outcome?, ht, hresume])
    -- Only a failed write is taken back, and then the table is none of patches.
    have hkeeps : t.Keeps d.Owns t' := by
      by_cases hschema : next.schema = .patches
      · cases haccepted hschema
        exact Table.keeps_resumeWrite_ok hresume
      · exact Table.keeps_resumeWrite (fun hsame => hschema (hsort.symm.trans hsame)) hresume
    exact (h.putTable ht hkeeps notices).written hfits haccepted hdue
  · trivial

end Writes

/-- **A look makes one step of a commit, or none.** -/
theorem look {job : Job} (hfits : job.Fits doc d) (hrejects : e.rejects job = false)
    (htimes : ∀ d₁, e.docs.get? doc = some d₁ → ∀ id ∈ d₁.versions, id.time < 0xffffffffffffffff)
    (hdue : ∀ ticket id text, job.phase? = some (.snapshot ticket id text) →
      id ∈ d.versions ∧ text = d.textAt id) : (e.look job).MovesCommit doc d start job.phase? := by
  have hrests {r : Progress} (hr : r.Rests doc d start) : r.MovesCommit doc d start none :=
    hr.movesCommit h.honest
  cases job with
  | pump feed sink => exact hrests (h.lookPump feed sink)
  | flush feed waited =>
    cases waited with
    | false => exact ⟨rfl, feed, rfl⟩
    | true => exact hrests (h.onFeed feed fun _ hf => hf.flush)
  | cancel id =>
    obtain ⟨hbackend, hposts⟩ := h.backend.cancel id
    exact hrests ((h.withBackend hbackend).deliver hposts)
  | connectFeed feed next => exact hrests (h.lookConnectFeed hfits feed)
  | awaitFirst feed next => exact hrests (h.lookAwaitFirst hfits feed)
  | connect table next => exact hrests (h.lookConnect hfits table)
  | follow table feed subscription => exact hrests (h.lookFollow table feed subscription)
  | write table record expected next => exact h.lookWrite hfits.1 hdue hfits.2 hrejects
  | awaitAnswer table write sink => exact hrests (h.lookAwaitAnswer table write sink)
  | awaitOutcome table write limit next => exact h.lookAwaitOutcome hfits hdue hrejects
  | awaitRows table condition limit next =>
    refine hrests (h.lookAwaitRows table condition limit fun o ho => ?_)
    subst ho
    exact hfits
  | awaitConnected table limit next =>
    cases next with
    | call call => exact hrests (h.lookAwaitConnected table limit call)
    | opening o => exact hfits.elim
  | awaitReady id limit next => exact hrests (h.lookAwaitReady id limit next)
  | setUp id => exact hrests (h.lookSetUp id)
  | register init attempt => exact hrests (h.lookRegister init attempt)
  | becomeReady init => exact hrests (h.lookBecomeReady init)
  | followPatches id table subscription =>
    exact hrests (h.lookFollowTable id table subscription rfl fun keys h => h.ingestKeys id keys)
  | followStrings id table subscription =>
    exact hrests (h.lookFollowTable id table subscription rfl fun _ h => h.checkRow id)
  | edit id edit call => exact hrests (h.lookEdit id edit call)
  | commit id edit next => exact h.lookCommit id edit next
  | awaitTurn id ticket edit next =>
    obtain rfl : id = doc := hfits
    exact h.lookAwaitTurn htimes ticket edit next
  | save id call => exact hrests (h.lookSave id call)
  | load id next => exact hrests (h.lookLoad id next)
  | reconnect id call => exact hrests (h.lookReconnect id call)
  | reconnectTables id tables call => exact hrests (h.lookReconnectTables id tables call)
  | watch | session | followRows | sleep | join => exact hfits.elim

end Engine.Hosts

end LiveDocs
