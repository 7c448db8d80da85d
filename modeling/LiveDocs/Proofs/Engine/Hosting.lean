import LiveDocs.Engine.Run
import LiveDocs.Proofs.Document.CommitPhases
import LiveDocs.Proofs.Provenance

/-!
# Engines with one document

An engine *hosts* a document if it has no other, and all rows in it that may be taken for patches
are owned by the document: those of the data layer, those that are under way, and those of tables
(`Engine.Hosts`). What jobs do leaves it so, as long as nobody writes but the document itself
(`Job.Fits`).

## Main definitions

* `Job.phase?`: how far the commit is that a job works on.
* `Job.Fits`: a job of the document, or one that writes nothing.
* `Engine.Hosts`: an engine with one document and no rows but its own.

## Main results

* `Engine.Hosts.onFeed`, `Engine.Hosts.onTable`, `Engine.Hosts.onDocument` and the like: functions
  on engines keep this.
* `Engine.Hosts.rebase`: the document may go on.
-/

namespace LiveDocs

/-- To be owned by a document is a property that rows keep on their way. -/
theorem Document.rowTrait_owns (d : Document) : RowTrait d.Owns where
  timeless := d.owns_of_timeless
  part := Document.Owns.part
  merge := fun h h' hkey hkey' => h.merge h' hkey hkey'

/-! ## Jobs -/

namespace WriteReturn

/-- How far the commit is that writes. -/
def phase? : WriteReturn → Option CommitPhase
  | commit c => some (.patch c.ticket)
  | snapshot c id text => some (.snapshot c.ticket id text)
  | snapshotNote c => some (.note c.ticket)
  | _ => none

/-- The sort of table that is written to. -/
def schema : WriteReturn → Schema
  | commit _ | snapshot _ _ _ => .patches
  | _ => .syncstrings

/-- A document writes to a table of its own. -/
def Fits (doc : DocId) (d : Document) (table : TableId) : WriteReturn → Prop
  | call _ => False
  | register _ _ _ _ => table = d.strings
  | commit c | snapshot c _ _ => table = d.patches ∧ c.doc = doc
  | snapshotNote c => table = d.strings ∧ c.doc = doc

end WriteReturn

/-- Whether nothing is opened after connecting. -/
def ConnectReturn.opensNone : ConnectReturn → Bool
  | session _ _ _ | opening _ _ => false
  | _ => true

@[inherit_doc ConnectReturn.opensNone]
def FeedReturn.opensNone : FeedReturn → Bool
  | call _ => true
  | table _ _ next => next.opensNone

namespace Job

/-- How far the commit is that a job works on. -/
def phase? : Job → Option CommitPhase
  | awaitTurn _ ticket _ _ => some (.waiting ticket)
  | write _ _ _ next | awaitOutcome _ _ _ next => next.phase?
  | _ => none

/-- Whether a job only hands on what has arrived. -/
def isHelper : Job → Bool
  | pump _ _ | flush _ _ | cancel _ | awaitAnswer _ _ _ | follow _ _ _ | followPatches _ _ _
  | followStrings _ _ _ => true
  | _ => false

/-- A job of the document, or one that neither writes nor opens anything. -/
def Fits (doc : DocId) (d : Document) : Job → Prop
  | write table record _ next => next.Fits doc d table ∧ Suits d.Owns next.schema.name record
  | awaitOutcome table _ _ next => next.Fits doc d table
  | awaitTurn id _ _ _ => id = doc
  | connect _ next => next.opensNone = true
  | connectFeed _ next | awaitFirst _ next => next.opensNone = true
  | awaitRows _ _ _ (.opening _) | awaitConnected _ _ (.opening _) | watch _ _ _ _ | session _ _ _
  | followRows _ | sleep _ _ _ _ | join _ _ => False
  | _ => True

/-- Helpers belong to everybody. -/
theorem fits_of_isHelper {job : Job} (h : job.isHelper = true) (doc : DocId) (d : Document) :
    job.Fits doc d := by
  unfold Fits
  split <;> simp_all [isHelper]

theorem phase?_of_isHelper {job : Job} (h : job.isHelper = true) : job.phase? = none := by
  unfold phase?
  split <;> simp_all [isHelper]

end Job

/-- A document keeps its tables as it goes on, so a write to one of them stays one. -/
theorem WriteReturn.Fits.mono {doc : DocId} {d d' : Document} {table : TableId} {next : WriteReturn}
    (h : next.Fits doc d table) (hd : d.Advances d') : next.Fits doc d' table := by
  cases next with
  | call => exact h
  | register => exact h.trans hd.strings.symm
  | commit => exact ⟨h.1.trans hd.patches.symm, h.2⟩
  | snapshot => exact ⟨h.1.trans hd.patches.symm, h.2⟩
  | snapshotNote => exact ⟨h.1.trans hd.strings.symm, h.2⟩

/-- A job fits a document that has gone on. -/
theorem Job.Fits.mono {doc : DocId} {d d' : Document} {job : Job} (h : job.Fits doc d)
    (hd : d.Advances d') : job.Fits doc d' := by
  cases job with
  | write => exact ⟨h.1.mono hd, h.2.mono fun _ => hd.owns⟩
  | awaitOutcome => exact WriteReturn.Fits.mono h hd
  | awaitRows _ _ _ next => cases next <;> exact h
  | awaitConnected _ _ next => cases next <;> exact h
  | _ => exact h

namespace Engine

/-! ## Hosting -/

/-- An engine with one document and no rows but its own. Jobs from some number on are helpers. -/
structure Hosts (doc : DocId) (d : Document) (start : JobId) (e : Engine) : Prop where
  honest : d.Honest
  here : ∃ d', e.docs.get? doc = some d' ∧ d.Continues d'
  alone : ∀ {id d'}, e.docs.get? id = some d' → id = doc
  backend : e.backend.Bears d.Owns
  channels : e.channels.Bears d.Owns
  feeds : ∀ {id f}, e.feeds.get? id = some f → f.Bears d.Owns
  tables : ∀ {id t}, e.tables.get? id = some t → t.Bears d.Owns
  patches : ∃ t, e.tables.get? d.patches = some t ∧ t.schema = .patches
  strings : ∃ t, e.tables.get? d.strings = some t ∧ t.schema = .syncstrings
  helpers : ∀ {j job}, start ≤ j → e.jobs.get? j = some job → job.isHelper = true

namespace Hosts

variable {doc : DocId} {d d' : Document} {start : JobId} {e e' : Engine} (h : e.Hosts doc d start)
include h

/-- Clocks, the queue and reports are of no concern. -/
theorem of_same (hdocs : e'.docs = e.docs) (hbackend : e'.backend = e.backend)
    (hchannels : e'.channels = e.channels) (hfeeds : e'.feeds = e.feeds)
    (htables : e'.tables = e.tables) (hjobs : e'.jobs = e.jobs) : e'.Hosts doc d start where
  honest := h.honest
  here := hdocs ▸ h.here
  alone := by rw [hdocs]; exact h.alone
  backend := hbackend ▸ h.backend
  channels := hchannels ▸ h.channels
  feeds := by rw [hfeeds]; exact h.feeds
  tables := by rw [htables]; exact h.tables
  patches := htables ▸ h.patches
  strings := htables ▸ h.strings
  helpers := by rw [hjobs]; exact h.helpers

/-- The document that there is. -/
theorem continues {id : DocId} {d₁ : Document} (hd : e.docs.get? id = some d₁) :
    id = doc ∧ d.Continues d₁ := by
  have hid := h.alone hd
  obtain ⟨d₂, hd₂, hcontinues⟩ := h.here
  rw [← hid, hd, Option.some.injEq] at hd₂
  exact ⟨hid, hd₂ ▸ hcontinues⟩

/-- The table that a document writes to exists and is of the right sort. -/
theorem site {table : TableId} {next : WriteReturn} (hfits : next.Fits doc d table) :
    ∃ t, e.tables.get? table = some t ∧ t.schema = next.schema := by
  cases next with
  | call => exact hfits.elim
  | register =>
    obtain rfl : table = d.strings := hfits
    exact h.strings
  | commit | snapshot =>
    obtain ⟨rfl, -⟩ := hfits
    exact h.patches
  | snapshotNote =>
    obtain ⟨rfl, -⟩ := hfits
    exact h.strings

/-- The document is replaced by one that has gone on. -/
theorem rebase {d₁ : Document} (hd : e.docs.get? doc = some d₁) (hadvances : d₁.Advances d') :
    ({ e with docs := e.docs.insert doc d' } : Engine).Hosts doc d' start := by
  have hall := (h.continues hd).2.toAdvances.trans hadvances
  have howns (row : Record) : d.Owns row → d'.Owns row := hall.owns
  exact
    { honest := hadvances.honest
      here := ⟨d', by simp, Document.continues_refl hadvances.honest⟩
      alone := by
        intro id d₂ hd₂
        rw [SortedMap.get?_insert] at hd₂
        split at hd₂
        · next hid => exact hid
        · exact h.alone hd₂
      backend := h.backend.mono howns
      channels := h.channels.mono howns
      feeds := fun hf => (h.feeds hf).mono howns
      tables := fun ht => (h.tables ht).mono howns
      patches := hall.patches ▸ h.patches
      strings := hall.strings ▸ h.strings
      helpers := h.helpers }

/-- The document that there is may be taken for the one that is hosted. -/
theorem rebase_self {d₁ : Document} (hd : e.docs.get? doc = some d₁) : e.Hosts doc d₁ start := by
  have hsame := h.rebase hd (Document.continues_refl (h.continues hd).2.honest).toAdvances
  rwa [SortedMap.insert_get? hd] at hsame

/-! ### Jobs -/

theorem wake (signal : Signal) : (e.wake signal).Hosts doc d start :=
  h.of_same rfl rfl rfl rfl rfl rfl

theorem foldl_wake (signal : Nat → Signal) (subs : List Nat) :
    (subs.foldl (fun e s => e.wake (signal s)) e).Hosts doc d start := by
  induction subs generalizing e with
  | nil => exact h
  | cons s subs ih => exact ih (h.wake _)

/-- Only helpers are started on the side; all other work goes on in the job that is looked at. -/
theorem spawn {job : Job} (hjob : job.isHelper = true) : (e.spawn job).Hosts doc d start :=
  { h with
    helpers := by
      intro j job' hj hjob'
      simp only [Engine.spawn, SortedMap.get?_insert] at hjob'
      split at hjob'
      · cases hjob'
        exact hjob
      · exact h.helpers hj hjob' }

/-! ### Feeds -/

/-- A feed may be replaced by any that has heard of the document's rows alone. -/
theorem withFeed (id : FeedId) {f : Feed} (hf : f.Bears d.Owns) :
    ({ e with feeds := e.feeds.insert id f } : Engine).Hosts doc d start :=
  { h with
    feeds := by
      intro id' f' hf'
      rw [SortedMap.get?_insert] at hf'
      split at hf'
      · cases hf'
        exact hf
      · exact h.feeds hf' }

theorem heedFeed (id : FeedId) (notice : FeedNotice) :
    (e.heedFeed id notice).Hosts doc d start := by
  cases notice with
  | first => exact h.wake _
  | events =>
    simp only [Engine.heedFeed]
    split
    · exact h.foldl_wake _ _
    · exact h
  | cancel => exact h.spawn rfl

theorem putFeed (id : FeedId) {f : Feed} (hf : f.Bears d.Owns) (notices : List FeedNotice) :
    (e.putFeed id f notices).Hosts doc d start := by
  have hnotices {e : Engine} (h : e.Hosts doc d start) :
      (notices.foldl (fun e n => e.heedFeed id n) e).Hosts doc d start := by
    induction notices generalizing e with
    | nil => exact h
    | cons n notices ih => exact ih (h.heedFeed id n)
  exact hnotices (h.withFeed id hf)

theorem onFeed (id : FeedId) {step : Feed → Feed × List FeedNotice}
    (hstep : ∀ f, f.Bears d.Owns → (step f).1.Bears d.Owns) :
    (e.onFeed id step).Hosts doc d start := by
  unfold Engine.onFeed
  split
  · exact h
  · next f hf => exact h.putFeed id (hstep f (h.feeds hf)) _

theorem closeFeed (id : FeedId) : (e.closeFeed id).Hosts doc d start :=
  h.onFeed id fun _ hf => hf.close

theorem unsubscribeFeed (id : FeedId) (subscription : Nat) :
    (e.unsubscribeFeed id subscription).Hosts doc d start :=
  h.onFeed id fun _ hf => hf.withEvents (hf.events.unsubscribe subscription)

/-! ### Tables -/

/-- A table may take in rows of the document. It keeps its schema, so the document's own tables stay
what they are. -/
theorem withTable {id : TableId} {t t' : Table} (ht : e.tables.get? id = some t)
    (hkeeps : t.Keeps d.Owns t') :
    ({ e with tables := e.tables.insert id t' } : Engine).Hosts doc d start := by
  have hsort {id' : TableId} {schema : Schema}
      (hold : ∃ t, e.tables.get? id' = some t ∧ t.schema = schema) :
      ∃ t, (e.tables.insert id t').get? id' = some t ∧ t.schema = schema := by
    obtain ⟨t₀, ht₀, hschema⟩ := hold
    rw [SortedMap.get?_insert]
    split
    · next hid =>
      rw [hid, ht, Option.some.injEq] at ht₀
      exact ⟨t', rfl, hkeeps.schema.trans (ht₀ ▸ hschema)⟩
    · exact ⟨t₀, ht₀, hschema⟩
  exact
    { h with
      tables := by
        intro id' t'' ht''
        rw [SortedMap.get?_insert] at ht''
        split at ht''
        · cases ht''
          exact hkeeps.bears (h.tables ht)
        · exact h.tables ht''
      patches := hsort h.patches
      strings := hsort h.strings }

theorem heedTable (id : TableId) (notice : TableNotice) :
    (e.heedTable id notice).Hosts doc d start := by
  cases notice with
  | state => exact h.wake _
  | rows => exact h.wake _
  | events =>
    simp only [Engine.heedTable]
    split
    · exact h.foldl_wake _ _
    · exact h
  | outcome => exact h.wake _
  | closeFeed feed => exact h.closeFeed feed

theorem putTable {id : TableId} {t t' : Table} (ht : e.tables.get? id = some t)
    (hkeeps : t.Keeps d.Owns t') (notices : List TableNotice) :
    (e.putTable id t' notices).Hosts doc d start := by
  have hnotices {e : Engine} (h : e.Hosts doc d start) :
      (notices.foldl (fun e n => e.heedTable id n) e).Hosts doc d start := by
    induction notices generalizing e with
    | nil => exact h
    | cons n notices ih => exact ih (h.heedTable id n)
  exact hnotices (h.withTable ht hkeeps)

theorem onTable (id : TableId) {step : Table → Table × List TableNotice}
    (hstep : ∀ t : Table, t.Keeps d.Owns (step t).1) : (e.onTable id step).Hosts doc d start := by
  unfold Engine.onTable
  split
  · exact h
  · next t ht => exact h.putTable ht (hstep t) _

theorem closeTable (id : TableId) : (e.closeTable id).Hosts doc d start :=
  h.onTable id fun t => t.keeps_close

theorem subscribeTable (id : TableId) : (e.subscribeTable id).2.Hosts doc d start := by
  unfold Engine.subscribeTable
  split
  · exact h
  · next t ht => exact h.withTable ht (Table.keeps_of_same rfl rfl)

theorem unsubscribeTable (id : TableId) (subscription : Nat) :
    (e.unsubscribeTable id subscription).Hosts doc d start :=
  h.onTable id fun _ => Table.keeps_of_same rfl rfl

/-! ### The data layer -/

theorem withChannels {channels : Channels} (hchannels : channels.Bears d.Owns) :
    ({ e with channels } : Engine).Hosts doc d start :=
  { h with channels := hchannels }

theorem withBackend {backend : Backend} (hbackend : backend.Bears d.Owns) :
    ({ e with backend } : Engine).Hosts doc d start :=
  { h with backend := hbackend }

/-- What the data layer sends goes to channels, and jobs are woken. -/
theorem deliver {posts : List Post} (hposts : ∀ post ∈ posts, post.Bears d.Owns) :
    (e.deliver posts).Hosts doc d start := by
  unfold Engine.deliver
  induction posts generalizing e with
  | nil => exact h
  | cons post posts ih =>
    obtain ⟨hpost, hrest⟩ := List.forall_mem_cons.mp hposts
    exact ih ((h.withChannels (h.channels.post hpost)).wake _) hrest

/-- What is asked is no write, or one that suits its table. -/
theorem ask {request : Request}
    (hrequest : ∀ sink w, Database.setQuery? request sink = some w → Suits d.Owns w.table w.row) :
    (e.ask request).2.Hosts doc d start := by
  obtain ⟨hbackend, hposts⟩ := h.backend.query d.rowTrait_owns hrequest e.channels.fresh.2.alive
    e.channels.fresh.1
  exact ((h.withChannels h.channels.fresh).withBackend hbackend).deliver hposts

/-! ### The document -/

/-- There is one document only, so the one that goes on is that of the engine. -/
theorem withDoc {id : DocId} {d₁ d₂ : Document} (hd : e.docs.get? id = some d₁)
    (hcontinues : d₁.Continues d₂) :
    ({ e with docs := e.docs.insert id d₂ } : Engine).Hosts doc d start := by
  obtain ⟨rfl, hold⟩ := h.continues hd
  exact
    { h with
      here := ⟨d₂, by simp, hold.trans hcontinues⟩
      alone := by
        intro id' d₃ hd₃
        rw [SortedMap.get?_insert] at hd₃
        split at hd₃
        · next hid => exact hid
        · exact h.alone hd₃ }

theorem heedDocument (id : DocId) (notice : DocumentNotice) :
    (e.heedDocument id notice).Hosts doc d start := by
  cases notice with
  | state => exact h.wake _
  | events =>
    simp only [Engine.heedDocument]
    split
    · exact h.foldl_wake _ _
    · exact h
  | closeTable table => exact h.closeTable table
  | turn => exact h.wake _

theorem heedDocuments (id : DocId) (notices : List DocumentNotice) :
    (notices.foldl (fun e n => e.heedDocument id n) e).Hosts doc d start := by
  induction notices generalizing e with
  | nil => exact h
  | cons n notices ih => exact ih (h.heedDocument id n)

theorem putDocument {id : DocId} {d₁ d₂ : Document} (hd : e.docs.get? id = some d₁)
    (hcontinues : d₁.Continues d₂) (notices : List DocumentNotice) :
    (e.putDocument id d₂ notices).Hosts doc d start :=
  (h.withDoc hd hcontinues).heedDocuments id notices

/-- A document that has gone on is put in the place of the old one. -/
theorem replaceDocument {d₁ : Document} (hd : e.docs.get? doc = some d₁)
    (hadvances : d₁.Advances d') (notices : List DocumentNotice) :
    (e.putDocument doc d' notices).Hosts doc d' start :=
  (h.rebase hd hadvances).heedDocuments doc notices

/-- A function on documents may be used if it continues every document that continues this one. -/
theorem onDocument (id : DocId) {step : Document → Document × List DocumentNotice}
    (hstep : ∀ d₁, d.Continues d₁ → d₁.Continues (step d₁).1) :
    (e.onDocument id step).Hosts doc d start := by
  unfold Engine.onDocument
  split
  · exact h
  · next d₁ hd => exact h.putDocument hd (hstep d₁ (h.continues hd).2) _

theorem closeDocument (id : DocId) : (e.closeDocument id).Hosts doc d start :=
  h.onDocument id fun _ hd => Document.continues_close hd.honest

/-- The rows of the table of patches are owned. -/
theorem owns_tableRows {d₁ : Document} (hd : d.Continues d₁) {key : String} {row : Record}
    (hrow : (e.tableRows d₁.patches).get? key = some row) : d₁.Owns row := by
  obtain ⟨t, ht, hschema⟩ := h.patches
  rw [tableRows, hd.patches, ht, Option.map_some, Option.getD_some] at hrow
  exact hd.toAdvances.owns (h.tables ht hschema hrow).1

/-- The rows that are taken in are owned, so they add no patch, but a snapshot in them may be
noted. -/
theorem ingestKeys (id : DocId) (keys : List String) : (ingestKeys id e keys).Hosts doc d start :=
  h.onDocument id fun _ hd =>
    Document.continues_ingestRows hd.honest (fun _ _ hrow => h.owns_tableRows hd hrow) keys

theorem ingestAll (id : DocId) : (e.ingestAll id).Hosts doc d start :=
  h.onDocument id fun _ hd =>
    Document.continues_ingestRows hd.honest (fun _ _ hrow => h.owns_tableRows hd hrow) _

theorem checkRow (id : DocId) : (e.checkRow id).Hosts doc d start :=
  h.onDocument id fun _ hd => Document.continues_checkRow hd.honest _

end Hosts

end Engine

end LiveDocs
