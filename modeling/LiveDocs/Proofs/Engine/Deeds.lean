import LiveDocs.Engine.Control
import LiveDocs.Proofs.Document.Life
import LiveDocs.Proofs.SortedMap
import LiveDocs.Proofs.Table.Frames

/-!
# What may happen to an engine

All that a job does to an engine, and all that is done to it from outside, comes down to a few
deeds: a job is started or woken, a feed changes, a table makes a motion or is new, a document makes
some turns, is closed with its tables, or is new, and the registry changes. How much of this a job
may do is its `Scope`: it connects only the tables that it claims, it reports only the loss of the
feed that it follows, and only few jobs work on a commit or change the registry.

Every invariant of an engine is proved for the deeds, once, and not for each job.

## Main definitions

* `Job.Claims`, `Job.Follows`, `Job.session?`, `Job.Grounded`: the tables that a job may connect,
  the feed that it follows, its session, and whether what it refers to exists.
* `Scope`: what a job may do.
* `Engine.Stir`: what happens to feeds, tables and jobs.
* `Engine.Deed`: what happens to documents and the registry as well.
* `Engine.Grows`: nothing is lost.

## Main results

* `Engine.onTable_stirs`, `Engine.onDocument_deeds` and the like: what the functions on engines do
  are deeds.
* `Engine.closeDocument_deeds`: a document is closed with its tables, and those who wait for its
  events are woken.
* `Engine.Deed.grows`: deeds lose nothing.
-/

namespace LiveDocs

/-! ## Jobs -/

namespace ConnectReturn

/-- The tables that are to be connected later. -/
def Claims : ConnectReturn → TableId → Prop
  | reconnect _ rest _, table => table ∈ rest
  | session s _ _, table => table = s.table
  | _, _ => False

def session? : ConnectReturn → Option Session
  | session s _ _ => some s
  | _ => none

end ConnectReturn

namespace FeedReturn

/-- The tables that are connected now or later. -/
def Claims : FeedReturn → TableId → Prop
  | call _, _ => False
  | table t _ next, id => id = t ∨ next.Claims id

def session? : FeedReturn → Option Session
  | call _ => none
  | table _ _ next => next.session?

end FeedReturn

namespace Job

/-- The tables that a job may connect, apart from those of documents. -/
def Claims : Job → TableId → Prop
  | connect t next, id => id = t ∨ next.Claims id
  | connectFeed _ next, id | awaitFirst _ next, id => next.Claims id
  | reconnectTables _ tables _, id => id ∈ tables
  | followRows s, id | sleep s _ _ _, id => id = s.table
  | _, _ => False

/-- The feed that a job follows for a table. -/
def Follows : Job → TableId → FeedId → Prop
  | follow t f _, table, feed => table = t ∧ feed = f
  | _, _, _ => False

def session? : Job → Option Session
  | connect _ next => next.session?
  | connectFeed _ next | awaitFirst _ next => next.session?
  | followRows s | sleep s _ _ _ => some s
  | _ => none

/-- Whether a job is one of a session, which it may have yet to start. -/
def isSession : Job → Bool
  | session _ _ _ => true
  | job => job.session?.isSome

/-- Whether a job watches a document of the registry. -/
def isWatch : Job → Bool
  | watch _ _ _ _ => true
  | _ => false

/-- Whether a job works on a commit. -/
def commits : Job → Bool
  | awaitTurn _ _ _ _ => true
  | _ => false

/-- Whether a job may change the registry. -/
def admits : Job → Bool
  | watch _ _ _ _ | awaitRows _ _ _ (.opening _) => true
  | _ => false

/-- Whether a job connects, follows and watches nothing, and what it refers to is of no concern. -/
def isPlain : Job → Bool
  | connect _ _ | connectFeed _ (.table _ _ _) | awaitFirst _ (.table _ _ _) | reconnectTables _ _ _
  | followRows _ | sleep _ _ _ _ | follow _ _ _ | watch _ _ _ _
  | awaitConnected _ _ (.opening _) | awaitRows _ _ _ (.opening _) => false
  | _ => true

/-- What a job refers to exists. -/
def Grounded (e : Engine) : Job → Prop
  | follow _ feed _ => e.feeds.contains feed = true
  | awaitConnected _ _ (.opening o) | awaitRows _ _ _ (.opening o) =>
    e.tables.contains o.table = true
  | watch doc table _ _ => e.docs.contains doc = true ∧ e.tables.contains table = true
  | _ => True

/-- A job that connects, follows and watches nothing, and refers to nothing of concern. -/
structure Unbound (job : Job) : Prop where
  grounded : ∀ e, job.Grounded e
  claims : ∀ table, ¬ job.Claims table
  follows : ∀ table feed, ¬ job.Follows table feed
  session : job.session? = none
  watch : job.isWatch = false

/-- A plain job takes no part in what sessions, followers and the registry are about, so a scope
never has anything to say of it. -/
theorem unbound_of_isPlain {job : Job} (h : job.isPlain = true) : job.Unbound := by
  refine ⟨fun e => ?_, fun table => ?_, fun table feed => ?_, ?_, ?_⟩
  · unfold Grounded
    split <;> simp_all [isPlain]
  · unfold Claims FeedReturn.Claims
    split <;> simp_all [isPlain] <;> split <;> simp_all
  · unfold Follows
    split <;> simp_all [isPlain]
  · unfold session? FeedReturn.session?
    split <;> simp_all [isPlain] <;> split <;> simp_all
  · unfold isWatch
    split <;> simp_all [isPlain]

end Job

/-- How much may be done by a job, or from outside. -/
structure Scope where
  /-- The job at work. -/
  job : Option Job
  /-- Whether documents may be made and the registry may be changed. -/
  admits : Bool
  /-- The tables from this number on are new. -/
  fresh : Nat

/-- What a job may do. -/
def Job.scope (job : Job) (e : Engine) : Scope := ⟨some job, job.admits, e.tables.size⟩

namespace Scope

/-- What may be done from outside. -/
def outside (e : Engine) (admits : Bool) : Scope := ⟨none, admits, e.tables.size⟩

def Claims (σ : Scope) (table : TableId) : Prop := ∃ job ∈ σ.job, job.Claims table

def Follows (σ : Scope) (table : TableId) (feed : FeedId) : Prop :=
  ∃ job ∈ σ.job, job.Follows table feed

def commits (σ : Scope) : Bool := σ.job.any Job.commits

/-- A job that may be started. -/
structure Starts (σ : Scope) (e : Engine) (job : Job) : Prop where
  grounded : job.Grounded e
  claims : ∀ table, job.Claims table → σ.fresh ≤ table ∧ e.tables.contains table = true
  follows : ∀ table feed, job.Follows table feed → σ.Claims table
  session : job.session? = none
  watch : job.isWatch = true → σ.admits = true

/-- A job that the job at work may go on as. -/
structure Heir (σ : Scope) (e : Engine) (next : Job) : Prop where
  grounded : next.Grounded e
  claims : ∀ table, next.Claims table → σ.Claims table ∨
    σ.fresh ≤ table ∧ e.tables.contains table = true ∨
    ∃ id d, e.docs.get? id = some d ∧ (table = d.strings ∨ table = d.patches)
  follows : ∀ table feed, next.Follows table feed → σ.Follows table feed
  session : next.session?.isSome = true → ∃ job ∈ σ.job, job.isSession = true
  watch : next.isWatch = true → σ.job = some next

section Heirs

variable {σ : Scope} {e : Engine} {next : Job} (hgrounded : next.Grounded e)
  (hclaims : ∀ table, next.Claims table → σ.Claims table ∨
    σ.fresh ≤ table ∧ e.tables.contains table = true ∨
    ∃ id d, e.docs.get? id = some d ∧ (table = d.strings ∨ table = d.patches))
  (hfollows : ∀ table feed, ¬ next.Follows table feed) (hwatch : next.isWatch = false)
include hgrounded hclaims hfollows hwatch

/-- A job that neither follows nor watches anything, and may belong to a session. -/
theorem Heir.of_session
    (hsession : next.session?.isSome = true → ∃ job ∈ σ.job, job.isSession = true) :
    σ.Heir e next :=
  ⟨hgrounded, hclaims, fun table feed h => absurd h (hfollows table feed),
    hsession, by simp [hwatch]⟩

/-- A job that belongs to no session either. -/
theorem Heir.of_claims (hsession : next.session? = none) : σ.Heir e next :=
  .of_session hgrounded hclaims hfollows hwatch (by simp [hsession])

end Heirs

theorem starts_of_isPlain {σ : Scope} {job : Job} (h : job.isPlain = true) (e : Engine) :
    σ.Starts e job :=
  have hunbound := Job.unbound_of_isPlain h
  { grounded := hunbound.grounded e
    claims := fun table hclaims => absurd hclaims (hunbound.claims table)
    follows := fun table feed hfollows => absurd hfollows (hunbound.follows table feed)
    session := hunbound.session
    watch := by simp [hunbound.watch] }

theorem heir_of_isPlain {σ : Scope} {job : Job} (h : job.isPlain = true) (e : Engine) :
    σ.Heir e job :=
  have hunbound := Job.unbound_of_isPlain h
  { grounded := hunbound.grounded e
    claims := fun table hclaims => absurd hclaims (hunbound.claims table)
    follows := fun table feed hfollows => absurd hfollows (hunbound.follows table feed)
    session := by simp [hunbound.session]
    watch := by simp [hunbound.watch] }

@[simp] theorem claims_scope (job : Job) (e : Engine) (table : TableId) :
    (job.scope e).Claims table ↔ job.Claims table := by
  simp [Claims, Job.scope]

@[simp] theorem follows_scope (job : Job) (e : Engine) (table : TableId) (feed : FeedId) :
    (job.scope e).Follows table feed ↔ job.Follows table feed := by
  simp [Follows, Job.scope]

@[simp] theorem not_claims_outside (e : Engine) (admits : Bool) (table : TableId) :
    ¬ (outside e admits).Claims table := by
  simp [Claims, outside]

@[simp] theorem not_follows_outside (e : Engine) (admits : Bool) (table : TableId) (feed : FeedId) :
    ¬ (outside e admits).Follows table feed := by
  simp [Follows, outside]

end Scope

namespace Engine

/-! ## Deeds -/

/-- What happens to feeds, tables and jobs. -/
inductive Stir (σ : Scope) : Engine → Engine → Prop
  /-- Jobs are woken, or something happens that is of no concern here. -/
  | aside {e e' : Engine} (feeds : e'.feeds = e.feeds) (tables : e'.tables = e.tables)
      (docs : e'.docs = e.docs) (registry : e'.registry.docs = e.registry.docs)
      (jobs : e'.jobs = e.jobs) (nextJob : e'.nextJob = e.nextJob)
      (queue : ∀ id ∈ e.queue, id ∈ e'.queue) : Stir σ e e'
  | spawn {e : Engine} {job : Job} (h : σ.Starts e job) : Stir σ e (e.spawn job)
  | feed {e : Engine} {id : FeedId} (f : Feed)
      (h : e.feeds.contains id = true ∨ id = e.feeds.size) :
      Stir σ e { e with feeds := e.feeds.insert id f }
  | table {e : Engine} {id : TableId} {t t' : Table} (ht : e.tables.get? id = some t)
      (h : t.Motion (σ.Claims id) (σ.Follows id) t') :
      Stir σ e { e with tables := e.tables.insert id t' }
  | newTable (e : Engine) (schema : Schema) (query : Query) (settings : Settings) :
      Stir σ e { e with tables := e.tables.insert e.tables.size (.new schema query settings) }

/-- Some of them, one after the other. -/
abbrev Stirs (σ : Scope) : Engine → Engine → Prop := Relation.ReflTransGen (Stir σ)

/-- What happens to an engine. -/
inductive Deed (σ : Scope) : Engine → Engine → Prop
  | stir {e e' : Engine} (h : Stir σ e e') : Deed σ e e'
  | turn {e : Engine} {id : DocId} {d d' : Document} (hd : e.docs.get? id = some d)
      (h : Document.Turns σ.commits d d') : Deed σ e { e with docs := e.docs.insert id d' }
  /-- A document is closed with its tables, and those who wait for its events are woken. -/
  | close {e e' : Engine} {id : DocId} {d : Document} (hd : e.docs.get? id = some d)
      (hopen : d.state ≠ .closed) (hcommits : σ.commits = false)
      (h : Stirs σ { e with docs := e.docs.insert id d.close.1 } e')
      (hclosed : e.tables.Numbered → ∀ table, table = d.strings ∨ table = d.patches →
        e.tables.contains table = true → ∃ t, e'.tables.get? table = some t ∧ t.state = .closed)
      (hwoken : ∀ j job sub, j < e.nextJob → e.jobs.get? j = some job →
        d.events.isLive sub = true → .documentEvent id sub ∈ job.signals → j ∈ e'.queue) :
      Deed σ e e'
  | make {e : Engine} {d : Document} (hadmits : σ.admits = true)
      (hnew : d.state = .init ∧ d.events = .empty)
      (hsited : ∀ table, table = d.strings ∨ table = d.patches →
        σ.fresh ≤ table ∧ e.tables.contains table = true) :
      Deed σ e { e with docs := e.docs.insert e.docs.size d }
  | register (e : Engine) (registry : Registry) (hadmits : σ.admits = true) :
      Deed σ e { e with registry }

/-- Some deeds, one after the other. -/
abbrev Deeds (σ : Scope) : Engine → Engine → Prop := Relation.ReflTransGen (Deed σ)

variable {σ : Scope} {e e' e'' : Engine}

theorem Stirs.trans (h : Stirs σ e e') (h' : Stirs σ e' e'') : Stirs σ e e'' :=
  Relation.ReflTransGen.trans h h'

theorem Deeds.trans (h : Deeds σ e e') (h' : Deeds σ e' e'') : Deeds σ e e'' :=
  Relation.ReflTransGen.trans h h'

/-- What is done to feeds, tables and jobs alone is also something done to the engine. -/
theorem Stirs.deeds (h : Stirs σ e e') : Deeds σ e e' :=
  Relation.ReflTransGen.mono (fun _ _ => Deed.stir) _ _ h

/-! ## Nothing is lost -/

/-- What there was is still there, and jobs are only added. -/
structure Grows (e e' : Engine) : Prop where
  feeds : ∀ id, e.feeds.contains id = true → e'.feeds.contains id = true
  tables : ∀ id, e.tables.contains id = true → e'.tables.contains id = true
  docs : ∀ id, e.docs.contains id = true → e'.docs.contains id = true
  jobs : ∀ id, id < e.nextJob → e'.jobs.get? id = e.jobs.get? id
  nextJob : e.nextJob ≤ e'.nextJob
  queue : ∀ id ∈ e.queue, id ∈ e'.queue
  size : e.tables.size ≤ e'.tables.size

namespace Grows

theorem refl (e : Engine) : Grows e e :=
  ⟨fun _ => id, fun _ => id, fun _ => id, fun _ _ => rfl, Nat.le_refl _, fun _ => id, Nat.le_refl _⟩

theorem trans (h : Grows e e') (h' : Grows e' e'') : Grows e e'' where
  feeds := fun id hid => h'.feeds id (h.feeds id hid)
  tables := fun id hid => h'.tables id (h.tables id hid)
  docs := fun id hid => h'.docs id (h.docs id hid)
  jobs := by
    intro id hid
    rw [h'.jobs id (Nat.lt_of_lt_of_le hid h.nextJob), h.jobs id hid]
  nextJob := Nat.le_trans h.nextJob h'.nextJob
  queue := fun id hid => h'.queue id (h.queue id hid)
  size := Nat.le_trans h.size h'.size

theorem insert_table (e : Engine) (id : TableId) (t : Table) :
    Grows e { e with tables := e.tables.insert id t } :=
  { refl e with
    tables := fun id hid => by simp [hid]
    size := e.tables.size_le_size_insert id t }

theorem insert_doc (e : Engine) (id : DocId) (d : Document) :
    Grows e { e with docs := e.docs.insert id d } :=
  { refl e with docs := fun id hid => by simp [hid] }

theorem spawn (e : Engine) (job : Job) : Grows e (e.spawn job) :=
  { refl e with
    jobs := fun id hid => by simp [Engine.spawn, Nat.ne_of_lt hid]
    nextJob := Nat.le_succ _
    queue := fun id hid => List.mem_append_left _ hid }

end Grows

/-- One case for each kind of stir; a job keeps its number, since new jobs are put behind all
others. -/
theorem Stir.grows (h : Stir σ e e') : Grows e e' := by
  cases h with
  | aside feeds tables docs _ jobs nextJob queue =>
    exact ⟨by simp [feeds], by simp [tables], by simp [docs], by simp [jobs],
      by simp [nextJob], queue, by simp [tables]⟩
  | spawn => exact .spawn _ _
  | feed => exact { Grows.refl e with feeds := fun id hid => by simp [hid] }
  | table => exact .insert_table _ _ _
  | newTable => exact .insert_table _ _ _

theorem Stirs.grows (h : Stirs σ e e') : Grows e e' := by
  induction h with
  | refl => exact .refl e
  | tail _ hstir ih => exact ih.trans hstir.grows

/-- A deed loses nothing. Documents are closed, but never taken away. -/
theorem Deed.grows (h : Deed σ e e') : Grows e e' := by
  cases h with
  | stir h => exact h.grows
  | turn => exact .insert_doc _ _ _
  | close _ _ _ h => exact (Grows.insert_doc _ _ _).trans h.grows
  | make => exact .insert_doc _ _ _
  | register => exact { Grows.refl e with }

theorem Deeds.grows (h : Deeds σ e e') : Grows e e' := by
  induction h with
  | refl => exact .refl e
  | tail _ hdeed ih => exact ih.trans hdeed.grows

/-- Documents are out of reach of a stir. -/
theorem Stirs.docs (h : Stirs σ e e') : e'.docs = e.docs := by
  induction h with
  | refl => rfl
  | tail _ hstir ih =>
    rw [← ih]
    cases hstir with
    | aside _ _ docs => exact docs
    | spawn | feed | table | newTable => rfl

theorem Stirs.registry (h : Stirs σ e e') : e'.registry.docs = e.registry.docs := by
  induction h with
  | refl => rfl
  | tail _ hstir ih =>
    rw [← ih]
    cases hstir with
    | aside _ _ _ registry => exact registry
    | spawn | feed | table | newTable => rfl

/-- A table is replaced under its own number, or the new one gets the next. -/
theorem Stir.numbered (h : Stir σ e e') (hn : e.tables.Numbered) : e'.tables.Numbered := by
  cases h with
  | aside _ tables => rwa [tables]
  | spawn | feed => exact hn
  | table ht => exact hn.insert _ (.inl (SortedMap.contains_of_get? ht))
  | newTable => exact hn.insert _ (.inr rfl)

theorem Stirs.numbered (h : Stirs σ e e') (hn : e.tables.Numbered) : e'.tables.Numbered := by
  induction h with
  | refl => exact hn
  | tail _ hstir ih => exact hstir.numbered ih

/-- A closed table stays closed. -/
theorem Stir.closed (h : Stir σ e e') (hn : e.tables.Numbered) {id : TableId} {t : Table}
    (ht : e.tables.get? id = some t) (hclosed : t.state = .closed) :
    ∃ t', e'.tables.get? id = some t' ∧ t'.state = .closed := by
  cases h with
  | aside _ tables => exact ⟨t, by rw [tables, ht], hclosed⟩
  | spawn | feed => exact ⟨t, ht, hclosed⟩
  | @table id' t₀ t' ht₀ hmotion =>
    by_cases hid : id = id'
    · subst hid
      rw [ht, Option.some.injEq] at ht₀
      exact ⟨t', by simp, hmotion.closed (ht₀ ▸ hclosed)⟩
    · exact ⟨t, by simp [hid, ht], hclosed⟩
  | newTable =>
    have hid : id ≠ e.tables.size := fun h => by simp [h, hn.get?_size] at ht
    exact ⟨t, by simp [hid, ht], hclosed⟩

theorem Stirs.closed (h : Stirs σ e e') (hn : e.tables.Numbered) {id : TableId} {t : Table}
    (ht : e.tables.get? id = some t) (hclosed : t.state = .closed) :
    ∃ t', e'.tables.get? id = some t' ∧ t'.state = .closed := by
  induction h with
  | refl => exact ⟨t, ht, hclosed⟩
  | tail hstirs hstir ih =>
    obtain ⟨t', ht', hclosed'⟩ := ih
    exact hstir.closed (Stirs.numbered hstirs hn) ht' hclosed'

/-! ## Waking -/

/-- The lists of the engine that are of concern are the same, and no job leaves the queue. -/
theorem stirs_aside (feeds : e'.feeds = e.feeds) (tables : e'.tables = e.tables)
    (docs : e'.docs = e.docs) (registry : e'.registry.docs = e.registry.docs)
    (jobs : e'.jobs = e.jobs) (nextJob : e'.nextJob = e.nextJob)
    (queue : ∀ id ∈ e.queue, id ∈ e'.queue) : Stirs σ e e' :=
  .single (.aside feeds tables docs registry jobs nextJob queue)

theorem enqueue_stirs (e : Engine) (ids : List JobId) : Stirs σ e (e.enqueue ids) :=
  stirs_aside rfl rfl rfl rfl rfl rfl fun _ hid => List.mem_append_left _ hid

theorem wake_stirs (e : Engine) (signal : Signal) : Stirs σ e (e.wake signal) :=
  enqueue_stirs e _

theorem mem_queue_enqueue {ids : List JobId} {id : JobId} (h : id ∈ ids) :
    id ∈ (e.enqueue ids).queue := by
  by_cases hqueue : id ∈ e.queue
  · exact List.mem_append_left _ hqueue
  · exact List.mem_append_right _ (List.mem_filter.mpr ⟨h, by simp [hqueue]⟩)

/-- A job that waits for a signal is in the queue after the signal. -/
theorem mem_queue_wake {signal : Signal} {id : JobId} {job : Job} (hjob : e.jobs.get? id = some job)
    (hsignal : signal ∈ job.signals) : id ∈ (e.wake signal).queue := by
  refine mem_queue_enqueue (SortedMap.mem_keys_iff.mpr ?_)
  simp [SortedMap.contains, hjob, hsignal, Option.filter]

/-- Those who wait for one of several signals. -/
theorem foldl_wake_stirs (signal : Nat → Signal) (subs : List Nat) (e : Engine) :
    Stirs σ e (subs.foldl (fun e s => e.wake (signal s)) e) := by
  induction subs generalizing e with
  | nil => exact .refl
  | cons s subs ih => exact (wake_stirs e _).trans (ih _)

theorem mem_queue_foldl_wake {signal : Nat → Signal} {subs : List Nat} {sub : Nat}
    (hsub : sub ∈ subs) {id : JobId} {job : Job} (hjob : e.jobs.get? id = some job)
    (hsignal : signal sub ∈ job.signals) :
    id ∈ (subs.foldl (fun e s => e.wake (signal s)) e).queue := by
  induction subs generalizing e with
  | nil => cases hsub
  | cons s subs ih =>
    rcases List.mem_cons.mp hsub with rfl | hsub
    · exact (foldl_wake_stirs (σ := .outside e false) signal subs _).grows.queue id
        (mem_queue_wake hjob hsignal)
    · exact ih hsub hjob

/-! ## Feeds -/

theorem spawn_stirs {job : Job} (h : σ.Starts e job) : Stirs σ e (e.spawn job) :=
  .single (.spawn h)

theorem spawn_plain_stirs (e : Engine) (job : Job) (h : job.isPlain = true) :
    Stirs σ e (e.spawn job) :=
  spawn_stirs (Scope.starts_of_isPlain h e)

theorem heedFeed_stirs (e : Engine) (id : FeedId) (notice : FeedNotice) :
    Stirs σ e (e.heedFeed id notice) := by
  cases notice with
  | first => exact wake_stirs e _
  | events =>
    simp only [heedFeed]
    split
    · exact foldl_wake_stirs _ _ e
    · exact .refl
  | cancel query => exact spawn_plain_stirs e _ rfl

theorem putFeed_stirs {id : FeedId} (hid : e.feeds.contains id = true) (f : Feed)
    (notices : List FeedNotice) : Stirs σ e (e.putFeed id f notices) := by
  have hnotices (e : Engine) : Stirs σ e (notices.foldl (fun e n => e.heedFeed id n) e) := by
    induction notices generalizing e with
    | nil => exact .refl
    | cons n notices ih => exact (heedFeed_stirs e id n).trans (ih _)
  exact .trans (.single (.feed f (.inl hid))) (hnotices _)

theorem onFeed_stirs (e : Engine) (id : FeedId) (step : Feed → Feed × List FeedNotice) :
    Stirs σ e (e.onFeed id step) := by
  unfold onFeed
  split
  · exact .refl
  · next f hf => exact putFeed_stirs (SortedMap.contains_of_get? hf) _ _

/-! ## Tables -/

theorem heedTable_stirs (e : Engine) (id : TableId) (notice : TableNotice) :
    Stirs σ e (e.heedTable id notice) := by
  cases notice with
  | state => exact wake_stirs e _
  | rows => exact wake_stirs e _
  | events =>
    simp only [heedTable]
    split
    · exact foldl_wake_stirs _ _ e
    · exact .refl
  | outcome write => exact wake_stirs e _
  | closeFeed feed => exact onFeed_stirs e feed _

theorem foldl_heedTable_stirs (e : Engine) (id : TableId) (notices : List TableNotice) :
    Stirs σ e (notices.foldl (fun e n => e.heedTable id n) e) := by
  induction notices generalizing e with
  | nil => exact .refl
  | cons n notices ih => exact (heedTable_stirs e id n).trans (ih _)

/-- The notices of a table only wake jobs and start plain ones, so the motion of the table is all
there is to say. -/
theorem putTable_stirs {id : TableId} {t t' : Table} (ht : e.tables.get? id = some t)
    (h : t.Motion (σ.Claims id) (σ.Follows id) t') (notices : List TableNotice) :
    Stirs σ e (e.putTable id t' notices) :=
  .trans (.single (.table ht h)) (foldl_heedTable_stirs _ id notices)

/-- A table that is not there is left alone; one that is there makes the motion that its scope
allows. -/
theorem onTable_stirs {id : TableId} {step : Table → Table × List TableNotice}
    (h : ∀ t, e.tables.get? id = some t → t.Motion (σ.Claims id) (σ.Follows id) (step t).1) :
    Stirs σ e (e.onTable id step) := by
  unfold onTable
  split
  · exact .refl
  · next t ht => exact putTable_stirs ht (h t ht) _

theorem closeTable_stirs (e : Engine) (id : TableId) : Stirs σ e (e.closeTable id) :=
  onTable_stirs fun _ _ => .close

/-- A table that exists is closed after it was told to, whatever its notices have led to. -/
theorem closeTable_closed (hn : e.tables.Numbered) {id : TableId}
    (hid : e.tables.contains id = true) :
    ∃ t, (e.closeTable id).tables.get? id = some t ∧ t.state = .closed := by
  obtain ⟨t, ht⟩ := SortedMap.get?_of_contains hid
  have hstirs : Stirs (.outside e false) { e with tables := e.tables.insert id t.close.1 }
      (e.closeTable id) := by
    simp only [closeTable, onTable, ht]
    exact foldl_heedTable_stirs _ id _
  exact hstirs.closed (hn.insert _ (.inl hid)) (by simp) t.state_close

theorem newTable_stirs (e : Engine) (schema : Schema) (query : Query) (settings : Settings) :
    Stirs σ e (e.newTable schema query settings).2 :=
  .single (.newTable e schema query settings)

theorem subscribeTable_stirs (e : Engine) (id : TableId) : Stirs σ e (e.subscribeTable id).2 := by
  unfold subscribeTable
  split
  · exact .refl
  · next t ht => exact .single (.table ht (.rest t.alters_subscribe (by decide)))

theorem unsubscribeTable_stirs (e : Engine) (id : TableId) (sub : Nat) :
    Stirs σ e (e.unsubscribeTable id sub) :=
  onTable_stirs fun t _ => .rest (t.alters_unsubscribe sub) (by decide)

/-! ## The data layer -/

theorem channels_stirs (e : Engine) (channels : Channels) : Stirs σ e { e with channels } :=
  stirs_aside rfl rfl rfl rfl rfl rfl fun _ => id

theorem backend_stirs (e : Engine) (backend : Backend) : Stirs σ e { e with backend } :=
  stirs_aside rfl rfl rfl rfl rfl rfl fun _ => id

theorem deliver_stirs (e : Engine) (posts : List Post) : Stirs σ e (e.deliver posts) := by
  unfold deliver
  induction posts generalizing e with
  | nil => exact .refl
  | cons post posts ih =>
    refine .trans ?_ (ih _)
    exact (channels_stirs e (e.channels.post post)).trans (wake_stirs _ _)

theorem ask_stirs (e : Engine) (request : Request) : Stirs σ e (e.ask request).2 := by
  simp only [ask]
  exact ((channels_stirs e _).trans (backend_stirs _ _)).trans (deliver_stirs _ _)

/-! ## Documents -/

theorem heedDocument_stirs (e : Engine) (id : DocId) (notice : DocumentNotice) :
    Stirs σ e (e.heedDocument id notice) := by
  cases notice with
  | state => exact wake_stirs e _
  | events =>
    simp only [heedDocument]
    split
    · exact foldl_wake_stirs _ _ e
    · exact .refl
  | closeTable table => exact closeTable_stirs e table
  | turn ticket => exact wake_stirs e _

theorem foldl_heedDocument_stirs (e : Engine) (id : DocId) (notices : List DocumentNotice) :
    Stirs σ e (notices.foldl (fun e n => e.heedDocument id n) e) := by
  induction notices generalizing e with
  | nil => exact .refl
  | cons n notices ih => exact (heedDocument_stirs e id n).trans (ih _)

/-- What the notices of a document lead to does not reach the document itself. -/
theorem putDocument_deeds {id : DocId} {d d' : Document} (hd : e.docs.get? id = some d)
    (h : Document.Turns σ.commits d d') (notices : List DocumentNotice) :
    Deeds σ e (e.putDocument id d' notices) :=
  .trans (.single (.turn hd h)) (foldl_heedDocument_stirs _ id notices).deeds

/-- A function on documents whose every result is reached by turns is a deed. -/
theorem onDocument_deeds {id : DocId} {step : Document → Document × List DocumentNotice}
    (h : ∀ d, e.docs.get? id = some d → Document.Turns σ.commits d (step d).1) :
    Deeds σ e (e.onDocument id step) := by
  unfold onDocument
  split
  · exact .refl
  · next d hd => exact putDocument_deeds hd (h d hd) _

theorem subscribeDocument_deeds (e : Engine) (id : DocId) :
    Deeds σ e (e.subscribeDocument id).2 := by
  unfold subscribeDocument
  split
  · exact .refl
  · next d hd => exact .single (.turn hd (.single ⟨rfl, rfl, rfl, .listen _ _⟩))

/-- Those who wait for events of a document are woken. -/
theorem mem_queue_heedDocument_events {id : DocId} {d : Document} (hd : e.docs.get? id = some d)
    {sub : Nat} (hsub : d.events.isLive sub = true) {j : JobId} {job : Job}
    (hjob : e.jobs.get? j = some job) (hsignal : .documentEvent id sub ∈ job.signals) :
    j ∈ (e.heedDocument id .events).queue := by
  simp only [heedDocument, hd]
  exact mem_queue_foldl_wake (SortedMap.mem_keys_iff.mpr hsub) hjob hsignal

/-- A document is closed with its tables, and those who wait for its events are woken. -/
theorem closeDocument_deeds (hcommits : σ.commits = false) (e : Engine) (id : DocId) :
    Deeds σ e (e.closeDocument id) := by
  cases hd : e.docs.get? id with
  | none =>
    simp only [closeDocument, onDocument, hd]
    exact .refl
  | some d =>
    by_cases hstate : d.state = .closed
    · have hclose : d.close = (d, []) := by simp [Document.close, hstate]
      simp only [closeDocument, onDocument, hd, hclose]
      exact putDocument_deeds hd .refl []
    · let e₁ : Engine := { e with docs := e.docs.insert id d.close.1 }
      let e₂ := (e₁.wake (.documentState id)).closeTable d.strings
      let e₃ := e₂.closeTable d.patches
      have hnotices : d.close.2 =
          [.state, .closeTable d.strings, .closeTable d.patches, .events] := by
        simp [Document.close, hstate, Document.emit]
      have heq : e.closeDocument id = e₃.heedDocument id .events := by
        simp only [closeDocument, onDocument, hd, putDocument, hnotices]
        rfl
      have h₁₂ : Stirs σ e₁ e₂ := (wake_stirs e₁ _).trans (closeTable_stirs _ _)
      have h₂₃ : Stirs σ e₂ e₃ := closeTable_stirs e₂ _
      have h₃ : Stirs σ e₃ (e₃.heedDocument id .events) := heedDocument_stirs e₃ id _
      have h₁₃ := h₁₂.trans h₂₃
      rw [heq]
      refine .single (.close hd hstate hcommits (h₁₃.trans h₃) (fun hn table htable hin => ?_) ?_)
      · have hn₂ : e₂.tables.Numbered := h₁₂.numbered hn
        have hn₃ : e₃.tables.Numbered := h₂₃.numbered hn₂
        rcases htable with rfl | rfl
        · obtain ⟨t, ht, hclosed⟩ : ∃ t, e₂.tables.get? d.strings = some t ∧ t.state = .closed :=
            closeTable_closed (e := e₁.wake (.documentState id)) hn hin
          exact (h₂₃.trans h₃).closed hn₂ ht hclosed
        · obtain ⟨t, ht, hclosed⟩ := closeTable_closed hn₂ (h₁₂.grows.tables _ hin)
          exact h₃.closed hn₃ ht hclosed
      · intro j job sub hlt hjob hsub hsignal
        have hd₃ : e₃.docs.get? id = some d.close.1 := by
          rw [h₁₃.docs]
          simp [e₁]
        have hsub₃ : d.close.1.events.isLive sub = true := by
          rw [Document.close_eq hstate]
          exact (d.events.isLive_emit .closed sub).trans hsub
        have hjob₃ : e₃.jobs.get? j = some job := (h₁₃.grows.jobs j hlt).trans hjob
        exact mem_queue_heedDocument_events hd₃ hsub₃ hjob₃ hsignal

/-- What a new document is made of. -/
theorem newDocument_eq_ok {client : ClientId} {kind : Kind} {o : DocumentOptions} {id : DocId}
    (h : e.newDocument client kind o = .ok (id, e')) :
    ∃ query query' stringId e₁ e₂, e₁ = (e.newTable .syncstrings query o.settings).2 ∧
      e₂ = (e₁.newTable .patches query' o.settings).2 ∧ id = e.docs.size ∧
      e' = Engine.spawn
        { e₂ with
          docs := e.docs.insert e.docs.size
            (.new kind o stringId client e.tables.size e₁.tables.size) } (.setUp id) := by
  simp only [newDocument] at h
  split at h
  · cases h
  · simp only [Except.ok.injEq, Prod.mk.injEq] at h
    exact ⟨_, _, _, _, _, rfl, rfl, h.1.symm, by rw [← h.2, ← h.1]; rfl⟩

/-- A document is made with its two tables, which are new. -/
theorem newDocument_deeds {client : ClientId} {kind : Kind} {o : DocumentOptions} {id : DocId}
    (hadmits : σ.admits = true) (hfresh : σ.fresh ≤ e.tables.size)
    (h : e.newDocument client kind o = .ok (id, e')) : Deeds σ e e' := by
  obtain ⟨query, query', stringId, e₁, e₂, rfl, rfl, rfl, rfl⟩ := newDocument_eq_ok h
  refine .trans (newTable_stirs e .syncstrings query o.settings).deeds ?_
  refine .trans (newTable_stirs _ .patches query' o.settings).deeds ?_
  refine .trans (.single (.make hadmits ⟨rfl, rfl⟩ fun table htable => ?_))
    (spawn_plain_stirs _ _ rfl).deeds
  have hle := e.tables.size_le_size_insert e.tables.size (.new .syncstrings query o.settings)
  rcases htable with rfl | rfl
  · exact ⟨hfresh, by simp [newTable, Document.new]⟩
  · exact ⟨Nat.le_trans hfresh hle, by simp [newTable, Document.new]⟩

end Engine

end LiveDocs
