import LiveDocs.Proofs.Engine.Looks
import Mathlib.Data.List.Induction

/-!
# Runs of an engine

A run is any sequence of acts: a step of one job, whether it was woken or not, the passing of time,
the start of a call, and all else that may be done to an engine from outside. Jobs may make their
steps in any order, so what holds in every run holds for every way in which jobs can take turns; in
particular it holds when they are settled (`Engine.exists_run_settle`).

## Main definitions

* `Engine.Act`, `Engine.act`, `Engine.run`: what may happen to an engine, and runs.
* `Engine.gather`: what the acts of a run yield.
* `Engine.Stepped`: what a step of a job comes to.
* `Engine.Sound`: everything has a number, what is referred to exists, and all buses are in order.

## Main results

* `Engine.exists_run_settle`: settling is a run.
* `Engine.Deeds.trail`: what deeds do to a document.
* `Engine.Worked.exists_deeds`: every act is made of deeds, after somebody may have read events of a
  document.
* `Engine.sound_run`: every run leaves an engine sound.
-/

namespace LiveDocs

/-- What exists goes on to exist. -/
theorem Job.Grounded.mono {job : Job} {e e' : Engine} (h : job.Grounded e) (hgrows : e.Grows e') :
    job.Grounded e' := by
  unfold Grounded at h ⊢
  split at h
  · exact hgrows.feeds _ h
  · exact hgrows.tables _ h
  · exact hgrows.tables _ h
  · exact ⟨hgrows.docs _ h.1, hgrows.tables _ h.2⟩
  · trivial

/-- Whether a job may be started from outside. -/
def Job.isCall : Job → Bool
  | connectFeed _ (.call _) | connect _ (.call _) | write _ _ _ (.call _)
  | awaitRows _ _ _ (.call _) | awaitConnected _ _ (.call _) | awaitReady _ _ (.call _)
  | edit _ _ _ | save _ _ | load _ (.call _) | reconnect _ _ | session _ _ _ => true
  | _ => false

theorem Job.grounded_of_isCall {job : Job} (h : job.isCall = true) (e : Engine) :
    job.Grounded e := by
  unfold Grounded
  split <;> simp_all [isCall]

namespace Engine

/-! ## Acts -/

/-- What may happen to an engine. -/
inductive Act where
  /-- A job makes a step, whether it was woken or not. -/
  | step (id : JobId)
  /-- The jobs that have let all others go first are woken. -/
  | resume
  | advance (milliseconds : Nat)
  /-- A call is started. -/
  | start (job : Job)
  | newFeed (query : Query) (timeout : Nat) (options : List Json)
  | subscribeFeed (id : FeedId)
  | drainFeed (id : FeedId) (sub : Nat)
  | closeFeed (id : FeedId)
  | newTable (schema : Schema) (query : Query) (settings : Settings)
  | subscribeTable (id : TableId)
  | drainTable (id : TableId) (sub : Nat)
  | closeTable (id : TableId)
  /-- A document is made that the registry has nothing to do with. -/
  | newDocument (client : ClientId) (kind : Kind) (options : DocumentOptions)
  | subscribeDocument (id : DocId)
  | drainDocument (id : DocId) (sub : Nat)
  | closeDocument (id : DocId)
  | openFromTable (client : ClientId) (table : TableId) (call : Option CallId)
  | callPath (path : String) (message : Json)
  | dispatch (text : String)
  | closePath (path : String)
  | closeTree (dir : String)
  | addHook (ext label : String)
  /-- The data layer changes and posts something. -/
  | serve (backend : Backend) (posts : List Post)
  | setClients (clients : SortedMap ClientId Client)
  | setDisk (disk : Disk)
  /-- The results of calls and the hooks that were run are taken. -/
  | takeReports

def act (e : Engine) : Act → Engine
  | .step id => e.stepJob id
  | .resume => { e with queue := e.queue ++ e.deferred, deferred := [] }
  | .advance milliseconds => e.advance milliseconds
  | .start job => if job.isCall then e.spawn job else e
  | .newFeed query timeout options => (e.newFeed (.new query timeout options)).2
  | .subscribeFeed id => (e.subscribeFeed id).2
  | .drainFeed id sub => (e.drainFeed id sub).2
  | .closeFeed id => e.closeFeed id
  | .newTable schema query settings => (e.newTable schema query settings).2
  | .subscribeTable id => (e.subscribeTable id).2
  | .drainTable id sub => (e.drainTable id sub).2
  | .closeTable id => e.closeTable id
  | .newDocument client kind options =>
    match e.newDocument client kind options with
    | .ok (_, e) => e
    | .error _ => e
  | .subscribeDocument id => (e.subscribeDocument id).2
  | .drainDocument id sub => (e.drainDocument id sub).2
  | .closeDocument id => e.closeDocument id
  | .openFromTable client table call =>
    match e.openFromTable client table call with
    | .ok e => e
    | .error _ => e
  | .callPath path message =>
    match e.callPath path message with
    | .ok (_, e) => e
    | .error _ => e
  | .dispatch text => (e.dispatch text).2
  | .closePath path => (e.closePath path).2
  | .closeTree dir => (e.closeTree dir).2
  | .addHook ext label => { e with registry := e.registry.addHook ext label }
  | .serve backend posts => { e with backend }.deliver posts
  | .setClients clients => { e with clients }
  | .setDisk disk => { e with disk }
  | .takeReports => { e with done := [], hookRuns := [] }

def run (e : Engine) (acts : List Act) : Engine := acts.foldl act e

variable {e e' : Engine}

@[simp] theorem run_nil (e : Engine) : e.run [] = e := rfl

@[simp] theorem run_concat (e : Engine) (acts : List Act) (a : Act) :
    e.run (acts ++ [a]) = (e.run acts).act a := by
  simp [run]

/-- What the acts of a run yield, one after the other. -/
def gather {α : Type} (yield : Engine → Act → List α) (e : Engine) : List Act → List α
  | [] => []
  | a :: acts => yield e a ++ gather yield (e.act a) acts

/-- What a run yields is extended at its end, as the run itself is. -/
theorem gather_concat {α : Type} (yield : Engine → Act → List α) (e : Engine) (acts : List Act)
    (a : Act) : gather yield e (acts ++ [a]) = gather yield e acts ++ yield (e.run acts) a := by
  induction acts generalizing e with
  | nil => simp [gather]
  | cons b acts ih => simp [gather, ih, run]

/-- Settling is a run in which jobs make steps and nothing else happens. -/
theorem exists_run_settle (fuel : Nat) (e : Engine) :
    ∃ acts, settle fuel e = e.run acts ∧ ∀ a ∈ acts, a = .resume ∨ ∃ id, a = .step id := by
  induction fuel generalizing e with
  | zero => exact ⟨[], rfl, by simp⟩
  | succ fuel ih =>
    unfold settle
    split
    · exact ⟨[], rfl, by simp⟩
    · obtain ⟨acts, hacts, hkind⟩ := ih e.step
      have hstep : ∃ a, e.step = e.act a ∧ (a = .resume ∨ ∃ id, a = .step id) := by
        unfold step
        split
        · next id _ _ => exact ⟨.step id, rfl, .inr ⟨id, rfl⟩⟩
        · next hqueue => exact ⟨.resume, by simp [act, hqueue], .inl rfl⟩
      obtain ⟨a, ha, hka⟩ := hstep
      exact ⟨a :: acts, by rw [hacts, ha]; rfl, List.forall_mem_cons.mpr ⟨hka, hkind⟩⟩

/-! ## Steps of jobs -/

/-- What a step of a job comes to. -/
inductive Stepped (e : Engine) (id : JobId) : Engine → Prop
  | absent (h : e.jobs.get? id = none) : Stepped e id (e.dequeue id)
  | wait {job : Job} (hjob : e.jobs.get? id = some job) (hlook : e.look job = .wait) :
      Stepped e id (e.dequeue id)
  | goOn {job job' : Job} {e' : Engine} (hjob : e.jobs.get? id = some job)
      (hlook : e.look job = .goOn e' job') : Stepped e id { e' with jobs := e'.jobs.insert id job' }
  | yield {job job' : Job} (hjob : e.jobs.get? id = some job) (hlook : e.look job = .yield job') :
      Stepped e id
        { e.dequeue id with jobs := e.jobs.insert id job', deferred := e.deferred ++ [id] }
  | finish {job : Job} {e' : Engine} (hjob : e.jobs.get? id = some job)
      (hlook : e.look job = .finish e') :
      Stepped e id (({ e' with jobs := e'.jobs.erase id }.dequeue id).wake (.finished id))

/-- Every step is one of the five, by what the look at the job comes to. -/
theorem stepped_stepJob (e : Engine) (id : JobId) : Stepped e id (e.stepJob id) := by
  unfold stepJob
  split
  · next hjob => exact .absent hjob
  · next hjob =>
    split
    · next hlook => exact .wait hjob hlook
    · next hlook => exact .goOn hjob hlook
    · next hlook => exact .yield hjob hlook
    · next hlook => exact .finish hjob hlook

/-! ## Reading events of documents -/

/-- The engine after somebody has read events of a document, if an act begins with that. -/
def listen (e : Engine) : Act → Engine
  | .step id =>
    match e.jobs.get? id with
    | some job => e.hear job
    | none => e
  | .drainDocument id sub => (e.drainDocument id sub).2
  | _ => e

/-- The events that an act reads for a subscription to a document. -/
def reads (e : Engine) (a : Act) (doc : DocId) (sub : Nat) : List DocumentEvent :=
  match a with
  | .step id =>
    match e.jobs.get? id with
    | some (.watch watched table docEvents _) =>
      if doc = watched ∧ sub = docEvents ∧ e.tables.contains table then
        ((e.docs.get? doc).bind fun d => (d.events.receive sub).1).toList
      else []
    | _ => []
  | .drainDocument id reader =>
    if doc = id ∧ sub = reader then (e.drainDocument id reader).1 else []
  | _ => []

/-- Nothing was read, or some events for one subscription to one document. -/
inductive Reading (e : Engine) (read : DocId → Nat → List DocumentEvent) : Engine → Prop
  | none (h : ∀ doc sub, read doc sub = []) : Reading e read e
  | some {doc : DocId} {d : Document} {reader : Nat} {seen : List DocumentEvent}
      {events : EventBus DocumentEvent} (hd : e.docs.get? doc = some d)
      (hreads : d.events.Reads reader seen events)
      (h : ∀ doc' sub, read doc' sub = if doc' = doc ∧ sub = reader then seen else []) :
      Reading e read { e with docs := e.docs.insert doc { d with events } }

/-- An act reads what it is said to read: a job that watches takes one event, a drain takes all. -/
theorem reading_listen (e : Engine) (a : Act) : Reading e (e.reads a) (e.listen a) := by
  cases a with
  | step id =>
    cases hjob : e.jobs.get? id with
    | none =>
      simp only [listen, hjob]
      exact .none fun doc sub => by simp [reads, hjob]
    | some job =>
      cases job with
      | watch doc table docEvents tableEvents =>
        cases hd : e.docs.get? doc with
        | none =>
          simp only [listen, hear, hjob, hd]
          refine .none fun doc' sub => ?_
          by_cases hdoc : doc' = doc <;> simp [reads, hjob, hdoc, hd]
        | some d =>
          cases ht : e.tables.get? table with
          | none =>
            simp only [listen, hear, hjob, hd, ht]
            exact .none fun doc' sub => by simp [reads, hjob, SortedMap.contains, ht]
          | some t =>
            simp only [listen, hear, hjob, hd, ht]
            refine .some hd (d.events.reads_receive docEvents) fun doc' sub => ?_
            have hcontains := SortedMap.contains_of_get? ht
            by_cases hdoc : doc' = doc <;> by_cases hsub : sub = docEvents <;>
              simp [reads, hjob, hcontains, hdoc, hsub, hd]
      | _ =>
        simp only [listen, hear, hjob]
        exact .none fun doc sub => by simp [reads, hjob]
  | drainDocument id reader =>
    cases hd : e.docs.get? id with
    | none =>
      simp only [listen, drainDocument, hd]
      exact .none fun doc sub => by simp [reads, drainDocument, hd]
    | some d =>
      simp only [listen, drainDocument, hd]
      refine .some hd (d.events.reads_drain reader) fun doc sub => ?_
      simp [reads, drainDocument, hd]
  | _ => exact .none fun _ _ => rfl

/-- A job that neither goes on nor ends has read nothing. -/
theorem hear_of_idle {job : Job} (hgoOn : ∀ e' job', e.look job ≠ .goOn e' job')
    (hfinish : ∀ e', e.look job ≠ .finish e') : e.hear job = e := by
  cases job with
  | watch doc table docEvents tableEvents =>
    cases hd : e.docs.get? doc with
    | none => simp only [hear, hd]
    | some d =>
      cases ht : e.tables.get? table with
      | none => simp only [hear, hd, ht]
      | some t =>
        cases hevent : (d.events.receive docEvents).1 with
        | none => exact hear_of_none hd hevent table tableEvents
        | some event =>
          have hend (e : Engine) : ∃ e', e.endWatch doc table = .finish e' := by
            simp only [endWatch]
            split <;> exact ⟨_, rfl⟩
          simp only [look, lookWatch, hd, ht, hevent] at hgoOn hfinish
          cases event with
          | closed =>
            obtain ⟨e', he'⟩ := hend _
            exact absurd he' (hfinish e')
          | _ => exact absurd rfl (hgoOn _ _)
  | _ => rfl

/-! ## Soundness -/

/-- What jobs refer to exists, everything has a number, and all buses are in order. -/
structure Sound (e : Engine) : Prop where
  jobs : ∀ id job, e.jobs.get? id = some job → id < e.nextJob ∧ job.Grounded e
  feeds : e.feeds.Numbered
  tables : e.tables.Numbered
  docs : e.docs.Numbered
  sited : ∀ id d, e.docs.get? id = some d → ∀ table, table = d.strings ∨ table = d.patches →
    e.tables.contains table = true
  tuned : ∀ id d, e.docs.get? id = some d → Document.Tuned d.state d.events
  orderly : ∀ id t, e.tables.get? id = some t → t.events.Orderly

/-- An engine with nothing in it is sound. -/
theorem sound_new (backend : Backend) : Sound (new backend) :=
  ⟨by simp [new], SortedMap.numbered_empty, SortedMap.numbered_empty, SortedMap.numbered_empty,
    by simp [new], by simp [new], by simp [new]⟩

namespace Sound

/-- Only jobs have changed. -/
theorem of_jobs (h : Sound e) (hfeeds : e'.feeds = e.feeds) (htables : e'.tables = e.tables)
    (hdocs : e'.docs = e.docs)
    (hjobs : ∀ id job, e'.jobs.get? id = some job → id < e'.nextJob ∧ job.Grounded e') :
    Sound e' where
  jobs := hjobs
  feeds := hfeeds ▸ h.feeds
  tables := htables ▸ h.tables
  docs := hdocs ▸ h.docs
  sited := by rw [hdocs, htables]; exact h.sited
  tuned := by rw [hdocs]; exact h.tuned
  orderly := by rw [htables]; exact h.orderly

theorem insert_feed (h : Sound e) {id : FeedId} (f : Feed)
    (hid : e.feeds.contains id = true ∨ id = e.feeds.size) :
    Sound { e with feeds := e.feeds.insert id f } :=
  { h with
    jobs := fun j job hjob => ⟨(h.jobs j job hjob).1, (h.jobs j job hjob).2.mono
      { Grows.refl e with feeds := fun id hid => by simp [hid] }⟩
    feeds := h.feeds.insert f hid }

theorem insert_table (h : Sound e) {id : TableId} {t : Table} (ht : t.events.Orderly)
    (hid : e.tables.contains id = true ∨ id = e.tables.size) :
    Sound { e with tables := e.tables.insert id t } :=
  { h with
    jobs := fun j job hjob =>
      ⟨(h.jobs j job hjob).1, (h.jobs j job hjob).2.mono (.insert_table e id t)⟩
    tables := h.tables.insert t hid
    sited := fun i d hd table htable => by simp [h.sited i d hd table htable]
    orderly := by
      intro i t' ht'
      rw [SortedMap.get?_insert] at ht'
      split at ht'
      · cases ht'
        exact ht
      · exact h.orderly i t' ht' }

/-- A document may be put in if it has the number of one that is there or the next, its tables exist
and its bus is in order. -/
theorem insert_doc (h : Sound e) {id : DocId} {d : Document}
    (hid : e.docs.contains id = true ∨ id = e.docs.size)
    (hsited : ∀ table, table = d.strings ∨ table = d.patches → e.tables.contains table = true)
    (htuned : Document.Tuned d.state d.events) : Sound { e with docs := e.docs.insert id d } :=
  { h with
    jobs := fun j job hjob =>
      ⟨(h.jobs j job hjob).1, (h.jobs j job hjob).2.mono (.insert_doc e id d)⟩
    docs := h.docs.insert d hid
    sited := by
      intro i d' hd'
      rw [SortedMap.get?_insert] at hd'
      split at hd'
      · cases hd'
        exact hsited
      · exact h.sited i d' hd'
    tuned := by
      intro i d' hd'
      rw [SortedMap.get?_insert] at hd'
      split at hd'
      · cases hd'
        exact htuned
      · exact h.tuned i d' hd' }

/-- Reading takes events out of a queue and leaves everything else as it was. -/
theorem reading (h : Sound e) {read : DocId → Nat → List DocumentEvent}
    (hread : Reading e read e') :
    Sound e' := by
  cases hread with
  | none => exact h
  | some hd hreads =>
    have hsited := h.sited _ _ hd
    exact h.insert_doc (.inl (SortedMap.contains_of_get? hd)) hsited ((h.tuned _ _ hd).reads hreads)

/-- The new job has the next number, and what it refers to exists by then. -/
theorem spawn (h : Sound e) {job : Job} (hjob : job.Grounded e) : Sound (e.spawn job) := by
  refine h.of_jobs rfl rfl rfl fun id job' hjob' => ?_
  simp only [Engine.spawn, SortedMap.get?_insert] at hjob'
  split at hjob'
  · next hid =>
    cases hjob'
    exact ⟨hid ▸ Nat.lt_succ_self _, hjob.mono (.spawn e job)⟩
  · obtain ⟨hlt, hgrounded⟩ := h.jobs id job' hjob'
    exact ⟨Nat.lt_succ_of_lt hlt, hgrounded.mono (.spawn e job)⟩

/-- The step lemma for what happens to feeds, tables and jobs. -/
theorem stir {σ : Scope} (h : Sound e) (hstir : Stir σ e e') : Sound e' := by
  have hgrows := hstir.grows
  cases hstir with
  | aside feeds tables docs _ jobs nextJob =>
    refine h.of_jobs feeds tables docs fun id job hjob => ?_
    rw [jobs] at hjob
    exact ⟨nextJob ▸ (h.jobs id job hjob).1, (h.jobs id job hjob).2.mono hgrows⟩
  | spawn hstarts => exact h.spawn hstarts.grounded
  | feed f hid => exact h.insert_feed f hid
  | table ht hmotion =>
    exact h.insert_table (hmotion.orderly (h.orderly _ _ ht)) (.inl (SortedMap.contains_of_get? ht))
  | newTable => exact h.insert_table EventBus.orderly_empty (.inr rfl)

theorem stirs {σ : Scope} (h : Sound e) (hstirs : Stirs σ e e') : Sound e' := by
  induction hstirs with
  | refl => exact h
  | tail _ hstir ih => exact ih.stir hstir

/-- A document that has made some turns has its tables still and its bus in order. -/
theorem trail {commits : Bool} (h : Sound e) {id : DocId} {d d' : Document}
    (hd : e.docs.get? id = some d) (htrail : Document.Trail commits d d') :
    Sound { e with docs := e.docs.insert id d' } := by
  obtain ⟨-, hstrings, hpatches⟩ := htrail.place
  refine h.insert_doc (.inl (SortedMap.contains_of_get? hd)) ?_ (htrail.tuned (h.tuned id d hd))
  rw [hstrings, hpatches]
  exact h.sited id d hd

/-- The step lemma for all that happens to an engine. A closed document keeps its tables, and the
stirs that follow are sound one by one. -/
theorem deed {σ : Scope} (h : Sound e) (hdeed : Deed σ e e') : Sound e' := by
  cases hdeed with
  | stir hstir => exact h.stir hstir
  | turn hd hturns => exact h.trail hd hturns.trail
  | close hd hopen hcommits hstirs =>
    have htrail : Document.Trail false _ _ := .single (.inr ⟨rfl, hopen, rfl⟩)
    exact (h.trail hd htrail).stirs hstirs
  | make _ hnew hsited =>
    refine h.insert_doc (.inr rfl) (fun table htable => (hsited table htable).2) ?_
    rw [hnew.1, hnew.2]
    exact Document.tuned_new
  | register => exact h.of_jobs rfl rfl rfl h.jobs

theorem deeds {σ : Scope} (h : Sound e) (hdeeds : Deeds σ e e') : Sound e' := by
  induction hdeeds with
  | refl => exact h
  | tail _ hdeed ih => exact ih.deed hdeed

end Sound

/-! ## What deeds do to documents -/

section Documents

variable {σ : Scope}

/-- The document that there is under a number, or a new one if there is none. -/
def Origin (e : Engine) (id : DocId) (d : Document) : Prop :=
  e.docs.get? id = some d ∨ e.docs.get? id = none ∧ d.state = .init ∧ d.events = .empty

/-- A document after a deed has come to be so on a trail of its own, from the document before or
from a new one. -/
theorem Deed.trail (h : Deed σ e e') (hn : e.docs.Numbered) {id : DocId} {d' : Document}
    (hd' : e'.docs.get? id = some d') : ∃ d, e.Origin id d ∧ Document.Trail σ.commits d d' := by
  cases h with
  | stir hstir =>
    rw [Stirs.docs (.single hstir)] at hd'
    exact ⟨d', .inl hd', .refl⟩
  | @turn id' d d'' hd hturns =>
    rw [SortedMap.get?_insert] at hd'
    split at hd'
    · next hid =>
      cases hd'
      exact ⟨d, .inl (hid ▸ hd), hturns.trail⟩
    · exact ⟨d', .inl hd', .refl⟩
  | @close _ id' d hd hopen hcommits hstirs =>
    rw [hstirs.docs, SortedMap.get?_insert] at hd'
    split at hd'
    · next hid =>
      cases hd'
      exact ⟨d, .inl (hid ▸ hd), .single (.inr ⟨hcommits, hopen, rfl⟩)⟩
    · exact ⟨d', .inl hd', .refl⟩
  | make hadmits hnew =>
    rw [SortedMap.get?_insert] at hd'
    split at hd'
    · next hid =>
      cases hd'
      exact ⟨_, .inr ⟨hid ▸ hn.get?_size, hnew⟩, .refl⟩
    · exact ⟨d', .inl hd', .refl⟩
  | register => exact ⟨d', .inl hd', .refl⟩

/-- A document has come from what it was, or from a new one, by some turns. -/
theorem Deeds.trail (h : Deeds σ e e') (hs : Sound e) {id : DocId} {d' : Document}
    (hd' : e'.docs.get? id = some d') : ∃ d, e.Origin id d ∧ Document.Trail σ.commits d d' := by
  induction h generalizing d' with
  | refl => exact ⟨d', .inl hd', .refl⟩
  | @tail e₁ e₂ hdeeds hdeed ih =>
    obtain ⟨d₁, horigin, htrail⟩ := hdeed.trail (hs.deeds hdeeds).docs hd'
    rcases horigin with hd₁ | ⟨hnone, hnew⟩
    · obtain ⟨d, horigin, htrail'⟩ := ih hd₁
      exact ⟨d, horigin, htrail'.trans htrail⟩
    · refine ⟨d₁, .inr ⟨?_, hnew⟩, htrail⟩
      cases hd : e.docs.get? id with
      | none => rfl
      | some d =>
        have hin := (Deeds.grows hdeeds).docs id (SortedMap.contains_of_get? hd)
        simp [SortedMap.contains, hnone] at hin

/-- A document that there is comes some way. -/
theorem Deeds.trail_of_get? (h : Deeds σ e e') (hs : Sound e) {id : DocId} {d : Document}
    (hd : e.docs.get? id = some d) :
    ∃ d', e'.docs.get? id = some d' ∧ Document.Trail σ.commits d d' := by
  obtain ⟨d', hd'⟩ := SortedMap.get?_of_contains (h.grows.docs id (SortedMap.contains_of_get? hd))
  obtain ⟨d₀, horigin, htrail⟩ := h.trail hs hd'
  rcases horigin with hd₀ | ⟨hnone, -⟩
  · rw [hd, Option.some.injEq] at hd₀
    exact ⟨d', hd', hd₀ ▸ htrail⟩
  · simp [hd] at hnone

end Documents

/-! ## What acts do -/

/-- Whether an act may make documents or change the registry. -/
def Act.admits : Act → Bool
  | .newDocument _ _ _ | .callPath _ _ | .dispatch _ | .closePath _ | .closeTree _ => true
  | _ => false

/-- What an act comes to. -/
inductive Worked (e : Engine) : Act → Engine → Prop
  | step (id : JobId) : Worked e (.step id) (e.stepJob id)
  | start {job : Job} (h : job.isCall = true) : Worked e (.start job) (e.spawn job)
  | deeds {a : Act} {e' : Engine} (h : Deeds (.outside e a.admits) (e.listen a) e') : Worked e a e'

theorem closeDocuments_deeds {σ : Scope} (hcommits : σ.commits = false) (e : Engine)
    (docs : List DocId) : Deeds σ e (e.closeDocuments docs) := by
  unfold closeDocuments
  induction docs generalizing e with
  | nil => exact .refl
  | cons doc docs ih => exact (closeDocument_deeds hcommits e doc).trans (ih _)

/-- Documents that leave the registry are closed. -/
theorem expel_deeds {σ : Scope} (hcommits : σ.commits = false) (hadmits : σ.admits = true)
    (e : Engine) (registry : Registry) (docs : List DocId) :
    Deeds σ e (Engine.closeDocuments { e with registry } docs) :=
  .trans (.single (.register e registry hadmits)) (closeDocuments_deeds hcommits _ docs)

/-- **Every act is of one of three kinds:** a job makes a step, a call is started, or something is
done from outside, after events of a document were read if the act begins with that. -/
theorem worked_act (e : Engine) (a : Act) : Worked e a (e.act a) := by
  have haside {a : Act} {e' : Engine} (hlisten : e.listen a = e)
      (h : ∀ σ : Scope, Stirs σ e e') : Worked e a e' := by
    refine .deeds ?_
    rw [hlisten]
    exact (h _).deeds
  cases a with
  | step id => exact .step id
  | resume =>
    exact haside rfl fun _ => stirs_aside rfl rfl rfl rfl rfl rfl fun _ hid =>
      List.mem_append_left _ hid
  | advance milliseconds =>
    refine haside rfl fun _ => stirs_aside rfl rfl rfl rfl rfl rfl fun id hid => ?_
    exact List.mem_append_left _ hid
  | start job =>
    by_cases hcall : job.isCall = true
    · simp only [act, hcall, if_true]
      exact .start hcall
    · simp only [act, hcall]
      exact .deeds .refl
  | newFeed query timeout options => exact haside rfl fun _ => .single (.feed _ (.inr rfl))
  | subscribeFeed id =>
    refine haside rfl fun _ => ?_
    simp only [act, subscribeFeed]
    split
    · exact .refl
    · next hf => exact .single (.feed _ (.inl (SortedMap.contains_of_get? hf)))
  | drainFeed id sub =>
    refine haside rfl fun _ => ?_
    simp only [act, drainFeed]
    split
    · exact .refl
    · next hf => exact .single (.feed _ (.inl (SortedMap.contains_of_get? hf)))
  | closeFeed id => exact haside rfl fun _ => onFeed_stirs e id _
  | newTable schema query settings =>
    exact haside rfl fun _ => newTable_stirs e schema query settings
  | subscribeTable id => exact haside rfl fun _ => subscribeTable_stirs e id
  | drainTable id sub =>
    refine haside rfl fun _ => ?_
    simp only [act, drainTable]
    split
    · exact .refl
    · next t ht => exact .single (.table ht (Table.motion_reads (t.events.reads_drain sub)))
  | closeTable id => exact haside rfl fun _ => closeTable_stirs e id
  | newDocument client kind options =>
    refine .deeds ?_
    simp only [act, listen]
    split
    · next hnew => exact newDocument_deeds rfl (Nat.le_refl _) hnew
    · exact .refl
  | subscribeDocument id => exact .deeds (subscribeDocument_deeds e id)
  | drainDocument id sub => exact .deeds .refl
  | closeDocument id => exact .deeds (closeDocument_deeds rfl e id)
  | openFromTable client table call =>
    refine haside rfl fun _ => ?_
    simp only [act, openFromTable]
    split
    · next he' =>
      split at he'
      · cases he'
      · next t ht =>
        split at he'
        · cases he'
        · split at he'
          · cases he'
          · cases he'
            exact spawn_stirs ⟨SortedMap.contains_of_get? ht, fun _ => False.elim,
              fun _ _ => False.elim, rfl, by simp [Job.isWatch]⟩
    · exact .refl
  | callPath path message =>
    refine .deeds ?_
    simp only [act, listen, callPath]
    split
    · next he' =>
      split at he'
      · cases he'
      · cases he'
        exact expel_deeds rfl rfl e _ _
    · exact .refl
  | dispatch text => exact .deeds (expel_deeds rfl rfl e _ _)
  | closePath path => exact .deeds (expel_deeds rfl rfl e _ _)
  | closeTree dir => exact .deeds (expel_deeds rfl rfl e _ _)
  | serve backend posts =>
    exact haside rfl fun _ => (backend_stirs e backend).trans (deliver_stirs _ posts)
  | addHook | setClients | setDisk | takeReports =>
    exact haside rfl fun _ => stirs_aside rfl rfl rfl rfl rfl rfl fun _ => id

/-! ## Runs -/

/-- Of an engine only documents change when a job reads. -/
theorem hear_frame (e : Engine) (job : Job) :
    (e.hear job).feeds = e.feeds ∧ (e.hear job).tables = e.tables ∧
      (e.hear job).registry = e.registry ∧ (e.hear job).jobs = e.jobs ∧
      (e.hear job).nextJob = e.nextJob ∧ (e.hear job).queue = e.queue := by
  unfold hear
  split
  · split <;> exact ⟨rfl, rfl, rfl, rfl, rfl, rfl⟩
  · exact ⟨rfl, rfl, rfl, rfl, rfl, rfl⟩

namespace Sound

/-- A watching job that takes an event only reads. -/
theorem hear (h : Sound e) {id : JobId} {job : Job} (hjob : e.jobs.get? id = some job) :
    Sound (e.hear job) := by
  have hlisten := h.reading (reading_listen e (.step id))
  simpa only [listen, hjob] using hlisten

/-- A job that goes on. -/
theorem goOn (h : Sound e) {id : JobId} {job job' : Job} (hjob : e.jobs.get? id = some job)
    (hlook : e.look job = .goOn e' job') :
    Deeds (job.scope e) (e.hear job) e' ∧ (job.scope e).Heir e' job' := by
  have hdoes := e.look_does (h.jobs id job hjob).2
  rwa [hlook] at hdoes

/-- A job that has come to its end. -/
theorem finish (h : Sound e) {id : JobId} {job : Job} (hjob : e.jobs.get? id = some job)
    (hlook : e.look job = .finish e') : Deeds (job.scope e) (e.hear job) e' := by
  have hdoes := e.look_does (h.jobs id job hjob).2
  rwa [hlook] at hdoes

/-- A step of a job keeps an engine sound: the job hears, does deeds within its scope and goes on as
an heir, which is grounded. -/
theorem stepped (h : Sound e) {id : JobId} (hstep : Stepped e id e') : Sound e' := by
  have hdequeue : Sound (e.dequeue id) := h.of_jobs rfl rfl rfl h.jobs
  cases hstep with
  | absent => exact hdequeue
  | wait => exact hdequeue
  | @goOn job job' e₁ hjob hlook =>
    obtain ⟨hdeeds, hheir⟩ := h.goOn hjob hlook
    have h₁ : Sound e₁ := (h.hear hjob).deeds hdeeds
    have hlt : id < (e.hear job).nextJob := (e.hear_frame job).2.2.2.2.1 ▸ (h.jobs id job hjob).1
    refine h₁.of_jobs rfl rfl rfl fun j job'' hjob'' => ?_
    rw [SortedMap.get?_insert] at hjob''
    split at hjob''
    · next hid =>
      cases hjob''
      rw [hid]
      exact ⟨Nat.lt_of_lt_of_le hlt hdeeds.grows.nextJob, hheir.grounded⟩
    · exact h₁.jobs j job'' hjob''
  | @yield job job' hjob hlook =>
    obtain ⟨hlt, hgrounded⟩ := h.jobs id job hjob
    have hdoes := e.look_does hgrounded
    rw [hlook] at hdoes
    obtain ⟨feed, rfl⟩ := hdoes
    refine h.of_jobs rfl rfl rfl fun j job'' hjob'' => ?_
    rw [SortedMap.get?_insert] at hjob''
    split at hjob''
    · next hid =>
      cases hjob''
      exact ⟨hid ▸ hlt, trivial⟩
    · exact h.jobs j job'' hjob''
  | @finish job e₁ hjob hlook =>
    have h₁ : Sound e₁ := (h.hear hjob).deeds (h.finish hjob hlook)
    refine h₁.of_jobs rfl rfl rfl fun j job'' hjob'' => ?_
    change (e₁.jobs.erase id).get? j = some job'' at hjob''
    rw [SortedMap.get?_erase] at hjob''
    split at hjob''
    · cases hjob''
    · exact h₁.jobs j job'' hjob''

/-- With `worked_act` this is the step lemma for acts. -/
theorem worked (h : Sound e) {a : Act} (hwork : Worked e a e') : Sound e' := by
  cases hwork with
  | step id => exact h.stepped (stepped_stepJob e id)
  | start hcall => exact h.spawn (Job.grounded_of_isCall hcall e)
  | deeds hdeeds => exact (h.reading (e.reading_listen a)).deeds hdeeds

end Sound

/-- **Every act is made of deeds**, after somebody may have read events of a document. -/
theorem Worked.exists_deeds (h : Sound e) {a : Act} (hwork : Worked e a e') :
    ∃ σ e₁, Deeds σ (e.listen a) e₁ ∧ e'.docs = e₁.docs ∧ e'.tables = e₁.tables := by
  cases hwork with
  | step id =>
    have hstep := stepped_stepJob e id
    generalize e.stepJob id = e' at hstep ⊢
    cases hstep with
    | absent hjob => exact ⟨.outside e false, e, by simp only [listen, hjob]; exact .refl, rfl, rfl⟩
    | @wait job hjob hlook =>
      have hidle : e.hear job = e := hear_of_idle (by simp [hlook]) (by simp [hlook])
      exact ⟨.outside e false, e, by simp only [listen, hjob, hidle]; exact .refl, rfl, rfl⟩
    | @goOn job job' e₁ hjob hlook =>
      exact ⟨job.scope e, e₁, by simpa only [listen, hjob] using (h.goOn hjob hlook).1, rfl, rfl⟩
    | @yield job job' hjob hlook =>
      have hidle : e.hear job = e := hear_of_idle (by simp [hlook]) (by simp [hlook])
      exact ⟨.outside e false, e, by simp only [listen, hjob, hidle]; exact .refl, rfl, rfl⟩
    | @finish job e₁ hjob hlook =>
      exact ⟨job.scope e, e₁, by simpa only [listen, hjob] using h.finish hjob hlook, rfl, rfl⟩
  | start => exact ⟨.outside e false, e, .refl, rfl, rfl⟩
  | deeds hdeeds => exact ⟨_, e', hdeeds, rfl, rfl⟩

/-- **Every run leaves an engine sound.** -/
theorem sound_run (backend : Backend) (acts : List Act) : Sound ((new backend).run acts) := by
  induction acts using List.reverseRecOn with
  | nil => exact sound_new backend
  | append_singleton acts a ih =>
    rw [run_concat]
    exact ih.worked (worked_act _ a)

end Engine

end LiveDocs
