import LiveDocs.Proofs.Engine.CommitLooks
import LiveDocs.Proofs.Engine.Runs

/-!
# Runs with one document

In a *solitary* run there is one document, and nobody writes but the document itself. Calls may be
started at any time, jobs may make their steps in any order, and the data layer may hold writes back
and lose connections; but the patches and snapshots that the document writes are accepted
(`Engine.Solitary`).

Every step of such a run moves one commit on, or none (`Engine.HostsAlone.step`), and all else that
happens leaves the commits as they are (`Engine.HostsAlone.act`). So what holds of commits that take
turns holds throughout the run: every snapshot is the text of the patches up to it, and whenever a
commit has ended, fewer patches than the interval have followed the last snapshot.

## Main definitions

* `Engine.Solitary`: nobody writes but the document, and what it writes is accepted.
* `Engine.phaseAt`: how far the commit is that a job works on.
* `Engine.HostsAlone`: an engine with one document and its commits.

## Main results

* `Engine.HostsAlone.step`, `Engine.HostsAlone.act`: what one act leaves as it is.
* `Engine.hostsAlone_run`: what a run leaves as it is.
* `Engine.snapshots_run`: snapshots are true, and not too many patches follow the last one.
-/

namespace LiveDocs

namespace Engine

/-! ## Solitary runs -/

/-- What the data layer may do of its own accord. -/
inductive Serves (e : Engine) : Backend → List Post → Prop
  /-- Rows and writes that are held back stay as they are. -/
  | aside {db db' : Database} {plan plan' : FaultPlan} (hbackend : e.backend = .database db plan)
      (htables : db'.tables = db.tables) (hheld : db'.held = db.held) :
      Serves e (.database db' plan') []
  | release {db : Database} {plan : FaultPlan} (hbackend : e.backend = .database db plan) :
      Serves e (.database (db.release e.channels.alive).1 plan) (db.release e.channels.alive).2
  | disconnect {db : Database} {plan : FaultPlan} (hbackend : e.backend = .database db plan) :
      Serves e (.database db.disconnect.1 plan) db.disconnect.2

/-- Whether an act neither writes a row, makes a document, nor is one of the data layer. -/
def Act.isOwn : Act → Bool
  | .start (.write _ _ _ _) | .start (.session _ _ _) | .newDocument _ _ _ | .openFromTable _ _ _
  | .serve _ _ => false
  | _ => true

/-- Whether an act is no step of a job that is told of a failed write of a patch or a snapshot. -/
def Act.isAccepted (e : Engine) : Act → Bool
  | .step id => (e.jobs.get? id).all fun job => !e.rejects job
  | _ => true

/-- Whether there is a time after all patches of a document. -/
def isTimely (e : Engine) (doc : DocId) : Bool :=
  (e.docs.get? doc).all fun d => d.versions.all fun id => id.time < 0xffffffffffffffff

/-- Nobody writes but the document, and what it writes is accepted. -/
structure Undisturbed (doc : DocId) (e : Engine) (a : Act) : Prop where
  own : a.isOwn = true ∨ ∃ backend posts, a = .serve backend posts ∧ e.Serves backend posts
  accepted : a.isAccepted e = true
  timely : e.isTimely doc = true

/-- A run in which nothing disturbs a document. -/
def Solitary (doc : DocId) (e : Engine) : List Act → Prop
  | [] => True
  | a :: acts => Undisturbed doc e a ∧ Solitary doc (e.act a) acts

/-- Whether nothing disturbs a document and the data layer does nothing of its own accord. -/
def isSolitary (doc : DocId) (e : Engine) : List Act → Bool
  | [] => true
  | a :: acts => a.isOwn && a.isAccepted e && e.isTimely doc && isSolitary doc (e.act a) acts

theorem solitary_of_isSolitary {doc : DocId} {e : Engine} {acts : List Act}
    (h : e.isSolitary doc acts = true) : e.Solitary doc acts := by
  induction acts generalizing e with
  | nil => trivial
  | cons a acts ih =>
    simp only [isSolitary, Bool.and_eq_true] at h
    obtain ⟨⟨⟨hown, haccepted⟩, htimely⟩, hrest⟩ := h
    exact ⟨⟨.inl hown, haccepted, htimely⟩, ih hrest⟩

theorem solitary_concat {doc : DocId} {e : Engine} {acts : List Act} {a : Act} :
    e.Solitary doc (acts ++ [a]) ↔ e.Solitary doc acts ∧ Undisturbed doc (e.run acts) a := by
  induction acts generalizing e with
  | nil => simp [Solitary]
  | cons b acts ih =>
    rw [List.cons_append, Solitary, Solitary, ih, and_assoc]
    rfl

/-! ## Documents and their commits -/

/-- How far the commit is that a job works on. -/
def phaseAt (e : Engine) (j : JobId) : Option CommitPhase := (e.jobs.get? j).bind Job.phase?

/-- An engine with one document, its commits, and no rows but its own. -/
structure HostsAlone (doc : DocId) (settings : Settings) (d : Document) (e : Engine) : Prop where
  sound : e.Sound
  settings : d.settings = settings
  hosts : e.Hosts doc d e.nextJob
  fits : ∀ {j job}, e.jobs.get? j = some job → job.Fits doc d
  takesTurns : d.TakesTurns e.phaseAt

variable {doc : DocId} {settings : Settings} {d d' : Document} {start : JobId} {e e' : Engine}

theorem phaseAt_of_get? {j : JobId} {job : Job} (h : e.jobs.get? j = some job) :
    e.phaseAt j = job.phase? := by
  rw [phaseAt, h, Option.bind_some]

namespace Hosts

theorem newTable (h : e.Hosts doc d start) (hn : e.tables.Numbered) (schema : Schema)
    (query : Query)
    (settings : Settings) : (e.newTable schema query settings).2.Hosts doc d start := by
  have hsort {id : TableId} {schema' : Schema}
      (hold : ∃ t, e.tables.get? id = some t ∧ t.schema = schema') :
      ∃ t, (e.newTable schema query settings).2.tables.get? id = some t ∧ t.schema = schema' := by
    obtain ⟨t, ht, hschema⟩ := hold
    have hne : id ≠ e.tables.size := fun hid => by simp [hid, hn.get?_size] at ht
    exact ⟨t, by simp [Engine.newTable, SortedMap.get?_insert, hne, ht], hschema⟩
  exact
    { h with
      tables := by
        intro id t ht
        simp only [Engine.newTable, SortedMap.get?_insert] at ht
        split at ht
        · cases ht
          exact Table.bears_new schema query settings
        · exact h.tables ht
      patches := hsort h.patches
      strings := hsort h.strings }

theorem closeDocuments (h : e.Hosts doc d start) (registry : Registry) (docs : List DocId) :
    (Engine.closeDocuments { e with registry } docs).Hosts doc d start := by
  have hregistry : ({ e with registry } : Engine).Hosts doc d start :=
    h.of_same rfl rfl rfl rfl rfl rfl
  revert hregistry
  generalize ({ e with registry } : Engine) = e₁
  unfold Engine.closeDocuments
  intro h₁
  induction docs generalizing e₁ with
  | nil => exact h₁
  | cons id docs ih => exact ih _ (h₁.closeDocument id)

/-- The rows of the data layer are owned. -/
theorem database (h : e.Hosts doc d start) {db : Database} {plan : FaultPlan}
    (hbackend : e.backend = .database db plan) : db.Bears d.Owns := by
  have hbears := h.backend
  rwa [hbackend] at hbears

theorem serve (h : e.Hosts doc d start) {backend : Backend} {posts : List Post}
    (hserves : e.Serves backend posts) :
    (({ e with backend } : Engine).deliver posts).Hosts doc d start := by
  have hnow {db : Database} {plan : FaultPlan} (hbears : db.Bears d.Owns) :
      ({ e with backend := .database db plan } : Engine).Hosts doc d start :=
    { h with backend := hbears }
  cases hserves with
  | aside hbackend htables hheld =>
    exact hnow ((h.database hbackend).of_same htables fun w hw => hheld ▸ hw)
  | release hbackend =>
    obtain ⟨hbears, hposts⟩ := (h.database hbackend).release d.rowTrait_owns e.channels.alive
    exact (hnow hbears).deliver hposts
  | disconnect hbackend =>
    obtain ⟨hbears, hposts⟩ := (h.database hbackend).disconnect
    exact (hnow hbears).deliver hposts

/-- Nobody has a number yet that has not been given. -/
theorem settled (h : e.Hosts doc d start) (hdocs : e'.docs = e.docs)
    (hbackend : e'.backend = e.backend) (hchannels : e'.channels = e.channels)
    (hfeeds : e'.feeds = e.feeds) (htables : e'.tables = e.tables) (hsound : e'.Sound) :
    e'.Hosts doc d e'.nextJob := by
  have hsame : ({ e' with jobs := e.jobs } : Engine).Hosts doc d start :=
    h.of_same hdocs hbackend hchannels hfeeds htables rfl
  exact
    { hsame with
      helpers := fun {j job} hj hjob => absurd (hsound.jobs j job hjob).1 (Nat.not_lt.mpr hj) }

/-- An act that is no step of a job and starts no call. -/
theorem act (h : e.Hosts doc d start) (hsound : e.Sound) {a : Act} (ha : Undisturbed doc e a)
    (hstep : ∀ id, a ≠ .step id) (hstart : ∀ job, a ≠ .start job) :
    (e.act a).Hosts doc d start := by
  cases a with
  | step id => exact absurd rfl (hstep id)
  | start job => exact absurd rfl (hstart job)
  | newFeed query timeout options => exact h.withFeed _ (Feed.bears_new query timeout options)
  | subscribeFeed id =>
    simp only [Engine.act, subscribeFeed]
    split
    · exact h
    · next f hf =>
      have hf := h.feeds hf
      exact h.withFeed id (hf.withEvents hf.events.subscribe)
  | drainFeed id sub =>
    simp only [Engine.act, drainFeed]
    split
    · exact h
    · next f hf =>
      have hf := h.feeds hf
      exact h.withFeed id (hf.withEvents (hf.events.reads (f.events.reads_drain sub)))
  | closeFeed id => exact h.closeFeed id
  | newTable schema query settings => exact h.newTable hsound.tables schema query settings
  | subscribeTable id => exact h.subscribeTable id
  | drainTable id sub =>
    simp only [Engine.act, drainTable]
    split
    · exact h
    · next ht => exact h.withTable ht (Table.keeps_of_same rfl rfl)
  | closeTable id => exact h.closeTable id
  | subscribeDocument id =>
    simp only [Engine.act, subscribeDocument]
    split
    · exact h
    · next hd => exact h.withDoc hd ((h.continues hd).2.honest.continues _ _ _ _ _)
  | drainDocument id sub =>
    simp only [Engine.act, drainDocument]
    split
    · exact h
    · next hd => exact h.withDoc hd ((h.continues hd).2.honest.continues _ _ _ _ _)
  | closeDocument id => exact h.closeDocument id
  | callPath path message =>
    simp only [Engine.act, callPath]
    split
    · next he' =>
      split at he'
      · cases he'
      · cases he'
        exact h.closeDocuments _ _
    · exact h
  | dispatch text => exact h.closeDocuments _ _
  | closePath path => exact h.closeDocuments _ _
  | closeTree dir => exact h.closeDocuments _ _
  | serve backend posts =>
    rcases ha.own with hown | ⟨backend', posts', heq, hserves⟩
    · cases hown
    · cases heq
      exact h.serve hserves
  | newDocument | openFromTable =>
    rcases ha.own with hown | ⟨backend', posts', heq, -⟩
    · cases hown
    · cases heq
  | resume | advance | addHook | setClients | setDisk | takeReports =>
    exact h.of_same rfl rfl rfl rfl rfl rfl

end Hosts

/-- A call that writes no row and opens no document fits, and it is no commit yet. -/
theorem fits_of_isOwn {job : Job} (hcall : job.isCall = true) (hown : (Act.start job).isOwn = true)
    (doc : DocId) (d : Document) : job.Fits doc d ∧ job.phase? = none := by
  cases job with
  | write | session => cases hown
  | connectFeed _ next | connect _ next | awaitRows _ _ _ next | awaitConnected _ _ next =>
    cases next with
    | call => exact ⟨by simp [Job.Fits, FeedReturn.opensNone, ConnectReturn.opensNone], rfl⟩
    | _ => cases hcall
  | awaitReady | edit | save | load | reconnect => exact ⟨trivial, rfl⟩
  | _ => cases hcall

/-- The numbers that have been given are not given again. -/
theorem jobs_of_deeds {job : Job} (h : Deeds (job.scope e) (e.hear job) e') (j : JobId)
    (hj : j < e.nextJob) : e'.jobs.get? j = e.jobs.get? j := by
  obtain ⟨-, -, -, hjobs, hnext, -⟩ := e.hear_frame job
  rw [h.grows.jobs j (hnext.symm ▸ hj), hjobs]

/-- Only steps and calls change the jobs that there are. -/
theorem jobs_act {a : Act} (hstep : ∀ id, a ≠ .step id) (hstart : ∀ job, a ≠ .start job) (j : JobId)
    (hj : j < e.nextJob) : (e.act a).jobs.get? j = e.jobs.get? j := by
  have hlisten : (e.listen a).jobs = e.jobs ∧ (e.listen a).nextJob = e.nextJob := by
    cases a with
    | step id => exact absurd rfl (hstep id)
    | drainDocument id sub =>
      simp only [listen, drainDocument]
      split <;> exact ⟨rfl, rfl⟩
    | _ => exact ⟨rfl, rfl⟩
  have hwork := worked_act e a
  generalize e.act a = e' at hwork
  cases hwork with
  | step id => exact absurd rfl (hstep id)
  | start => exact absurd rfl (hstart _)
  | deeds hdeeds => rw [hdeeds.grows.jobs j (hlisten.2.symm ▸ hj), hlisten.1]

namespace HostsAlone

variable (h : e.HostsAlone doc settings d)
include h

/-- There is no job yet with a number that has not been given. -/
theorem phaseAt_of_le {j : JobId} (hj : e.nextJob ≤ j) : e.phaseAt j = none := by
  cases hjob : e.jobs.get? j with
  | none => rw [phaseAt, hjob, Option.bind_none]
  | some job => exact absurd (h.sound.jobs j job hjob).1 (Nat.not_lt.mpr hj)

section Kept

variable (hhosts : e'.Hosts doc d' e.nextJob)
  (hkept : ∀ j, j < e.nextJob → e'.jobs.get? j = e.jobs.get? j)
include hhosts hkept

/-- New jobs are helpers, and helpers work on no commit. -/
theorem phaseAt_kept : e'.phaseAt = e.phaseAt := by
  funext j
  by_cases hj : j < e.nextJob
  · rw [phaseAt, phaseAt, hkept j hj]
  · have hle := Nat.not_lt.mp hj
    rw [h.phaseAt_of_le hle]
    cases hjob : e'.jobs.get? j with
    | none => rw [phaseAt, hjob, Option.bind_none]
    | some job => rw [phaseAt_of_get? hjob, Job.phase?_of_isHelper (hhosts.helpers hle hjob)]

theorem fits_kept (hd : d.Advances d') {j : JobId} {job : Job} (hjob : e'.jobs.get? j = some job) :
    job.Fits doc d' := by
  by_cases hj : j < e.nextJob
  · rw [hkept j hj] at hjob
    exact (h.fits hjob).mono hd
  · exact Job.fits_of_isHelper (hhosts.helpers (Nat.not_lt.mp hj) hjob) doc d'

end Kept

/-! ### Steps of jobs -/

/-- One job is replaced or ends, and the commit that it works on moves on. -/
theorem moves {id : JobId} {e₁ : Engine} (next : Option Job)
    (hpass : d.Passes (e.phaseAt id) d' (next.bind Job.phase?)) (hhosts : e₁.Hosts doc d' e.nextJob)
    (hkept : ∀ j, j < e.nextJob → e₁.jobs.get? j = e.jobs.get? j)
    (hjobs : ∀ j, e'.jobs.get? j = if j = id then next else e₁.jobs.get? j)
    (hnext : ∀ job, next = some job → job.Fits doc d') (hsound : e'.Sound)
    (hhosts' : e'.Hosts doc d' e'.nextJob) : e'.HostsAlone doc settings d' ∧
      ∀ p, e.phaseAt id = some p → e'.phaseAt id = none →
        d'.replica.history.sinceSnapshot < d'.interval := by
  obtain ⟨htakesTurns, hadvances⟩ := h.takesTurns.passes rfl hpass
  have hphases : e'.phaseAt = Function.update e.phaseAt id (next.bind Job.phase?) := by
    rw [← h.phaseAt_kept hhosts hkept]
    funext j
    by_cases hj : j = id
    · rw [phaseAt, hjobs, if_pos hj, hj, Function.update_self]
    · rw [phaseAt, hjobs, if_neg hj, Function.update_of_ne hj, phaseAt]
  refine ⟨⟨hsound, hadvances.settings.trans h.settings, hhosts', fun {j job} hjob => ?_, ?_⟩, ?_⟩
  · rw [hjobs] at hjob
    split at hjob
    · exact hnext job hjob
    · exact h.fits_kept hhosts hkept hadvances hjob
  · rw [hphases]
    exact htakesTurns
  · intro p hp hends
    rw [hphases, Function.update_self] at hends
    rw [hp, hends] at hpass
    exact h.takesTurns.since_lt_of_ends hp hpass

/-- A snapshot that is due is one of a patch that there is. -/
theorem due {job : Job} {j : JobId} (hjob : e.jobs.get? j = some job) (ticket : Nat) (id : PatchId)
    (text : String) (hphase : job.phase? = some (.snapshot ticket id text)) :
    id ∈ d.versions ∧ text = d.textAt id := by
  obtain ⟨hlatest, htext⟩ := h.takesTurns.due ((phaseAt_of_get? hjob).trans hphase)
  exact ⟨History.mem_ids_of_latest? hlatest, htext⟩

/-- What a look at a job of a solitary run comes to. -/
theorem look {id : JobId} {job : Job} (hjob : e.jobs.get? id = some job)
    (ha : Undisturbed doc e (.step id)) :
    (e.look job).MovesCommit doc d e.nextJob (e.phaseAt id) := by
  have hrejects : e.rejects job = false := by
    have haccepted := ha.accepted
    simpa [Act.isAccepted, hjob] using haccepted
  have htimes (d₁ : Document) (hd : e.docs.get? doc = some d₁) (id : PatchId)
      (hid : id ∈ d₁.versions) :
      id.time < 0xffffffffffffffff := by
    have htimely := ha.timely
    simp only [isTimely, hd, Option.all_some, List.all_eq_true, decide_eq_true_eq] at htimely
    exact htimely id hid
  rw [phaseAt_of_get? hjob]
  exact h.hosts.look (h.fits hjob) hrejects htimes (h.due hjob)

/-- Nothing but the queue changes. -/
theorem dequeue (id : JobId) : (e.dequeue id).HostsAlone doc settings d where
  sound := h.sound.of_jobs rfl rfl rfl h.sound.jobs
  settings := h.settings
  hosts := h.hosts.of_same rfl rfl rfl rfl rfl rfl
  fits := h.fits
  takesTurns := h.takesTurns

/-- **A step of a job moves one commit on, or none.** If it ends one, few patches have followed the
last snapshot. -/
theorem step {id : JobId} (ha : Undisturbed doc e (.step id)) :
    ∃ d', (e.stepJob id).HostsAlone doc settings d' ∧
      ∀ p, e.phaseAt id = some p → (e.stepJob id).phaseAt id = none →
        d'.replica.history.sinceSnapshot < d'.interval := by
  have hsound : (e.stepJob id).Sound := h.sound.stepped (stepped_stepJob e id)
  have hstep := stepped_stepJob e id
  generalize e.stepJob id = e' at hstep hsound
  have hstays : ∀ p, e.phaseAt id = some p → (e.dequeue id).phaseAt id = none →
      d.replica.history.sinceSnapshot < d.interval := by
    intro p hp hends
    have hsame : (e.dequeue id).phaseAt id = some p := hp
    simp [hsame] at hends
  cases hstep with
  | absent hjob => exact ⟨d, h.dequeue id, hstays⟩
  | wait hjob hlook => exact ⟨d, h.dequeue id, hstays⟩
  | @goOn job job' e₁ hjob hlook =>
    have hmoves := h.look hjob ha
    rw [hlook] at hmoves
    obtain ⟨d', hpass, hhosts, hfits⟩ := hmoves
    refine ⟨d', h.moves (some job') hpass hhosts (jobs_of_deeds (h.sound.goOn hjob hlook).1)
      (fun j => SortedMap.get?_insert ..) (fun job'' heq => ?_) hsound
      (hhosts.settled rfl rfl rfl rfl rfl hsound)⟩
    cases heq
    exact hfits
  | @yield job job' hjob hlook =>
    have hmoves := h.look hjob ha
    rw [hlook] at hmoves
    obtain ⟨hnone, feed, rfl⟩ := hmoves
    have hpass : d.Passes (e.phaseAt id) d ((some (Job.flush feed true)).bind Job.phase?) := by
      rw [hnone]
      exact .stay none (Document.continues_refl h.hosts.honest)
    refine ⟨d, h.moves (some (.flush feed true)) hpass h.hosts (fun _ _ => rfl)
      (fun j => SortedMap.get?_insert ..)
      (fun job'' heq => ?_) hsound (h.hosts.settled rfl rfl rfl rfl rfl hsound)⟩
    cases heq
    trivial
  | @finish job e₁ hjob hlook =>
    have hmoves := h.look hjob ha
    rw [hlook] at hmoves
    obtain ⟨d', hpass, hhosts⟩ := hmoves
    exact ⟨d', h.moves none hpass hhosts (jobs_of_deeds (h.sound.finish hjob hlook))
      (fun j => SortedMap.get?_erase ..) (fun job'' heq => by cases heq) hsound
      (hhosts.settled rfl rfl rfl rfl rfl hsound)⟩

/-! ### Other acts -/

/-- A call is started. -/
theorem spawn {job : Job} (hcall : job.isCall = true) (hown : (Act.start job).isOwn = true) :
    (e.spawn job).HostsAlone doc settings d := by
  obtain ⟨hfits, hphase⟩ := fits_of_isOwn hcall hown doc d
  have hsound : (e.spawn job).Sound := h.sound.spawn (Job.grounded_of_isCall hcall e)
  have hphases : (e.spawn job).phaseAt = e.phaseAt := by
    funext j
    simp only [phaseAt, Engine.spawn, SortedMap.get?_insert]
    split
    · next hj => rw [Option.bind_some, hphase, ← phaseAt, h.phaseAt_of_le (Nat.le_of_eq hj.symm)]
    · rfl
  refine ⟨hsound, h.settings, h.hosts.settled rfl rfl rfl rfl rfl hsound,
    fun {j job'} hjob' => ?_, ?_⟩
  · simp only [Engine.spawn, SortedMap.get?_insert] at hjob'
    split at hjob'
    · cases hjob'
      exact hfits
    · exact h.fits hjob'
  · rw [hphases]
    exact h.takesTurns

/-- **An act that is no step of a job leaves the commits as they are.** -/
theorem act {a : Act} (ha : Undisturbed doc e a) (hstep : ∀ id, a ≠ .step id) :
    (e.act a).HostsAlone doc settings d := by
  by_cases hstart : ∃ job, a = .start job
  · obtain ⟨job, rfl⟩ := hstart
    rcases ha.own with hown | ⟨backend, posts, heq, -⟩
    · by_cases hcall : job.isCall = true
      · rw [Engine.act, if_pos hcall]
        exact h.spawn hcall hown
      · rw [Engine.act, if_neg hcall]
        exact h
    · cases heq
  · have hstart' (job : Job) : a ≠ .start job := fun heq => hstart ⟨job, heq⟩
    have hsound : (e.act a).Sound := h.sound.worked (worked_act e a)
    have hhosts := h.hosts.act h.sound ha hstep hstart'
    have hkept (j : JobId) (hj : j < e.nextJob) : (e.act a).jobs.get? j = e.jobs.get? j :=
      jobs_act hstep hstart' j hj
    refine ⟨hsound, h.settings, hhosts.settled rfl rfl rfl rfl rfl hsound, fun hjob => ?_, ?_⟩
    · exact h.fits_kept hhosts hkept (Document.continues_refl h.hosts.honest).toAdvances hjob
    · rw [h.phaseAt_kept hhosts hkept]
      exact h.takesTurns

end HostsAlone

/-! ## Runs -/

/-- An engine with no document yet, on a data layer without rows. -/
def blank (journal : Option Journal) (plan : FaultPlan) (clients : SortedMap ClientId Client)
    (disk : Disk) : Engine :=
  { new (.database { Database.forDocuments with journal } plan) with clients, disk }

theorem sound_blank (journal : Option Journal) (plan : FaultPlan)
    (clients : SortedMap ClientId Client) (disk : Disk) : (blank journal plan clients disk).Sound :=
  (sound_new (.script .new)).of_jobs rfl rfl rfl (by simp [blank, new])

/-- A document is made in an engine that has none. -/
theorem hostsAlone_newDocument {journal : Option Journal} {plan : FaultPlan}
    {clients : SortedMap ClientId Client} {disk : Disk} {client : ClientId} {kind : Kind}
    {o : DocumentOptions}
    (h : (blank journal plan clients disk).newDocument client kind o = .ok (doc, e)) :
    ∃ d, e.HostsAlone doc o.settings d := by
  have hsound : e.Sound := by
    have hworked := (sound_blank journal plan clients disk).worked
      (worked_act _ (.newDocument client kind o))
    simpa only [Engine.act, h] using hworked
  obtain ⟨query, query', stringId, e₁, e₂, rfl, rfl, rfl, rfl⟩ := newDocument_eq_ok h
  -- The two tables of the document and the job that sets it up are all there is.
  have hjob {j : JobId} {job : Job}
      (hj : (SortedMap.empty.insert 0 (Job.setUp 0)).get? j = some job) :
      job = .setUp 0 := by
    rw [SortedMap.get?_insert] at hj
    split at hj
    · exact (Option.some.inj hj).symm
    · cases hj
  refine ⟨.new kind o stringId client 0 1, hsound, rfl, ?_, fun {j job} hj => ?_, ?_⟩
  · exact
      { honest := Document.honest_new ..
        here := ⟨_, rfl, Document.continues_refl (Document.honest_new ..)⟩
        alone := by
          intro id d' hd'
          simp only [Engine.spawn, SortedMap.get?_insert] at hd'
          split at hd'
          · next hid => exact hid
          · cases hd'
        backend := Database.bears_forDocuments journal
        channels := fun sink c hc => by cases hc
        feeds := fun hf => by cases hf
        tables := by
          intro id t ht
          simp only [Engine.spawn, Engine.newTable, SortedMap.get?_insert] at ht
          split at ht
          · cases ht
            exact Table.bears_new _ _ _
          · split at ht
            · cases ht
              exact Table.bears_new _ _ _
            · cases ht
        patches := ⟨_, rfl, rfl⟩
        strings := ⟨_, rfl, rfl⟩
        helpers := fun {j job} hj hjob => absurd (hsound.jobs j job hjob).1 (Nat.not_lt.mpr hj) }
  · rw [hjob hj]
    trivial
  · refine Document.takesTurns_new (fun j => ?_) kind o stringId client 0 1
    rw [phaseAt, Option.bind_eq_none_iff]
    intro job hj
    rw [hjob hj]
    rfl

/-- **A solitary run leaves an engine with one document and its commits.** -/
theorem hostsAlone_run {acts : List Act} (h : e.HostsAlone doc settings d)
    (hacts : e.Solitary doc acts) :
    ∃ d', (e.run acts).HostsAlone doc settings d' := by
  induction acts generalizing e d with
  | nil => exact ⟨d, h⟩
  | cons a acts ih =>
    obtain ⟨ha, hrest⟩ := hacts
    by_cases hstep : ∃ id, a = .step id
    · obtain ⟨id, rfl⟩ := hstep
      obtain ⟨d', hd', -⟩ := h.step ha
      exact ih hd' hrest
    · exact ih (h.act ha fun id heq => hstep ⟨id, heq⟩) hrest

/-- What holds of the document that there is. -/
theorem HostsAlone.present (h : e.HostsAlone doc settings d) : ∃ d', e.docs.get? doc = some d' ∧
    d.Continues d' ∧ e.HostsAlone doc settings d' := by
  obtain ⟨d', hd', hcontinues⟩ := h.hosts.here
  exact ⟨d', hd', hcontinues, h.sound, hcontinues.settings.trans h.settings,
    h.hosts.rebase_self hd',
    fun hjob => (h.fits hjob).mono hcontinues.toAdvances, h.takesTurns.continues hcontinues⟩

/-- The snapshots of patches that are stored are the texts of the patches up to them. -/
theorem HostsAlone.stored (h : e.HostsAlone doc settings d) {db : Database} {plan : FaultPlan}
    (hbackend : e.backend = .database db plan) {row : Record}
    (hrow : row ∈ db.rows Schema.patches.name) : d.Owns row := by
  unfold Database.rows at hrow
  split at hrow
  · next t ht =>
    obtain ⟨key, hkey⟩ := SortedMap.mem_values_iff.mp hrow
    exact ((h.hosts.database hbackend).rows ht hkey).trait d.rowTrait_owns
  · cases hrow

/-- **Snapshots are true and few patches follow the last one.** In every run in which nobody writes
but one document, and what it writes is accepted, every snapshot in the history and in the data
layer is the text of the patches up to it. The patches since the last snapshot are those newer than
all snapshots, and whenever a commit has ended, and while none is writing, there are fewer than the
interval. -/
theorem snapshots_run {journal : Option Journal} {plan : FaultPlan}
    {clients : SortedMap ClientId Client} {disk : Disk} {client : ClientId} {kind : Kind}
    {o : DocumentOptions} {acts : List Act}
    (hnew : (blank journal plan clients disk).newDocument client kind o = .ok (doc, e))
    (hacts : e.Solitary doc acts) :
    ∃ d, (e.run acts).docs.get? doc = some d ∧
      (∀ id text, d.replica.history.snapshot? id = some text →
        text = d.format.render
          (d.format.fold d.format.empty
            (History.patchesOf (d.replica.history.upTo (some id))))) ∧
      d.replica.history.sinceSnapshot = d.replica.history.uncovered.length ∧
      ((∀ j p, (e.run acts).phaseAt j = some p → p.isLogging = false) →
        d.replica.history.sinceSnapshot < max o.settings.snapshotInterval.toNat 1) ∧
      (∀ before j p, acts = before ++ [.step j] → (e.run before).phaseAt j = some p →
        (e.run acts).phaseAt j = none →
        d.replica.history.sinceSnapshot < max o.settings.snapshotInterval.toNat 1) ∧
      ∀ db plan', (e.run acts).backend = .database db plan' →
        ∀ row ∈ db.rows Schema.patches.name, d.Owns row := by
  obtain ⟨d₀, h₀⟩ := hostsAlone_newDocument hnew
  obtain ⟨d₁, h₁⟩ := hostsAlone_run h₀ hacts
  obtain ⟨d, hd, -, h⟩ := h₁.present
  have hinterval : d.interval = max o.settings.snapshotInterval.toNat 1 := by
    rw [Document.interval, h.settings]
  refine ⟨d, hd, h.takesTurns.honest.faithful, History.sinceSnapshot_eq _, fun hidle => ?_, ?_,
    fun db plan' hbackend row hrow => h.stored hbackend hrow⟩
  · rw [← hinterval]
    exact h.takesTurns.since_lt hidle
  · rintro before j p rfl hbefore hends
    obtain ⟨hrun, hlast⟩ := solitary_concat.mp hacts
    obtain ⟨d₂, h₂⟩ := hostsAlone_run h₀ hrun
    obtain ⟨d₃, h₃, hfew⟩ := h₂.step hlast
    rw [run_concat] at hd hends
    -- The document that there is goes on from the one that the step has left.
    obtain ⟨-, hcontinues⟩ := h₃.hosts.continues hd
    rw [← hinterval, hcontinues.toAdvances.interval]
    exact Nat.lt_of_le_of_lt hcontinues.since (hfew p hbefore hends)

/-- An engine with one text that was just made. Every second patch is followed by a snapshot. -/
def withNewText : Engine :=
  let options : DocumentOptions := ⟨"a.txt", ⟨30000, 15000, 2, 0⟩, [], false, some "s"⟩
  let start := blank none .none (.ofList [(0, ⟨"u", "p", 5⟩)]) .empty
  match start.newDocument 0 .text options with
  | .ok (_, e) => e
  | .error _ => start

/-- The text becomes ready. Then three edits are started at once and wait for each other. The last
step ends the third one. -/
def queuedEdits : List Act :=
  [0, 0, 0, 0, 1, 1, 0, 0, 0, 0, 2, 3, 4, 4, 0, 0, 0, 0, 5, 6, 1, 1, 7, 0, 0, 8, 8, 9, 9, 9].map
    .step ++
  .resume :: [2, 5, 3, 3].map .step ++
  [.start (.edit 0 (.append "a") 0), .start (.edit 0 (.append "b") 1),
    .start (.edit 0 (.append "c") 2)] ++
  [10, 10, 10, 10, 10, 11, 11, 11, 12, 12, 12, 8, 8, 4, 4, 13, 6, 6, 10, 11, 11, 11, 8, 8, 4, 4, 14,
    6, 6, 11, 11, 11, 8, 8, 4, 4, 15, 6, 6, 11, 11, 11, 9, 9, 1, 1, 16, 3, 3, 11, 12, 12, 12, 8, 8,
    4, 4, 17, 6, 6].map .step

theorem snapshots_run_queuedEdits :
    let acts := queuedEdits ++ [.step 12]
    withNewText.isSolitary 0 acts = true ∧
      ((withNewText.run queuedEdits).phaseAt 12).isSome = true ∧
      ((withNewText.run acts).phaseAt 12).isNone = true ∧
      ∃ d, (withNewText.run acts).docs.get? 0 = some d ∧
        (∃ id, d.replica.history.snapshot? id = some "ab" ∧ "ab" = d.textAt id) ∧
        d.replica.history.sinceSnapshot = 1 ∧ d.replica.history.uncovered.length = 1 ∧
        d.replica.history.sinceSnapshot < 2 := by
  intro acts
  have hnew : (blank none .none (.ofList [(0, ⟨"u", "p", 5⟩)]) .empty).newDocument 0 .text
      ⟨"a.txt", ⟨30000, 15000, 2, 0⟩, [], false, some "s"⟩ = .ok (0, withNewText) := rfl
  -- All that has to be evaluated stands in one statement, so that the run is evaluated once.
  obtain ⟨hsolitary, hbefore, hends, hseen⟩ : withNewText.isSolitary 0 acts = true ∧
      ((withNewText.run queuedEdits).phaseAt 12).isSome = true ∧
      ((withNewText.run acts).phaseAt 12).isNone = true ∧
      ((withNewText.run acts).docs.get? 0).any (fun d => d.replica.history.sinceSnapshot == 1 &&
        d.versions.any fun id => d.replica.history.snapshot? id == some "ab") = true := by
    decide +kernel
  obtain ⟨p, hp⟩ := Option.isSome_iff_exists.mp hbefore
  obtain ⟨d, hd, htrue, hsince, -, hfew, -⟩ := snapshots_run hnew (solitary_of_isSolitary hsolitary)
  simp only [hd, Option.any_some, Bool.and_eq_true, beq_iff_eq, List.any_eq_true] at hseen
  obtain ⟨hone, id, -, hid⟩ := hseen
  exact ⟨hsolitary, hbefore, hends, d, hd, ⟨id, hid, htrue id "ab" hid⟩, hone,
    hsince.symm.trans hone, hfew queuedEdits 12 p rfl hp (Option.isNone_iff_eq_none.mp hends)⟩

end Engine

end LiveDocs
