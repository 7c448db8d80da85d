import LiveDocs.Proofs.Engine.Runs

/-!
# The documents of the registry

The registry holds exactly the live ones among the documents that were opened through it, each under
its own path, whenever all jobs wait (`Engine.exact_run`). Documents leave it in several ways: they
are closed by path, or they fail or are closed and the job that watches them clears their entry,
which may by then belong to another document at the same path.

The invariant (`Engine.Keeps`) says of every watching job that it gets the events of its document,
and that it stands in the queue once the document is closed; of every entry that its document is
watched; and of every document that it is closed or has its entry. While a document enters or leaves
the registry the last two do not hold for it, so the invariant has two lists of exceptions.

## Main definitions

* `Engine.Watches`: a job watches a document.
* `Engine.Keeps`: the invariant.
* `Engine.madeIn`: the documents that were made from outside in a run.
* `Engine.Exact`: the registry holds exactly the live documents.

## Main results

* `Engine.Keeps.deeds`: what everybody else may do keeps the invariant.
* `Engine.Keeps.openRow`, `Engine.Keeps.expel`, `Engine.Keeps.endWatch`: the ways into the registry
  and out of it.
* `Engine.exact_run`: the registry holds exactly the live documents.
-/

namespace LiveDocs

theorem DocumentOptions.path_ofRecord {kind : Kind} {path : String} {r : Record}
    {o : DocumentOptions} (h : ofRecord kind path r = .ok o) : o.path = path := by
  simp only [ofRecord] at h
  split at h
  · cases h
    rfl
  · cases h

/-- A watching job is told by what wakes it. -/
theorem Job.eq_watch_of_signals {job : Job} {doc : DocId} {table : TableId}
    {docEvents tableEvents : Nat}
    (h : job.signals = [.documentEvent doc docEvents, .tableEvent table tableEvents]) :
    job = .watch doc table docEvents tableEvents := by
  cases job <;> simp_all [signals]

namespace Engine

variable {σ : Scope} {e e' : Engine} {direct bare loose : List DocId}

/-- A job watches a document with a subscription. -/
def Watches (e : Engine) (j : JobId) (doc : DocId) (sub : Nat) : Prop :=
  ∃ table tableEvents, e.jobs.get? j = some (.watch doc table sub tableEvents)

/-- What the registry, the jobs that watch its documents and the documents have to do with each
other. Documents in `direct` were made from outside, those in `bare` are not watched yet, and those
in `loose` have no entry yet or no longer. -/
structure Keeps (direct bare loose : List DocId) (e : Engine) : Prop where
  known : ∀ id ∈ direct, e.docs.contains id = true
  watched : ∀ j doc sub, e.Watches j doc sub → doc ∉ direct ∧ ∃ d, e.docs.get? doc = some d ∧
    Document.Subscribed d.state d.events sub ∧ (d.state = .closed → j ∈ e.queue)
  entries : ∀ path id, e.registry.docs.get? path = some id →
    (∃ d, e.docs.get? id = some d ∧ d.path = path) ∧ (id ∈ bare ∨ ∃ j sub, e.Watches j id sub)
  complete : ∀ id d, e.docs.get? id = some d → id ∈ direct ∨ id ∈ loose ∨ d.state = .closed ∨
    e.registry.docs.get? d.path = some id

/-! ## What everybody else may do -/

theorem Sound.get?_nextJob (hs : Sound e) : e.jobs.get? e.nextJob = none := by
  cases hjob : e.jobs.get? e.nextJob with
  | none => rfl
  | some job => exact absurd (hs.jobs _ _ hjob).1 (Nat.lt_irrefl _)

/-- A job that watches nothing can be started without notice. -/
theorem watches_spawn (hs : Sound e) {job : Job} (hjob : job.isWatch = false) {j : JobId}
    {doc : DocId} {sub : Nat} : (e.spawn job).Watches j doc sub ↔ e.Watches j doc sub := by
  by_cases hj : j = e.nextJob
  · have hnone := hs.get?_nextJob
    have hnot (table : TableId) (tableEvents : Nat) : job ≠ .watch doc table sub tableEvents := by
      rintro rfl
      cases hjob
    simp [Watches, spawn, hj, hnone, hnot]
  · simp [Watches, spawn, hj]

/-- Who may not change the registry starts no watching job. -/
theorem Stirs.watches (h : Stirs σ e e') (hs : Sound e) (hadmits : σ.admits = false) {j : JobId}
    {doc : DocId} {sub : Nat} : e'.Watches j doc sub ↔ e.Watches j doc sub := by
  induction h with
  | refl => exact .rfl
  | tail hstirs hstir ih =>
    rw [← ih]
    cases hstir with
    | aside _ _ _ _ jobs => simp only [Watches, jobs]
    | @spawn job hstarts =>
      refine watches_spawn (hs.stirs hstirs) (Bool.eq_false_iff.mpr fun hwatch => ?_)
      have hmay := hstarts.watch hwatch
      simp [hadmits] at hmay
    | feed | table | newTable => exact .rfl

theorem Deeds.registry (h : Deeds σ e e') (hadmits : σ.admits = false) :
    e'.registry.docs = e.registry.docs := by
  induction h with
  | refl => rfl
  | tail _ hdeed ih =>
    rw [← ih]
    cases hdeed with
    | stir hstir => exact Stirs.registry (.single hstir)
    | turn => rfl
    | close _ _ _ hstirs => exact hstirs.registry
    | make hmakes => simp [hadmits] at hmakes
    | register _ hregisters => simp [hadmits] at hregisters

namespace Keeps

/-- A watching job gets the events of its document, and is in the queue if the document is
closed. -/
theorem subscribed (h : Keeps direct bare loose e) {j : JobId} {doc : DocId} {sub : Nat}
    (hj : e.Watches j doc sub) {d : Document} (hd : e.docs.get? doc = some d) :
    Document.Subscribed d.state d.events sub ∧ (d.state = .closed → j ∈ e.queue) := by
  obtain ⟨-, d', hd', hsubscribed⟩ := h.watched j doc sub hj
  rw [hd, Option.some.injEq] at hd'
  exact hd' ▸ hsubscribed

/-- Documents, the registry and the jobs that watch stay what they are. -/
theorem of_same (h : Keeps direct bare loose e) (hdocs : e'.docs = e.docs)
    (hregistry : e'.registry.docs = e.registry.docs)
    (hwatches : ∀ j doc sub, e'.Watches j doc sub ↔ e.Watches j doc sub)
    (hqueue : ∀ j doc sub d, e.Watches j doc sub → e.docs.get? doc = some d → d.state = .closed →
      j ∈ e.queue → j ∈ e'.queue) : Keeps direct bare loose e' where
  known := hdocs ▸ h.known
  watched := by
    intro j doc sub hwatches'
    have hwatches := (hwatches j doc sub).mp hwatches'
    obtain ⟨hdirect, d, hd, hsubscribed, hclosed⟩ := h.watched j doc sub hwatches
    exact ⟨hdirect, d, hdocs ▸ hd, hsubscribed,
      fun hstate => hqueue j doc sub d hwatches hd hstate (hclosed hstate)⟩
  entries := by
    intro path id hentry
    obtain ⟨hd, hjob⟩ := h.entries path id (hregistry ▸ hentry)
    exact ⟨hdocs ▸ hd,
      hjob.imp_right (Exists.imp fun j => Exists.imp fun sub => (hwatches j id sub).mpr)⟩
  complete := by
    rw [hdocs, hregistry]
    exact h.complete

/-- Documents and the registry are out of reach, and jobs are only added to the queue. -/
theorem stirs (h : Keeps direct bare loose e) (hs : Sound e) (hadmits : σ.admits = false)
    (hstirs : Stirs σ e e') : Keeps direct bare loose e' :=
  h.of_same hstirs.docs hstirs.registry (fun _ _ _ => hstirs.watches hs hadmits)
    fun j _ _ _ _ _ _ => hstirs.grows.queue j

/-- A document changes but keeps its place and those who attend to it, who are woken if it is
closed. -/
theorem replace_doc (h : Keeps direct bare loose e) {id : DocId} {d d' : Document}
    (hd : e.docs.get? id = some d) (hdocs : e'.docs = e.docs.insert id d')
    (hregistry : e'.registry.docs = e.registry.docs)
    (hwatches : ∀ j doc sub, e'.Watches j doc sub ↔ e.Watches j doc sub)
    (hqueue : ∀ j ∈ e.queue, j ∈ e'.queue) (hpath : d'.path = d.path)
    (hclosed : d.state = .closed → d'.state = .closed)
    (hsubscribed : ∀ sub, Document.Subscribed d.state d.events sub →
      Document.Subscribed d'.state d'.events sub)
    (hwoken : ∀ j sub, e.Watches j id sub → d'.state = .closed → j ∈ e'.queue) :
    Keeps direct bare loose e' where
  known := fun i hi => by simp [hdocs, h.known i hi]
  watched := by
    intro j doc sub hwatches'
    have hwatches := (hwatches j doc sub).mp hwatches'
    obtain ⟨hdirect, d₁, hd₁, hsubscribed₁, hqueue₁⟩ := h.watched j doc sub hwatches
    refine ⟨hdirect, ?_⟩
    rw [hdocs]
    by_cases hid : doc = id
    · rw [hid, hd, Option.some.injEq] at hd₁
      subst hd₁
      exact ⟨d', by simp [hid], hsubscribed sub hsubscribed₁, hwoken j sub (hid ▸ hwatches)⟩
    · exact ⟨d₁, by simp [hid, hd₁], hsubscribed₁, fun hstate => hqueue j (hqueue₁ hstate)⟩
  entries := by
    intro path i hentry
    obtain ⟨⟨d₁, hd₁, hpath₁⟩, hjob⟩ := h.entries path i (hregistry ▸ hentry)
    refine ⟨?_, hjob.imp_right (Exists.imp fun j => Exists.imp fun sub => (hwatches j i sub).mpr)⟩
    rw [hdocs]
    by_cases hid : i = id
    · rw [hid, hd, Option.some.injEq] at hd₁
      subst hd₁
      exact ⟨d', by simp [hid], hpath.trans hpath₁⟩
    · exact ⟨d₁, by simp [hid, hd₁], hpath₁⟩
  complete := by
    intro i d₁ hd₁
    rw [hdocs, SortedMap.get?_insert] at hd₁
    rw [hregistry]
    split at hd₁
    · next hid =>
      cases hd₁
      rw [hid, hpath]
      exact (h.complete id d hd).imp_right fun h => h.imp_right fun h => h.imp_left hclosed
    · exact h.complete i d₁ hd₁

/-- A document that is not closed now if it was not. -/
theorem insert_doc (h : Keeps direct bare loose e) {id : DocId} {d d' : Document}
    (hd : e.docs.get? id = some d) (hpath : d'.path = d.path)
    (hclosed : d'.state = .closed ↔ d.state = .closed)
    (hsubscribed : ∀ sub, Document.Subscribed d.state d.events sub →
      Document.Subscribed d'.state d'.events sub) :
    Keeps direct bare loose { e with docs := e.docs.insert id d' } := by
  refine h.replace_doc hd rfl rfl (fun _ _ _ => .rfl)
    (fun _ hj => hj) hpath hclosed.mpr hsubscribed ?_
  intro j sub hwatches hstate
  exact (h.subscribed hwatches hd).2 (hclosed.mp hstate)

theorem reading (h : Keeps direct bare loose e) {read : DocId → Nat → List DocumentEvent}
    (hread : Reading e read e') : Keeps direct bare loose e' := by
  cases hread with
  | none => exact h
  | some hd hreads => exact h.insert_doc hd rfl .rfl fun _ hsubscribed => hsubscribed.reads hreads

/-- The step lemma for everybody who may not change the registry. When a document is closed, those
who watch it are woken. -/
theorem deed (h : Keeps direct bare loose e) (hs : Sound e) (hadmits : σ.admits = false)
    (hdeed : Deed σ e e') : Keeps direct bare loose e' := by
  cases hdeed with
  | stir hstir => exact h.stirs hs hadmits (.single hstir)
  | turn hd hturns =>
    exact h.insert_doc hd hturns.trail.place.1 hturns.closed_iff fun _ => hturns.trail.subscribed
  | @close _ id d hd hopen _ hstirs _ hwoken =>
    have htrail : Document.Trail false d d.close.1 := .single (.inr ⟨rfl, hopen, rfl⟩)
    refine h.replace_doc hd hstirs.docs hstirs.registry
      (fun _ _ _ => hstirs.watches (hs.trail hd htrail) hadmits) hstirs.grows.queue htrail.place.1
      (fun hstate => absurd hstate hopen) (fun _ => htrail.subscribed) ?_
    rintro j sub ⟨table, tableEvents, hjob⟩ -
    obtain ⟨hsubscribed, -⟩ := h.subscribed ⟨table, tableEvents, hjob⟩ hd
    exact hwoken j _ sub (hs.jobs j _ hjob).1 hjob hsubscribed.live (by simp [Job.signals])
  | make hmakes => simp [hadmits] at hmakes
  | register _ hregisters => simp [hadmits] at hregisters

theorem deeds (h : Keeps direct bare loose e) (hs : Sound e) (hadmits : σ.admits = false)
    (hdeeds : Deeds σ e e') : Keeps direct bare loose e' := by
  induction hdeeds with
  | refl => exact h
  | tail hdeeds hdeed ih => exact ih.deed (hs.deeds hdeeds) hadmits hdeed

/-- A job that watched nothing goes on as another or comes to its end. -/
theorem of_idle (h : Keeps direct bare loose e) {id : JobId}
    (hid : ∀ doc sub, ¬ e.Watches id doc sub)
    (hdocs : e'.docs = e.docs) (hregistry : e'.registry.docs = e.registry.docs)
    (hid' : ∀ doc sub, ¬ e'.Watches id doc sub)
    (hjobs : ∀ j, j ≠ id → e'.jobs.get? j = e.jobs.get? j)
    (hqueue : ∀ j, j ≠ id → j ∈ e.queue → j ∈ e'.queue) : Keeps direct bare loose e' := by
  refine h.of_same hdocs hregistry (fun j doc sub => ?_) fun j doc sub _ hj _ _ hmem => ?_
  · by_cases hj : j = id
    · simp [hj, hid, hid']
    · simp [Watches, hjobs j hj]
  · refine hqueue j (fun heq => ?_) hmem
    exact hid doc sub (heq ▸ hj)

/-! ## Documents that enter the registry -/

/-- A new document has no entry yet. -/
theorem add_doc (h : Keeps direct bare loose e) (hn : e.docs.Numbered) {d : Document}
    (hdocs : e'.docs = e.docs.insert e.docs.size d) (hregistry : e'.registry.docs = e.registry.docs)
    (hwatches : ∀ j doc sub, e'.Watches j doc sub ↔ e.Watches j doc sub)
    (hqueue : ∀ j ∈ e.queue, j ∈ e'.queue) : Keeps direct bare (e.docs.size :: loose) e' := by
  have hold {i : DocId} {d₁ : Document} (hd₁ : e.docs.get? i = some d₁) :
      e'.docs.get? i = some d₁ := by
    have hne : i ≠ e.docs.size := fun heq => by simp [heq, hn.get?_size] at hd₁
    simp [hdocs, hne, hd₁]
  refine ⟨fun i hi => by simp [hdocs, h.known i hi], fun j doc sub hj => ?_,
    fun path i hentry => ?_, fun i d₁ hd₁ => ?_⟩
  · obtain ⟨hdirect, d₁, hd₁, hsubscribed, hclosed⟩ :=
      h.watched j doc sub ((hwatches j doc sub).mp hj)
    exact ⟨hdirect, d₁, hold hd₁, hsubscribed, fun hstate => hqueue j (hclosed hstate)⟩
  · obtain ⟨⟨d₁, hd₁, hpath⟩, hjob⟩ := h.entries path i (hregistry ▸ hentry)
    exact ⟨⟨d₁, hold hd₁, hpath⟩,
      hjob.imp_right (Exists.imp fun j => Exists.imp fun sub => (hwatches j i sub).mpr)⟩
  · rw [hdocs, SortedMap.get?_insert] at hd₁
    rw [hregistry]
    split at hd₁
    · next hid => exact .inr (.inl (hid ▸ List.mem_cons_self))
    · exact (h.complete i d₁ hd₁).imp_right fun h => h.imp_left (List.mem_cons_of_mem _)

/-- A document gets its entry before it is watched, so it is one of the exceptions until then. -/
theorem register (h : Keeps direct bare loose e) {path : String} {id : DocId} {d : Document}
    (hfree : e.registry.get? path = none) (hd : e.docs.get? id = some d) (hpath : d.path = path) :
    Keeps direct (id :: bare) loose { e with registry := e.registry.insert path id } := by
  refine ⟨h.known, h.watched, fun path' i hentry => ?_, fun i d₁ hd₁ => ?_⟩
  · simp only [Registry.insert, SortedMap.get?_insert] at hentry
    split at hentry
    · next hpath' =>
      cases hentry
      exact ⟨⟨d, hd, hpath.trans hpath'.symm⟩, .inl List.mem_cons_self⟩
    · obtain ⟨hdoc, hjob⟩ := h.entries path' i hentry
      exact ⟨hdoc, hjob.imp_left (List.mem_cons_of_mem _)⟩
  · refine (h.complete i d₁ hd₁).imp_right fun h => h.imp_right fun h =>
      h.imp_right fun hentry => ?_
    have hne : d₁.path ≠ path := fun heq => by
      rw [heq] at hentry
      simp [Registry.get?, hentry] at hfree
    simp [Registry.insert, hne, hentry]

/-- A document that has its entry is watched from now on. -/
theorem start_watch {id : DocId} (h : Keeps direct [id] [id] e) (hs : Sound e) {d : Document}
    (hd : e.docs.get? id = some d) {sub : Nat}
    (hsubscribed : Document.Subscribed d.state d.events sub)
    (hentry : e.registry.docs.get? d.path = some id) (hid : id ∉ direct) (table : TableId)
    (tableEvents : Nat) : Keeps direct [] [] (e.spawn (.watch id table sub tableEvents)) := by
  let e' := e.spawn (.watch id table sub tableEvents)
  have hself : e'.Watches e.nextJob id sub := ⟨table, tableEvents, by simp [e', spawn]⟩
  have hothers {j : JobId} {doc : DocId} {sub' : Nat} (hj : e.Watches j doc sub') :
      e'.Watches j doc sub' := by
    have hne : j ≠ e.nextJob := fun heq => by simp [heq, Watches, hs.get?_nextJob] at hj
    simpa [Watches, e', spawn, hne] using hj
  refine ⟨h.known, ?_, fun path i hentry => ?_, fun i d₁ hd₁ => ?_⟩
  · rintro j doc sub' ⟨table', tableEvents', hjob⟩
    simp only [spawn, SortedMap.get?_insert] at hjob
    split at hjob
    · next hj =>
      cases hjob
      exact ⟨hid, d, hd, hsubscribed, fun _ => hj ▸ List.mem_append_right _ List.mem_cons_self⟩
    · obtain ⟨hdirect, d₁, hd₁, hsubscribed₁, hclosed⟩ :=
        h.watched j doc sub' ⟨table', tableEvents', hjob⟩
      exact ⟨hdirect, d₁, hd₁, hsubscribed₁, fun hstate => List.mem_append_left _ (hclosed hstate)⟩
  · obtain ⟨hdoc, hjob⟩ := h.entries path i hentry
    refine ⟨hdoc, .inr ?_⟩
    rcases hjob with hbare | ⟨j, sub', hj⟩
    · obtain rfl := List.mem_singleton.mp hbare
      exact ⟨e.nextJob, sub, hself⟩
    · exact ⟨j, sub', hothers hj⟩
  · rcases h.complete i d₁ hd₁ with hdirect | hloose | hclosed | hin
    · exact .inl hdirect
    · obtain rfl := List.mem_singleton.mp hloose
      have heq : d = d₁ := Option.some.inj (hd.symm.trans hd₁)
      exact .inr (.inr (.inr (heq ▸ hentry)))
    · exact .inr (.inr (.inl hclosed))
    · exact .inr (.inr (.inr hin))

end Keeps

/-- What changes when a document is made. -/
theorem newDocument_frame {client : ClientId} {kind : Kind} {o : DocumentOptions} {id : DocId}
    (h : e.newDocument client kind o = .ok (id, e')) :
    id = e.docs.size ∧ e'.registry = e.registry ∧ e'.jobs = e.jobs.insert e.nextJob (.setUp id) ∧
      e'.queue = e.queue ++ [e.nextJob] ∧
      ∃ d, e'.docs = e.docs.insert e.docs.size d ∧ d.path = o.path := by
  obtain ⟨query, query', stringId, e₁, e₂, rfl, rfl, rfl, rfl⟩ := newDocument_eq_ok h
  exact ⟨rfl, rfl, rfl, rfl, _, rfl, rfl⟩

theorem newDocument_watches (hs : Sound e) {client : ClientId} {kind : Kind} {o : DocumentOptions}
    {id : DocId} (h : e.newDocument client kind o = .ok (id, e')) {j : JobId} {doc : DocId}
    {sub : Nat} :
    e'.Watches j doc sub ↔ e.Watches j doc sub := by
  have hspawn : (e.spawn (.setUp id)).Watches j doc sub ↔ e.Watches j doc sub :=
    watches_spawn hs rfl
  rw [← hspawn]
  simp only [Watches, (newDocument_frame h).2.2.1, spawn]

namespace Keeps

/-- A new document has no entry yet. -/
theorem newDocument (h : Keeps direct bare loose e) (hs : Sound e) {client : ClientId} {kind : Kind}
    {o : DocumentOptions} {id : DocId} (hnew : e.newDocument client kind o = .ok (id, e')) :
    Keeps direct bare (id :: loose) e' := by
  obtain ⟨rfl, hregistry, -, hqueue, d, hdocs, -⟩ := newDocument_frame hnew
  refine h.add_doc hs.docs hdocs (by rw [hregistry])
    (fun j doc sub => newDocument_watches hs hnew) ?_
  intro j hj
  rw [hqueue]
  exact List.mem_append_left _ hj

/-- A document that was made from outside. -/
theorem disown {id : DocId} (h : Keeps direct bare [id] e) (hid : e.docs.contains id = true)
    (hwatches : ∀ j sub, ¬ e.Watches j id sub) : Keeps (direct ++ [id]) bare [] e := by
  refine ⟨fun i hi => ?_, fun j doc sub hj => ?_, h.entries, fun i d hd => ?_⟩
  · rcases List.mem_append.mp hi with hi | hi
    · exact h.known i hi
    · exact List.mem_singleton.mp hi ▸ hid
  · obtain ⟨hdirect, hrest⟩ := h.watched j doc sub hj
    refine ⟨fun hmem => ?_, hrest⟩
    rcases List.mem_append.mp hmem with hmem | hmem
    · exact hdirect hmem
    · exact hwatches j sub (List.mem_singleton.mp hmem ▸ hj)
  · rcases h.complete i d hd with hdirect | hloose | hrest
    · exact .inl (List.mem_append_left _ hdirect)
    · exact .inl (List.mem_append_right _ hloose)
    · exact .inr (.inr hrest)

/-- A document that has its entry is watched from now on, and closed if it has failed or its table
is closed. -/
theorem watch {id : DocId} (h : Keeps direct [id] [id] e) (hs : Sound e) {d : Document}
    (hd : e.docs.get? id = some d) (hentry : e.registry.docs.get? d.path = some id)
    (hid : id ∉ direct) (table : TableId) : Keeps direct [] [] (e.watch id table) := by
  let e₁ := (e.subscribeDocument id).2
  let e₂ := (e₁.subscribeTable table).2
  have hdeeds₁ : Deeds (.outside e false) e e₁ := subscribeDocument_deeds e id
  have hdeeds₂ : Deeds (.outside e false) e e₂ :=
    hdeeds₁.trans (subscribeTable_stirs e₁ table).deeds
  have hd₂ : e₂.docs.get? id = some { d with events := d.events.subscribe.2 } := by
    rw [Stirs.docs (σ := .outside e false) (subscribeTable_stirs e₁ table)]
    simp [e₁, subscribeDocument, hd]
  have hsubscribed := (hs.tuned id d hd).subscribed_subscribe
  have hsub : (e.subscribeDocument id).1 = d.events.subscribe.1 := by simp [subscribeDocument, hd]
  have hend {e₃ : Engine} (hdeeds : Deeds (.outside e false) e₂ e₃) (tableEvents : Nat) :
      Keeps direct [] [] (e₃.spawn (.watch id table (e.subscribeDocument id).1 tableEvents)) := by
    have hdeeds₃ := hdeeds₂.trans hdeeds
    obtain ⟨d₃, hd₃, htrail⟩ := hdeeds.trail_of_get? (hs.deeds hdeeds₂) hd₂
    refine (h.deeds hs rfl hdeeds₃).start_watch (hs.deeds hdeeds₃) hd₃ ?_ ?_ hid table tableEvents
    · rw [hsub]
      exact htrail.subscribed hsubscribed
    · rw [hdeeds₃.registry rfl, htrail.place.1]
      exact hentry
  simp only [Engine.watch]
  split
  · exact hend (closeDocument_deeds rfl e₂ id) _
  · exact hend .refl _

/-- The document of a row is opened: it is made, gets its entry and is watched. -/
theorem openRow (h : Keeps direct [] [] e) (hs : Sound e) {o : Opening}
    (htable : e.tables.contains o.table = true) (row : Record) :
    Keeps direct [] [] (e.openRow o row).1 := by
  simp only [Engine.openRow]
  split
  · exact h
  · next hfree =>
    split
    · exact h
    · next doc e₁ hmade =>
      obtain ⟨options, hoptions, hnew⟩ := createDocument_eq_ok hmade
      obtain ⟨rfl, hregistry, -, -, d, hdocs, hpath⟩ := newDocument_frame hnew
      have hoptions : options.path = (row.getStr? "path").getD "" :=
        DocumentOptions.path_ofRecord hoptions
      have hpath : d.path = (row.getStr? "path").getD "" := hpath.trans hoptions
      have hdeeds₁ : Deeds (.outside e true) e e₁ := newDocument_deeds rfl (Nat.le_refl _) hnew
      have hd₁ : e₁.docs.get? e.docs.size = some d := by simp [hdocs]
      let e₂ : Engine :=
        { e₁ with registry := e₁.registry.insert ((row.getStr? "path").getD "") e.docs.size }
      have hs₂ : Sound e₂ := (hs.deeds hdeeds₁).deed (σ := .outside e true) (.register e₁ _ rfl)
      have hkeeps₂ : Keeps direct [e.docs.size] [e.docs.size] e₂ :=
        (h.newDocument hs hnew).register (by rw [hregistry]; exact hfree) hd₁ hpath
      have hentry : e₂.registry.docs.get? d.path = some e.docs.size := by
        simp [e₂, Registry.insert, hpath]
      have hdirect : e.docs.size ∉ direct := fun hmem => by
        have hin := h.known _ hmem
        simp [SortedMap.contains, hs.docs.get?_size] at hin
      have hdeeds₃ : Deeds (.outside e true) e₂ (e₂.watch e.docs.size o.table) :=
        watch_deeds (e := e₂) rfl rfl (SortedMap.contains_of_get? hd₁)
          (hdeeds₁.grows.tables _ htable)
      exact (hkeeps₂.watch hs₂ hd₁ hentry hdirect o.table).stirs (hs₂.deeds hdeeds₃)
        (σ := .outside e false) rfl (startHook_stirs _ _ _ _)

end Keeps

/-- A job that waits for the row of a document goes on waiting, or it comes to its end and may have
opened the document. -/
theorem look_opening (e : Engine) (table : TableId) (condition : RowsCondition)
    (limit : Option Limit) (o : Opening) :
    e.look (.awaitRows table condition limit (.opening o)) = .wait ∨
      ∃ e₀ e₁, e.look (.awaitRows table condition limit (.opening o)) = .finish e₁ ∧
        (e₀ = e ∨ ∃ row, e₀ = (e.openRow o row).1) ∧ Stirs (.outside e false) e₀ e₁ := by
  have hended (e₀ : Engine) (path : Option String) :
      ∃ e₁, e₀.openingEnded o path = .finish e₁ ∧ Stirs (.outside e false) e₀ e₁ := by
    unfold openingEnded
    split
    · exact ⟨_, rfl, report_stirs e₀ _ _⟩
    · exact ⟨_, rfl, .refl⟩
  have hrows (result : Except TableError Rows) :
      ∃ e₀ e₁, e.gotRows (.opening o) result = .finish e₁ ∧
      (e₀ = e ∨ ∃ row, e₀ = (e.openRow o row).1) ∧ Stirs (.outside e false) e₀ e₁ := by
    cases result with
    | error =>
      obtain ⟨e₁, hfinish, hstirs⟩ := hended e none
      exact ⟨e, e₁, hfinish, .inl rfl, hstirs⟩
    | ok rows =>
      simp only [gotRows]
      split
      · obtain ⟨e₁, hfinish, hstirs⟩ := hended e none
        exact ⟨e, e₁, hfinish, .inl rfl, hstirs⟩
      · next row _ =>
        obtain ⟨e₁, hfinish, hstirs⟩ := hended (e.openRow o row).1 (e.openRow o row).2
        exact ⟨_, e₁, hfinish, .inr ⟨row, rfl⟩, hstirs⟩
  simp only [look, lookAwaitRows]
  split
  · exact .inr (hrows _)
  · split
    · exact .inr (hrows _)
    · split
      · exact .inr (hrows _)
      · exact .inl rfl

end Engine

/-! ## Documents that leave the registry -/

/-- Some documents leave the registry, and nothing else changes in it. -/
structure Registry.Expels (r : Registry) (docs : List DocId) (r' : Registry) : Prop where
  old : ∀ path id, r'.docs.get? path = some id → r.docs.get? path = some id
  left : ∀ path id, r.docs.get? path = some id → r'.docs.get? path = some id ∨ id ∈ docs
  entered : ∀ id ∈ docs, ∃ path, r.docs.get? path = some id

namespace Registry

theorem expels_nil (r : Registry) : r.Expels [] r :=
  ⟨fun _ _ => id, fun _ _ => .inl, by simp⟩

/-- One entry at most leaves the registry, and it is the one at the path. -/
theorem expels_close (r : Registry) (path : String) :
    r.Expels (r.close path).2.toList (r.close path).1 where
  old := by
    intro path' id hentry
    simp only [close, erase, SortedMap.get?_erase] at hentry
    split at hentry
    · cases hentry
    · exact hentry
  left := by
    intro path' id hentry
    by_cases hpath : path' = path
    · right
      simp [close, get?, ← hpath, hentry]
    · left
      simp [close, erase, hpath, hentry]
  entered := fun id hid => ⟨path, by simpa [close, get?] using hid⟩

theorem expels_call {r r' : Registry} {path : String} {message : Json} {status : CallStatus}
    {doc : Option DocId} (h : r.call path message = .ok (status, r', doc)) :
    r.Expels doc.toList r' := by
  unfold call at h
  split at h
  · cases h
    exact r.expels_nil
  · split at h
    · cases h
    · cases h
      exact r.expels_close path

theorem expels_dispatch (r : Registry) (text : String) :
    r.Expels (r.dispatch text).2.2.toList (r.dispatch text).2.1 := by
  unfold dispatch
  split
  · exact r.expels_nil
  · split
    · exact r.expels_nil
    · split
      · next hcall => exact expels_call hcall
      · exact r.expels_nil

/-- All entries below a directory leave the registry, with their documents. -/
theorem expels_closeTree (r : Registry) (dir : String) :
    r.Expels (r.closeTree dir).2 (r.closeTree dir).1 where
  old := by
    intro path id hentry
    simp only [closeTree, SortedMap.get?_filter, Option.filter_eq_some_iff] at hentry
    exact hentry.1
  left := by
    intro path id hentry
    simp only [closeTree, SortedMap.get?_filter, Option.filter_eq_some_iff,
      SortedMap.mem_values_iff]
    cases hpath : Path.isInTree dir path with
    | true => exact .inr ⟨path, hentry, hpath⟩
    | false => exact .inl ⟨hentry, rfl⟩
  entered := by
    intro id hid
    simp only [closeTree, SortedMap.mem_values_iff, SortedMap.get?_filter,
      Option.filter_eq_some_iff] at hid
    obtain ⟨path, hentry, -⟩ := hid
    exact ⟨path, hentry⟩

/-- A path is cleared only if it still belongs to the document. -/
theorem get?_forget {r : Registry} {path path' : String} {doc id : DocId} :
    (r.forget path doc).docs.get? path' = some id ↔
      r.docs.get? path' = some id ∧ ¬ (path' = path ∧ id = doc) := by
  unfold forget
  split
  · next hdoc =>
    by_cases hpath : path' = path
    · have hid : r.docs.get? path = some id → id = doc := fun hid =>
        Option.some.inj (hid.symm.trans hdoc)
      simpa [erase, hpath] using hid
    · simp [erase, hpath]
  · next hdoc =>
    refine ⟨fun hid => ⟨hid, ?_⟩, fun h => h.1⟩
    rintro ⟨rfl, rfl⟩
    exact hdoc hid

end Registry

namespace Engine

variable {σ : Scope} {e e' : Engine} {direct bare loose : List DocId}

theorem closeDocument_closed {id : DocId} {d : Document} (hd : e.docs.get? id = some d) :
    ∃ d', (e.closeDocument id).docs.get? id = some d' ∧ d'.state = .closed := by
  have hstate : d.close.1.state = .closed := by
    by_cases hclosed : d.state = .closed
    · simp [Document.close, hclosed]
    · rw [Document.close_eq hclosed]
  refine ⟨d.close.1, ?_, hstate⟩
  simp only [closeDocument, onDocument, hd, putDocument]
  rw [(foldl_heedDocument_stirs (σ := .outside e false) _ id d.close.2).docs]
  simp

/-- A closed document stays closed. -/
theorem Deeds.closed_doc (h : Deeds σ e e') (hs : Sound e) {id : DocId} {d : Document}
    (hd : e.docs.get? id = some d) (hclosed : d.state = .closed) :
    ∃ d', e'.docs.get? id = some d' ∧ d'.state = .closed := by
  obtain ⟨d', hd', htrail⟩ := h.trail_of_get? hs hd
  have hpasses := htrail.passes
  rw [hclosed] at hpasses
  exact ⟨d', hd', by revert hpasses; cases σ.commits <;> cases d'.state <;> decide⟩

/-- All documents in the list are closed in the end; those that were closed before stay so. -/
theorem closeDocuments_closed (hs : Sound e) {docs : List DocId} {id : DocId} (hid : id ∈ docs)
    {d : Document} (hd : e.docs.get? id = some d) :
    ∃ d', (e.closeDocuments docs).docs.get? id = some d' ∧ d'.state = .closed := by
  induction docs generalizing e d with
  | nil => cases hid
  | cons doc docs ih =>
    have hdeeds : Deeds (.outside e false) e (e.closeDocument doc) := closeDocument_deeds rfl e doc
    have hs' := hs.deeds hdeeds
    rcases List.mem_cons.mp hid with rfl | hid
    · obtain ⟨d', hd', hclosed⟩ := closeDocument_closed hd
      have hrest : Deeds (.outside e false) (e.closeDocument id)
          ((e.closeDocument id).closeDocuments docs) :=
        closeDocuments_deeds rfl _ docs
      exact hrest.closed_doc hs' hd' hclosed
    · obtain ⟨d', hd', -⟩ := hdeeds.trail_of_get? hs hd
      exact ih hs' hid hd'

/-- Documents that leave the registry are closed. -/
theorem Keeps.expel (h : Keeps direct [] [] e) (hs : Sound e) {registry : Registry}
    {docs : List DocId} (hexpels : e.registry.Expels docs registry) :
    Keeps direct [] [] (Engine.closeDocuments { e with registry } docs) := by
  let e₁ : Engine := { e with registry }
  have hs₁ : Sound e₁ := hs.of_jobs rfl rfl rfl hs.jobs
  have hkeeps₁ : Keeps direct [] docs e₁ := by
    refine ⟨h.known, h.watched,
      fun path id hentry => h.entries path id (hexpels.old path id hentry), fun id d hd => ?_⟩
    rcases h.complete id d hd with hdirect | hloose | hclosed | hentry
    · exact .inl hdirect
    · cases hloose
    · exact .inr (.inr (.inl hclosed))
    · rcases hexpels.left d.path id hentry with hentry | hout
      · exact .inr (.inr (.inr hentry))
      · exact .inr (.inl hout)
  have hdeeds : Deeds (.outside e false) e₁ (e₁.closeDocuments docs) :=
    closeDocuments_deeds rfl e₁ docs
  have hkeeps₂ := hkeeps₁.deeds hs₁ rfl hdeeds
  refine ⟨hkeeps₂.known, hkeeps₂.watched, hkeeps₂.entries, fun id d hd => ?_⟩
  rcases hkeeps₂.complete id d hd with hdirect | hloose | hrest
  · exact .inl hdirect
  · obtain ⟨path, hentry⟩ := hexpels.entered id hloose
    obtain ⟨⟨d₀, hd₀, -⟩, -⟩ := h.entries path id hentry
    obtain ⟨d', hd', hclosed⟩ := closeDocuments_closed hs₁ hloose hd₀
    have heq : d = d' := Option.some.inj (hd.symm.trans hd')
    exact .inr (.inr (.inl (heq ▸ hclosed)))
  · exact .inr (.inr hrest)

/-! ## Watching -/

/-- What a job that watches a document comes to: it waits, and the document is not closed; it goes
on as it is; or the document is closed, and the job ends. -/
inductive WatchLook (e : Engine) (doc : DocId) (table : TableId) (job : Job) : Progress → Prop
  | wait (h : ∀ d, e.docs.get? doc = some d → d.state ≠ .closed) : WatchLook e doc table job .wait
  | goOn {e' : Engine} (h : Deeds (.outside e false) (e.hear job) e') :
      WatchLook e doc table job (.goOn e' job)
  | endWatch {e' : Engine} {d : Document} (h : Deeds (.outside e false) (e.hear job) e')
      (hd : e'.docs.get? doc = some d) (hclosed : d.state = .closed) :
      WatchLook e doc table job (e'.endWatch doc table)

/-- A watching job has read an event of its document or of its table, or its document is closed and
it ends. -/
theorem watchLook_look (hs : Sound e) {doc : DocId} {table : TableId} {docEvents tableEvents : Nat}
    (hgrounded : (Job.watch doc table docEvents tableEvents).Grounded e)
    (hsubscribed : ∀ d, e.docs.get? doc = some d → Document.Subscribed d.state d.events docEvents) :
    WatchLook e doc table (.watch doc table docEvents tableEvents)
      (e.look (.watch doc table docEvents tableEvents)) := by
  obtain ⟨d, hd⟩ := SortedMap.get?_of_contains hgrounded.1
  obtain ⟨t, ht⟩ := SortedMap.get?_of_contains hgrounded.2
  have htuned := hs.tuned doc d hd
  cases hevent : (d.events.receive docEvents).1 with
  | some event =>
    have hhear : e.hear (.watch doc table docEvents tableEvents) =
        { e with
          docs := e.docs.insert doc { d with events := (d.events.receive docEvents).2 } } := by
      simp only [hear, hd, ht]
    simp only [look, lookWatch, hd, ht, hevent]
    rw [← hhear]
    cases event with
    | error detail => exact .goOn (closeDocument_deeds rfl _ doc)
    | closed =>
      refine .endWatch .refl (d := { d with events := (d.events.receive docEvents).2 }) ?_ ?_
      · rw [hhear]
        simp
      · rw [EventBus.receive_fst] at hevent
        by_contra hopen
        exact htuned.silent hopen docEvents (List.mem_of_head? hevent)
    | ready | change | saved => exact .goOn .refl
  | none =>
    have hhear := hear_of_none hd hevent table tableEvents
    have hended := (hsubscribed d hd).isEnded_iff htuned hevent
    let e₁ : Engine :=
      { e with
        tables := e.tables.insert table { t with events := (t.events.receive tableEvents).2 } }
    have hread : Deeds (.outside e false) e e₁ :=
      .single (.stir (.table ht (Table.motion_reads (t.events.reads_receive tableEvents))))
    have hend : WatchLook e doc table (.watch doc table docEvents tableEvents)
        ((e₁.closeDocument doc).endWatch doc table) := by
      obtain ⟨d', hd', hclosed⟩ := closeDocument_closed (e := e₁) hd
      have hdeeds : Deeds (.outside e false) e (e₁.closeDocument doc) :=
        hread.trans (closeDocument_deeds rfl e₁ doc)
      exact .endWatch (by rw [hhear]; exact hdeeds) hd' hclosed
    simp only [look, lookWatch, hd, ht, hevent]
    split
    · next hisEnded => exact .endWatch (by rw [hhear]) hd (hended.mp hisEnded)
    · next hopen =>
      split
      · exact hend
      · exact .goOn (by rw [hhear]; exact hread)
      · split
        · exact hend
        · refine .wait fun d₁ hd₁ hclosed => hopen (hended.mpr ?_)
          rw [hd, Option.some.injEq] at hd₁
          exact hd₁ ▸ hclosed

/-- The entry is cleared after the table is closed, which does not touch the registry. -/
theorem endWatch_eq {doc : DocId} {d : Document} (hd : e.docs.get? doc = some d) (table : TableId) :
    e.endWatch doc table = .finish
      { e.closeTable table with registry := (e.closeTable table).registry.forget d.path doc } := by
  have hd' : (e.closeTable table).docs.get? doc = some d := by
    rw [Stirs.docs (σ := .outside e false) (closeTable_stirs e table), hd]
  simp only [endWatch, hd']

/-- The job that watches a closed document clears its entry and ends. -/
theorem Keeps.endWatch (h : Keeps direct [] [] e) (hs : Sound e) {j : JobId} {doc : DocId}
    {sub : Nat} (hj : e.Watches j doc sub) {d : Document} (hd : e.docs.get? doc = some d)
    (hclosed : d.state = .closed) {table : TableId} (hend : e.endWatch doc table = .finish e') :
    Keeps direct [] [] (({ e' with jobs := e'.jobs.erase j }.dequeue j).wake (.finished j)) := by
  have hstirs : Stirs (.outside e false) e (e.closeTable table) := closeTable_stirs e table
  have hkeeps := h.stirs hs rfl hstirs
  have hj₁ := (hstirs.watches hs rfl).mpr hj
  have hd₁ : (e.closeTable table).docs.get? doc = some d := by rw [hstirs.docs, hd]
  rw [endWatch_eq hd, Progress.finish.injEq] at hend
  subst hend
  generalize e.closeTable table = e₁ at *
  let e₂ : Engine := { e₁ with registry := e₁.registry.forget d.path doc, jobs := e₁.jobs.erase j }
  have hqueue {k : JobId} (hk : k ≠ j) (hmem : k ∈ e₁.queue) :
      k ∈ ((e₂.dequeue j).wake (.finished j)).queue :=
    (wake_stirs (σ := .outside e false) (e₂.dequeue j) _).grows.queue k
      ((List.mem_erase_of_ne hk).mpr hmem)
  have hwatches (k : JobId) (doc' : DocId) (sub' : Nat) :
      ((e₂.dequeue j).wake (.finished j)).Watches k doc' sub' ↔ k ≠ j ∧ e₁.Watches k doc' sub' := by
    change (∃ table tableEvents, (e₁.jobs.erase j).get? k = _) ↔ _
    by_cases hk : k = j <;> simp [hk, Watches]
  refine ⟨hkeeps.known, fun k doc' sub' hk => ?_, fun path id hentry => ?_, fun id d₁ hd₁' => ?_⟩
  · obtain ⟨hne, hk⟩ := (hwatches k doc' sub').mp hk
    obtain ⟨hdirect, d₁, hd₁', hsubscribed, hclosed₁⟩ := hkeeps.watched k doc' sub' hk
    exact ⟨hdirect, d₁, hd₁', hsubscribed, fun hstate => hqueue hne (hclosed₁ hstate)⟩
  · obtain ⟨hentry, hother⟩ := Registry.get?_forget.mp hentry
    obtain ⟨⟨d₁, hd₁', hpath⟩, hjob⟩ := hkeeps.entries path id hentry
    refine ⟨⟨d₁, hd₁', hpath⟩, .inr ?_⟩
    rcases hjob with hbare | ⟨k, sub', hk⟩
    · cases hbare
    · refine ⟨k, sub', (hwatches k id sub').mpr ⟨fun heq => ?_, hk⟩⟩
      -- The job that ends watches one document, so this one is it and its entry is gone.
      obtain ⟨table₁, tableEvents₁, hjob₁⟩ := hj₁
      obtain ⟨table₂, tableEvents₂, hjob₂⟩ := hk
      rw [heq, hjob₁] at hjob₂
      cases hjob₂
      rw [hd₁, Option.some.injEq] at hd₁'
      exact hother ⟨hpath ▸ hd₁' ▸ rfl, rfl⟩
  · rcases hkeeps.complete id d₁ hd₁' with hdirect | hloose | hstate | hentry
    · exact .inl hdirect
    · cases hloose
    · exact .inr (.inr (.inl hstate))
    · by_cases hid : id = doc
      · rw [hid] at hd₁'
        have heq : d = d₁ := Option.some.inj (hd₁.symm.trans hd₁')
        exact .inr (.inr (.inl (heq ▸ hclosed)))
      · exact .inr (.inr (.inr (Registry.get?_forget.mpr ⟨hentry, fun h => hid h.2⟩)))

/-! ## Steps of jobs -/

theorem not_watches {id : JobId} {job : Job} (hjob : e.jobs.get? id = some job)
    (hwatch : job.isWatch = false) (doc : DocId) (sub : Nat) : ¬ e.Watches id doc sub := by
  rintro ⟨table, tableEvents, hjob'⟩
  rw [hjob, Option.some.injEq] at hjob'
  simp [hjob', Job.isWatch] at hwatch

/-- A job at work is still there when it has done its deeds. -/
theorem Sound.get?_of_hear (hs : Sound e) {id : JobId} {job : Job}
    (hjob : e.jobs.get? id = some job)
    (hdeeds : Deeds σ (e.hear job) e') : e'.jobs.get? id = some job := by
  obtain ⟨-, -, -, hjobs, hnextJob, -⟩ := e.hear_frame job
  rw [hdeeds.grows.jobs id (hnextJob ▸ (hs.jobs id job hjob).1), hjobs, hjob]

theorem Keeps.hear (h : Keeps direct bare loose e) {id : JobId} {job : Job}
    (hjob : e.jobs.get? id = some job) : Keeps direct bare loose (e.hear job) := by
  have hlisten := h.reading (reading_listen e (.step id))
  simpa only [listen, hjob] using hlisten

/-- A job that watches nothing waits. -/
theorem Keeps.dequeue (h : Keeps direct bare loose e) {id : JobId}
    (hid : ∀ doc sub, ¬ e.Watches id doc sub) : Keeps direct bare loose (e.dequeue id) :=
  h.of_idle hid rfl rfl hid (fun _ _ => rfl) fun _ hj => (List.mem_erase_of_ne hj).mpr

/-- A job that watches nothing goes on as another one. -/
theorem Keeps.put_job (h : Keeps direct bare loose e) {id : JobId}
    (hid : ∀ doc sub, ¬ e.Watches id doc sub) {job : Job} (hwatch : job.isWatch = false) :
    Keeps direct bare loose { e with jobs := e.jobs.insert id job } :=
  h.of_idle hid rfl rfl (not_watches (by simp) hwatch) (fun j hj => by simp [hj]) fun _ _ hj => hj

/-- A job that watches nothing comes to its end. -/
theorem Keeps.end_job (h : Keeps direct bare loose e) {id : JobId}
    (hid : ∀ doc sub, ¬ e.Watches id doc sub) :
    Keeps direct bare loose (({ e with jobs := e.jobs.erase id }.dequeue id).wake
      (.finished id)) := by
  refine h.of_idle hid rfl rfl ?_ (fun j hj => ?_) fun j hj hmem => ?_
  · rintro doc sub ⟨table, tableEvents, hjob⟩
    change (e.jobs.erase id).get? id = _ at hjob
    simp at hjob
  · change (e.jobs.erase id).get? j = _
    simp [hj]
  · exact List.mem_append_left _ ((List.mem_erase_of_ne hj).mpr hmem)

section Steps

variable (h : Keeps direct [] [] e) (hs : Sound e) {id : JobId}
include h hs

theorem Keeps.watchLook {doc : DocId} {table : TableId} {docEvents tableEvents : Nat}
    (hjob : e.jobs.get? id = some (.watch doc table docEvents tableEvents)) :
    WatchLook e doc table (.watch doc table docEvents tableEvents)
      (e.look (.watch doc table docEvents tableEvents)) := by
  refine watchLook_look hs (hs.jobs id _ hjob).2 fun d hd => ?_
  exact (h.subscribed ⟨table, tableEvents, hjob⟩ hd).1

/-- A watching job that ends clears the entry of its document, which is closed by then. -/
theorem Keeps.step_watch {doc : DocId} {table : TableId} {docEvents tableEvents : Nat}
    (hjob : e.jobs.get? id = some (.watch doc table docEvents tableEvents)) :
    Keeps direct [] [] (e.stepJob id) := by
  have hlook := h.watchLook hs hjob
  have hhear := h.hear hjob
  have hkept {e' : Engine} (hdeeds : Deeds (.outside e false) _ e') := hs.get?_of_hear hjob hdeeds
  simp only [stepJob, hjob]
  generalize e.look (.watch doc table docEvents tableEvents) = progress at hlook
  cases hlook with
  | wait hopen =>
    refine h.of_same rfl rfl (fun _ _ _ => .rfl) fun j doc' sub d hj hd hclosed hmem => ?_
    refine (List.mem_erase_of_ne fun heq => ?_).mpr hmem
    obtain ⟨table', tableEvents', hjob'⟩ := hj
    rw [heq, hjob] at hjob'
    cases hjob'
    exact hopen d hd hclosed
  | goOn hdeeds =>
    simp only [SortedMap.insert_get? (hkept hdeeds)]
    exact hhear.deeds (hs.hear hjob) rfl hdeeds
  | @endWatch e' d hdeeds hd hclosed =>
    have hend := endWatch_eq hd table
    simp only [hend]
    exact (hhear.deeds (hs.hear hjob) rfl hdeeds).endWatch ((hs.hear hjob).deeds hdeeds)
      ⟨table, tableEvents, hkept hdeeds⟩ hd hclosed hend

/-- A job that watches a document leaves the entries of all others. -/
theorem Keeps.registry_step_watch {doc : DocId} {table : TableId} {docEvents tableEvents : Nat}
    (hjob : e.jobs.get? id = some (.watch doc table docEvents tableEvents)) {path : String}
    {other : DocId} (hother : other ≠ doc) (hentry : e.registry.get? path = some other) :
    (e.stepJob id).registry.get? path = some other := by
  have hlook := h.watchLook hs hjob
  have hkept {e' : Engine}
      (hdeeds : Deeds (.outside e false) (e.hear (.watch doc table docEvents tableEvents)) e') :
      e'.registry.docs.get? path = some other := by
    rw [hdeeds.registry rfl, (e.hear_frame (.watch doc table docEvents tableEvents)).2.2.1]
    exact hentry
  simp only [Engine.stepJob, hjob]
  generalize e.look (.watch doc table docEvents tableEvents) = progress at hlook
  cases hlook with
  | wait => exact hentry
  | goOn hdeeds =>
    have hin := hkept hdeeds
    exact hin
  | @endWatch e' d hdeeds hd hclosed =>
    have hclose : Stirs (.outside e false) e' (e'.closeTable table) := closeTable_stirs e' table
    simp only [endWatch_eq hd table]
    exact Registry.get?_forget.mpr ⟨hclose.registry ▸ hkept hdeeds, fun h => hother h.2⟩

/-- If a document is opened, it is made, registered and watched in one step of the job. -/
theorem Keeps.step_opening {table : TableId} {condition : RowsCondition} {limit : Option Limit}
    {o : Opening} (hjob : e.jobs.get? id = some (.awaitRows table condition limit (.opening o))) :
    Keeps direct [] [] (e.stepJob id) := by
  have hid := not_watches hjob rfl
  obtain ⟨hlt, htable⟩ := hs.jobs id _ hjob
  rcases e.look_opening table condition limit o with hwait | ⟨e₀, e₁, hfinish, hopened, hstirs⟩
  · simp only [stepJob, hjob, hwait]
    exact h.dequeue hid
  · have hend (h₀ : Keeps direct [] [] e₀) (hdeeds : Deeds (.outside e true) e e₀) :
        Keeps direct [] [] (e.stepJob id) := by
      have hjob₁ : e₁.jobs.get? id = _ := (hdeeds.grows.trans hstirs.grows).jobs id hlt
      simp only [stepJob, hjob, hfinish]
      exact (h₀.stirs (hs.deeds hdeeds) rfl hstirs).end_job (not_watches (hjob₁.trans hjob) rfl)
    rcases hopened with rfl | ⟨row, rfl⟩
    · exact hend h .refl
    · exact hend (h.openRow hs htable row) (openRow_deeds rfl rfl (Nat.le_refl _) htable row)

/-- A job that does not change the registry. -/
theorem Keeps.step_plain {job : Job} (hjob : e.jobs.get? id = some job)
    (hadmits : job.admits = false) :
    Keeps direct [] [] (e.stepJob id) := by
  have hwatch : job.isWatch = false := by
    cases job with
    | watch => cases hadmits
    | _ => rfl
  have hid := not_watches hjob hwatch
  simp only [stepJob, hjob]
  cases hlook : e.look job with
  | wait => exact h.dequeue hid
  | goOn e₁ job' =>
    obtain ⟨hdeeds, hheir⟩ := hs.goOn hjob hlook
    have hwatch' : job'.isWatch = false := Bool.eq_false_iff.mpr fun hwatch' => by
      have heq : job = job' := Option.some.inj (hheir.watch hwatch')
      simp [← heq, hwatch] at hwatch'
    exact ((h.hear hjob).deeds (hs.hear hjob) hadmits hdeeds).put_job
      (not_watches (hs.get?_of_hear hjob hdeeds) hwatch) hwatch'
  | yield job' =>
    have hdoes := e.look_does (hs.jobs id job hjob).2
    rw [hlook] at hdoes
    obtain ⟨feed, rfl⟩ := hdoes
    exact ((h.dequeue hid).put_job hid rfl).of_same rfl rfl (fun _ _ _ => .rfl)
      fun _ _ _ _ _ _ _ hj => hj
  | finish e₁ =>
    have hdeeds := hs.finish hjob hlook
    exact ((h.hear hjob).deeds (hs.hear hjob) hadmits hdeeds).end_job
      (not_watches (hs.get?_of_hear hjob hdeeds) hwatch)

theorem Keeps.stepJob : Keeps direct [] [] (e.stepJob id) := by
  cases hjob : e.jobs.get? id with
  | none =>
    simp only [Engine.stepJob, hjob]
    refine h.dequeue ?_
    rintro doc sub ⟨table, tableEvents, hjob'⟩
    simp [hjob] at hjob'
  | some job =>
    cases hadmits : job.admits with
    | false => exact h.step_plain hs hjob hadmits
    | true =>
      unfold Job.admits at hadmits
      split at hadmits
      · exact h.step_watch hs hjob
      · exact h.step_opening hs hjob
      · cases hadmits

end Steps

/-! ## Runs -/

/-- The documents that an act makes from outside. -/
def makes (e : Engine) : Act → List DocId
  | .newDocument client kind options =>
    match e.newDocument client kind options with
    | .ok (id, _) => [id]
    | .error _ => []
  | _ => []

/-- The documents that were made from outside in a run. -/
def madeIn (e : Engine) (acts : List Act) : List DocId := gather makes e acts

theorem Keeps.worked (h : Keeps direct [] [] e) (hs : Sound e) {a : Act}
    (hadmits : a.admits = false) (hwork : Worked e a e') : Keeps direct [] [] e' := by
  cases hwork with
  | step id => exact h.stepJob hs
  | @start job hcall =>
    have hwatch : job.isWatch = false := by
      cases job with
      | watch => cases hcall
      | _ => rfl
    exact h.of_same rfl rfl (fun _ _ _ => watches_spawn hs hwatch)
      fun _ _ _ _ _ _ _ hj => List.mem_append_left _ hj
  | deeds hdeeds =>
    have hreading := e.reading_listen a
    exact (h.reading hreading).deeds (hs.reading hreading) hadmits hdeeds

/-- The step lemma for acts. Documents that an act makes from outside join those that the registry
has nothing to do with. -/
theorem Keeps.act (h : Keeps direct [] [] e) (hs : Sound e) (a : Act) :
    Keeps (direct ++ e.makes a) [] [] (e.act a) := by
  have hsame {e' : Engine} (hkeeps : Keeps direct [] [] e') (hmakes : e.makes a = []) :
      Keeps (direct ++ e.makes a) [] [] e' := by
    rwa [hmakes, List.append_nil]
  cases a with
  | newDocument client kind options =>
    cases hnew : e.newDocument client kind options with
    | error => simpa only [Engine.act, makes, hnew, List.append_nil] using h
    | ok made =>
      obtain ⟨id, e'⟩ := made
      simp only [Engine.act, makes, hnew]
      obtain ⟨rfl, -, -, -, d, hdocs, -⟩ := newDocument_frame hnew
      refine (h.newDocument hs hnew).disown (by simp [hdocs]) fun j sub hj => ?_
      obtain ⟨-, d', hd', -⟩ := h.watched j _ sub ((newDocument_watches hs hnew).mp hj)
      simp [hs.docs.get?_size] at hd'
  | callPath path message =>
    refine hsame ?_ rfl
    cases hcall : e.registry.call path message with
    | error => simpa only [Engine.act, callPath, hcall] using h
    | ok called =>
      simpa only [Engine.act, callPath, hcall] using h.expel hs (Registry.expels_call hcall)
  | dispatch text => exact hsame (h.expel hs (e.registry.expels_dispatch text)) rfl
  | closePath path => exact hsame (h.expel hs (e.registry.expels_close path)) rfl
  | closeTree dir => exact hsame (h.expel hs (e.registry.expels_closeTree dir)) rfl
  | _ => exact hsame (h.worked hs rfl (e.worked_act _)) rfl

theorem keeps_run (backend : Backend) (acts : List Act) :
    Keeps ((new backend).madeIn acts) [] [] ((new backend).run acts) := by
  induction acts using List.reverseRecOn with
  | nil => exact ⟨by simp [madeIn, gather], by simp [Watches, new], by simp [new, Registry.empty],
      by simp [new]⟩
  | append_singleton acts a ih =>
    rw [run_concat, madeIn, gather_concat]
    exact ih.act (sound_run backend acts) a

/-- The registry holds exactly the live documents, those made from outside apart: a document has an
entry if and only if it is not closed, entries are under the paths of their documents, and no two
documents that are not closed have the same path. -/
structure Exact (direct : List DocId) (e : Engine) : Prop where
  live : ∀ id d, e.docs.get? id = some d → id ∉ direct →
    ((∃ path, e.registry.get? path = some id) ↔ d.state ≠ .closed)
  placed : ∀ path id, e.registry.get? path = some id →
    id ∉ direct ∧ ∃ d, e.docs.get? id = some d ∧ d.path = path
  unique : ∀ id d id' d', e.docs.get? id = some d → e.docs.get? id' = some d' → id ∉ direct →
    id' ∉ direct → d.state ≠ .closed → d'.state ≠ .closed → d.path = d'.path → id = id'

/-- If no job can go on, nobody has a closed document left to clear. -/
theorem Keeps.exact (h : Keeps direct [] [] e) (hquiet : e.isQuiet = true) : Exact direct e := by
  have hqueue : e.queue = [] := by
    simp only [isQuiet, Bool.and_eq_true, List.isEmpty_iff] at hquiet
    exact hquiet.1
  have hentry {id : DocId} {d : Document} (hd : e.docs.get? id = some d) (hid : id ∉ direct)
      (hopen : d.state ≠ .closed) : e.registry.docs.get? d.path = some id := by
    rcases h.complete id d hd with hdirect | hloose | hclosed | hentry
    · exact absurd hdirect hid
    · cases hloose
    · exact absurd hclosed hopen
    · exact hentry
  refine ⟨fun id d hd hid => ⟨?_, fun hopen => ⟨d.path, hentry hd hid hopen⟩⟩, ?_, ?_⟩
  · rintro ⟨path, hpath⟩ hclosed
    obtain ⟨-, hbare | ⟨j, sub, hj⟩⟩ := h.entries path id hpath
    · cases hbare
    · -- The job that watches a closed document stands in the queue.
      have hin := (h.subscribed hj hd).2 hclosed
      simp [hqueue] at hin
  · intro path id hpath
    obtain ⟨hd, hbare | ⟨j, sub, hj⟩⟩ := h.entries path id hpath
    · cases hbare
    · exact ⟨(h.watched j id sub hj).1, hd⟩
  · intro id d id' d' hd hd' hid hid' hopen hopen' hpath
    have hin := hentry hd hid hopen
    rw [hpath, hentry hd' hid' hopen', Option.some.injEq] at hin
    exact hin.symm

/-- **The registry holds exactly the live documents** whenever all jobs wait, and at all times the
job that watches a document leaves the entry of a newer one at the same path. -/
theorem exact_run (backend : Backend) (acts : List Act) :
    (((new backend).run acts).isQuiet = true →
      Exact ((new backend).madeIn acts) ((new backend).run acts)) ∧
    ∀ j doc table docEvents tableEvents,
      ((new backend).run acts).jobs.get? j = some (.watch doc table docEvents tableEvents) →
      ∀ path id, id ≠ doc → ((new backend).run acts).registry.get? path = some id →
        ((new backend).run (acts ++ [.step j])).registry.get? path = some id := by
  have hkeeps := keeps_run backend acts
  refine ⟨hkeeps.exact, fun j doc table docEvents tableEvents hjob path id hid hentry => ?_⟩
  rw [run_concat]
  exact hkeeps.registry_step_watch (sound_run backend acts) hjob hid hentry

/-- Two tables hold the same row. A document is opened from the first, closed by its path, and
opened again from the second before the job that watches the old one has noticed. -/
def reopening : List Act :=
  let query := documentQuery .syncstrings "s"
  let row : Record := .ofList [("path", .str "a"), ("string_id", .str "s")]
  let reply : Reply := .ok (.initial none "syncstrings" [row])
  [.newTable .syncstrings query .standard, .newTable .syncstrings query .standard,
    .openFromTable 0 0 none, .start (.connect 0 (.call 0)), .start (.connect 1 (.call 1))] ++
  [0, 1, 1, 1, 2, 2, 2, 0, 3, 4].map .step ++
    [.serve (.script .new) [.send 0 reply, .send 1 reply]] ++
  [3, 3, 4, 4, 1, 2, 5, 0, 0, 6, 7, 8, 9, 9, 9, 9, 10, 11].map .step ++
    [.resume, .step 5, .step 7] ++
  [.closePath "a", .openFromTable 0 1 none, .step 12, .step 12]

/-- What is left to do after that. -/
def settling : List Act := reopening ++ [10, 9, 13, 13, 13, 13, 14, 6, 15].map .step

theorem exact_run_reopening :
    let start := new (.script .new)
    (start.run reopening).jobs.get? 10 = some (.watch 0 0 0 0) ∧
      (start.run reopening).registry.get? "a" = some 1 ∧
      (start.run (reopening ++ [.step 10])).registry.get? "a" = some 1 ∧
      (start.run settling).isQuiet = true ∧ Exact (start.madeIn settling) (start.run settling) := by
  intro start
  have hsignals : ((start.run reopening).jobs.get? 10).map Job.signals =
      some [.documentEvent 0 0, .tableEvent 0 0] := by decide +kernel
  obtain ⟨job, hjob, heq⟩ := Option.map_eq_some_iff.mp hsignals
  rw [Job.eq_watch_of_signals heq] at hjob
  have hentry : (start.run reopening).registry.get? "a" = some 1 := by decide +kernel
  have hquiet : (start.run settling).isQuiet = true := by decide +kernel
  exact ⟨hjob, hentry, (exact_run _ _).2 _ _ _ _ _ hjob "a" 1 (by decide) hentry, hquiet,
    (exact_run _ _).1 hquiet⟩

end Engine

end LiveDocs
