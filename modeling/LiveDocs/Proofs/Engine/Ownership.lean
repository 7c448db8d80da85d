import LiveDocs.Proofs.Engine.Membership

/-!
# The tables of documents

A document has two tables of its own. They are made with it and stay with it, so in every run no
two documents have a table in common (`Engine.apart_run`), and what happens to the tables of one
document does not concern another.

Whatever happens, at most one document is added at a time, and its tables are new (`Engine.Founds`).
Most of what happens adds none (`Engine.Steady`).

## Main definitions

* `Document.tables`: the tables of a document.
* `Engine.Apart`: no two documents have a table in common.
* `Engine.Steady`, `Engine.Founds`: the documents stay with their tables, or one with new tables is
  added.
-/

namespace LiveDocs

def Document.tables (d : Document) : List TableId := [d.strings, d.patches]

theorem Document.Trail.tables {commits : Bool} {d d' : Document} (h : Trail commits d d') :
    d'.tables = d.tables := by
  obtain ⟨-, hstrings, hpatches⟩ := h.place
  simp only [Document.tables, hstrings, hpatches]

namespace Engine

variable {σ : Scope} {e e' e'' : Engine} {direct : List DocId}

/-- No two documents have a table in common. -/
def Apart (e : Engine) : Prop :=
  ∀ id d id' d', e.docs.get? id = some d → e.docs.get? id' = some d' → id ≠ id' →
    d.tables.Disjoint d'.tables

/-- No document is added, and those that there are keep their tables. -/
def Steady (e e' : Engine) : Prop :=
  ∀ id d', e'.docs.get? id = some d' → ∃ d, e.docs.get? id = some d ∧ d'.tables = d.tables

/-- At most one document is added, and its tables are new. -/
def Founds (e e' : Engine) : Prop :=
  ∀ id d', e'.docs.get? id = some d' →
    (∃ d, e.docs.get? id = some d ∧ d'.tables = d.tables) ∨
      id = e.docs.size ∧ ∀ table ∈ d'.tables, e.tables.size ≤ table

namespace Steady

theorem of_docs (h : e'.docs = e.docs) : Steady e e' := by
  intro id d' hd'
  exact ⟨d', h ▸ hd', rfl⟩

theorem trans (h : Steady e e') (h' : Steady e' e'') : Steady e e'' := by
  intro id d'' hd''
  obtain ⟨d', hd', htables'⟩ := h' id d'' hd''
  obtain ⟨d, hd, htables⟩ := h id d' hd'
  exact ⟨d, hd, htables'.trans htables⟩

/-- A document is replaced by one with the same tables. -/
theorem insert_doc {id : DocId} {d d' : Document} (hd : e.docs.get? id = some d)
    (hdocs : e'.docs = e.docs.insert id d') (htables : d'.tables = d.tables) : Steady e e' := by
  intro i d₁ hd₁
  rw [hdocs, SortedMap.get?_insert] at hd₁
  split at hd₁
  · next hi =>
    cases hd₁
    exact ⟨d, hi ▸ hd, htables⟩
  · exact ⟨d₁, hd₁, rfl⟩

theorem founds (h : Steady e e') : Founds e e' := fun id d' hd' => .inl (h id d' hd')

end Steady

/-- One document is added, and the work that follows adds none. -/
theorem Founds.steady (h : Founds e e') (h' : Steady e' e'') : Founds e e'' := by
  intro id d'' hd''
  obtain ⟨d', hd', htables'⟩ := h' id d'' hd''
  rcases h id d' hd' with ⟨d, hd, htables⟩ | hnew
  · exact .inl ⟨d, hd, htables'.trans htables⟩
  · exact .inr (htables' ▸ hnew)

/-- New tables are not among those that documents have. -/
theorem Apart.founds (h : Apart e) (hs : Sound e) (hfounds : Founds e e') : Apart e' := by
  have hold {id : DocId} {d : Document} (hd : e.docs.get? id = some d) :
      ∀ table ∈ d.tables, table < e.tables.size := by
    intro table htable
    have hin : table = d.strings ∨ table = d.patches := by simpa [Document.tables] using htable
    exact (hs.tables table).mp (hs.sited id d hd table hin)
  have hmixed {id : DocId} {d d₁ d₁' : Document} (hd : e.docs.get? id = some d)
      (hd₁ : d₁.tables = d.tables) (hnew : ∀ table ∈ d₁'.tables, e.tables.size ≤ table) :
      d₁.tables.Disjoint d₁'.tables := by
    intro table htable htable'
    exact Nat.not_lt.mpr (hnew table htable') (hold hd table (hd₁ ▸ htable))
  intro id d₁ id' d₁' hd₁ hd₁' hne
  rcases hfounds id d₁ hd₁ with ⟨d, hd, htables⟩ | ⟨rfl, hnew⟩ <;>
    rcases hfounds id' d₁' hd₁' with ⟨d', hd', htables'⟩ | ⟨rfl, hnew'⟩
  · rw [htables, htables']
    exact h id d id' d' hd hd' hne
  · exact hmixed hd htables hnew'
  · exact fun table htable htable' => hmixed hd' htables' hnew htable' htable
  · exact absurd rfl hne

/-! ## What happens -/

/-- Who may not change the registry makes no documents. -/
theorem Deed.steady (h : Deed σ e e') (hadmits : σ.admits = false) : Steady e e' := by
  cases h with
  | stir hstir => exact .of_docs (Stirs.docs (.single hstir))
  | turn hd hturns => exact .insert_doc hd rfl hturns.trail.tables
  | @close _ id d hd hopen _ hstirs =>
    have htrail : Document.Trail false d d.close.1 := .single (.inr ⟨rfl, hopen, rfl⟩)
    exact .insert_doc hd hstirs.docs htrail.tables
  | make hmakes => simp [hadmits] at hmakes
  | register => exact .of_docs rfl

theorem Deeds.steady (h : Deeds σ e e') (hadmits : σ.admits = false) : Steady e e' := by
  induction h with
  | refl => exact .of_docs rfl
  | tail _ hdeed ih => exact ih.trans (hdeed.steady hadmits)

theorem Reading.steady {read : DocId → Nat → List DocumentEvent} (h : Reading e read e') :
    Steady e e' := by
  cases h with
  | none => exact .of_docs rfl
  | some hd => exact .insert_doc hd rfl rfl

theorem hear_steady {id : JobId} {job : Job} (hjob : e.jobs.get? id = some job) :
    Steady e (e.hear job) := by
  have hlisten := (reading_listen e (.step id)).steady
  simpa only [listen, hjob] using hlisten

/-- The two tables of a new document are made for it, so no other document can have them. -/
theorem newDocument_founds {client : ClientId} {kind : Kind} {o : DocumentOptions} {id : DocId}
    (h : e.newDocument client kind o = .ok (id, e')) : Founds e e' := by
  obtain ⟨query, query', stringId, e₁, e₂, rfl, rfl, rfl, rfl⟩ := newDocument_eq_ok h
  intro i d hd
  change (e.docs.insert e.docs.size _).get? i = some d at hd
  rw [SortedMap.get?_insert] at hd
  split at hd
  · next hi =>
    cases hd
    refine .inr ⟨hi, ?_⟩
    have hgrown := e.tables.size_le_size_insert e.tables.size (.new .syncstrings query o.settings)
    simpa [Document.tables, Document.new, newTable] using hgrown
  · exact .inl ⟨d, hd, rfl⟩

theorem watch_steady (e : Engine) (doc : DocId) (table : TableId) :
    Steady e (e.watch doc table) := by
  let e₁ := (e.subscribeDocument doc).2
  let e₂ := (e₁.subscribeTable table).2
  have hdeeds₁ : Deeds (.outside e false) e e₁ := subscribeDocument_deeds e doc
  have hdeeds₂ : Deeds (.outside e false) e e₂ :=
    hdeeds₁.trans (subscribeTable_stirs e₁ table).deeds
  simp only [watch]
  split
  · exact (hdeeds₂.trans (closeDocument_deeds rfl e₂ doc)).steady rfl
  · exact hdeeds₂.steady rfl

theorem openRow_founds (e : Engine) (o : Opening) (row : Record) :
    Founds e (e.openRow o row).1 := by
  simp only [openRow]
  split
  · exact (Steady.of_docs rfl).founds
  · split
    · exact (Steady.of_docs rfl).founds
    · next doc e₁ hmade =>
      obtain ⟨options, -, hnew⟩ := createDocument_eq_ok hmade
      let e₂ : Engine :=
        { e₁ with registry := e₁.registry.insert ((row.getStr? "path").getD "") doc }
      have hwatch : Steady e₁ (e₂.watch doc o.table) := e₂.watch_steady doc o.table
      have hhook := (startHook_stirs (σ := .outside e false) (e₂.watch doc o.table) doc o.client
        ((row.getStr? "path").getD "")).docs
      exact (newDocument_founds hnew).steady (hwatch.trans (.of_docs hhook))

/-! ## Steps and acts -/

section Steps

variable (hs : Sound e) {id : JobId}
include hs

/-- A job that does not change the registry. -/
theorem founds_step_plain {job : Job} (hjob : e.jobs.get? id = some job)
    (hadmits : job.admits = false) : Founds e (e.stepJob id) := by
  refine Steady.founds ?_
  have hstep := stepped_stepJob e id
  generalize e.stepJob id = e' at hstep ⊢
  cases hstep with
  | absent | wait | yield => exact .of_docs rfl
  | goOn hjob' hlook =>
    cases hjob.symm.trans hjob'
    exact (hear_steady hjob).trans ((hs.goOn hjob hlook).1.steady hadmits)
  | finish hjob' hlook =>
    cases hjob.symm.trans hjob'
    exact (hear_steady hjob).trans ((hs.finish hjob hlook).steady hadmits)

theorem founds_step_watch (h : Keeps direct [] [] e) {doc : DocId} {table : TableId}
    {docEvents tableEvents : Nat}
    (hjob : e.jobs.get? id = some (.watch doc table docEvents tableEvents)) :
    Founds e (e.stepJob id) := by
  refine Steady.founds ?_
  have hlook := h.watchLook hs hjob
  simp only [stepJob, hjob]
  generalize e.look (.watch doc table docEvents tableEvents) = progress at hlook
  cases hlook with
  | wait => exact .of_docs rfl
  | goOn hdeeds => exact (hear_steady hjob).trans (hdeeds.steady rfl)
  | @endWatch e' d hdeeds hd _ =>
    have hclose := (closeTable_stirs (σ := .outside e false) e' table).docs
    simp only [endWatch_eq hd table]
    exact ((hear_steady hjob).trans (hdeeds.steady rfl)).trans (.of_docs hclose)

omit hs in
/-- A job that opens a document from its row makes one document in the whole step. -/
theorem founds_step_opening {table : TableId} {condition : RowsCondition} {limit : Option Limit}
    {o : Opening} (hjob : e.jobs.get? id = some (.awaitRows table condition limit (.opening o))) :
    Founds e (e.stepJob id) := by
  rcases e.look_opening table condition limit o with hwait | ⟨e₀, e₁, hfinish, hopened, hstirs⟩
  · simp only [stepJob, hjob, hwait]
    exact (Steady.of_docs rfl).founds
  · simp only [stepJob, hjob, hfinish]
    rcases hopened with rfl | ⟨row, rfl⟩
    · exact (Steady.of_docs hstirs.docs).founds
    · exact (e.openRow_founds o row).steady (.of_docs hstirs.docs)

/-- Of all jobs only those that open a row make a document. -/
theorem founds_stepJob (h : Keeps direct [] [] e) (id : JobId) : Founds e (e.stepJob id) := by
  cases hjob : e.jobs.get? id with
  | none =>
    simp only [stepJob, hjob]
    exact (Steady.of_docs rfl).founds
  | some job =>
    cases hadmits : job.admits with
    | false => exact founds_step_plain hs hjob hadmits
    | true =>
      unfold Job.admits at hadmits
      split at hadmits
      · exact founds_step_watch hs h hjob
      · exact founds_step_opening hjob
      · cases hadmits

end Steps

/-- Documents that leave the registry are closed, and none is added. -/
theorem expel_steady (e : Engine) (registry : Registry) (docs : List DocId) :
    Steady e (Engine.closeDocuments { e with registry } docs) := by
  have hdeeds : Deeds (.outside e false) { e with registry }
      (Engine.closeDocuments { e with registry } docs) := closeDocuments_deeds rfl _ docs
  exact hdeeds.steady rfl

/-- The step lemma: at most one document is added in an act. -/
theorem founds_act (h : Keeps direct [] [] e) (hs : Sound e) (a : Act) : Founds e (e.act a) := by
  have hworked {a : Act} (hadmits : a.admits = false) : Founds e (e.act a) := by
    have hwork := e.worked_act a
    generalize e.act a = e' at hwork ⊢
    cases hwork with
    | step id => exact founds_stepJob hs h id
    | start => exact (Steady.of_docs rfl).founds
    | deeds hdeeds => exact ((e.reading_listen a).steady.trans (hdeeds.steady hadmits)).founds
  cases a with
  | newDocument client kind options =>
    cases hnew : e.newDocument client kind options with
    | error =>
      simp only [act, hnew]
      exact (Steady.of_docs rfl).founds
    | ok =>
      simp only [act, hnew]
      exact newDocument_founds hnew
  | callPath path message =>
    cases hcall : e.registry.call path message with
    | error =>
      simp only [act, callPath, hcall]
      exact (Steady.of_docs rfl).founds
    | ok =>
      simp only [act, callPath, hcall]
      exact (e.expel_steady _ _).founds
  | dispatch text => exact (e.expel_steady _ _).founds
  | closePath path => exact (e.expel_steady _ _).founds
  | closeTree dir => exact (e.expel_steady _ _).founds
  | _ => exact hworked rfl

/-- **No two documents have a table in common**, in any run. -/
theorem apart_run (backend : Backend) (acts : List Act) : Apart ((new backend).run acts) := by
  induction acts using List.reverseRecOn with
  | nil =>
    intro id d id' d' hd
    simp [new] at hd
  | append_singleton acts a ih =>
    rw [run_concat]
    have hs := sound_run backend acts
    exact ih.founds hs (founds_act (keeps_run backend acts) hs a)

end Engine

end LiveDocs
