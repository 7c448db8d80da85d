import LiveDocs.Proofs.Engine.Lifecycle
import LiveDocs.Proofs.Engine.Ownership
import LiveDocs.Proofs.Path

/-!
# Closing a directory

Closing a directory closes the documents at it and below it, and nothing else
(`Engine.closesTree_run`). Their paths leave the registry and all others stay; each of these
documents is closed with its tables; all other documents, in the registry or not, are what they were
before, and so are their tables. The answer is the number of paths that have left.

## Main definitions

* `Engine.Untouched`: a document and its tables are what they were.
* `Engine.ClosesTree`: what closing a directory comes to.

## Main results

* `Engine.get?_docs_closeDocuments`, `Engine.get?_tables_closeDocuments`: what closing some
  documents does to documents and tables.
* `Engine.closesTree_run`: closing a directory closes exactly its tree, in every run.
-/

namespace LiveDocs

namespace Document

theorem state_close (d : Document) : d.close.1.state = .closed := by
  by_cases h : d.state = .closed
  · simp [close, h]
  · rw [close_eq h]

theorem tables_close (d : Document) : d.close.1.tables = d.tables := by
  by_cases h : d.state = .closed
  · simp [close, h]
  · rw [close_eq h]
    rfl

theorem close_close (d : Document) : d.close.1.close.1 = d.close.1 := by
  rw [close, if_pos d.state_close]

/-- A document closes no tables but its own. -/
theorem ne_closeTable_of_mem_close {d : Document} {table : TableId} (htable : table ∉ d.tables) :
    ∀ n ∈ d.close.2, n ≠ .closeTable table := by
  simp only [tables, List.mem_cons, List.not_mem_nil, or_false, not_or] at htable
  unfold close
  split
  · simp
  · simpa [emit, eq_comm] using htable

end Document

namespace Registry

/-- The documents that are to be closed are those at paths in the tree. -/
theorem mem_closeTree_iff {r : Registry} {dir : String} {id : DocId} :
    id ∈ (r.closeTree dir).2 ↔ ∃ path, Path.Within dir path ∧ r.get? path = some id := by
  simp only [closeTree, SortedMap.mem_values_iff, SortedMap.get?_filter, Option.filter_eq_some_iff,
    Path.isInTree_iff, get?, and_comm]

/-- The paths in the tree leave the registry. -/
theorem get?_closeTree_iff {r : Registry} {dir path : String} {id : DocId} :
    (r.closeTree dir).1.get? path = some id ↔ r.get? path = some id ∧ ¬ Path.Within dir path := by
  simp only [closeTree, get?, SortedMap.get?_filter, Option.filter_eq_some_iff, Bool.not_eq_true',
    ← Bool.not_eq_true, Path.isInTree_iff]

theorem length_closeTree (r : Registry) (dir : String) :
    (r.closeTree dir).2.length = (r.openPaths.filter (Path.Within dir ·)).length := by
  have htree : (fun e : String × DocId => Path.isInTree dir e.1) =
      (fun path => decide (Path.Within dir path)) ∘ Prod.fst := by
    funext e
    rw [Bool.eq_iff_iff, Path.isInTree_iff, Function.comp_apply, decide_eq_true_eq]
  simp only [closeTree, SortedMap.values, SortedMap.filter, openPaths, SortedMap.keys,
    List.filter_map, List.length_map, htree]

theorem mem_openPaths_iff {r : Registry} {path : String} :
    path ∈ r.openPaths ↔ ∃ id, r.get? path = some id := by
  rw [openPaths, SortedMap.mem_keys_iff, SortedMap.contains, Option.isSome_iff_exists, get?]

end Registry

namespace Engine

variable {e : Engine}

/-! ## Tables -/

theorem tables_foldl {α : Type} {f : Engine → α → Engine} (h : ∀ e a, (f e a).tables = e.tables)
    (l : List α) (e : Engine) : (l.foldl f e).tables = e.tables := by
  induction l generalizing e with
  | nil => rfl
  | cons a l ih => exact (ih (f e a)).trans (h e a)

theorem tables_wake (e : Engine) (s : Signal) : (e.wake s).tables = e.tables :=
  rfl

theorem tables_closeFeed (e : Engine) (id : FeedId) : (e.closeFeed id).tables = e.tables := by
  unfold closeFeed onFeed
  split
  · rfl
  · refine tables_foldl (fun e n => ?_) _ _
    cases n with
    | first | cancel => rfl
    | events =>
      simp only [heedFeed]
      split
      · exact tables_foldl (fun e s => tables_wake e (.feedEvent id s)) _ e
      · rfl

theorem tables_heedTable (e : Engine) (id : TableId) (n : TableNotice) :
    (e.heedTable id n).tables = e.tables := by
  cases n with
  | state | rows | outcome => rfl
  | events =>
    simp only [heedTable]
    split
    · exact tables_foldl (fun e s => tables_wake e (.tableEvent id s)) _ e
    · rfl
  | closeFeed feed => exact tables_closeFeed e feed

theorem get?_tables_closeTable {id table : TableId} (hne : table ≠ id) :
    (e.closeTable id).tables.get? table = e.tables.get? table := by
  unfold closeTable onTable
  split
  · rfl
  · next t _ =>
    have hput := tables_foldl (fun e n => tables_heedTable e id n) t.close.2
      { e with tables := e.tables.insert id t.close.1 }
    simp only [putTable, hput, SortedMap.get?_insert, if_neg hne]

theorem get?_tables_heedDocument {table : TableId} {n : DocumentNotice} (hn : n ≠ .closeTable table)
    (e : Engine) (id : DocId) : (e.heedDocument id n).tables.get? table = e.tables.get? table := by
  cases n with
  | state | turn => rfl
  | events =>
    simp only [heedDocument]
    split
    · rw [tables_foldl fun e s => tables_wake e (.documentEvent id s)]
    · rfl
  | closeTable other => exact get?_tables_closeTable fun heq => hn (heq ▸ rfl)

theorem get?_tables_foldl_heedDocument {table : TableId} {notices : List DocumentNotice}
    (hnotices : ∀ n ∈ notices, n ≠ .closeTable table) (e : Engine) (id : DocId) :
    (notices.foldl (fun e n => e.heedDocument id n) e).tables.get? table = e.tables.get? table := by
  induction notices generalizing e with
  | nil => rfl
  | cons n notices ih =>
    obtain ⟨hn, hnotices⟩ := List.forall_mem_cons.mp hnotices
    rw [List.foldl_cons, ih hnotices, get?_tables_heedDocument hn]

theorem get?_tables_closeDocument {id : DocId} {table : TableId}
    (htable : ∀ d, e.docs.get? id = some d → table ∉ d.tables) :
    (e.closeDocument id).tables.get? table = e.tables.get? table := by
  unfold closeDocument onDocument
  split
  · rfl
  · next d hd =>
    exact get?_tables_foldl_heedDocument (Document.ne_closeTable_of_mem_close (htable d hd)) _ id

/-! ## Documents -/

theorem get?_docs_closeDocument (e : Engine) (id i : DocId) :
    (e.closeDocument id).docs.get? i =
      if i = id then (e.docs.get? i).map (·.close.1) else e.docs.get? i := by
  unfold closeDocument onDocument
  split
  · next hd => split <;> simp_all
  · next d hd =>
    have hdocs := (foldl_heedDocument_stirs (σ := .outside e false)
      { e with docs := e.docs.insert id d.close.1 } id d.close.2).docs
    simp only [putDocument, hdocs, SortedMap.get?_insert]
    split
    · next hi => rw [hi, hd, Option.map_some]
    · rfl

/-- Some documents are closed, and no others are. -/
theorem get?_docs_closeDocuments (docs : List DocId) (e : Engine) (i : DocId) :
    (e.closeDocuments docs).docs.get? i =
      if i ∈ docs then (e.docs.get? i).map (·.close.1) else e.docs.get? i := by
  induction docs generalizing e with
  | nil => simp [closeDocuments]
  | cons doc docs ih =>
    have hcons : e.closeDocuments (doc :: docs) = (e.closeDocument doc).closeDocuments docs := rfl
    rw [hcons, ih, get?_docs_closeDocument]
    by_cases hi : i = doc
    · cases e.docs.get? i <;> simp [hi, Document.close_close]
    · simp [hi]

/-- Tables that none of the closed documents has stay what they are. -/
theorem get?_tables_closeDocuments {docs : List DocId} {table : TableId}
    (htable : ∀ id ∈ docs, ∀ d, e.docs.get? id = some d → table ∉ d.tables) :
    (e.closeDocuments docs).tables.get? table = e.tables.get? table := by
  induction docs generalizing e with
  | nil => rfl
  | cons doc docs ih =>
    obtain ⟨hdoc, hdocs⟩ := List.forall_mem_cons.mp htable
    have hcons : e.closeDocuments (doc :: docs) = (e.closeDocument doc).closeDocuments docs := rfl
    rw [hcons, ih, get?_tables_closeDocument hdoc]
    intro id hid d hd
    rw [get?_docs_closeDocument] at hd
    split at hd
    · obtain ⟨d₀, hd₀, rfl⟩ := Option.map_eq_some_iff.mp hd
      rw [Document.tables_close]
      exact hdocs id hid d₀ hd₀
    · exact hdocs id hid d hd

theorem get?_registry_closeTree (e : Engine) (dir path : String) :
    (e.closeTree dir).2.registry.get? path = (e.registry.closeTree dir).1.get? path := by
  have hdeeds : Deeds (.outside e false) { e with registry := (e.registry.closeTree dir).1 }
      (e.closeTree dir).2 := closeDocuments_deeds rfl _ _
  rw [Registry.get?, hdeeds.registry rfl, Registry.get?]

/-! ## Trees -/

/-- A document, if there is one, and its tables are what they were. -/
def Untouched (e e' : Engine) (id : DocId) : Prop :=
  e'.docs.get? id = e.docs.get? id ∧
    ∀ d, e.docs.get? id = some d → ∀ table ∈ d.tables, e'.tables.get? table = e.tables.get? table

/-- What closing a directory comes to. -/
structure ClosesTree (dir : String) (e : Engine) (count : Nat) (e' : Engine) : Prop where
  /-- The paths in the tree leave the registry, and all others stay. -/
  paths : ∀ path id, e'.registry.get? path = some id ↔
    e.registry.get? path = some id ∧ ¬ Path.Within dir path
  /-- The documents at these paths are closed with their tables. -/
  closed : ∀ path id, e.registry.get? path = some id → Path.Within dir path →
    ∃ d, e.docs.get? id = some d ∧ e'.docs.get? id = some d.close.1 ∧ d.close.1.state = .closed ∧
      ∀ table ∈ d.tables, e'.tableIs table .closed = true
  /-- The documents at other paths are not touched. -/
  kept : ∀ path id, e.registry.get? path = some id → ¬ Path.Within dir path → Untouched e e' id
  /-- Documents that are not in the registry are not touched either. -/
  absent : ∀ id, (∀ path, e.registry.get? path ≠ some id) → Untouched e e' id
  counted : count = (e.registry.openPaths.filter (Path.Within dir ·)).length

/-- An entry is under the path of its document, so a document is at one path only. -/
theorem Keeps.path_unique {direct bare loose : List DocId} (h : Keeps direct bare loose e)
    {path path' : String} {id : DocId} (hentry : e.registry.get? path = some id)
    (hentry' : e.registry.get? path' = some id) : path = path' := by
  obtain ⟨⟨d, hd, hpath⟩, -⟩ := h.entries path id hentry
  obtain ⟨⟨d', hd', hpath'⟩, -⟩ := h.entries path' id hentry'
  rw [hd, Option.some.injEq] at hd'
  rw [← hpath, ← hpath', hd']

/-- A document that is closed with a directory is closed with its tables. -/
theorem closed_closeTree {dir path : String} {id : DocId} {d : Document}
    (hshut : Shut (e.closeTree dir).2) (hd : e.docs.get? id = some d)
    (hentry : e.registry.get? path = some id) (hwithin : Path.Within dir path) :
    (e.closeTree dir).2.docs.get? id = some d.close.1 ∧
      ∀ table ∈ d.tables, (e.closeTree dir).2.tableIs table .closed = true := by
  have hin : id ∈ (e.registry.closeTree dir).2 :=
    Registry.mem_closeTree_iff.mpr ⟨path, hwithin, hentry⟩
  have hclosed : (e.closeTree dir).2.docs.get? id = some d.close.1 := by
    simp only [closeTree, get?_docs_closeDocuments, if_pos hin, hd, Option.map_some]
  refine ⟨hclosed, fun table htable => ?_⟩
  rw [← d.tables_close] at htable
  obtain ⟨t, ht, hstate⟩ := hshut id _ hclosed d.state_close table
    (by simpa [Document.tables] using htable)
  simp [tableIs, ht, hstate]

/-- Only documents at paths in the tree are touched. -/
theorem untouched_closeTree (h : Apart e) {dir : String} {id : DocId}
    (hid : ∀ path, e.registry.get? path = some id → ¬ Path.Within dir path) :
    Untouched e (e.closeTree dir).2 id := by
  have hout : id ∉ (e.registry.closeTree dir).2 := by
    rw [Registry.mem_closeTree_iff]
    rintro ⟨path, hwithin, hentry⟩
    exact hid path hentry hwithin
  refine ⟨?_, fun d hd table htable => ?_⟩
  · simp only [closeTree, get?_docs_closeDocuments, if_neg hout]
  · refine get?_tables_closeDocuments (e := { e with registry := (e.registry.closeTree dir).1 }) ?_
    intro id' hid' d' hd' htable'
    have hne : id ≠ id' := fun heq => hout (heq ▸ hid')
    exact h id d id' d' hd hd' hne htable htable'

/-- Afterwards there is nothing left to close in the tree. -/
theorem closeTree_again (e : Engine) (dir : String) :
    ((e.closeTree dir).2.closeTree dir).1 = 0 := by
  have hnone : (e.closeTree dir).2.registry.openPaths.filter (Path.Within dir ·) = [] := by
    refine List.filter_eq_nil_iff.mpr fun path hpath => ?_
    obtain ⟨id, hentry⟩ := Registry.mem_openPaths_iff.mp hpath
    rw [get?_registry_closeTree, Registry.get?_closeTree_iff] at hentry
    simpa using hentry.2
  change ((e.closeTree dir).2.registry.closeTree dir).2.length = 0
  rw [Registry.length_closeTree, hnone, List.length_nil]

/-- **Closing a directory closes exactly its tree**, in every run, and a second time it closes
nothing. -/
theorem closesTree_run (backend : Backend) (acts : List Act) (dir : String) :
    ClosesTree dir ((new backend).run acts) (((new backend).run acts).closeTree dir).1
        (((new backend).run acts).closeTree dir).2 ∧
      ((((new backend).run acts).closeTree dir).2.closeTree dir).1 = 0 := by
  have hkeeps := keeps_run backend acts
  have hapart := apart_run backend acts
  have hshut : Shut (((new backend).run acts).closeTree dir).2 := by
    have hshut := shut_run backend (acts ++ [.closeTree dir])
    rwa [run_concat] at hshut
  generalize (new backend).run acts = e at hkeeps hapart hshut ⊢
  refine ⟨⟨fun path id => ?_, fun path id hentry hwithin => ?_, fun path id hentry hout => ?_,
    fun id hid => ?_, e.registry.length_closeTree dir⟩, e.closeTree_again dir⟩
  · rw [get?_registry_closeTree, Registry.get?_closeTree_iff]
  · obtain ⟨⟨d, hd, -⟩, -⟩ := hkeeps.entries path id hentry
    obtain ⟨hclosed, htables⟩ := closed_closeTree hshut hd hentry hwithin
    exact ⟨d, hd, hclosed, d.state_close, htables⟩
  · refine untouched_closeTree hapart fun path' hentry' => ?_
    rwa [← hkeeps.path_unique hentry hentry']
  · exact untouched_closeTree hapart fun path hentry => absurd hentry (hid path)

end Engine

end LiveDocs
