import LiveDocs.Proofs.Database.Effects
import LiveDocs.Proofs.Query
import LiveDocs.Proofs.Table.Rows

/-!
# Tables that follow a feed

A table that takes the first rows of a feed and follows its changes has, at every time, the rows
that the query of the feed selects in the database, each as far as the query asks for it
(`Database.rows_follow_selection`).

The database sends whole rows and the table merges field by field, so a field could outlive its
row in the table. It does not: a row that is written to keeps its fields, and one that goes away,
or that the query selects no more, leaves the table. A row stays as it is if it would only change
the sign of a zero, so rows are compared as JSON values.

## Main definitions

* `Query.view`: what a query shows of a row that may be absent.
* `Table.follow`: a table after some changes.
* `Database.selection`: the rows that a query selects, by key.
* `Database.Follows`: a table shows what a query selects, and its feed is in place.
-/

namespace LiveDocs

namespace Query

/-- A query returns the key of a row. -/
@[simp] theorem key?_project (q : Query) (schema : Schema) (row : Record) :
    schema.key? (q.project schema row) = schema.key? row := by
  refine Record.key?_congr fun field hfield => ?_
  rw [get?_project]
  simp [hfield]

/-- A query returns no less of a row with more fields. -/
theorem isSome_get?_project {q : Query} {schema : Schema} {old row : Record}
    (h : ∀ field, (old.get? field).isSome → (row.get? field).isSome) (field : String)
    (hfield : ((q.project schema old).get? field).isSome) :
    ((q.project schema row).get? field).isSome := by
  rw [get?_project] at hfield ⊢
  split at hfield
  · next hasked =>
    rw [if_pos hasked]
    exact h field hfield
  · cases hfield

/-- What a query shows of a row that may be absent: nothing, if the row does not match. -/
def view (q : Query) (schema : Schema) (row : Option Record) : Option Record :=
  (row.filter q.matchesRow).map (q.project schema)

end Query

namespace Table

/-- A table after some changes of its feed. -/
def follow (t : Table) (changes : List Change) : Table :=
  changes.foldl (fun t c => (t.applyChange c).1) t

@[simp] theorem follow_nil (t : Table) : t.follow [] = t := rfl

@[simp] theorem follow_cons (t : Table) (c : Change) (changes : List Change) :
    t.follow (c :: changes) = (t.applyChange c).1.follow changes := rfl

theorem follow_append (t : Table) (changes more : List Change) :
    t.follow (changes ++ more) = (t.follow changes).follow more := List.foldl_append

@[simp] theorem schema_applyChange (t : Table) (c : Change) :
    (t.applyChange c).1.schema = t.schema := by
  unfold applyChange
  split
  · split <;> simp
  all_goals
    split
    · rfl
    · split <;> simp

@[simp] theorem schema_follow (t : Table) (changes : List Change) :
    (t.follow changes).schema = t.schema := by
  induction changes generalizing t with
  | nil => rfl
  | cons c changes ih => rw [follow_cons, ih, schema_applyChange]

/-- A table that is not closed takes the first rows of a feed that have keys. -/
theorem finishConnect_eq_ok {t : Table} (h : t.state ≠ .closed) (rows : List Record) :
    ∃ t' notices, t.finishConnect rows = .ok (t', notices) ∧ t'.schema = t.schema ∧
      t'.rows = .ofList (rows.filterMap fun row =>
        (t.schema.key? row).map fun key => (key, row)) := by
  simp only [finishConnect, if_neg h]
  exact ⟨_, _, rfl, rfl, rfl⟩

/-- A row that is new to a query, or that changes inside it, is merged into the table. -/
theorem rows_applyChange_write (t : Table) {action : Action} (haction : action ≠ .delete)
    {row : Record} {key : String} (hkey : t.schema.key? row = some key) (old : Option Record) :
    (t.applyChange ⟨action, some row, old⟩).1.rows = (t.mergeRow key row).1.rows := by
  cases action with
  | delete => exact absurd rfl haction
  | insert | update => simp [applyChange, hkey]

/-- A row that goes away, or that a query selects no more, leaves the table. -/
theorem rows_applyChange_delete (t : Table) {row : Record} {key : String}
    (hkey : t.schema.key? row = some key) (new : Option Record) :
    (t.applyChange ⟨.delete, new, some row⟩).1.rows = (t.replaceRow key none).1.rows := by
  simp [applyChange, hkey]

/-- A table that shows what a query selects of a row does so after the row was rewritten and the
table was told. -/
theorem follow_changeFor {m : Table} {q : Query} {schema : Schema} {key : String}
    {old new : Option Record} (hschema : m.schema = schema)
    (hold : ∀ row, old = some row → schema.key? row = some key)
    (hnew : Database.Rewrite schema key old new)
    (hview : (m.rows.get? key).map Record.unsigned =
      (q.view schema old).map Record.unsigned) (k : String) :
    ((m.follow (Database.changeFor q schema old new).toList).rows.get? k).map Record.unsigned =
      (if k = key then q.view schema new else m.rows.get? k).map Record.unsigned := by
  subst hschema
  unfold Query.view at hview ⊢
  unfold Database.changeFor
  cases hbefore : old.filter q.matchesRow with
  | none =>
    rw [hbefore, Option.map_none, Option.map_none, Option.map_eq_none_iff] at hview
    cases hafter : new.filter q.matchesRow with
    | none =>
      -- The row is not selected before or after.
      by_cases hk : k = key
      · simp [hk, hview]
      · simp [hk]
    | some row =>
      obtain ⟨rfl, -⟩ := Option.filter_eq_some_iff.mp hafter
      have hkey : m.schema.key? (q.project m.schema row) = some key := by
        rw [Query.key?_project]
        exact hnew.key?
      have hempty : Record.merge .empty (q.project m.schema row) = q.project m.schema row :=
        Record.merge_eq_right fun field hfield => by simp at hfield
      simp only [Option.toList_some, follow_cons, follow_nil]
      rw [rows_applyChange_write m (by decide) hkey, get?_mergeRow, hview, Option.getD_none, hempty]
      rfl
  | some oldRow =>
    obtain ⟨rfl, -⟩ := Option.filter_eq_some_iff.mp hbefore
    cases hafter : new.filter q.matchesRow with
    | none =>
      have hkey : m.schema.key? (q.project m.schema oldRow) = some key := by
        rw [Query.key?_project]
        exact hold oldRow rfl
      simp only [Option.toList_some, follow_cons, follow_nil]
      rw [rows_applyChange_delete m hkey, get?_replaceRow]
      rfl
    | some row =>
      obtain ⟨rfl, -⟩ := Option.filter_eq_some_iff.mp hafter
      have hkey : m.schema.key? (q.project m.schema row) = some key := by
        rw [Query.key?_project]
        exact hnew.key?
      -- What the table has of the row has no field that the new row lacks.
      have hmerge : (((m.rows.get? key).getD .empty).merge (q.project m.schema row)).unsigned =
          (q.project m.schema row).unsigned := by
        rw [hbefore, Option.map_some, Option.map_some] at hview
        obtain ⟨shown, hshown, hsame⟩ := Option.map_eq_some_iff.mp hview
        rw [hshown, Option.getD_some, Record.unsigned_merge, hsame, ← Record.unsigned_merge,
          Record.merge_eq_right (Query.isSome_get?_project fun field => hnew.isSome_get?)]
      simp only [Option.toList_some, follow_cons, follow_nil]
      rw [rows_applyChange_write m (by decide) hkey, get?_mergeRow]
      split
      · simpa using hmerge
      · rfl

end Table

namespace Response

/-- The rows in a first response are read back. -/
theorem rows?_initial (id : Option String) (table : String) (rows : List Record) :
    (initial id table rows).rows? table = some rows := by
  simp [initial, rows?, SortedMap.ofList, List.filterMap_map]

end Response

namespace Database

/-- The rows that a query selects, as far as it asks for them, by their keys. -/
def selection (db : Database) (q : Query) : Rows :=
  match db.tables.get? q.table with
  | none => .empty
  | some t =>
    .ofList ((t.rows.values.filter q.matchesRow).filterMap fun row =>
      (t.schema.key? row).map fun key => (key, q.project t.schema row))

/-- Rows that stand under their keys are selected in place. -/
theorem filterMap_keyed {schema : Schema} {q : Query} {entries : List (String × Record)}
    (h : ∀ e ∈ entries, schema.key? e.2 = some e.1) :
    ((entries.map Prod.snd).filter q.matchesRow).filterMap
        (fun row => (schema.key? row).map fun key => (key, q.project schema row)) =
      (entries.filter fun e => q.matchesRow e.2).map fun e => (e.1, q.project schema e.2) := by
  induction entries with
  | nil => rfl
  | cons e entries ih =>
    obtain ⟨he, hentries⟩ := List.forall_mem_cons.mp h
    rw [List.map_cons, List.filter_cons, List.filter_cons]
    split
    · rw [List.filterMap_cons, he, Option.map_some, ih hentries, List.map_cons]
    · exact ih hentries

theorem selection_eq {db : Database} (hkeyed : Keyed db.tables) {q : Query} {t : StoredTable}
    (ht : db.tables.get? q.table = some t) :
    db.selection q = (t.rows.filter fun _ row => q.matchesRow row).map fun _ row =>
      q.project t.schema row := by
  have hentries : ∀ e ∈ t.rows.entries, t.schema.key? e.2 = some e.1 := fun e he =>
    hkeyed.keyed ht (SortedMap.get?_eq_some_iff.mpr he)
  simp only [selection, ht, SortedMap.values, filterMap_keyed hentries]
  exact SortedMap.ofList_entries
    ((t.rows.filter fun _ row => q.matchesRow row).map fun _ row => q.project t.schema row)

theorem get?_selection {db : Database} (hkeyed : Keyed db.tables) {q : Query} {t : StoredTable}
    (ht : db.tables.get? q.table = some t) (key : String) :
    (db.selection q).get? key = q.view t.schema (t.rows.get? key) := by
  rw [selection_eq hkeyed ht, SortedMap.get?_map, SortedMap.get?_filter, Query.view]

/-- The posts of a run, in order. -/
def runPosts (db : Database) : List Action → List Post
  | [] => []
  | a :: rest => db.posts a ++ (db.perform a).runPosts rest

/-- The feed of a query is in place, and a table shows what the query selects. -/
structure Follows (db : Database) (q : Query) (sink : SinkId) (m : Table) : Prop where
  keyed : Keyed db.tables
  feed : ∃ id, db.feedsAt sink = [⟨id, q, sink⟩]
  table : ∃ t, db.tables.get? q.table = some t ∧ m.schema = t.schema ∧
    ∀ key, (m.rows.get? key).map Record.unsigned =
      (q.view t.schema (t.rows.get? key)).map Record.unsigned

/-- A table that hears of every change goes on following. -/
theorem Follows.perform {db : Database} {q : Query} {sink : SinkId} {m : Table}
    (h : db.Follows q sink m) {a : Action} (ha : a.Spares sink) :
    (db.perform a).Follows q sink (m.follow (changesAt sink (db.posts a))) := by
  obtain ⟨id, hfeed⟩ := h.feed
  obtain ⟨t, ht, hschema, hview⟩ := h.table
  obtain ⟨op, -, heffect⟩ := perform_effect db a
  refine ⟨h.keyed.perform a, ⟨id, by rw [heffect.feeds sink ha, hfeed]⟩, ?_⟩
  rw [heffect.tables, heffect.changesAt ha, hfeed]
  cases hchange : op.bind (·.change? db.tables) with
  | none => exact ⟨t, ht, hschema, hview⟩
  | some c =>
    obtain ⟨op, -, hc⟩ := Option.bind_eq_some_iff.mp hchange
    obtain ⟨⟨table, hu⟩, -, hnew⟩ := Operation.change?_eq_some hc
    have hone : ([⟨id, q, sink⟩] : List StoredFeed).filterMap (fun f => c.told f.query) =
        (c.told q).toList := by
      cases htold : c.told q <;> simp [htold]
    rw [Option.elim_some, Option.elim_some, hone, RowChange.told]
    by_cases hname : q.table = c.table.schema.name
    · -- The table of the query: the two are one and the same.
      have hsame : c.table = t := by
        rw [h.keyed.named hu] at hname
        rw [hname, hu] at ht
        exact Option.some.inj ht
      subst hsame
      refine ⟨{ c.table with rows := putRow c.table.rows c.key c.new },
        by simp [RowChange.applyTo, hname], by simpa using hschema, fun k => ?_⟩
      have hold (row : Record) (hrow : c.old = some row) : c.table.schema.key? row = some c.key :=
        h.keyed.keyed hu hrow
      rw [if_pos hname, Table.follow_changeFor hschema hold hnew (hview c.key), get?_putRow]
      split
      · rfl
      · exact hview k
    · rw [if_neg hname]
      exact ⟨t, by simp [RowChange.applyTo, hname, ht], hschema, hview⟩

theorem Follows.run {db : Database} {q : Query} {sink : SinkId} {m : Table}
    (h : db.Follows q sink m) {actions : List Action} (hactions : ∀ a ∈ actions, a.Spares sink) :
    (db.run actions).Follows q sink (m.follow (changesAt sink (db.runPosts actions))) := by
  induction actions generalizing db m with
  | nil => exact h
  | cons a rest ih =>
    obtain ⟨ha, hrest⟩ := List.forall_mem_cons.mp hactions
    rw [runPosts, changesAt_append, Table.follow_append]
    exact ih (h.perform ha) hrest

theorem Follows.sameRow {db : Database} {q : Query} {sink : SinkId} {m : Table}
    (h : db.Follows q sink m) (key : String) :
    Table.sameRow (m.rows.get? key) ((db.selection q).get? key) = true := by
  obtain ⟨t, ht, -, hview⟩ := h.table
  rw [get?_selection h.keyed ht, Table.sameRow_iff]
  exact hview key

/-- A live query is answered with the rows it selects and stays as a feed. -/
theorem query_changefeed {db : Database} {request : Request} {q : Query} {t : StoredTable}
    {alive : SinkId → Bool} {sink : SinkId}
    (hget : Statement.parse request.query = .ok (.get q)) (hchanges : request.changes = true)
    (ht : db.tables.get? q.table = some t) (halive : alive sink = true) :
    ∃ id, (db.query alive request sink).2 = [.send sink (.ok (.initial (some id) q.table
        ((t.rows.values.filter q.matchesRow).map (q.project t.schema))))] ∧
      (db.query alive request sink).1.tables = db.tables ∧
      (db.query alive request sink).1.feeds = db.feeds ++ [⟨id, q, sink⟩] := by
  refine ⟨feedId db.feedCount, ?_⟩
  simp [query, hget, hchanges, Database.get, select, ht, halive]

/-- A table that takes the first rows of a feed has the rows that the query selects. -/
theorem finishConnect_selection {db : Database} {q : Query} {t : StoredTable}
    (ht : db.tables.get? q.table = some t) {m : Table}
    (hschema : m.schema = t.schema) (hopen : m.state ≠ .closed) :
    ∃ mirror notices, m.finishConnect
        ((t.rows.values.filter q.matchesRow).map (q.project t.schema)) = .ok (mirror, notices) ∧
      mirror.schema = t.schema ∧ mirror.rows = db.selection q := by
  obtain ⟨mirror, notices, hfinish, hmirror, hrows⟩ := Table.finishConnect_eq_ok hopen
    ((t.rows.values.filter q.matchesRow).map (q.project t.schema))
  refine ⟨mirror, notices, hfinish, hmirror.trans hschema, ?_⟩
  simp only [hrows, selection, ht, hschema, List.filterMap_map, Function.comp_def,
    Query.key?_project]

/-- **Changefeeds reproduce their queries.** A table that takes the first rows of a live query and
follows the changes that are sent has the rows that the query selects, in every state that a
database can be in and whatever is done to it from then on. -/
theorem rows_follow_selection {db : Database} (hdb : db.Reachable) {request : Request} {q : Query}
    {t : StoredTable} {alive : SinkId → Bool} {sink : SinkId} {m : Table} {actions : List Action}
    (hget : Statement.parse request.query = .ok (.get q)) (hchanges : request.changes = true)
    (ht : db.tables.get? q.table = some t) (halive : alive sink = true)
    (hfresh : ∀ f ∈ db.feeds, f.sink ≠ sink) (hschema : m.schema = t.schema)
    (hopen : m.state ≠ .closed) (hactions : ∀ a ∈ actions, a.Spares sink) :
    ∃ response rows mirror notices,
      (db.query alive request sink).2 = [.send sink (.ok response)] ∧
      response.rows? q.table = some rows ∧ m.finishConnect rows = .ok (mirror, notices) ∧
      ∀ key, Table.sameRow
        ((mirror.follow (changesAt sink
          ((db.query alive request sink).1.runPosts actions))).rows.get? key)
        ((((db.query alive request sink).1.run actions).selection q).get? key) = true := by
  obtain ⟨id, hposts, htables, hfeeds⟩ := query_changefeed hget hchanges ht halive
  have hkeyed := hdb.keyed
  obtain ⟨mirror, notices, hfinish, hmirror, hrows⟩ :=
    finishConnect_selection ht hschema hopen
  refine ⟨_, _, mirror, notices, hposts, Response.rows?_initial _ _ _, hfinish, ?_⟩
  have hfeed : (db.query alive request sink).1.feedsAt sink = [⟨id, q, sink⟩] := by
    have hnone : db.feeds.filter (fun f => f.sink == sink) = [] :=
      List.filter_eq_nil_iff.mpr fun f hf => by simpa using hfresh f hf
    simp [feedsAt, hfeeds, List.filter_append, hnone]
  have hfollows : (db.query alive request sink).1.Follows q sink mirror := by
    refine ⟨htables ▸ hkeyed, ⟨id, hfeed⟩, t, htables ▸ ht, hmirror, fun key => ?_⟩
    rw [hrows, get?_selection hkeyed ht]
  exact (hfollows.run hactions).sameRow

def numberedRow (id x : Nat) : Record :=
  (SortedMap.empty.insert "id" (.ofNat id)).insert "x" (.ofNat x)

def numberedRows : Database :=
  (empty [⟨"t", ["id"]⟩]).perform (.upsert (fun _ => true) "t" (numberedRow 1 7))

/-- The rows with `x = 7`. -/
def sevens : Query := (Query.all "t").withFilter "x" (.ofNat 7)

/-- A second row comes in, the first one leaves by a conditional write, and a third one comes and
goes. -/
def numberedRun : List Action :=
  [.upsert (fun _ => true) "t" (numberedRow 2 7),
    .query (fun _ => true) (.setIf "t" (numberedRow 1 8)
      (SortedMap.empty.insert "x" (.ofNat 7)) 0) 1,
    .upsert (fun _ => true) "t" (numberedRow 3 7),
    .delete (fun _ => true) "t" (SortedMap.empty.insert "id" (.ofNat 3))]

/-- The table hears of the first row before the run, and after it only the second is selected. -/
theorem rows_follow_numberedRun :
    numberedRows.Reachable ∧ (∀ f ∈ numberedRows.feeds, f.sink ≠ 0) ∧
      Statement.parse (Request.changefeed sevens 0 []).query = .ok (.get sevens) ∧
      (∀ a ∈ numberedRun, a.Spares 0) ∧ (numberedRows.selection sevens).keys = ["[1]"] ∧
      (((numberedRows.query (fun _ => true) (.changefeed sevens 0 []) 0).1.run
        numberedRun).selection sevens).keys = ["[2]"] ∧
      ∃ response rows mirror notices,
        (numberedRows.query (fun _ => true) (.changefeed sevens 0 []) 0).2 =
          [.send 0 (.ok response)] ∧
        response.rows? "t" = some rows ∧
        (Table.new ⟨"t", ["id"]⟩ sevens .standard).finishConnect rows = .ok (mirror, notices) ∧
        ∀ key, Table.sameRow
          ((mirror.follow (changesAt 0 ((numberedRows.query (fun _ => true)
            (.changefeed sevens 0 []) 0).1.runPosts numberedRun))).rows.get? key)
          ((((numberedRows.query (fun _ => true) (.changefeed sevens 0 []) 0).1.run
            numberedRun).selection sevens).get? key) = true := by
  have hreachable : numberedRows.Reachable := .perform (.empty _) _
  have hfresh : ∀ f ∈ numberedRows.feeds, f.sink ≠ 0 := by
    intro f hf
    cases show f ∈ ([] : List StoredFeed) from hf
  have hget : Statement.parse (Request.changefeed sevens 0 []).query = .ok (.get sevens) := rfl
  have hspares : ∀ a ∈ numberedRun, a.Spares 0 := by simp [numberedRun, Action.Spares]
  exact ⟨hreachable, hfresh, hget, hspares, by decide +kernel, by decide +kernel,
    rows_follow_selection hreachable hget rfl rfl rfl hfresh rfl (by decide) hspares⟩

end Database

end LiveDocs
