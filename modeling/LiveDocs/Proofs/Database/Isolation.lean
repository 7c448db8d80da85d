import LiveDocs.Database.Audience
import LiveDocs.Proofs.Database.Following
import LiveDocs.Proofs.Database.Operations
import LiveDocs.Proofs.Record.Keys

/-!
# Documents are isolated from each other

Both tables of stored documents have the id of the document as their first key field, so the key of
a row tells its document. The rows of one document are its *share* of the tables. An operation on a
row of another document leaves the share as it is, and a feed of the document hears nothing of it.
An operation on a row of the document makes of the share what it makes of the tables, and what the
feed hears of it depends on the share alone.

So all that a feed of a document ever hears is a function of the document's share and of the
operations on its rows. Two runs with the same share and the same such operations cannot be told
apart by it, whatever else is done in them.

## Main definitions

* `Database.isOf`, `Database.share`: the records and the rows of a document.
* `Database.operationsOn`: the operations on the rows of a document, among some actions.
* `Database.Observation`: a run in which a feed of a document is opened.

## Main results

* `Database.share_apply_foreign`, `Database.share_apply_own`: what an operation does to a share.
* `Database.Observation.heard_eq`: what a feed hears, from the share and the operations.
* `Database.heard_eq_of_same_operations`: two runs with the same operations on a document.
-/

namespace LiveDocs

namespace Database

/-! ## What is heard -/

/-- A reply without the id of its feed. -/
def nameless : Reply → Reply
  | .ok response => .ok { response with id := none }
  | .error e => .error e

/-- What somebody hears who is sent something, up to the id of a feed. -/
def heard : Post → Heard
  | .send _ reply => .reply (nameless reply)
  | .finish _ => .ended

/-- What is heard at a sink, in order. -/
def heardAt (sink : SinkId) (posts : List Post) : List Heard := (postsTo sink posts).map heard

theorem heardAt_append (sink : SinkId) (posts more : List Post) :
    heardAt sink (posts ++ more) = heardAt sink posts ++ heardAt sink more := by
  simp [heardAt]

/-- What the feed of a query hears of a change. -/
def RowChange.heardBy (c : RowChange) (q : Query) : Option Heard :=
  (c.told q).map fun change => .reply (.ok (.ofChange change))

/-- What somebody hears of an action who has not asked for it. -/
theorem Effect.heardAt {heard : SinkId → Prop} {before after : Database} {posts : List Post}
    {change : Option RowChange} (h : Effect heard before after posts change) {sink : SinkId}
    (hsink : heard sink) : heardAt sink posts =
      change.elim [] fun c => (before.feedsAt sink).filterMap fun f => c.heardBy f.query := by
  rw [Database.heardAt, h.posts sink hsink]
  cases change with
  | none => rfl
  | some c =>
    simp only [Option.elim_some, RowChange.postsAt, RowChange.heardBy, List.map_filterMap,
      Option.map_map]
    rfl

/-! ## Shares -/

/-- Whether a record belongs to a document. -/
def isOf (s : String) (r : Record) : Bool := r.getStr? "string_id" == some s

theorem isOf_iff {s : String} {r : Record} :
    isOf s r = true ↔ r.get? "string_id" = some (.str s) := by
  rw [isOf, beq_iff_eq, Record.getStr?]
  cases h : r.get? "string_id" with
  | none => simp
  | some value => cases value <;> simp [Json.str?]

/-- A query that filters on a document selects no row of another. -/
theorem isOf_of_matchesRow {s : String} {q : Query} (hq : isOf s q.filter = true) {row : Record}
    (h : q.matchesRow row = true) : isOf s row = true := by
  rw [isOf_iff] at hq ⊢
  have hfield := List.all_eq_true.mp h _ (SortedMap.get?_eq_some_iff.mp hq)
  simp only [Record.hasField] at hfield
  split at hfield
  · next value hvalue =>
    have hsame : value.unsigned = (Json.str s).unsigned := (Json.eqv_iff _ _).mp hfield
    rw [hvalue]
    cases value <;> simp_all [Json.unsigned]
  · cases hfield

/-- The part of a table that belongs to a document. -/
def shareOf (s : String) (t : StoredTable) : StoredTable :=
  { t with rows := t.rows.filter fun _ row => isOf s row }

/-- The part of the tables that belongs to a document. -/
def share (s : String) (tables : Tables) : Tables := tables.map fun _ t => shareOf s t

@[simp] theorem get?_share (s : String) (tables : Tables) (name : String) :
    (share s tables).get? name = (tables.get? name).map (shareOf s) := by
  simp [share]

@[simp] theorem get?_rows_shareOf (s : String) (t : StoredTable) (key : String) :
    (shareOf s t).rows.get? key = (t.rows.get? key).filter (isOf s) := by
  simp [shareOf]

/-- The tables of stored documents, with rows under their keys. -/
structure HoldDocuments (tables : Tables) : Prop where
  keyed : Keyed tables
  schema : ∀ {name t}, tables.get? name = some t → t.schema = .syncstrings ∨ t.schema = .patches

namespace HoldDocuments

variable {tables : Tables} {name s : String} {t : StoredTable} {op : Operation} {c : RowChange}

/-- Rows with the same key belong to the same document. -/
theorem isOf_eq (h : HoldDocuments tables) (ht : tables.get? name = some t) {row row' : Record}
    {key : String} (hrow : t.schema.key? row = some key) (hrow' : t.schema.key? row' = some key) :
    isOf s row = isOf s row' := by
  obtain ⟨fields, hfields⟩ : ∃ fields, t.schema.primaryKey = "string_id" :: fields := by
    rcases h.schema ht with hschema | hschema
    · exact ⟨[], by rw [hschema]; rfl⟩
    · exact ⟨["time", "user_id"], by rw [hschema]; rfl⟩
  rw [Schema.key?, hfields] at hrow hrow'
  have hsame := Record.get?_eq_of_key?_eq hrow hrow' "string_id" List.mem_cons_self
  rw [Bool.eq_iff_iff, isOf_iff, isOf_iff, hsame]

/-- The row before a change belongs to the document that the operation is about. -/
theorem isOf_old (h : HoldDocuments tables) (hc : op.change? tables = some c) {row : Record}
    (hrow : c.old = some row) : isOf s row = isOf s op.record := by
  obtain ⟨⟨table, ht⟩, hkey, -⟩ := Operation.change?_eq_some hc
  exact h.isOf_eq ht (h.keyed.keyed ht hrow) hkey

/-- So does the row after it. -/
theorem isOf_new (h : HoldDocuments tables) (hc : op.change? tables = some c) {row : Record}
    (hrow : c.new = some row) : isOf s row = isOf s op.record := by
  obtain ⟨⟨table, ht⟩, hkey, hnew⟩ := Operation.change?_eq_some hc
  rw [hrow] at hnew
  exact h.isOf_eq ht hnew.key? hkey

theorem apply (h : HoldDocuments tables) (op : Operation) : HoldDocuments (op.apply tables) := by
  refine ⟨h.keyed.apply op, fun {name t} hname => ?_⟩
  unfold Operation.apply at hname
  cases hc : op.change? tables with
  | none =>
    rw [hc] at hname
    exact h.schema hname
  | some c =>
    obtain ⟨⟨table, ht⟩, -, -⟩ := Operation.change?_eq_some hc
    rw [hc, Option.elim_some, RowChange.applyTo, SortedMap.get?_insert] at hname
    split at hname
    · cases hname
      exact h.schema (t := c.table) ht
    · exact h.schema hname

end HoldDocuments

/-- The share of tables in which one row was changed. -/
theorem share_applyTo {tables : Tables} (s : String) (c : RowChange) :
    share s (c.applyTo tables) = (share s tables).insert c.table.schema.name
      { shareOf s c.table with
        rows := putRow (shareOf s c.table).rows c.key (c.new.filter (isOf s)) } := by
  refine SortedMap.ext_get? fun name => ?_
  simp only [get?_share, RowChange.applyTo, SortedMap.get?_insert]
  split
  · simp only [Option.map_some, Option.some.injEq, shareOf, StoredTable.mk.injEq, true_and]
    refine SortedMap.ext_get? fun key => ?_
    simp only [SortedMap.get?_filter, get?_putRow]
    split <;> rfl
  · rfl

/-- An operation on another document leaves the share as it is. -/
theorem share_apply_foreign {tables : Tables} (h : HoldDocuments tables) {s : String}
    {op : Operation} (hop : isOf s op.record = false) :
    share s (op.apply tables) = share s tables := by
  unfold Operation.apply
  cases hc : op.change? tables with
  | none => rfl
  | some c =>
    obtain ⟨⟨table, ht⟩, -, -⟩ := Operation.change?_eq_some hc
    have hnew : c.new.filter (isOf s) = none := by
      rw [Option.filter_eq_none_iff]
      intro row hrow
      rw [h.isOf_new hc hrow, hop]
      exact Bool.false_ne_true
    have hold : (c.table.rows.get? c.key).filter (isOf s) = none := by
      rw [Option.filter_eq_none_iff]
      intro row hrow
      rw [h.isOf_old hc hrow, hop]
      exact Bool.false_ne_true
    rw [Option.elim_some, share_applyTo, hnew]
    refine SortedMap.ext_get? fun name => ?_
    rw [SortedMap.get?_insert]
    split
    · next hname =>
      rw [hname, get?_share, h.keyed.named ht, ht, Option.map_some]
      congr 1
      simp only [shareOf, StoredTable.mk.injEq, true_and]
      refine SortedMap.ext_get? fun key => ?_
      rw [get?_putRow]
      split
      · next hkey => rw [hkey, SortedMap.get?_filter, hold]
      · rfl
    · rfl

/-- A row of a document is in its share. -/
theorem filter_isOf_eq_self {s : String} {row? : Option Record}
    (h : ∀ row, row? = some row → isOf s row = true) : row?.filter (isOf s) = row? := by
  cases row? with
  | none => rfl
  | some row => simp [Option.filter, h row rfl]

/-- The change of a share. -/
def RowChange.share (s : String) (c : RowChange) : RowChange :=
  { c with table := shareOf s c.table }

/-- An operation on a document comes to the same on the share. -/
theorem plan_share {tables : Tables} (h : HoldDocuments tables) {s : String} {op : Operation}
    (hop : isOf s op.record = true) :
    op.plan (share s tables) = (op.plan tables).map (Option.map (RowChange.share s)) := by
  -- The row that the operation names belongs to the document, so it is found in the share.
  have hfind : ∀ {name t key}, tables.get? name = some t → t.schema.key? op.record = some key →
      (shareOf s t).rows.get? key = t.rows.get? key := by
    intro name t key ht hkey
    rw [get?_rows_shareOf]
    exact filter_isOf_eq_self fun row hrow =>
      (h.isOf_eq ht (h.keyed.keyed ht hrow) hkey).trans hop
  have hschema : ∀ t, (shareOf s t).schema = t.schema := fun t => rfl
  cases op with
  | merge table row expected =>
    simp only [Operation.plan, get?_share]
    cases ht : tables.get? table with
    | none => rfl
    | some t =>
      simp only [Option.map_some, hschema]
      cases hkey : t.schema.key? row with
      | none =>
        simp only [Option.bind_none]
        split <;> rfl
      | some key =>
        simp only [Option.bind_some, hfind ht hkey]
        split
        · split <;> rfl
        · rfl
  | remove table key =>
    simp only [Operation.plan, get?_share]
    cases ht : tables.get? table with
    | none => rfl
    | some t =>
      simp only [Option.map_some, hschema]
      cases hkey : t.schema.key? key with
      | none => rfl
      | some keyText =>
        simp only [hfind ht hkey]
        cases t.rows.get? keyText <;> rfl

theorem change?_share {tables : Tables} (h : HoldDocuments tables) {s : String} {op : Operation}
    (hop : isOf s op.record = true) :
    op.change? (share s tables) = (op.change? tables).map (RowChange.share s) := by
  rw [Operation.change?, Operation.change?, plan_share h hop]
  cases op.plan tables <;> rfl

/-- An operation on a document makes of the share what it makes of the tables. -/
theorem share_apply_own {tables : Tables} (h : HoldDocuments tables) {s : String} {op : Operation}
    (hop : isOf s op.record = true) :
    share s (op.apply tables) = op.apply (share s tables) := by
  rw [Operation.apply, Operation.apply, change?_share h hop]
  cases hc : op.change? tables with
  | none => rfl
  | some c =>
    have hnew : c.new.filter (isOf s) = c.new :=
      filter_isOf_eq_self fun row hrow => (h.isOf_new hc hrow).trans hop
    rw [Option.elim_some, Option.map_some, Option.elim_some, share_applyTo, hnew]
    rfl

/-- A feed of a document hears nothing of an operation on another. -/
theorem heardBy_foreign {tables : Tables} (h : HoldDocuments tables) {s : String} {op : Operation}
    (hop : isOf s op.record = false) {c : RowChange} (hc : op.change? tables = some c) {q : Query}
    (hq : isOf s q.filter = true) : c.heardBy q = none := by
  -- The row is not selected, before the change and after it.
  have hunseen : ∀ row, isOf s row = isOf s op.record → ¬ q.matchesRow row = true := by
    intro row hrow hmatches
    rw [isOf_of_matchesRow hq hmatches, hop] at hrow
    exact Bool.false_ne_true hrow.symm
  have hold : c.old.filter q.matchesRow = none :=
    Option.filter_eq_none_iff.mpr fun row hrow => hunseen row (h.isOf_old hc hrow)
  have hnew : c.new.filter q.matchesRow = none :=
    Option.filter_eq_none_iff.mpr fun row hrow => hunseen row (h.isOf_new hc hrow)
  simp [RowChange.heardBy, RowChange.told, changeFor, hold, hnew]

/-- What a feed hears of an operation on a document can be told from the share. -/
theorem heardBy_share {tables : Tables} (h : HoldDocuments tables) {s : String} {op : Operation}
    (hop : isOf s op.record = true) {c : RowChange} (hc : op.change? tables = some c) (q : Query) :
    (c.share s).heardBy q = c.heardBy q := by
  have hold : (c.share s).old = c.old := by
    simp only [RowChange.old, RowChange.share, get?_rows_shareOf]
    exact filter_isOf_eq_self fun row hrow => (h.isOf_old hc hrow).trans hop
  simp only [RowChange.heardBy, RowChange.told, hold]
  rfl

/-! ## Runs -/

/-- The operations on the rows of a document, among some actions. -/
def operationsOn (s : String) (actions : List Action) : List Operation :=
  (actions.filterMap Action.operation?).filter fun op => isOf s op.record

theorem operationsOn_cons (s : String) (a : Action) (actions : List Action) :
    operationsOn s (a :: actions) = operationsOn s [a] ++ operationsOn s actions := by
  rw [← List.singleton_append, operationsOn, List.filterMap_append, List.filter_append]
  rfl

/-- What the feeds of some queries hear of operations, one after the other. -/
def hearing (queries : List Query) (tables : Tables) : List Operation → List Heard
  | [] => []
  | op :: ops =>
    ((op.change? tables).elim [] fun c => queries.filterMap c.heardBy) ++
      hearing queries (op.apply tables) ops

/-- A database of documents, and the feeds at a sink, which are all of one document. -/
structure Watched (s : String) (sink : SinkId) (queries : List Query) (db : Database) : Prop where
  documents : HoldDocuments db.tables
  holding : db.holding = false
  feeds : (db.feedsAt sink).map StoredFeed.query = queries
  filtered : ∀ q ∈ queries, isOf s q.filter = true

/-- One action, as it is seen from the share of a document. -/
theorem Watched.perform {s : String} {sink : SinkId} {queries : List Query} {db : Database}
    (h : Watched s sink queries db) {a : Action} (hspares : a.Spares sink) :
    Watched s sink queries (db.perform a) ∧
      share s (db.perform a).tables =
        (operationsOn s [a]).foldl Operation.apply (share s db.tables) ∧
      heardAt sink (db.posts a) = hearing queries (share s db.tables) (operationsOn s [a]) := by
  obtain ⟨op?, hasked, heffect⟩ := perform_effect db a
  obtain rfl := hasked h.holding
  have hfeeds := heffect.feeds sink hspares
  have hsent := heffect.heardAt hspares
  have hheard : ∀ c : RowChange, (db.feedsAt sink).filterMap (fun f => c.heardBy f.query) =
      queries.filterMap c.heardBy := fun c => by rw [← h.feeds, List.filterMap_map]; rfl
  cases hop : a.operation? with
  | none =>
    rw [hop] at heffect hsent
    have hnone : operationsOn s [a] = [] := by simp [operationsOn, hop]
    rw [hnone]
    refine ⟨⟨?_, heffect.holding.trans h.holding, hfeeds ▸ h.feeds, h.filtered⟩, ?_,
      hsent⟩
    · exact heffect.tables ▸ h.documents
    · rw [heffect.tables]
      rfl
  | some op =>
    rw [hop, Option.bind_some] at heffect hsent
    have htables : (db.perform a).tables = op.apply db.tables := heffect.tables
    refine ⟨⟨htables ▸ h.documents.apply op, heffect.holding.trans h.holding, hfeeds ▸ h.feeds,
      h.filtered⟩, ?_⟩
    rw [htables, hsent]
    cases hown : isOf s op.record with
    | false =>
      have hnone : operationsOn s [a] = [] := by simp [operationsOn, hop, hown]
      rw [hnone, share_apply_foreign h.documents hown]
      refine ⟨rfl, ?_⟩
      cases hc : op.change? db.tables with
      | none => rfl
      | some c =>
        rw [Option.elim_some, hheard]
        exact List.filterMap_eq_nil_iff.mpr fun q hq =>
          heardBy_foreign h.documents hown hc (h.filtered q hq)
    | true =>
      have hone : operationsOn s [a] = [op] := by simp [operationsOn, hop, hown]
      rw [hone, share_apply_own h.documents hown]
      refine ⟨rfl, ?_⟩
      simp only [hearing, List.append_nil, change?_share h.documents hown]
      cases hc : op.change? db.tables with
      | none => rfl
      | some c =>
        rw [Option.map_some, Option.elim_some, Option.elim_some, hheard]
        exact congrArg (fun f => queries.filterMap f)
          (funext fun q => (heardBy_share h.documents hown hc q).symm)

/-- What is heard of operations is heard of the first ones and then of the others. -/
theorem hearing_append (queries : List Query) (tables : Tables) (ops more : List Operation) :
    hearing queries tables (ops ++ more) =
      hearing queries tables ops ++ hearing queries (ops.foldl Operation.apply tables) more := by
  induction ops generalizing tables with
  | nil => rfl
  | cons op ops ih => simp only [List.cons_append, hearing, ih, List.foldl_cons, List.append_assoc]

/-- A run, as it is seen from the share of a document. -/
theorem Watched.run {s : String} {sink : SinkId} {queries : List Query} {db : Database}
    (h : Watched s sink queries db) {actions : List Action}
    (hspares : ∀ a ∈ actions, a.Spares sink) :
    Watched s sink queries (db.run actions) ∧
      share s (db.run actions).tables =
        (operationsOn s actions).foldl Operation.apply (share s db.tables) ∧
      heardAt sink (db.runPosts actions) =
        hearing queries (share s db.tables) (operationsOn s actions) := by
  induction actions generalizing db with
  | nil => exact ⟨h, rfl, rfl⟩
  | cons a actions ih =>
    obtain ⟨ha, hactions⟩ := List.forall_mem_cons.mp hspares
    obtain ⟨hwatched, hshare, hheard⟩ := h.perform ha
    obtain ⟨hwatched', hshare', hheard'⟩ := ih hwatched hactions
    refine ⟨hwatched', ?_, ?_⟩
    · rw [operationsOn_cons, List.foldl_append, ← hshare]
      exact hshare'
    · rw [operationsOn_cons, hearing_append, ← hshare, ← hheard, ← hheard', ← heardAt_append]
      rfl

/-! ## Opening a feed -/

/-- What is heard first when the feed of a query is opened. -/
def firstHeard (q : Query) (tables : Tables) : List Heard :=
  match tables.get? q.table with
  | none => [.reply (.error (.unknownTable q.table)), .ended]
  | some t => [.reply (.ok (.initial none q.table
      ((t.rows.values.filter q.matchesRow).map (q.project t.schema))))]

/-- The rows that a query selects are rows of the document that it filters on. -/
theorem firstHeard_share {s : String} {q : Query} (hq : isOf s q.filter = true) (tables : Tables) :
    firstHeard q (share s tables) = firstHeard q tables := by
  have hvalues : ∀ t : StoredTable, (shareOf s t).rows.values.filter q.matchesRow =
      t.rows.values.filter q.matchesRow := by
    intro t
    simp only [shareOf, SortedMap.values, SortedMap.filter, List.filter_map, List.filter_filter]
    refine congrArg (List.map Prod.snd) (List.filter_congr fun e _ => ?_)
    cases hmatches : q.matchesRow e.2 with
    | false => simp [hmatches]
    | true => simp [hmatches, isOf_of_matchesRow hq hmatches]
  unfold firstHeard
  rw [get?_share]
  cases tables.get? q.table with
  | none => rfl
  | some t =>
    simp only [Option.map_some, hvalues]
    rfl

/-- The feed of a query is opened where there was none. -/
theorem Watched.query {s : String} {sink : SinkId} {db : Database} (h : Watched s sink [] db)
    {q : Query} (hq : isOf s q.filter = true) {request : Request}
    (hget : Statement.parse request.query = .ok (.get q)) (hchanges : request.changes = true)
    {alive : SinkId → Bool} (halive : alive sink = true) :
    heardAt sink (db.query alive request sink).2 = firstHeard q db.tables ∧
      (db.query alive request sink).1.tables = db.tables ∧
      Watched s sink ((db.tables.get? q.table).toList.map fun _ => q)
        (db.query alive request sink).1 := by
  have hset : setQuery? request sink = none := by simp [setQuery?, hget]
  obtain ⟨htables, -, hholding, -, -⟩ := query_of_not_set hset alive db
  have hnone : db.feedsAt sink = [] := List.map_eq_nil_iff.mp h.feeds
  refine ⟨?_, htables, htables ▸ h.documents, hholding.trans h.holding, ?_, ?_⟩
  · unfold firstHeard
    cases ht : db.tables.get? q.table with
    | none => simp [Database.query, hget, Database.get, select, ht, heardAt, postsTo, Post.sink,
        Database.heard, nameless]
    | some t =>
      obtain ⟨id, hposts, -, -⟩ := query_changefeed hget hchanges ht halive
      rw [hposts]
      simp [heardAt, postsTo, Post.sink, Database.heard, nameless, Response.initial]
  · cases ht : db.tables.get? q.table with
    | none =>
      simpa [Database.query, hget, Database.get, select, ht, feedsAt] using hnone
    | some t =>
      obtain ⟨id, -, -, hfeeds⟩ := query_changefeed hget hchanges ht halive
      have hat : (db.query alive request sink).1.feedsAt sink = [⟨id, q, sink⟩] := by
        rw [feedsAt, hfeeds, List.filter_append]
        simpa [feedsAt] using hnone
      rw [hat]
      rfl
  · cases db.tables.get? q.table with
    | none => simp
    | some t => simpa using hq

theorem runPosts_append (db : Database) (actions more : List Action) :
    db.runPosts (actions ++ more) = db.runPosts actions ++ (db.run actions).runPosts more := by
  induction actions generalizing db with
  | nil => rfl
  | cons a actions ih =>
    simp only [List.cons_append, runPosts, ih, List.append_assoc]
    rfl

theorem hearing_none (tables : Tables) (ops : List Operation) : hearing [] tables ops = [] := by
  induction ops generalizing tables with
  | nil => rfl
  | cons op ops ih =>
    rw [hearing, ih]
    cases op.change? tables <;> rfl

/-- A run in which the feed of a query is opened by somebody who keeps listening. -/
structure Observation (q : Query) where
  db : Database
  before : List Action
  alive : SinkId → Bool
  request : Request
  sink : SinkId
  after : List Action
  documents : HoldDocuments db.tables
  released : db.holding = false
  /-- Nobody else has used the sink. -/
  fresh : db.feedsAt sink = []
  get : Statement.parse request.query = .ok (.get q)
  changes : request.changes = true
  listening : alive sink = true
  spared : ∀ a ∈ before ++ after, a.Spares sink

/-- What is heard at the sink of the feed. -/
def Observation.heard {q : Query} (o : Observation q) : List Heard :=
  heardAt o.sink (o.db.runPosts (o.before ++ .query o.alive o.request o.sink :: o.after))

/-- What a feed of a document hears is a function of the document's share of the tables and of the
operations on its rows. -/
theorem Observation.heard_eq {s : String} {q : Query} (hq : isOf s q.filter = true)
    (o : Observation q) {start opened : Tables} (hstart : start = share s o.db.tables)
    (hopened : opened = (operationsOn s o.before).foldl Operation.apply start) :
    o.heard = firstHeard q opened ++
      hearing ((opened.get? q.table).toList.map fun _ => q) opened (operationsOn s o.after) := by
  obtain ⟨hbefore, hafter⟩ := List.forall_mem_append.mp o.spared
  have hwatched : Watched s o.sink [] o.db :=
    ⟨o.documents, o.released, by rw [o.fresh]; rfl, by simp⟩
  obtain ⟨hw₁, hshare, hheard₁⟩ := hwatched.run hbefore
  obtain ⟨hheard₂, htables, hw₂⟩ := hw₁.query hq o.get o.changes o.listening
  obtain ⟨-, -, hheard₃⟩ := hw₂.run hafter
  have hopen : share s (o.db.run o.before).tables = opened := by rw [hshare, hopened, hstart]
  have hknown : ((opened.get? q.table).toList.map fun _ => q) =
      ((o.db.run o.before).tables.get? q.table).toList.map fun _ => q := by
    rw [← hopen, get?_share]
    cases (o.db.run o.before).tables.get? q.table <;> rfl
  rw [Observation.heard, runPosts_append, heardAt_append, hheard₁, hearing_none, List.nil_append,
    hknown, ← hopen, firstHeard_share hq, ← hheard₂]
  rw [htables] at hheard₃
  rw [← hheard₃, ← heardAt_append]
  rfl

/-- Two runs from the same tables, with the same operations on a document before and after a feed of
it is opened. Whatever else is done, the feed hears the same in both. -/
theorem heard_eq_of_same_operations {s : String} {q : Query} (hq : isOf s q.filter = true)
    (o o' : Observation q) (htables : o.db.tables = o'.db.tables)
    (hbefore : operationsOn s o.before = operationsOn s o'.before)
    (hafter : operationsOn s o.after = operationsOn s o'.after) : o.heard = o'.heard := by
  rw [o.heard_eq hq rfl rfl, o'.heard_eq hq rfl rfl, htables, hbefore, hafter]

/-! ## Two runs -/

theorem holdDocuments_forDocuments : HoldDocuments forDocuments.tables where
  keyed := keyed_empty _
  schema {name t} ht := by
    simp only [forDocuments, empty, SortedMap.ofList, List.map_cons, List.map_nil, List.foldl_cons,
      List.foldl_nil, SortedMap.get?_insert, SortedMap.get?_empty] at ht
    split at ht
    · cases ht
      exact .inr rfl
    · split at ht
      · cases ht
        exact .inl rfl
      · cases ht

/-- A row of a document with a number in it. -/
def markedRow (id : String) (x : Nat) : Record :=
  (SortedMap.empty.insert "string_id" (.str id)).insert "x" (.ofNat x)

/-- The row of the document `a`. -/
def rowOfA : Query := (Query.all "syncstrings").withFilter "string_id" (.str "a")

/-- The row is there when the feed is opened, a conditional write changes it, and it goes. -/
def quietRun : Observation rowOfA where
  db := forDocuments
  before := [.upsert (fun _ => true) "syncstrings" (markedRow "a" 1)]
  alive := fun _ => true
  request := .changefeed rowOfA 0 []
  sink := 0
  after :=
    [.query (fun _ => true) (.setIf "syncstrings" (markedRow "a" 2) (markedRow "a" 1) 0) 1,
      .delete (fun _ => true) "syncstrings" (markedRow "a" 0)]
  documents := holdDocuments_forDocuments
  released := rfl
  fresh := rfl
  get := rfl
  changes := rfl
  listening := rfl
  spared := by simp [Action.Spares]

/-- The same, while another document comes, is written to and goes. -/
def busyRun : Observation rowOfA where
  db := forDocuments
  before :=
    [.upsert (fun _ => true) "syncstrings" (markedRow "b" 1),
      .upsert (fun _ => true) "syncstrings" (markedRow "a" 1),
      .query (fun _ => true) (.changefeed rowOfA 0 []) 7]
  alive := fun _ => true
  request := .changefeed rowOfA 0 []
  sink := 4
  after :=
    [.delete (fun _ => true) "syncstrings" (markedRow "b" 0),
      .query (fun _ => true) (.setIf "syncstrings" (markedRow "a" 2) (markedRow "a" 1) 0) 1,
      .query (fun _ => true) (.setIf "syncstrings" (markedRow "b" 2) (markedRow "b" 1) 0) 2,
      .delete (fun _ => true) "syncstrings" (markedRow "a" 0)]
  documents := holdDocuments_forDocuments
  released := rfl
  fresh := rfl
  get := rfl
  changes := rfl
  listening := rfl
  spared := by simp [Action.Spares]

/-- Three responses are heard in both runs: the row, its change and its end. -/
theorem heard_quietRun_busyRun :
    isOf "a" rowOfA.filter = true ∧ quietRun.db.tables = busyRun.db.tables ∧
      operationsOn "a" quietRun.before = operationsOn "a" busyRun.before ∧
      operationsOn "a" quietRun.after = operationsOn "a" busyRun.after ∧
      quietRun.heard.length = 3 ∧ quietRun.heard = busyRun.heard :=
  ⟨by decide +kernel, rfl, rfl, rfl, by decide +kernel,
    heard_eq_of_same_operations (s := "a") (by decide +kernel) quietRun busyRun rfl rfl rfl⟩

end Database

end LiveDocs
