import LiveDocs.Proofs.Database.Actions

/-!
# Writes as operations on tables

A write is an *operation* on one row: fields are merged into it, if it has the fields that were
expected, or it is removed. What an operation comes to depends on the tables alone
(`Database.Operation.plan`): it is refused, or it leaves its row as it is, or it makes one change.
The feeds, the held writes and the journal have no say in it.

A refused write leaves the whole database as it is and sends nothing. Any other write changes the
tables as planned, tells every feed that the change concerns, and drops those of these feeds that
nobody listens to (`Database.Carries`).

## Main definitions

* `Database.Rewrite`: what a write makes of a row.
* `Database.postsTo`: what is sent to a sink.
* `Database.Operation`, `Database.Operation.plan`: operations, and what they come to.
* `Database.Operation.apply`: the tables after an operation.
* `Database.Carries`: a database after a write, and what was sent.
* `Database.setQuery?`: the write that a query asks for.

## Main results

* `Database.write_of_error`, `Database.write_of_ok`: a write does what its operation comes to.
* `Database.delete_of_error`, `Database.delete_of_ok`: so does a deletion.
* `Database.query_of_set`, `Database.query_of_not_set`: queries that ask for a write, and others.
-/

namespace LiveDocs

def Post.sink : Post → SinkId
  | send sink _ | finish sink => sink

namespace Database

/-! ## One row -/

/-- Rows with the row under a key replaced or removed. -/
def putRow (rows : Rows) (key : String) : Option Record → Rows
  | some row => rows.insert key row
  | none => rows.erase key

@[simp] theorem get?_putRow (rows : Rows) (key : String) (row : Option Record) (k : String) :
    (putRow rows key row).get? k = if k = key then row else rows.get? k := by
  cases row <;> simp [putRow]

/-- What a write makes of the row under a key: the row goes away, or fields with that key are merged
into it. -/
inductive Rewrite (schema : Schema) (key : String) (old : Option Record) :
    Option Record → Prop where
  | removed : Rewrite schema key old none
  | merged (fields : Record) (hkey : schema.key? fields = some key) :
      Rewrite schema key old (some ((old.getD .empty).merge fields))

theorem Rewrite.key? {schema : Schema} {key : String} {old : Option Record} {row : Record}
    (h : Rewrite schema key old (some row)) : schema.key? row = some key := by
  cases h with
  | merged fields hkey => exact Record.key?_merge _ hkey

/-- A row that is written to keeps its fields, if not their values. -/
theorem Rewrite.isSome_get? {schema : Schema} {key : String} {old row : Record}
    (h : Rewrite schema key (some old) (some row)) {field : String}
    (hfield : (old.get? field).isSome) : (row.get? field).isSome := by
  cases h with
  | merged fields hkey =>
    rw [Option.getD_some, Record.get?_merge, Option.isSome_or, hfield, Bool.or_true]

/-! ## What is sent to a sink -/

/-- What is sent to a sink, in order. -/
def postsTo (sink : SinkId) (posts : List Post) : List Post :=
  posts.filter fun p => p.sink == sink

@[simp] theorem postsTo_nil (sink : SinkId) : postsTo sink [] = [] := rfl

@[simp] theorem postsTo_append (sink : SinkId) (posts more : List Post) :
    postsTo sink (posts ++ more) = postsTo sink posts ++ postsTo sink more :=
  List.filter_append ..

theorem postsTo_eq_nil {sink : SinkId} {posts : List Post} (h : ∀ p ∈ posts, p.sink ≠ sink) :
    postsTo sink posts = [] := by
  refine List.filter_eq_nil_iff.mpr fun p hp => ?_
  simpa using h p hp

theorem sink_of_mem_answer {sink : SinkId} {reply : Reply} {p : Post}
    (h : p ∈ [Post.send sink reply, .finish sink]) : p.sink = sink := by
  rcases List.mem_cons.mp h with rfl | h
  · rfl
  · rw [List.mem_singleton.mp h]
    rfl

/-! ## Operations -/

/-- The change of one row: its table, its key, and what becomes of it. -/
structure RowChange where
  table : StoredTable
  key : String
  new : Option Record

namespace RowChange

def old (c : RowChange) : Option Record := c.table.rows.get? c.key

def applyTo (c : RowChange) (tables : Tables) : Tables :=
  tables.insert c.table.schema.name { c.table with rows := putRow c.table.rows c.key c.new }

/-- What happens at a feed after the change. -/
def outcomeAt (c : RowChange) (alive : SinkId → Bool) (feed : StoredFeed) : FeedOutcome :=
  feedOutcome alive c.table.schema c.old c.new feed

/-- What a feed is sent of the change. -/
def delta? (c : RowChange) (alive : SinkId → Bool) (feed : StoredFeed) : Option Post :=
  match c.outcomeAt alive feed with
  | .sent change => some (.send feed.sink (.ok (.ofChange change)))
  | _ => none

/-- A feed stays unless it should be told of the change and nobody listens. -/
def keeps (c : RowChange) (alive : SinkId → Bool) (feed : StoredFeed) : Bool :=
  match c.outcomeAt alive feed with
  | .dead => false
  | _ => true

end RowChange

/-- A write to one row. -/
inductive Operation where
  /-- Fields are merged into a row, if the row has the fields that are expected. -/
  | merge (table : String) (row : Record) (expected : Option Record)
  /-- The row with the key of a record is removed. -/
  | remove (table : String) (key : Record)

namespace Operation

/-- The record that says which row is meant. -/
def record : Operation → Record
  | merge _ row _ => row
  | remove _ key => key

/-- What an operation comes to: it is refused, it changes nothing, or it changes a row. -/
def plan (tables : Tables) : Operation → Except QueryError (Option RowChange)
  | merge table row expected =>
    match tables.get? table with
    | none => .error (.unknownTable table)
    | some t =>
      if expected.all fun e => rowMatches ((t.schema.key? row).bind t.rows.get?) e then
        match t.schema.key? row with
        | none => .error (.malformed (.keylessRow table))
        | some key =>
          let merged := ((t.rows.get? key).getD .empty).merge row
          if (t.rows.get? key).any (· == merged) then .ok none
          else .ok (some ⟨t, key, some merged⟩)
      else .error (.conflict table)
  | remove table key =>
    match tables.get? table with
    | none => .error (.unknownTable table)
    | some t =>
      match t.schema.key? key with
      | none => .error (.malformed .keylessDelete)
      | some keyText => .ok ((t.rows.get? keyText).map fun _ => ⟨t, keyText, none⟩)

/-- The change that an operation makes. -/
def change? (tables : Tables) (op : Operation) : Option RowChange :=
  match op.plan tables with
  | .ok change => change
  | .error _ => none

theorem change?_eq_some_iff {tables : Tables} {op : Operation} {c : RowChange} :
    op.change? tables = some c ↔ op.plan tables = .ok (some c) := by
  unfold change?
  split
  · next change h => simp [h]
  · next e h => simp [h]

/-- What a change is about: the row has the key that the operation names, and it goes away or fields
are merged into it. -/
theorem change?_eq_some {tables : Tables} {op : Operation} {c : RowChange}
    (h : op.change? tables = some c) :
    (∃ table, tables.get? table = some c.table) ∧
      c.table.schema.key? op.record = some c.key ∧ Rewrite c.table.schema c.key c.old c.new := by
  rw [change?_eq_some_iff] at h
  cases op with
  | merge table row expected =>
    simp only [plan] at h
    split at h
    · cases h
    · next t ht =>
      split at h
      · split at h
        · cases h
        · next key hkey =>
          split at h
          · cases h
          · cases h
            exact ⟨⟨table, ht⟩, hkey, .merged row hkey⟩
      · cases h
  | remove table key =>
    simp only [plan] at h
    split at h
    · cases h
    · next t ht =>
      split at h
      · cases h
      · next keyText hkey =>
        obtain ⟨old, -, rfl⟩ := Option.map_eq_some_iff.mp (Except.ok.inj h)
        exact ⟨⟨table, ht⟩, hkey, .removed⟩

/-- The tables after an operation. -/
def apply (tables : Tables) (op : Operation) : Tables :=
  (op.change? tables).elim tables fun c => c.applyTo tables

end Operation

end Database

/-- The operation that a set query asks for. -/
def HeldWrite.operation (w : HeldWrite) : Database.Operation := .merge w.table w.row w.expected

namespace Database

/-! ## What a write does -/

/-- A database after a write that came to a change or to none, and what was sent. -/
structure Carries (alive : SinkId → Bool) (before after : Database) (posts : List Post)
    (change : Option RowChange) : Prop where
  tables : after.tables = change.elim before.tables fun c => c.applyTo before.tables
  feeds : after.feeds = change.elim before.feeds fun c => before.feeds.filter (c.keeps alive)
  posts : posts = change.elim [] fun c => before.feeds.filterMap (c.delta? alive)
  held : after.held = before.held
  holding : after.holding = before.holding

theorem Carries.none (alive : SinkId → Bool) (db : Database) : Carries alive db db [] none :=
  ⟨rfl, rfl, rfl, rfl, rfl⟩

theorem RowChange.delta?_eq_some {c : RowChange} {alive : SinkId → Bool} {feed : StoredFeed}
    {p : Post} (h : c.delta? alive feed = some p) :
    ∃ change, p = .send feed.sink (.ok (.ofChange change)) := by
  unfold RowChange.delta? at h
  split at h
  · next change _ => exact ⟨change, (Option.some.inj h).symm⟩
  · cases h

/-- What a write sends are changes, and they go to feeds. -/
theorem Carries.mem_posts {alive : SinkId → Bool} {before after : Database} {posts : List Post}
    {change : Option RowChange} (h : Carries alive before after posts change) {p : Post}
    (hp : p ∈ posts) :
    ∃ f ∈ before.feeds, ∃ change, p = .send f.sink (.ok (.ofChange change)) := by
  rw [h.posts] at hp
  cases change with
  | none => cases hp
  | some c =>
    obtain ⟨f, hf, hdelta⟩ := List.mem_filterMap.mp hp
    exact ⟨f, hf, RowChange.delta?_eq_some hdelta⟩

theorem Carries.feeds_subset {alive : SinkId → Bool} {before after : Database} {posts : List Post}
    {change : Option RowChange} (h : Carries alive before after posts change) :
    after.feeds ⊆ before.feeds := by
  rw [h.feeds]
  cases change with
  | none => exact List.Subset.refl _
  | some c => exact List.filter_sublist.subset

/-- A write that carries out an operation leaves the tables that the operation makes. -/
theorem Carries.tables_apply {alive : SinkId → Bool} {before after : Database} {posts : List Post}
    {change : Option RowChange} (h : Carries alive before after posts change) {op : Operation}
    (hplan : op.plan before.tables = .ok change) : after.tables = op.apply before.tables := by
  rw [h.tables, Operation.apply, Operation.change?, hplan]

/-- Compaction changes nothing but the journal. -/
theorem compact_frame {db db' : Database} (h : db.compact = .ok db') :
    ∃ journal, db' = { db with journal } := by
  unfold compact at h
  split at h
  · cases h
    exact ⟨db.journal, rfl⟩
  · split at h
    · cases h
      exact ⟨_, rfl⟩
    · cases h

theorem compactIfNeeded_frame (db : Database) :
    db.compactIfNeeded.tables = db.tables ∧ db.compactIfNeeded.feeds = db.feeds ∧
      db.compactIfNeeded.held = db.held ∧ db.compactIfNeeded.holding = db.holding := by
  rcases compactIfNeeded_cases db with hsame | hcompact
  · rw [hsame]
    exact ⟨rfl, rfl, rfl, rfl⟩
  · obtain ⟨journal, hframe⟩ := compact_frame hcompact
    rw [hframe]
    exact ⟨rfl, rfl, rfl, rfl⟩

theorem tables_commit (alive : SinkId → Bool) (db : Database) (t : StoredTable) (key : String)
    (old new : Option Record) : (commit alive db t key old new).1.tables =
      db.tables.insert t.schema.name { t with rows := putRow t.rows key new } := by
  simp only [commit, (compactIfNeeded_frame _).1]
  cases new <;> rfl

theorem feeds_fanOut (alive : SinkId → Bool) (db : Database) (c : RowChange) :
    (fanOut alive db c.table.schema c.old c.new).1.feeds = db.feeds.filter (c.keeps alive) := by
  simp only [fanOut, List.filterMap_map, Function.comp_def, ← List.filterMap_eq_filter]
  refine congrArg (fun f => db.feeds.filterMap f) (funext fun feed => ?_)
  cases houtcome : feedOutcome alive c.table.schema c.old c.new feed <;>
    simp [RowChange.keeps, RowChange.outcomeAt, houtcome, Option.guard]

theorem posts_fanOut (alive : SinkId → Bool) (db : Database) (c : RowChange) :
    (fanOut alive db c.table.schema c.old c.new).2 = db.feeds.filterMap (c.delta? alive) := by
  simp only [fanOut, List.filterMap_map, Function.comp_def]
  rfl

/-- A write that was recorded carries out its change. -/
theorem commit_carries (alive : SinkId → Bool) (db : Database) (write : Journal → Journal)
    (c : RowChange) :
    Carries alive db (commit alive (db.record write) c.table c.key c.old c.new).1
      (commit alive (db.record write) c.table c.key c.old c.new).2 (some c) := by
  refine ⟨tables_commit alive _ c.table c.key c.old c.new, ?_, ?_, ?_, ?_⟩
  · simp only [commit, (compactIfNeeded_frame _).2.1]
    exact feeds_fanOut alive _ c
  · exact posts_fanOut alive _ c
  · simp only [commit, (compactIfNeeded_frame _).2.2.1]
    rfl
  · simp only [commit, (compactIfNeeded_frame _).2.2.2]
    rfl

/-- A merge without a condition. -/
theorem upsert_of_error (alive : SinkId → Bool) {db : Database} {table : String} {row : Record}
    {e : QueryError} (h : (Operation.merge table row none).plan db.tables = .error e) :
    db.upsert alive table row = (db, [], .error e) := by
  simp only [Operation.plan, Option.all_none, if_true] at h
  split at h
  · next ht =>
    cases h
    simp only [upsert, ht]
  · next t ht =>
    split at h
    · next hkey =>
      cases h
      simp only [upsert, ht, hkey]
    · next key hkey =>
      split at h <;> cases h

theorem upsert_of_ok (alive : SinkId → Bool) {db : Database} {table : String} {row : Record}
    {change : Option RowChange}
    (h : (Operation.merge table row none).plan db.tables = .ok change) :
    Carries alive db (db.upsert alive table row).1 (db.upsert alive table row).2.1 change ∧
      (db.upsert alive table row).2.2 = .ok () := by
  simp only [Operation.plan, Option.all_none, if_true] at h
  split at h
  · cases h
  · next t ht =>
    split at h
    · cases h
    · next key hkey =>
      split at h
      · next hsame =>
        cases h
        simp only [upsert, ht, hkey, hsame, if_true]
        exact ⟨.none alive db, trivial⟩
      · next hsame =>
        cases h
        simp only [upsert, ht, hkey, hsame, Bool.false_eq_true, if_false]
        exact ⟨commit_carries alive db _ ⟨t, key, some _⟩, trivial⟩

/-- A merge whose condition holds is one without a condition. -/
theorem write_cases (alive : SinkId → Bool) (db : Database) (table : String) (row : Record)
    (expected : Option Record) :
    (db.write alive table row expected = db.upsert alive table row ∧
      (Operation.merge table row expected).plan db.tables =
        (Operation.merge table row none).plan db.tables) ∨
    ∃ e, db.write alive table row expected = (db, [], .error e) ∧
      (Operation.merge table row expected).plan db.tables = .error e := by
  cases expected with
  | none => exact .inl ⟨rfl, rfl⟩
  | some expected =>
    cases ht : db.tables.get? table with
    | none => exact .inr ⟨.unknownTable table, by simp [write, ht], by simp [Operation.plan, ht]⟩
    | some t =>
      by_cases hmatches : rowMatches ((t.schema.key? row).bind t.rows.get?) expected = true
      · exact .inl ⟨by simp [write, ht, hmatches], by simp [Operation.plan, ht, hmatches]⟩
      · exact .inr ⟨.conflict table, by simp [write, ht, hmatches],
          by simp [Operation.plan, ht, hmatches]⟩

/-- A refused write leaves the database as it is. -/
theorem write_of_error (alive : SinkId → Bool) {db : Database} {table : String} {row : Record}
    {expected : Option Record} {e : QueryError}
    (h : (Operation.merge table row expected).plan db.tables = .error e) :
    db.write alive table row expected = (db, [], .error e) := by
  rcases write_cases alive db table row expected with ⟨hwrite, hplan⟩ | ⟨e', hwrite, hplan⟩
  · rw [hwrite]
    exact upsert_of_error alive (hplan ▸ h)
  · rw [hplan] at h
    cases h
    exact hwrite

/-- Any other write carries out its operation. -/
theorem write_of_ok (alive : SinkId → Bool) {db : Database} {table : String} {row : Record}
    {expected : Option Record} {change : Option RowChange}
    (h : (Operation.merge table row expected).plan db.tables = .ok change) :
    Carries alive db (db.write alive table row expected).1
        (db.write alive table row expected).2.1 change ∧
      (db.write alive table row expected).2.2 = .ok () := by
  rcases write_cases alive db table row expected with ⟨hwrite, hplan⟩ | ⟨e', hwrite, hplan⟩
  · rw [hwrite]
    exact upsert_of_ok alive (hplan ▸ h)
  · rw [hplan] at h
    cases h

theorem delete_of_error (alive : SinkId → Bool) {db : Database} {table : String} {key : Record}
    {e : QueryError} (h : (Operation.remove table key).plan db.tables = .error e) :
    db.delete alive table key = (db, [], .error e) := by
  simp only [Operation.plan] at h
  split at h
  · next ht =>
    cases h
    simp [delete, ht]
  · next t ht =>
    split at h
    · next hkey =>
      cases h
      simp [delete, ht, hkey]
    · cases h

theorem delete_of_ok (alive : SinkId → Bool) {db : Database} {table : String} {key : Record}
    {change : Option RowChange} (h : (Operation.remove table key).plan db.tables = .ok change) :
    Carries alive db (db.delete alive table key).1 (db.delete alive table key).2.1 change ∧
      (db.delete alive table key).2.2 = .ok change.isSome := by
  simp only [Operation.plan] at h
  split at h
  · cases h
  · next t ht =>
    split at h
    · cases h
    · next keyText hkey =>
      cases h
      cases hold : t.rows.get? keyText with
      | none =>
        simp only [delete, ht, hkey, hold]
        exact ⟨.none alive db, rfl⟩
      | some old =>
        have hcarries := commit_carries alive db
          (fun j => j.appendDelete table (t.schema.keyFields key)) ⟨t, keyText, none⟩
        simp only [RowChange.old, hold] at hcarries
        simp only [delete, ht, hkey, hold]
        exact ⟨hcarries, rfl⟩

/-- What a write does to a database: it carries out the change that its operation comes to. -/
theorem write_carries (alive : SinkId → Bool) (db : Database) (table : String) (row : Record)
    (expected : Option Record) :
    Carries alive db (db.write alive table row expected).1
      (db.write alive table row expected).2.1
      ((Operation.merge table row expected).change? db.tables) := by
  unfold Operation.change?
  cases hplan : (Operation.merge table row expected).plan db.tables with
  | error e =>
    rw [write_of_error alive hplan]
    exact .none alive db
  | ok change => exact (write_of_ok alive hplan).1

theorem delete_carries (alive : SinkId → Bool) (db : Database) (table : String) (key : Record) :
    Carries alive db (db.delete alive table key).1 (db.delete alive table key).2.1
      ((Operation.remove table key).change? db.tables) := by
  unfold Operation.change?
  cases hplan : (Operation.remove table key).plan db.tables with
  | error e =>
    rw [delete_of_error alive hplan]
    exact .none alive db
  | ok change => exact (delete_of_ok alive hplan).1

/-! ## Set queries -/

/-- A refused set query leaves the database as it is, and nothing is sent but its answer. -/
theorem writeAndAnswer_of_error (alive : SinkId → Bool) (db : Database) {w : HeldWrite}
    {e : QueryError} (h : w.operation.plan db.tables = .error e) :
    db.writeAndAnswer alive w = (db, [.send w.sink (.error e), .finish w.sink]) := by
  simp only [writeAndAnswer, write_of_error alive h]
  rfl

/-- Any other set query carries out its operation and is answered behind the changes. -/
theorem writeAndAnswer_of_ok (alive : SinkId → Bool) (db : Database) {w : HeldWrite}
    {change : Option RowChange} (h : w.operation.plan db.tables = .ok change) :
    ∃ posts, Carries alive db (db.writeAndAnswer alive w).1 posts change ∧
      (db.writeAndAnswer alive w).2 = posts ++ [.send w.sink (.ok .empty), .finish w.sink] := by
  obtain ⟨hcarries, hresult⟩ := write_of_ok alive h
  refine ⟨_, hcarries, ?_⟩
  simp only [writeAndAnswer, hresult]
  rfl

/-- The set query in a request. -/
def setQuery? (request : Request) (sink : SinkId) : Option HeldWrite :=
  match Statement.parse request.query with
  | .ok (.set table row) => some ⟨table, row, request.precondition?, sink⟩
  | _ => none

/-- What is asked, if it is a set query, is parked or made. -/
theorem query_of_set {request : Request} {sink : SinkId} {w : HeldWrite}
    (h : setQuery? request sink = some w) (alive : SinkId → Bool) (db : Database) :
    w.sink = sink ∧ ∃ stats, db.query alive request sink =
      if db.holding then ({ db with held := db.held ++ [w], stats }, [])
      else writeAndAnswer alive { db with stats } w := by
  unfold setQuery? at h
  split at h
  · next table row hparse =>
    cases h
    refine ⟨rfl, { db.stats with queries := db.stats.queries + 1 }, ?_⟩
    simp only [query, hparse]
  · cases h

/-- Anything else that is asked concerns nobody but the one who asks. -/
theorem query_of_not_set {request : Request} {sink : SinkId} (h : setQuery? request sink = none)
    (alive : SinkId → Bool) (db : Database) :
    (db.query alive request sink).1.tables = db.tables ∧
      (db.query alive request sink).1.held = db.held ∧
      (db.query alive request sink).1.holding = db.holding ∧
      (∃ opened, (db.query alive request sink).1.feeds = db.feeds ++ opened ∧
        ∀ f ∈ opened, f.sink = sink) ∧
      ∀ p ∈ (db.query alive request sink).2, p.sink = sink := by
  have hnone : ∃ opened, db.feeds = db.feeds ++ opened ∧ ∀ f ∈ opened, f.sink = sink :=
    ⟨[], by simp, by simp⟩
  unfold setQuery? at h
  unfold query
  split
  · exact ⟨rfl, rfl, rfl, hnone, by simp [Post.sink]⟩
  · next statement hparse =>
    cases statement with
    | get q =>
      simp only [get]
      split
      · exact ⟨rfl, rfl, rfl, hnone, by simp [Post.sink]⟩
      · split
        · exact ⟨rfl, rfl, rfl, hnone, by simp [Post.sink]⟩
        · split
          · exact ⟨rfl, rfl, rfl, ⟨_, rfl, by simp⟩, by simp [Post.sink]⟩
          · exact ⟨rfl, rfl, rfl, hnone, by simp [Post.sink]⟩
    | set table row => simp [hparse] at h

end Database

end LiveDocs
