import LiveDocs.Proofs.Database.Operations

/-!
# What actions do to rows, and what feeds hear of it

Whatever is done to a database, it carries out one operation or none, so at most one row changes.
Every feed whose sink is listened to stays, and it is told of exactly this change, if it concerns
its query (`Database.perform_effect`).

Rows stand under their keys, in tables under their names (`Database.Keyed`), in every state that a
database can reach, whether it started empty or was restored from a journal of any content
(`Database.Reachable.keyed`).

## Main definitions

* `Database.changesAt`: the changes among some posts to one sink.
* `Database.Effect`: what an action does to the tables, and what others are sent of it.
* `Database.Keyed`, `Database.Reachable`: rows under their keys, and the states of a database.

## Main results

* `Database.perform_effect`: the effect of every action.
* `Database.Reachable.keyed`: rows always stand under their keys.
-/

namespace LiveDocs

namespace Database

/-! ## What is sent of a change -/

/-- The feeds with a sink. -/
def feedsAt (db : Database) (sink : SinkId) : List StoredFeed :=
  db.feeds.filter fun f => f.sink == sink

namespace RowChange

variable {alive : SinkId → Bool} {sink : SinkId}

/-- The change that the feed of a query is told of. -/
def told (c : RowChange) (q : Query) : Option Change :=
  if q.table = c.table.schema.name then changeFor q c.table.schema c.old c.new else none

/-- What the feeds of a sink are sent if somebody listens there. -/
def postsAt (c : RowChange) (sink : SinkId) (feeds : List StoredFeed) : List Post :=
  (feeds.filterMap fun f => c.told f.query).map fun change => .send sink (.ok (.ofChange change))

/-- A feed that is listened to stays, and it is sent what it is told. -/
theorem delta?_of_alive (c : RowChange) {feed : StoredFeed} (h : alive feed.sink = true) :
    c.delta? alive feed = (c.told feed.query).map (fun change =>
      .send feed.sink (.ok (.ofChange change))) ∧ c.keeps alive feed = true := by
  simp only [delta?, keeps, outcomeAt, feedOutcome, told]
  by_cases htable : feed.query.table = c.table.schema.name
  · cases changeFor feed.query c.table.schema c.old c.new <;> simp [htable, h]
  · simp [htable]

theorem postsTo_deltas (c : RowChange) (h : alive sink = true) (feeds : List StoredFeed) :
    postsTo sink (feeds.filterMap (c.delta? alive)) =
      c.postsAt sink (feeds.filter fun f => f.sink == sink) := by
  rw [postsTo, postsAt, List.filter_filterMap, List.filterMap_filter, List.map_filterMap]
  refine congrArg (fun f => feeds.filterMap f) (funext fun feed => ?_)
  by_cases hsink : feed.sink = sink
  · subst hsink
    rw [(c.delta?_of_alive h).1]
    cases c.told feed.query <;> simp [Post.sink]
  · cases hdelta : c.delta? alive feed with
    | none => simp [hsink]
    | some p =>
      obtain ⟨change, rfl⟩ := delta?_eq_some hdelta
      simp [Option.filter, Post.sink, hsink]

theorem filter_keeps (c : RowChange) (h : alive sink = true) (feeds : List StoredFeed) :
    (feeds.filter (c.keeps alive)).filter (fun f => f.sink == sink) =
      feeds.filter fun f => f.sink == sink := by
  rw [List.filter_filter]
  refine List.filter_congr fun f _ => ?_
  by_cases hsink : f.sink = sink
  · rw [(c.delta?_of_alive (hsink ▸ h)).2, Bool.and_true]
  · simp [hsink]

end RowChange

/-! ## Effects -/

/-- What an action does to the tables, and to the feeds of those who hear of it, and what these are
sent. -/
structure Effect (heard : SinkId → Prop) (before after : Database) (posts : List Post)
    (change : Option RowChange) : Prop where
  tables : after.tables = change.elim before.tables fun c => c.applyTo before.tables
  holding : after.holding = before.holding
  feeds : ∀ sink, heard sink → after.feedsAt sink = before.feedsAt sink
  posts : ∀ sink, heard sink → postsTo sink posts =
    change.elim [] fun c => c.postsAt sink (before.feedsAt sink)

/-- The effect of a write on those who are listened to. -/
theorem Carries.effect {alive : SinkId → Bool} {before after : Database} {posts : List Post}
    {change : Option RowChange} (h : Carries alive before after posts change) :
    Effect (fun sink => alive sink = true) before after posts change where
  tables := h.tables
  holding := h.holding
  feeds sink hsink := by
    rw [feedsAt, h.feeds]
    cases change with
    | none => rfl
    | some c => exact c.filter_keeps hsink before.feeds
  posts sink hsink := by
    rw [h.posts]
    cases change with
    | none => rfl
    | some c => exact c.postsTo_deltas hsink before.feeds

namespace Effect

variable {heard heard' : SinkId → Prop} {before after : Database} {posts more : List Post}
  {change : Option RowChange}

/-- Nothing happens to rows and feeds, and others are sent nothing. -/
theorem of_same (htables : after.tables = before.tables) (hholding : after.holding = before.holding)
    (hfeeds : ∀ sink, heard sink → after.feedsAt sink = before.feedsAt sink)
    (hposts : ∀ sink, heard sink → postsTo sink posts = []) :
    Effect heard before after posts none :=
  ⟨htables, hholding, hfeeds, hposts⟩

/-- An answer makes no difference to others. -/
theorem append (h : Effect heard before after posts change)
    (hheard : ∀ sink, heard' sink → heard sink)
    (hmore : ∀ sink, heard' sink → postsTo sink more = []) :
    Effect heard' before after (posts ++ more) change where
  tables := h.tables
  holding := h.holding
  feeds sink hsink := h.feeds sink (hheard sink hsink)
  posts sink hsink := by
    rw [postsTo_append, hmore sink hsink, List.append_nil, h.posts sink (hheard sink hsink)]

end Effect

/-! ## Actions -/

/-- Somebody listens at a sink, and what is asked is not answered there. -/
def Action.Spares (sink : SinkId) : Action → Prop
  | upsert alive _ _ | delete alive _ _ => alive sink = true
  | query alive _ target => alive sink = true ∧ target ≠ sink
  | compact | stage _ => True

/-- The operation in an action. -/
def Action.operation? : Action → Option Operation
  | upsert _ table row => some (.merge table row none)
  | delete _ table key => some (.remove table key)
  | query _ request sink => (setQuery? request sink).map HeldWrite.operation
  | compact | stage _ => none

/-- What is sent during an action. -/
def posts (db : Database) : Action → List Post
  | .upsert alive table row => (db.upsert alive table row).2.1
  | .delete alive table key => (db.delete alive table key).2.1
  | .query alive request sink => (db.query alive request sink).2
  | .compact | .stage _ => []

theorem postsTo_answer {sink target : SinkId} (h : target ≠ sink) (reply : Reply) :
    postsTo sink [.send target reply, .finish target] = [] :=
  postsTo_eq_nil fun _ hp => sink_of_mem_answer hp ▸ h

theorem writeAndAnswer_effect (alive : SinkId → Bool) (db : Database) (w : HeldWrite) :
    Effect (fun sink => alive sink = true ∧ w.sink ≠ sink) db (db.writeAndAnswer alive w).1
      (db.writeAndAnswer alive w).2 (w.operation.change? db.tables) :=
  (write_carries alive db w.table w.row w.expected).effect.append (fun _ h => h.1)
    fun _ h => postsTo_answer h.2 _

/-- A query that is no write is answered to the one who asks. -/
theorem query_effect_of_not_set {request : Request} {target : SinkId}
    (h : setQuery? request target = none) (alive : SinkId → Bool) (db : Database) :
    Effect (fun sink => alive sink = true ∧ target ≠ sink) db (db.query alive request target).1
      (db.query alive request target).2 none := by
  obtain ⟨htables, -, hholding, ⟨opened, hfeeds, hopened⟩, hposts⟩ := query_of_not_set h alive db
  refine .of_same htables hholding (fun sink hsink => ?_) fun sink hsink => ?_
  · have hnone : opened.filter (fun f => f.sink == sink) = [] :=
      List.filter_eq_nil_iff.mpr fun f hf => by simpa [hopened f hf] using hsink.2
    rw [feedsAt, hfeeds, List.filter_append, hnone, List.append_nil, feedsAt]
  · exact postsTo_eq_nil fun p hp => hposts p hp ▸ hsink.2

/-- **The effect of every action.** It carries out one operation or none; unless writes are held, it
is the one that the action asks for. -/
theorem perform_effect (db : Database) (a : Action) :
    ∃ op : Option Operation, (db.holding = false → op = a.operation?) ∧
      Effect (fun sink => a.Spares sink) db (db.perform a) (db.posts a)
        (op.bind (·.change? db.tables)) := by
  cases a with
  | upsert alive table row =>
    exact ⟨some (.merge table row none), fun _ => rfl,
      (write_carries alive db table row none).effect⟩
  | delete alive table key =>
    exact ⟨some (.remove table key), fun _ => rfl, (delete_carries alive db table key).effect⟩
  | query alive request target =>
    cases hset : setQuery? request target with
    | none =>
      exact ⟨none, fun _ => by simp [Action.operation?, hset],
        query_effect_of_not_set hset alive db⟩
    | some w =>
      obtain ⟨hw, stats, hquery⟩ := query_of_set hset alive db
      simp only [perform, posts, Action.Spares, hquery]
      by_cases hholding : db.holding = true
      · rw [if_pos hholding]
        exact ⟨none, by simp [hholding], .of_same rfl rfl (fun _ _ => rfl) fun _ _ => rfl⟩
      · rw [if_neg hholding]
        have heffect := hw ▸ writeAndAnswer_effect alive { db with stats } w
        refine ⟨some w.operation, fun _ => by simp [Action.operation?, hset], ?_⟩
        exact ⟨heffect.tables, heffect.holding, heffect.feeds, heffect.posts⟩
  | compact =>
    refine ⟨none, fun _ => rfl, ?_⟩
    cases hcompact : db.compact with
    | ok db' =>
      obtain ⟨journal, rfl⟩ := compact_frame hcompact
      simp only [perform, hcompact]
      exact .of_same rfl rfl (fun _ _ => rfl) fun _ _ => rfl
    | error e =>
      simp only [perform, hcompact]
      exact .of_same rfl rfl (fun _ _ => rfl) fun _ _ => rfl
  | stage entry => exact ⟨none, fun _ => rfl, .of_same rfl rfl (fun _ _ => rfl) fun _ _ => rfl⟩

/-! ## Changes -/

/-- The change in a post, if the post goes to a sink. -/
def changeAt? (sink : SinkId) : Post → Option Change
  | .send target (.ok response) => if target = sink then response.change? else none
  | _ => none

/-- The changes among some posts that go to a sink, in order. -/
def changesAt (sink : SinkId) (posts : List Post) : List Change :=
  posts.filterMap (changeAt? sink)

theorem changesAt_append (sink : SinkId) (posts more : List Post) :
    changesAt sink (posts ++ more) = changesAt sink posts ++ changesAt sink more :=
  List.filterMap_append

theorem changesAt_postsTo (sink : SinkId) (posts : List Post) :
    changesAt sink (postsTo sink posts) = changesAt sink posts := by
  rw [changesAt, postsTo, List.filterMap_filter]
  refine congrArg (fun f => posts.filterMap f) (funext fun p => ?_)
  cases p with
  | finish target => simp [changeAt?]
  | send target reply =>
    cases reply with
    | error e => simp [changeAt?]
    | ok response => by_cases h : target = sink <;> simp [changeAt?, Post.sink, h]

/-- The changes that are sent to somebody who hears of an action. -/
theorem Effect.changesAt {heard : SinkId → Prop} {before after : Database} {posts : List Post}
    {change : Option RowChange} (h : Effect heard before after posts change) {sink : SinkId}
    (hsink : heard sink) : changesAt sink posts =
      change.elim [] fun c => (before.feedsAt sink).filterMap fun f => c.told f.query := by
  rw [← changesAt_postsTo, h.posts sink hsink]
  cases change with
  | none => rfl
  | some c =>
    simp [Database.changesAt, RowChange.postsAt, changeAt?, Function.comp_def, List.filterMap_map,
      Response.ofChange, Response.change?]

/-! ## Rows under their keys -/

/-- Every table stands under its name and every row under its key. -/
structure Keyed (tables : Tables) : Prop where
  named : ∀ {name t}, tables.get? name = some t → t.schema.name = name
  keyed : ∀ {name t}, tables.get? name = some t →
    ∀ {key row}, t.rows.get? key = some row → t.schema.key? row = some key

theorem keyed_empty (schemas : List Schema) : Keyed (empty schemas).tables :=
  ⟨(sound_empty schemas).named, (sound_empty schemas).keyed⟩

/-- Rows under their keys may be put into a table. -/
theorem Keyed.insert {tables : Tables} (h : Keyed tables) {t : StoredTable}
    (hrows : ∀ {key row}, t.rows.get? key = some row → t.schema.key? row = some key) :
    Keyed (tables.insert t.schema.name t) := by
  refine ⟨fun {n u} hu => ?_, fun {n u} hu {key row} hrow => ?_⟩
  · rw [SortedMap.get?_insert] at hu
    split at hu
    · next hn =>
      cases hu
      exact hn.symm
    · exact h.named hu
  · rw [SortedMap.get?_insert] at hu
    split at hu
    · cases hu
      exact hrows hrow
    · exact h.keyed hu hrow

/-- An operation leaves rows under their keys. -/
theorem Keyed.apply {tables : Tables} (h : Keyed tables) (op : Operation) :
    Keyed (op.apply tables) := by
  unfold Operation.apply
  cases hc : op.change? tables with
  | none => exact h
  | some c =>
    obtain ⟨⟨table, ht⟩, -, hnew⟩ := Operation.change?_eq_some hc
    refine Keyed.insert (t := { c.table with rows := putRow c.table.rows c.key c.new }) h
      fun {k row} hrow => ?_
    simp only [get?_putRow] at hrow
    split at hrow
    · next hk =>
      rw [hrow] at hnew
      exact hk ▸ hnew.key?
    · exact h.keyed ht hrow

theorem Keyed.perform {db : Database} (h : Keyed db.tables) (a : Action) :
    Keyed (db.perform a).tables := by
  obtain ⟨op, -, heffect⟩ := perform_effect db a
  rw [heffect.tables]
  cases op with
  | none => exact h
  | some op => exact h.apply op

theorem Keyed.writeAll (alive : SinkId → Bool) {db : Database} (h : Keyed db.tables)
    (writes : List HeldWrite) : Keyed (db.writeAll alive writes).1.tables := by
  induction writes generalizing db with
  | nil => exact h
  | cons w rest ih =>
    have htables : (db.writeAndAnswer alive w).1.tables = w.operation.apply db.tables :=
      (writeAndAnswer_effect alive db w).tables
    exact ih (htables ▸ h.apply w.operation)

theorem Keyed.define {db : Database} (h : Keyed db.tables) (schema : Schema) :
    Keyed (db.define schema).tables := by
  unfold Database.define
  split
  · exact h
  · exact Keyed.insert (t := ⟨schema, .empty⟩) h fun hrow => by simp at hrow

/-! ## Restored tables -/

theorem Keyed.cleared {tables : Tables} (h : Keyed tables) : Keyed (cleared tables) := by
  refine ⟨fun {name t} ht => ?_, fun {name t} ht {key row} hrow => ?_⟩
  all_goals
    rw [get?_cleared] at ht
    obtain ⟨u, hu, rfl⟩ := Option.map_eq_some_iff.mp ht
  · exact h.named (t := u) hu
  · simp at hrow

/-- Rows that are put back stand under their keys. -/
theorem keyed_withRows {t : StoredTable} {rows : List Record}
    (h : ∀ {key row}, t.rows.get? key = some row → t.schema.key? row = some key) {key : String}
    {row : Record} (hrow : (withRows t rows).rows.get? key = some row) :
    t.schema.key? row = some key := by
  induction rows generalizing t with
  | nil => exact h hrow
  | cons r rows ih =>
    cases hkey : t.schema.key? r with
    | none =>
      have hskip : withRows t (r :: rows) = withRows t rows := by simp [withRows, hkey]
      exact ih h (hskip ▸ hrow)
    | some k =>
      have hput : withRows t (r :: rows) = withRows { t with rows := t.rows.insert k r } rows := by
        simp [withRows, hkey]
      refine ih (t := { t with rows := t.rows.insert k r }) (fun {key' row'} hget => ?_)
        (hput ▸ hrow)
      rw [SortedMap.get?_insert] at hget
      split at hget
      · next hk =>
        cases hget
        rw [hkey, hk]
      · exact h hget

theorem Keyed.restoreRows {tables : Tables} (h : Keyed tables) (name : String)
    (rows : List Record) : Keyed (restoreRows tables name rows) := by
  unfold Database.restoreRows
  split
  · exact h
  · next t ht =>
    have hname := h.named ht
    subst hname
    exact Keyed.insert (t := withRows t rows) h fun hrow =>
      keyed_withRows (fun hrow => h.keyed ht hrow) hrow

theorem Keyed.restoreDelete {tables : Tables} (h : Keyed tables) (name : String) (key : Record) :
    Keyed (restoreDelete tables name key) := by
  unfold Database.restoreDelete
  split
  · exact h
  · next t ht =>
    split
    · next text htext =>
      have hname := h.named ht
      subst hname
      refine Keyed.insert (t := { t with rows := t.rows.erase text }) h fun {k row} hrow => ?_
      simp only [SortedMap.get?_erase] at hrow
      split at hrow
      · cases hrow
      · exact h.keyed ht hrow
    · exact h

theorem Keyed.restoreEntry {tables tables' : Tables} (h : Keyed tables) {e : JournalEntry}
    (hrestore : restoreEntry tables e = .ok tables') : Keyed tables' := by
  unfold Database.restoreEntry at hrestore
  split at hrestore
  · split at hrestore
    · cases hrestore
    · next dump _ =>
      cases hrestore
      have hfold : ∀ (l : List (String × List Record)) (m : Tables), Keyed m →
          Keyed (l.foldl (fun tables d => Database.restoreRows tables d.1 d.2) m) := by
        intro l
        induction l with
        | nil => exact fun m hm => hm
        | cons d l ih => exact fun m hm => ih _ (hm.restoreRows d.1 d.2)
      exact hfold dump.entries _ h.cleared
  · split at hrestore
    · cases hrestore
    · cases hrestore
      exact h.restoreRows _ _
  · split at hrestore
    · cases hrestore
    · cases hrestore
      exact h.restoreDelete _ _

theorem Keyed.restoreEntries {tables tables' : Tables} (h : Keyed tables)
    {entries : List JournalEntry} (hrestore : restoreEntries tables entries = .ok tables') :
    Keyed tables' := by
  induction entries generalizing tables with
  | nil =>
    cases hrestore
    exact h
  | cons e rest ih =>
    simp only [Database.restoreEntries] at hrestore
    split at hrestore
    · next he => exact ih (h.restoreEntry he) hrestore
    · cases hrestore

theorem keyed_openOn {schemas : List Schema} {compress : Bytes → Bytes} {compactAfter : UInt64}
    {volume : Volume} {db : Database} (h : openOn schemas compress compactAfter volume = .ok db) :
    Keyed db.tables := by
  unfold openOn at h
  split at h
  · cases h
  · simp only at h
    split at h
    · cases h
    · next hrestore =>
      cases h
      exact (keyed_empty schemas).restoreEntries hrestore

/-! ## States -/

/-- The states of a database: it starts empty or is restored from a journal, and anything may be
done to it. -/
inductive Reachable : Database → Prop where
  | empty (schemas : List Schema) : Reachable (empty schemas)
  | opened {schemas : List Schema} {compress : Bytes → Bytes} {compactAfter : UInt64}
      {volume : Volume} {db : Database}
      (h : openOn schemas compress compactAfter volume = .ok db) : Reachable db
  | perform {db : Database} (h : Reachable db) (a : Action) : Reachable (db.perform a)
  | define {db : Database} (h : Reachable db) (schema : Schema) : Reachable (db.define schema)
  | hold {db : Database} (h : Reachable db) (holding : Bool) : Reachable { db with holding }
  | release {db : Database} (h : Reachable db) (alive : SinkId → Bool) :
      Reachable (db.release alive).1
  | cancel {db : Database} (h : Reachable db) (id : String) : Reachable (db.cancel id).1
  | disconnect {db : Database} (h : Reachable db) : Reachable db.disconnect.1

theorem tables_cancel (db : Database) (id : String) : (db.cancel id).1.tables = db.tables := by
  unfold cancel
  split <;> rfl

/-- In every state tables stand under their names and rows under their keys. -/
theorem Reachable.keyed {db : Database} (h : db.Reachable) : Keyed db.tables := by
  induction h with
  | empty schemas => exact keyed_empty schemas
  | opened h => exact keyed_openOn h
  | perform _ a ih => exact ih.perform a
  | define _ schema ih => exact ih.define schema
  | hold _ _ ih => exact ih
  | @release db _ alive ih => exact @Keyed.writeAll alive { db with held := [] } ih _
  | cancel _ id ih => rwa [tables_cancel]
  | disconnect _ ih => exact ih

end Database

end LiveDocs
