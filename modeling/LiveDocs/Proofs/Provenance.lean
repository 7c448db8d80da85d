import LiveDocs.Backend
import LiveDocs.Proofs.Database.Effects
import LiveDocs.Proofs.Query
import LiveDocs.Proofs.Table.Frames

/-!
# Where rows come from

A row that is written travels: from the database to the channels of its feeds, from there to feeds
and to the tables that follow them. On the way it is cut down to what a query asks for and merged
with what is known of the same row. A property of rows that is kept by that (`RowTrait`) is one of
all rows, as long as nothing else is written: whatever is stored, is under way or has arrived bears
it.

Rows of patches need the property; other rows have to be without a time, so that they are never
taken for patches (`Suits`).

## Main definitions

* `RowTrait`: a property that is kept when rows are cut and merged.
* `Suits`: what a row that is written to a table has to be.
* `Database.Bears`, `Channels.Bears`, `Feed.Bears`, `Table.Bears`: a property of all rows there.

## Main results

* `Backend.Bears.query`: a write that suits its table leaves a data layer with rows of that sort
  only, and what it sends is such.
* `Table.Bears.applyChange`, `Table.Bears.finishConnect`: so does what a table takes in.
-/

namespace LiveDocs

/-- A property of rows that all rows without a time have, and that is kept when a row is cut down
and when rows of one patch are merged. -/
structure RowTrait (P : Record → Prop) : Prop where
  timeless : ∀ {row : Record}, row.get? "time" = none → P row
  part : ∀ {row row' : Record}, P row →
    (∀ field value, row'.get? field = some value → row.get? field = some value) → P row'
  merge : ∀ {row row' : Record} {key : String}, P row → P row' →
    Schema.patches.key? row = some key → Schema.patches.key? row' = some key → P (row.merge row')

/-- What a row of a table has to be: a patch has the property, and any other row has no time. -/
def Suits (P : Record → Prop) (table : String) (row : Record) : Prop :=
  if table = Schema.patches.name then P row else row.get? "time" = none

variable {P Q : Record → Prop} {table : String} {row row' : Record}

/-- A projection only leaves fields out, so it is a part of the row. -/
theorem RowTrait.project (hP : RowTrait P) (h : P row) (q : Query) (schema : Schema) :
    P (q.project schema row) := by
  refine hP.part h fun field value hvalue => ?_
  rw [Query.get?_project] at hvalue
  split at hvalue
  · exact hvalue
  · cases hvalue

namespace Suits

/-- Whichever table it is for, a row that suits it has the property. -/
theorem trait (h : Suits P table row) (hP : RowTrait P) : P row := by
  unfold Suits at h
  split at h
  · exact h
  · exact hP.timeless h

theorem of_timeless (hP : RowTrait P) (h : row.get? "time" = none) (table : String) :
    Suits P table row := by
  unfold Suits
  split
  · exact hP.timeless h
  · exact h

theorem mono (h : Suits P table row) (hPQ : ∀ row, P row → Q row) : Suits Q table row := by
  unfold Suits at h ⊢
  split
  · next htable => exact hPQ row (by simpa [htable] using h)
  · next htable => simpa [htable] using h

/-- Rows with one key are merged to a row that suits the table. -/
theorem merge {schema : Schema} {key : String} (hP : RowTrait P)
    (hschema : schema.name = Schema.patches.name → schema = Schema.patches)
    (h : Suits P schema.name row) (h' : Suits P schema.name row')
    (hkey : schema.key? row = some key)
    (hkey' : schema.key? row' = some key) : Suits P schema.name (row.merge row') := by
  unfold Suits at h h' ⊢
  split
  · next hname =>
    rw [if_pos hname] at h h'
    rw [hschema hname] at hkey hkey'
    exact hP.merge h h' hkey hkey'
  · next hname =>
    rw [if_neg hname] at h h'
    rw [Record.get?_merge, h, h']
    rfl

end Suits

/-! ## What is sent -/

/-- The rows in a response have a property. -/
structure Response.Bears (P : Record → Prop) (r : Response) : Prop where
  rows : ∀ {table rows}, r.rows? table = some rows → ∀ row ∈ rows, P row
  newRow : ∀ {row}, r.newRow = some row → P row

namespace Response

theorem bears_of_none {r : Response} (hquery : r.query = none) (hrow : r.newRow = none) :
    r.Bears P where
  rows := fun h => by simp [rows?, hquery] at h
  newRow := fun h => by simp [hrow] at h

/-- A first response carries the rows of one table, under the name of that table. -/
theorem bears_initial {rows : List Record} (h : ∀ row ∈ rows, P row) (id : Option String)
    (table : String) : (initial id table rows).Bears P where
  rows := by
    intro table' rows' hrows
    by_cases htable : table' = table
    · subst htable
      simp only [initial, rows?, SortedMap.ofList, List.foldl_cons, List.foldl_nil,
        Option.bind_some, SortedMap.get?_insert, if_true, List.filterMap_map] at hrows
      simpa [← Option.some.inj hrows] using h
    · simp [initial, rows?, SortedMap.ofList, htable] at hrows
  newRow := fun h => by cases h

theorem bears_ofChange {c : Change} (h : ∀ row, c.newRow = some row → P row) :
    (ofChange c).Bears P where
  rows := fun h => by cases h
  newRow := fun {row} hrow => h row hrow

end Response

/-- The rows in a reply have a property. -/
def Reply.Bears (P : Record → Prop) (reply : Reply) : Prop :=
  ∀ response, reply = .ok response → response.Bears P

/-- The rows that are sent have a property. -/
def Post.Bears (P : Record → Prop) : Post → Prop
  | send _ reply => Reply.Bears P reply
  | finish _ => True

namespace Reply

theorem bears_ok {response : Response} (h : response.Bears P) : Reply.Bears P (.ok response) := by
  intro response' heq
  cases heq
  exact h

theorem bears_error (cause : QueryError) : Reply.Bears P (.error cause) := by
  intro response' heq
  cases heq

theorem Bears.mono {reply : Reply} (h : Reply.Bears P reply) (hPQ : ∀ row, P row → Q row) :
    Reply.Bears Q reply := by
  intro response heq
  obtain ⟨hrows, hnew⟩ := h response heq
  exact ⟨fun hr row hrow => hPQ row (hrows hr row hrow), fun hrow => hPQ _ (hnew hrow)⟩

end Reply

/-- An answer and the end behind it. -/
theorem Post.bears_answer {reply : Reply} (h : Reply.Bears P reply) (sink : SinkId) :
    ∀ post ∈ [Post.send sink reply, .finish sink], post.Bears P := by
  intro post hpost
  rcases List.mem_cons.mp hpost with rfl | hpost
  · exact h
  · rw [List.mem_singleton.mp hpost]
    trivial

/-! ## Databases -/

namespace Database

/-- All rows of a database suit their tables, and so do those that are held back. -/
structure Bears (P : Record → Prop) (db : Database) : Prop where
  keyed : Keyed db.tables
  patches : ∀ {t}, db.tables.get? Schema.patches.name = some t → t.schema = Schema.patches
  rows : ∀ {name t key row}, db.tables.get? name = some t → t.rows.get? key = some row →
    Suits P name row
  held : ∀ w ∈ db.held, Suits P w.table w.row

theorem Bears.mono {db : Database} (h : db.Bears P) (hPQ : ∀ row, P row → Q row) : db.Bears Q where
  keyed := h.keyed
  patches := h.patches
  rows := fun ht hrow => (h.rows ht hrow).mono hPQ
  held := fun w hw => (h.held w hw).mono hPQ

/-- What a feed is told of is cut out of the new row. -/
theorem newRow_changeFor {q : Query} {schema : Schema} {old new : Option Record} {c : Change}
    (h : changeFor q schema old new = some c) {row : Record} (hrow : c.newRow = some row) :
    ∃ row', new = some row' ∧ row = q.project schema row' := by
  simp only [changeFor] at h
  split at h
  · cases h
  · next row' _ hafter =>
    cases h
    cases hrow
    exact ⟨row', (Option.filter_eq_some_iff.mp hafter).1, rfl⟩
  · next row' _ hafter =>
    cases h
    cases hrow
    exact ⟨row', (Option.filter_eq_some_iff.mp hafter).1, rfl⟩
  · cases h
    cases hrow

/-- What a feed is sent of a change carries the projected new row and no other. -/
theorem RowChange.bears_delta? (hP : RowTrait P) {c : RowChange} (hnew : ∀ row ∈ c.new, P row)
    {alive : SinkId → Bool} {feed : StoredFeed} {p : Post} (h : c.delta? alive feed = some p) :
    p.Bears P := by
  unfold RowChange.delta? RowChange.outcomeAt feedOutcome at h
  split at h
  · next change houtcome =>
    cases h
    refine Reply.bears_ok (Response.bears_ofChange fun row hrow => ?_)
    split at houtcome
    · cases houtcome
    · split at houtcome
      · cases houtcome
      · next hchange =>
        split at houtcome
        · cases houtcome
          obtain ⟨row', hrow', rfl⟩ := newRow_changeFor hchange hrow
          exact hP.project (hnew row' hrow') _ _
        · cases houtcome
  · cases h

/-- The change that a merge comes to. -/
theorem Operation.plan_merge {tables : Tables} {expected : Option Record} {c : RowChange}
    (h : (Operation.merge table row expected).plan tables = .ok (some c)) :
    tables.get? table = some c.table ∧ c.table.schema.key? row = some c.key ∧
      c.new = some ((c.old.getD .empty).merge row) := by
  simp only [Operation.plan] at h
  split at h
  · cases h
  · next t ht =>
    split at h
    · split at h
      · cases h
      · next key hkey =>
        split at h
        · cases h
        · cases h
          exact ⟨ht, hkey, rfl⟩
    · cases h

namespace Bears

variable {db : Database} (h : db.Bears P) (hP : RowTrait P)
include h

/-- Only tables and held writes matter. -/
theorem of_same {db' : Database} (htables : db'.tables = db.tables)
    (hheld : ∀ w ∈ db'.held, w ∈ db.held) : db'.Bears P where
  keyed := htables ▸ h.keyed
  patches := by rw [htables]; exact h.patches
  rows := by rw [htables]; exact h.rows
  held := fun w hw => h.held w (hheld w hw)

theorem named {name : String} {t : StoredTable} (ht : db.tables.get? name = some t) :
    t.schema.name = name ∧ (t.schema.name = Schema.patches.name → t.schema = Schema.patches) := by
  have hname := h.keyed.named ht
  refine ⟨hname, fun hpatches => ?_⟩
  rw [← hname, hpatches] at ht
  exact h.patches ht

include hP

/-- **A write that suits its table keeps the property in the database.** The row is merged with what
is stored under its key, and what the feeds are sent is cut out of the merged row. -/
theorem write (hrow : Suits P table row) (alive : SinkId → Bool) (expected : Option Record) :
    (db.write alive table row expected).1.Bears P ∧
      ∀ post ∈ (db.write alive table row expected).2.1, post.Bears P := by
  have htables : (db.write alive table row expected).1.tables =
      (Operation.merge table row expected).apply db.tables :=
    (write_carries alive db table row expected).tables
  have hkeyed := htables ▸ h.keyed.apply (.merge table row expected)
  cases hplan : (Operation.merge table row expected).plan db.tables with
  | error e =>
    rw [write_of_error alive hplan]
    exact ⟨h, by simp⟩
  | ok change =>
    obtain ⟨hcarries, -⟩ := write_of_ok alive hplan
    cases change with
    | none =>
      refine ⟨h.of_same hcarries.tables fun w hw => hcarries.held ▸ hw, ?_⟩
      rw [hcarries.posts]
      simp
    | some c =>
      obtain ⟨ht, hkey, hnew⟩ := Operation.plan_merge hplan
      obtain ⟨hname, hschema⟩ := h.named ht
      -- The row is merged with what is stored under its key.
      have hmerged : Suits P table ((c.old.getD .empty).merge row) := by
        cases hold : c.old with
        | none =>
          have hempty : Record.merge .empty row = row :=
            Record.merge_eq_right fun field hfield => by simp at hfield
          rw [Option.getD_none, hempty]
          exact hrow
        | some old =>
          rw [← hname] at hrow ⊢
          exact .merge hP hschema (hname ▸ h.rows ht hold) hrow (h.keyed.keyed ht hold) hkey
      have htables : ∀ name t, (db.write alive table row expected).1.tables.get? name = some t →
          name = table ∧ t = { c.table with rows := putRow c.table.rows c.key c.new } ∨
            db.tables.get? name = some t := by
        intro name t hget
        rw [hcarries.tables] at hget
        simp only [Option.elim_some, RowChange.applyTo, SortedMap.get?_insert, hname] at hget
        split at hget
        · next hsame => exact .inl ⟨hsame, (Option.some.inj hget).symm⟩
        · exact .inr hget
      refine ⟨⟨hkeyed, fun {t} hget => ?_, fun {name t key row'} hget hrow' => ?_, ?_⟩, ?_⟩
      · rcases htables _ t hget with ⟨hsame, rfl⟩ | hget
        · exact hschema (hname.trans hsame.symm)
        · exact h.patches hget
      · rcases htables name t hget with ⟨rfl, rfl⟩ | hget
        · simp only [get?_putRow, hnew] at hrow'
          split at hrow'
          · cases hrow'
            exact hmerged
          · exact h.rows ht hrow'
        · exact h.rows hget hrow'
      · exact hcarries.held ▸ h.held
      · rw [hcarries.posts]
        intro post hpost
        obtain ⟨feed, -, hdelta⟩ := List.mem_filterMap.mp hpost
        refine RowChange.bears_delta? hP (fun row' hrow' => ?_) hdelta
        rw [hnew] at hrow'
        cases hrow'
        exact hmerged.trait hP

theorem writeAndAnswer {w : HeldWrite} (hw : Suits P w.table w.row) (alive : SinkId → Bool) :
    (db.writeAndAnswer alive w).1.Bears P ∧
      ∀ post ∈ (db.writeAndAnswer alive w).2, post.Bears P := by
  obtain ⟨hdb, hposts⟩ := h.write hP hw alive w.expected
  refine ⟨hdb, fun post hpost => ?_⟩
  rcases List.mem_append.mp hpost with hpost | hpost
  · exact hposts post hpost
  · refine Post.bears_answer ?_ w.sink post hpost
    unfold acknowledgement
    split
    · exact Reply.bears_ok (Response.bears_of_none rfl rfl)
    · exact Reply.bears_error _

/-- Held writes are made one after the other, each on what the one before has left. -/
theorem writeAll {writes : List HeldWrite} (hwrites : ∀ w ∈ writes, Suits P w.table w.row)
    (alive : SinkId → Bool) :
    (db.writeAll alive writes).1.Bears P ∧ ∀ post ∈ (db.writeAll alive writes).2, post.Bears P := by
  induction writes generalizing db with
  | nil => exact ⟨h, by simp [Database.writeAll]⟩
  | cons w rest ih =>
    obtain ⟨hw, hrest⟩ := List.forall_mem_cons.mp hwrites
    obtain ⟨hdb, hposts⟩ := h.writeAndAnswer hP hw alive
    obtain ⟨hdb', hposts'⟩ := ih hdb hrest
    refine ⟨hdb', fun post hpost => ?_⟩
    rcases List.mem_append.mp hpost with hpost | hpost
    · exact hposts post hpost
    · exact hposts' post hpost

/-- The held writes suit their tables since they did when they were parked. -/
theorem release (alive : SinkId → Bool) :
    (db.release alive).1.Bears P ∧ ∀ post ∈ (db.release alive).2, post.Bears P := by
  have hfreed : Bears P { db with held := [] } := h.of_same rfl (by simp)
  exact hfreed.writeAll hP h.held alive

theorem get (alive : SinkId → Bool) (q : Query) (changes : Bool) (sink : SinkId) :
    (db.get alive q changes sink).1.Bears P ∧
      ∀ post ∈ (db.get alive q changes sink).2, post.Bears P := by
  simp only [Database.get]
  split
  · exact ⟨h, Post.bears_answer (Reply.bears_error _) sink⟩
  · next rows hselect =>
    obtain ⟨t, ht, rfl⟩ := Option.map_eq_some_iff.mp hselect
    have hrows : ∀ row ∈ (t.rows.values.filter q.matchesRow).map (q.project t.schema), P row := by
      intro row hrow
      obtain ⟨row', hrow', rfl⟩ := List.mem_map.mp hrow
      obtain ⟨key, hkey⟩ := SortedMap.mem_values_iff.mp (List.mem_filter.mp hrow').1
      exact hP.project ((h.rows ht hkey).trait hP) q t.schema
    have hreply (id : Option String) :=
      Reply.bears_ok (Response.bears_initial hrows id q.table)
    split
    · exact ⟨h, Post.bears_answer (hreply _) sink⟩
    · split
      · refine ⟨h.of_same rfl fun w hw => hw, fun post hpost => ?_⟩
        rw [List.mem_singleton.mp hpost]
        exact hreply _
      · refine ⟨h, fun post hpost => ?_⟩
        rw [List.mem_singleton.mp hpost]
        trivial

/-- Of all queries only a set query can bring in a row, which is then written at once or parked. -/
theorem query {request : Request}
    (hrequest : ∀ sink w, setQuery? request sink = some w → Suits P w.table w.row)
    (alive : SinkId → Bool) (sink : SinkId) :
    (db.query alive request sink).1.Bears P ∧
      ∀ post ∈ (db.query alive request sink).2, post.Bears P := by
  have hcounted (stats : DatabaseStats) : Bears P { db with stats } := h.of_same rfl fun w hw => hw
  cases hset : setQuery? request sink with
  | some w =>
    obtain ⟨-, stats, hquery⟩ := query_of_set hset alive db
    have hw := hrequest sink w hset
    rw [hquery]
    split
    · refine ⟨⟨h.keyed, h.patches, h.rows, fun w' hw' => ?_⟩, by simp⟩
      rcases List.mem_append.mp hw' with hw' | hw'
      · exact h.held w' hw'
      · rw [List.mem_singleton.mp hw']
        exact hw
    · exact (hcounted stats).writeAndAnswer hP hw alive
  | none =>
    simp only [Database.query]
    split
    · exact ⟨h, Post.bears_answer (Reply.bears_error _) sink⟩
    · next statement hparse =>
      cases statement with
      | get q => exact (hcounted _).get hP alive q request.changes sink
      | set table row => simp [setQuery?, hparse] at hset

omit hP

theorem cancel (id : String) :
    (db.cancel id).1.Bears P ∧ ∀ post ∈ (db.cancel id).2.1, post.Bears P := by
  unfold Database.cancel
  split
  · exact ⟨h, by simp⟩
  · exact ⟨h.of_same rfl fun w hw => hw,
      Post.bears_answer (Reply.bears_ok (Response.bears_of_none rfl rfl)) _⟩

/-- Nothing but errors and ends is sent when all feeds are lost. -/
theorem disconnect : db.disconnect.1.Bears P ∧ ∀ post ∈ db.disconnect.2, post.Bears P := by
  refine ⟨h.of_same rfl (by simp [Database.disconnect]), fun post hpost => ?_⟩
  rcases List.mem_append.mp hpost with hpost | hpost
  · obtain ⟨f, -, hpost⟩ := List.mem_flatMap.mp hpost
    exact Post.bears_answer (Reply.bears_error _) f.sink post hpost
  · obtain ⟨w, -, rfl⟩ := List.mem_map.mp hpost
    trivial

end Bears

/-- The tables of stored documents without rows. -/
theorem bears_forDocuments (journal : Option Journal) :
    Bears P { forDocuments with journal } := by
  have hrows : ∀ {name t}, forDocuments.tables.get? name = some t →
      t.rows = .empty ∧ (name = Schema.patches.name → t.schema = Schema.patches) := by
    intro name t ht
    simp only [forDocuments, empty, SortedMap.ofList, List.map_cons, List.map_nil, List.foldl_cons,
      List.foldl_nil, SortedMap.get?_insert, SortedMap.get?_empty] at ht
    split at ht
    · cases ht
      exact ⟨rfl, fun _ => rfl⟩
    · next hname =>
      split at ht
      · cases ht
        exact ⟨rfl, fun hpatches => absurd hpatches hname⟩
      · cases ht
  refine ⟨keyed_empty _, fun ht => (hrows ht).2 rfl,
    fun ht hrow => ?_, by simp [forDocuments, empty]⟩
  rw [(hrows ht).1] at hrow
  cases hrow

end Database

namespace Backend

/-- All rows of a data layer suit their tables. One that is answered by hand has none. -/
def Bears (P : Record → Prop) : Backend → Prop
  | script _ => True
  | database db _ => db.Bears P

variable {b : Backend}

theorem Bears.mono (h : b.Bears P) (hPQ : ∀ row, P row → Q row) : b.Bears Q := by
  cases b with
  | script => trivial
  | database => exact Database.Bears.mono h hPQ

/-- A user who joins a document writes a row without a time. -/
theorem bears_join (hP : RowTrait P) {db : Database} (h : db.Bears P) (alive : SinkId → Bool)
    (stringId user : Json) : (join alive db stringId user).1.Bears P ∧
      ∀ post ∈ (join alive db stringId user).2, post.Bears P := by
  refine h.write hP (.of_timeless hP ?_ _) alive none
  simp [SortedMap.ofList]

/-- **A write that suits its table keeps the rows of a data layer**, whatever is planned to go
wrong, and what is sent bears the property. -/
theorem Bears.query (hP : RowTrait P) (h : b.Bears P) {request : Request}
    (hrequest : ∀ sink w, Database.setQuery? request sink = some w → Suits P w.table w.row)
    (alive : SinkId → Bool) (sink : SinkId) :
    (b.query alive request sink).1.Bears P ∧
      ∀ post ∈ (b.query alive request sink).2, post.Bears P := by
  cases b with
  | script => exact ⟨trivial, by simp [Backend.query]⟩
  | database db plan =>
    have hquery {db : Database} (h : db.Bears P) := h.query hP hrequest alive sink
    have hok {response : Response} (h : response.Bears P) :=
      Post.bears_answer (Reply.bears_ok h) sink
    simp only [Backend.query, Bears]
    cases (plan.take request.changes).1 with
    | pass => exact hquery h
    | reject | conflict | lost => exact ⟨h, Post.bears_answer (Reply.bears_error _) sink⟩
    | cancel => exact ⟨h, hok (Response.bears_of_none rfl rfl)⟩
    | missing => exact ⟨h, hok (Response.bears_initial (by simp) none "other")⟩
    | drop => exact ⟨h, by simp [queryDatabase, Post.Bears]⟩
    | silent => exact ⟨h, by simp [queryDatabase]⟩
    | race user =>
      simp only [queryDatabase]
      split
      · exact hquery h
      · next stringId _ =>
        obtain ⟨hdb, hbefore⟩ := bears_join hP h alive stringId user
        obtain ⟨hdb', hposts⟩ := hquery hdb
        refine ⟨hdb', fun post hpost => ?_⟩
        rcases List.mem_append.mp hpost with hpost | hpost
        · exact hbefore post hpost
        · exact hposts post hpost

theorem Bears.cancel (h : b.Bears P) (id : String) :
    (b.cancel id).1.Bears P ∧ ∀ post ∈ (b.cancel id).2, post.Bears P := by
  cases b with
  | script => exact ⟨trivial, by simp [Backend.cancel]⟩
  | database => exact Database.Bears.cancel h id

end Backend

/-! ## Channels -/

namespace Channels

/-- All that was sent and not received yet has a property. -/
def Bears (P : Record → Prop) (cs : Channels) : Prop :=
  ∀ sink c, cs.channels.get? sink = some c → ∀ reply ∈ c.queue, Reply.Bears P reply

namespace Bears

variable {cs : Channels} (h : cs.Bears P)
include h

theorem mono (hPQ : ∀ row, P row → Q row) : cs.Bears Q :=
  fun sink c hc reply hreply => (h sink c hc reply hreply).mono hPQ

/-- What waits in a channel has the property, also if there is no such channel. -/
theorem queue {sink : SinkId} {reply : Reply} (hreply : reply ∈ (cs.get sink).queue) :
    Reply.Bears P reply := by
  unfold Channels.get at hreply
  cases hc : cs.channels.get? sink with
  | none => simp [hc] at hreply
  | some c =>
    rw [hc, Option.getD_some] at hreply
    exact h sink c hc reply hreply

/-- A channel is replaced by one whose replies all have the property. -/
theorem modify {sink : SinkId} {change : Channel → Channel}
    (hchange : ∀ c, cs.channels.get? sink = some c →
      ∀ reply ∈ (change c).queue, Reply.Bears P reply) : (cs.modify sink change).Bears P := by
  unfold Channels.modify
  split
  · next c hc =>
    intro sink' c' hc' reply hreply
    simp only [SortedMap.get?_insert] at hc'
    split at hc'
    · cases hc'
      exact hchange c hc reply hreply
    · exact h sink' c' hc' reply hreply
  · exact h

theorem dropReceiver (sink : SinkId) : (cs.dropReceiver sink).Bears P :=
  h.modify fun _ _ => by simp

/-- The first reply is taken. -/
theorem takeFirst {sink : SinkId} {reply : Reply} {rest : List Reply}
    (hqueue : (cs.get sink).queue = reply :: rest) :
    (cs.modify sink fun c => { c with queue := rest }).Bears P := by
  refine h.modify fun c _ reply' hreply' => ?_
  have hmem : reply' ∈ (cs.get sink).queue := hqueue ▸ List.mem_cons_of_mem _ hreply'
  exact h.queue hmem

theorem fresh : cs.fresh.2.Bears P := by
  intro sink c hc reply hreply
  simp only [Channels.fresh, SortedMap.get?_insert] at hc
  split at hc
  · cases hc
    cases hreply
  · exact h sink c hc reply hreply

/-- A reply is put at the end of its channel, and an end adds none. -/
theorem post {post : Post} (hpost : post.Bears P) : (cs.post post).Bears P := by
  cases post with
  | send sink reply =>
    refine h.modify fun c hc reply' hreply' => ?_
    unfold Channel.send at hreply'
    split at hreply'
    · rcases List.mem_append.mp hreply' with hreply' | hreply'
      · exact h sink c hc reply' hreply'
      · rw [List.mem_singleton.mp hreply']
        exact hpost
    · exact h sink c hc reply' hreply'
  | finish sink => exact h.modify fun c hc => h sink c hc

end Bears

end Channels

/-! ## Feeds -/

/-- The changes that subscribers of a feed have yet to read have a property. -/
structure EventBus.Tells (P : Record → Prop) (bus : EventBus FeedEvent) : Prop where
  orderly : bus.Orderly
  rows : ∀ {sub change row}, .update change ∈ bus.unread sub → change.newRow = some row → P row

namespace EventBus.Tells

variable {bus : EventBus FeedEvent} (h : bus.Tells P)
include h

theorem emit {event : FeedEvent}
    (hevent : ∀ change row, event = .update change → change.newRow = some row → P row) :
    (bus.emit event).Tells P := by
  refine ⟨h.orderly.emit event, fun {sub change row} hmem hrow => ?_⟩
  rcases h.orderly.mem_unread_emit hmem with hold | hnew
  · exact h.rows hold hrow
  · exact hevent change row hnew.symm hrow

theorem close : bus.close.Tells P := ⟨h.orderly.close, fun hmem => h.rows hmem⟩

theorem subscribe : bus.subscribe.2.Tells P :=
  ⟨h.orderly.subscribe, fun hmem => by rw [h.orderly.unread_subscribe] at hmem; exact h.rows hmem⟩

theorem unsubscribe (dropped : Nat) : (bus.unsubscribe dropped).Tells P := by
  refine ⟨h.orderly.unsubscribe dropped, fun {sub change row} hmem => ?_⟩
  rw [unread_unsubscribe] at hmem
  split at hmem
  · cases hmem
  · exact h.rows hmem

theorem reads {reader : Nat} {seen : List FeedEvent} {bus' : EventBus FeedEvent}
    (hreads : bus.Reads reader seen bus') : bus'.Tells P :=
  ⟨hreads.orderly h.orderly, fun hmem => h.rows (hreads.mem_unread hmem)⟩

end EventBus.Tells

namespace Feed

/-- All rows that a feed has been sent and that are not handed out yet have a property. -/
structure Bears (P : Record → Prop) (f : Feed) : Prop where
  first : ∀ {reply}, f.first = .arrived reply → Reply.Bears P reply
  pending : ∀ {queue}, f.pending = some queue → ∀ reply ∈ queue, Reply.Bears P reply
  events : f.events.Tells P

theorem bears_new (query : Query) (timeout : Nat) (options : List Json) :
    (new query timeout options).Bears P where
  first := fun h => by cases h
  pending := fun h => by cases h; simp
  events := ⟨EventBus.orderly_empty, fun h => by simp [new, EventBus.unread, EventBus.empty] at h⟩

/-- A write is not what a feed asks for. -/
theorem setQuery?_request (f : Feed) (sink : SinkId) :
    Database.setQuery? f.request sink = none := by
  simp [Database.setQuery?, Feed.request, Request.changefeed, Query.parse_toJson_eq]

namespace Bears

variable {f : Feed} (h : f.Bears P)
include h

theorem mono (hPQ : ∀ row, P row → Q row) : f.Bears Q where
  first := fun hf => (h.first hf).mono hPQ
  pending := fun hf reply hreply => (h.pending hf reply hreply).mono hPQ
  events := ⟨h.events.orderly, fun hmem hrow => hPQ _ (h.events.rows hmem hrow)⟩

theorem withEvents {events : EventBus FeedEvent} (hevents : events.Tells P) :
    Bears P { f with events } :=
  ⟨h.first, h.pending, hevents⟩

theorem close : f.close.1.Bears P := by
  unfold Feed.close
  split
  · exact h
  · refine ⟨fun {reply} hreply => ?_, fun hf => (by cases hf), (h.events.emit (by simp)).close⟩
    simp only at hreply
    split at hreply
    · cases hreply
    · exact h.first hreply

theorem beginConnect {f' : Feed} (hf : f.beginConnect = .ok f') : f'.Bears P := by
  unfold Feed.beginConnect at hf
  split at hf
  · cases hf
    exact ⟨fun hf => (by cases hf), h.pending, h.events⟩
  · cases hf

/-- The rows of a first response. -/
theorem finishConnect {reply : Reply} (hreply : Reply.Bears P reply) :
    (f.finishConnect reply).1.Bears P ∧
      ∀ rows, (f.finishConnect reply).2.2 = .ok rows → ∀ row ∈ rows, P row := by
  unfold Feed.finishConnect
  split
  · exact ⟨h.close, fun rows hrows => by cases hrows⟩
  · next id rows hread =>
    split
    · exact ⟨h, fun rows hrows => by cases hrows⟩
    · refine ⟨⟨h.first, h.pending, h.events⟩, fun rows' hrows' => ?_⟩
      cases hrows'
      unfold readFirst at hread
      split at hread
      · cases hread
      · next response =>
        split at hread
        · cases hread
        · split at hread
          · next hrows =>
            cases hread
            exact (hreply response rfl).rows hrows
          · cases hread

/-- A change is told to the subscribers with the row in the reply, and an end tells no rows. -/
theorem process {reply : Reply} (hreply : Reply.Bears P reply) : (f.process reply).1.Bears P := by
  unfold Feed.process
  split
  · exact h.close
  · next response =>
    split
    · exact h.close
    · split
      · next change hchange =>
        refine h.withEvents (h.events.emit fun change' row heq hrow => ?_)
        cases heq
        obtain ⟨action, -, rfl⟩ := Option.map_eq_some_iff.mp hchange
        exact (hreply response rfl).newRow hrow
      · exact h

/-- A reply is taken as the first one, kept back or processed. -/
theorem deliver {reply : Reply} (hreply : Reply.Bears P reply) : (f.deliver reply).1.Bears P := by
  unfold Feed.deliver
  split
  · refine ⟨fun hf => ?_, h.pending, h.events⟩
    cases hf
    exact hreply
  · split
    · exact h
    · split
      · next queue hqueue =>
        refine ⟨h.first, fun {queue'} hf reply' hreply' => ?_, h.events⟩
        cases hf
        rcases List.mem_append.mp hreply' with hreply' | hreply'
        · exact h.pending hqueue reply' hreply'
        · rw [List.mem_singleton.mp hreply']
          exact hreply
      · exact h.process hreply

/-- Replies are processed in order, up to one that ends the feed. -/
theorem processAll {replies : List Reply} (hreplies : ∀ reply ∈ replies, Reply.Bears P reply) :
    (f.processAll replies).1.Bears P := by
  induction replies generalizing f with
  | nil => exact h
  | cons reply rest ih =>
    obtain ⟨hreply, hrest⟩ := List.forall_mem_cons.mp hreplies
    have hnext := h.process hreply
    unfold Feed.processAll
    split
    · next f' _ hprocess =>
      rw [hprocess] at hnext
      exact ih hnext hrest
    · next f' _ hprocess =>
      rw [hprocess] at hnext
      exact hnext

/-- What was kept back is what was delivered, so it has the property. -/
theorem flush : f.flush.1.Bears P := by
  unfold Feed.flush
  split
  · have hhanded : Bears P { f with pending := none } :=
      ⟨h.first, fun hf => (by cases hf), h.events⟩
    refine hhanded.processAll fun reply hreply => ?_
    cases hpending : f.pending with
    | none => simp [hpending] at hreply
    | some queue =>
      rw [hpending, Option.getD_some] at hreply
      exact h.pending hpending reply hreply
  · exact h

end Bears

end Feed

/-! ## Tables -/

namespace Table

/-- The rows of patches that a table holds have a property. Other tables are of no concern. -/
def Bears (P : Record → Prop) (t : Table) : Prop :=
  t.schema = Schema.patches →
    ∀ {key row}, t.rows.get? key = some row → P row ∧ Schema.patches.key? row = some key

/-- A table of the same sort whose rows have a property if they had it before. -/
structure Keeps (P : Record → Prop) (t t' : Table) : Prop where
  schema : t'.schema = t.schema
  bears : t.Bears P → t'.Bears P

theorem bears_new (schema : Schema) (query : Query) (settings : Settings) :
    (new schema query settings).Bears P :=
  fun _ _ _ hrow => by cases hrow

theorem Bears.mono {t : Table} (h : t.Bears P) (hPQ : ∀ row, P row → Q row) : t.Bears Q :=
  fun ht _ _ hrow => ⟨hPQ _ (h ht hrow).1, (h ht hrow).2⟩

theorem Keeps.trans {t t' t'' : Table} (h : t.Keeps P t') (h' : t'.Keeps P t'') : t.Keeps P t'' :=
  ⟨h'.schema.trans h.schema, fun ht => h'.bears (h.bears ht)⟩

variable {t t' : Table}

/-- Only the schema and the rows of a table matter. -/
theorem keeps_of_same (hschema : t'.schema = t.schema) (hrows : t'.rows = t.rows) :
    t.Keeps P t' := by
  refine ⟨hschema, fun h ht key row hrow => ?_⟩
  rw [hschema] at ht
  rw [hrows] at hrow
  exact h ht hrow

theorem keeps_refl (t : Table) : t.Keeps P t := keeps_of_same rfl rfl

/-- What leaves the rows keeps their properties. -/
theorem Alters.keeps {parts : List Part} (h : Alters parts t t')
    (hrows : Part.rows ∉ parts) : t.Keeps P t' :=
  keeps_of_same h.schema (h.rows hrows)

/-- A row may be replaced by one of the same key that has the property, or taken away. -/
theorem keeps_announce_replaceRow (t : Table) (key : String) {row : Option Record}
    (hrow : t.schema = Schema.patches → ∀ r ∈ row, P r ∧ Schema.patches.key? r = some key) :
    t.Keeps P (announce key (t.replaceRow key row)).1 := by
  refine ⟨by simp, fun h ht key' row' hrow' => ?_⟩
  rw [schema_announce, schema_replaceRow] at ht
  rw [rows_announce, get?_rows_replaceRow] at hrow'
  split at hrow'
  · next hkey =>
    rw [hkey.1]
    exact hrow ht row' hrow'
  · exact h ht hrow'

/-- Fields under their key are merged into a row. -/
theorem keeps_announce_mergeRow (hP : RowTrait P) (t : Table) {key : String} {fields : Record}
    (hfields : P fields) (hkey : t.schema.key? fields = some key) :
    t.Keeps P (announce key (t.mergeRow key fields)).1 := by
  refine ⟨by simp, fun h => ?_⟩
  have hreplace (row : Record)
      (hrow : t.schema = Schema.patches → P row ∧ Schema.patches.key? row = some key) :
      (announce key (t.replaceRow key (some row))).1.Bears P :=
    (t.keeps_announce_replaceRow key fun ht r hr => by cases hr; exact hrow ht).bears h
  unfold mergeRow
  split
  · next row hold =>
    refine hreplace _ fun ht => ?_
    rw [ht] at hkey
    obtain ⟨hrow, hrowKey⟩ := h ht hold
    exact ⟨hP.merge hrow hfields hrowKey hkey, Record.key?_merge row hkey⟩
  · exact hreplace _ fun ht => ⟨hfields, ht ▸ hkey⟩

/-- **A change that a table follows keeps its rows.** -/
theorem keeps_applyChange (hP : RowTrait P) (t : Table) {c : Change}
    (hc : ∀ row, c.newRow = some row → P row) : t.Keeps P (t.applyChange c).1 := by
  unfold applyChange
  split
  · split
    · exact t.keeps_announce_replaceRow _ fun _ r hr => by cases hr
    · exact t.keeps_refl
  all_goals
    split
    · exact t.keeps_refl
    · next row hrow =>
      split
      · next key hkey => exact t.keeps_announce_mergeRow hP (hc row hrow) hkey
      · exact t.keeps_refl

/-- A local write merges the record into the row with its key. -/
theorem keeps_beginWrite (hP : RowTrait P) {record : Record} (hrecord : P record)
    {notices : List TableNotice} {w : LocalWrite} (h : t.beginWrite record = .ok (t', notices, w)) :
    t.Keeps P t' := by
  unfold beginWrite at h
  split at h
  · cases h
  · cases h
  · cases h
  · split at h
    · cases h
    · next key hkey =>
      cases h
      exact (t.keeps_announce_mergeRow hP hrecord hkey).trans (keeps_of_same rfl rfl)

/-- A write that was accepted leaves the rows as they are. -/
theorem keeps_resumeWrite_ok {w : LocalWrite} {passed : Option Nat} {notices : List TableNotice}
    (h : t.resumeWrite w passed = some (.ok (), t', notices)) : t.Keeps P t' := by
  obtain ⟨t₁, hwrites, -, -, ⟨-, rfl⟩ | ⟨hfailed, -⟩⟩ := resumeWrite_cases h
  · exact hwrites.keeps (by decide)
  · cases hfailed

/-- A table of other rows keeps its sort, whatever comes of a write. -/
theorem keeps_resumeWrite {w : LocalWrite} {passed : Option Nat} {outcome : Except TableError Unit}
    {notices : List TableNotice} (hschema : t.schema ≠ Schema.patches)
    (h : t.resumeWrite w passed = some (outcome, t', notices)) : t.Keeps P t' := by
  have hsame := (alters_resumeWrite h).schema
  exact ⟨hsame, fun _ ht => absurd (hsame.symm.trans ht) hschema⟩

/-- **The rows that a table begins with are those that its feed was sent.** -/
theorem keeps_finishConnect {rows : List Record} (hrows : ∀ row ∈ rows, P row)
    {notices : List TableNotice} (h : t.finishConnect rows = .ok (t', notices)) : t.Keeps P t' := by
  unfold finishConnect at h
  split at h
  · cases h
  · cases h
    refine ⟨rfl, fun _ ht key row hrow => ?_⟩
    have hschema : t.schema = Schema.patches := ht
    obtain ⟨row', hrow', hkeyed⟩ := List.mem_filterMap.mp (SortedMap.mem_of_get?_ofList hrow)
    obtain ⟨key', hkey', heq⟩ := Option.map_eq_some_iff.mp hkeyed
    cases heq
    exact ⟨hrows row hrow', hschema ▸ hkey'⟩

theorem keeps_close (t : Table) : t.Keeps P t.close.1 := by
  unfold close
  split
  · exact t.keeps_refl
  · exact keeps_of_same rfl rfl

/-- A write is sent as it was made. -/
theorem setQuery?_request {record : Record} {expected : Option Record} {sink : SinkId}
    {w : HeldWrite} (h : Database.setQuery? (t.request record expected) sink = some w) :
    w.table = t.schema.name ∧ w.row = record := by
  have hparse : Statement.parse (t.request record expected).query =
      .ok (.set t.schema.name record) := by
    cases expected <;>
      simp only [request, Request.setIf, Request.set, Statement.parse, Json.ofRecord,
        Statement.ofBody, SortedMap.ofList_entries]
  simp only [Database.setQuery?, hparse, Option.some.injEq] at h
  rw [← h]
  exact ⟨rfl, rfl⟩

end Table

end LiveDocs
