import LiveDocs.Proofs.Database.Effects

/-!
# Held, released and dropped writes

A set query is written and answered at once, or it is parked while writes are held back. A parked
query is answered when the writes are released, and then its condition is judged by the rows there
are by then; or it is dropped without an answer when the connection is lost.

A `Session` follows a database through any sequence of queries, writes, holds, releases and losses
of the connection. It keeps the set queries that were asked, everything that was sent, and the
operations that were acknowledged, in the order of the acknowledgements. At each moment every set
query has exactly one fate (`Database.Fate`), which is read off what was sent to it, and the tables
are those that the acknowledged operations make of the initial ones.

## Main definitions

* `Database.Session`, `Database.Session.step`, `Database.Session.run`: a database in use.
* `Database.Fate`, `Database.Session.Meets`: what becomes of a set query.
* `Database.Session.Orderly`: the invariant of all sessions.

## Main results

* `Database.Session.Orderly.step`: every move keeps the invariant.
* `Database.Session.accounted_run`: fates, parked and refused writes, and the replay of what was
  acknowledged.
-/

namespace LiveDocs

namespace Database

/-! ## Set queries -/

/-- The operation that a post acknowledges, if it answers one of some set queries with success. -/
def acknowledged? (asked : List HeldWrite) : Post → Option Operation
  | .send sink (.ok _) => (asked.find? fun w => w.sink == sink).map HeldWrite.operation
  | _ => none

theorem acknowledged?_eq_none {asked : List HeldWrite} {p : Post}
    (h : ∀ w ∈ asked, w.sink ≠ p.sink) : acknowledged? asked p = none := by
  unfold acknowledged?
  split
  · next sink _ =>
    have hnone : (asked.find? fun w => w.sink == sink) = none :=
      List.find?_eq_none.mpr fun w hw => by simpa [Post.sink] using h w hw
    rw [hnone, Option.map_none]
  · rfl

theorem filterMap_acknowledged?_eq_nil {asked : List HeldWrite} {posts : List Post}
    (h : ∀ p ∈ posts, ∀ w ∈ asked, w.sink ≠ p.sink) : posts.filterMap (acknowledged? asked) = [] :=
  List.filterMap_eq_nil_iff.mpr fun p hp => acknowledged?_eq_none (h p hp)

/-- Set queries with sinks of their own are found by them. -/
theorem find?_sink {asked : List HeldWrite} (h : (asked.map HeldWrite.sink).Nodup) {w : HeldWrite}
    (hw : w ∈ asked) : (asked.find? fun v => v.sink == w.sink) = some w := by
  induction asked with
  | nil => cases hw
  | cons v asked ih =>
    rw [List.map_cons, List.nodup_cons] at h
    rcases List.mem_cons.mp hw with rfl | hw
    · simp
    · have hne : v.sink ≠ w.sink := fun e => h.1 (e ▸ List.mem_map_of_mem hw)
      rw [List.find?_cons_of_neg (by simpa using hne), ih h.2 hw]

/-- Some set queries were made and answered, one after the other. -/
structure Made (asked : List HeldWrite) (before after : Database) (posts : List Post)
    (ws : List HeldWrite) : Prop where
  feeds : after.feeds ⊆ before.feeds
  held : after.held = before.held
  /-- Something is sent only to feeds and to the queries. -/
  targets : ∀ p ∈ posts, (∃ f ∈ before.feeds, p.sink = f.sink) ∨ ∃ w ∈ ws, p.sink = w.sink
  answered : ∀ w ∈ ws, ∃ reply, postsTo w.sink posts = [.send w.sink reply, .finish w.sink]
  tables : after.tables =
    (posts.filterMap (acknowledged? asked)).foldl Operation.apply before.tables

/-- One set query whose sink is its own. -/
theorem writeAndAnswer_made (alive : SinkId → Bool) (db : Database) {asked : List HeldWrite}
    (hasked : (asked.map HeldWrite.sink).Nodup)
    (hfeeds : ∀ f ∈ db.feeds, ∀ w ∈ asked, w.sink ≠ f.sink) {w : HeldWrite} (hw : w ∈ asked) :
    Made asked db (db.writeAndAnswer alive w).1 (db.writeAndAnswer alive w).2 [w] := by
  cases hplan : w.operation.plan db.tables with
  | error e =>
    rw [writeAndAnswer_of_error alive db hplan]
    refine ⟨List.Subset.refl _, rfl, ?_, ?_, ?_⟩
    · simp [Post.sink]
    · intro v hv
      rw [List.mem_singleton.mp hv]
      exact ⟨.error e, by simp [postsTo, Post.sink]⟩
    · rfl
  | ok change =>
    obtain ⟨posts, hcarries, hposts⟩ := writeAndAnswer_of_ok alive db hplan
    have hunheard : ∀ p ∈ posts, ∀ v ∈ asked, v.sink ≠ p.sink := by
      intro p hp
      obtain ⟨f, hf, change, rfl⟩ := hcarries.mem_posts hp
      exact hfeeds f hf
    rw [hposts]
    refine ⟨hcarries.feeds_subset, hcarries.held, ?_, ?_, ?_⟩
    · intro p hp
      rcases List.mem_append.mp hp with hp | hp
      · obtain ⟨f, hf, change, rfl⟩ := hcarries.mem_posts hp
        exact .inl ⟨f, hf, rfl⟩
      · exact .inr ⟨w, List.mem_singleton_self w, sink_of_mem_answer hp⟩
    · intro v hv
      rw [List.mem_singleton.mp hv, postsTo_append,
        postsTo_eq_nil fun p hp => (hunheard p hp w hw).symm]
      exact ⟨.ok .empty, by simp [postsTo, Post.sink]⟩
    · rw [List.filterMap_append, filterMap_acknowledged?_eq_nil hunheard,
        hcarries.tables_apply hplan]
      simp only [acknowledged?, List.filterMap_cons, find?_sink hasked hw, Option.map_some,
        List.filterMap_nil, List.nil_append, List.foldl_cons, List.foldl_nil]

/-- Some set queries whose sinks are their own. -/
theorem writeAll_made (alive : SinkId → Bool) (db : Database) {asked : List HeldWrite}
    (hasked : (asked.map HeldWrite.sink).Nodup) {ws : List HeldWrite} (hws : ws.Sublist asked)
    (hfeeds : ∀ f ∈ db.feeds, ∀ w ∈ asked, w.sink ≠ f.sink) :
    Made asked db (db.writeAll alive ws).1 (db.writeAll alive ws).2 ws := by
  induction ws generalizing db with
  | nil => exact ⟨List.Subset.refl _, rfl, by simp [writeAll], by simp, rfl⟩
  | cons w ws ih =>
    have hmem : ∀ v ∈ w :: ws, v ∈ asked := hws.subset
    have hnodup : ((w :: ws).map HeldWrite.sink).Nodup := hasked.sublist (hws.map _)
    rw [List.map_cons, List.nodup_cons] at hnodup
    have hfirst := writeAndAnswer_made alive db hasked hfeeds (hmem w List.mem_cons_self)
    have hrest := ih _ ((List.sublist_cons_self w ws).trans hws)
      fun f hf => hfeeds f (hfirst.feeds hf)
    simp only [writeAll]
    refine ⟨List.Subset.trans hrest.feeds hfirst.feeds, hrest.held.trans hfirst.held, ?_, ?_, ?_⟩
    · intro p hp
      rcases List.mem_append.mp hp with hp | hp
      · rcases hfirst.targets p hp with hfeed | ⟨v, hv, hsink⟩
        · exact .inl hfeed
        · exact .inr ⟨w, List.mem_cons_self, List.mem_singleton.mp hv ▸ hsink⟩
      · rcases hrest.targets p hp with ⟨f, hf, hsink⟩ | ⟨v, hv, hsink⟩
        · exact .inl ⟨f, hfirst.feeds hf, hsink⟩
        · exact .inr ⟨v, List.mem_cons_of_mem w hv, hsink⟩
    · intro v hv
      rcases List.mem_cons.mp hv with rfl | hv
      · -- Nothing is sent to the first query when the others are made.
        obtain ⟨reply, hreply⟩ := hfirst.answered v (List.mem_singleton_self v)
        refine ⟨reply, ?_⟩
        rw [postsTo_append, hreply, postsTo_eq_nil, List.append_nil]
        intro p hp hsink
        rcases hrest.targets p hp with ⟨f, hf, hfeed⟩ | ⟨u, hu, hother⟩
        · exact hfeeds f (hfirst.feeds hf) v (hmem v List.mem_cons_self) (hsink ▸ hfeed)
        · exact hnodup.1 (hsink ▸ hother ▸ List.mem_map_of_mem hu)
      · obtain ⟨reply, hreply⟩ := hrest.answered v hv
        refine ⟨reply, ?_⟩
        rw [postsTo_append, hreply, postsTo_eq_nil, List.nil_append]
        intro p hp hsink
        rcases hfirst.targets p hp with ⟨f, hf, hfeed⟩ | ⟨u, hu, hother⟩
        · exact hfeeds f hf v (hmem v (List.mem_cons_of_mem w hv)) (hsink ▸ hfeed)
        · rw [List.mem_singleton.mp hu, hsink] at hother
          exact hnodup.1 (hother ▸ List.mem_map_of_mem hv)
    · rw [List.filterMap_append, List.foldl_append, ← hfirst.tables]
      exact hrest.tables

/-! ## Sessions -/

/-- What is done to a database while writes may be held back. -/
inductive Move where
  /-- A query is asked. Its answer goes to a sink of its own. -/
  | ask (alive : SinkId → Bool) (request : Request)
  | upsert (alive : SinkId → Bool) (table : String) (row : Record)
  | delete (alive : SinkId → Bool) (table : String) (key : Record)
  /-- From now on, writes are held back, or no longer. -/
  | hold (holding : Bool)
  | release (alive : SinkId → Bool)
  | disconnect

/-- A database in use. -/
structure Session where
  db : Database
  /-- The set queries so far, with their sinks. -/
  asked : List HeldWrite
  /-- Everything sent so far. -/
  posts : List Post
  /-- The set queries that were answered with success and the writes that succeeded, in order. -/
  done : List Operation
  nextSink : SinkId

/-- An operation counts as done if it succeeded. -/
def succeeded {α : Type} (op : Operation) : Except QueryError α → List Operation
  | .ok _ => [op]
  | .error _ => []

namespace Session

/-- A database with some tables and a journal, if there is one, that nobody has used yet. -/
def start (tables : Tables) (journal : Option Journal) : Session :=
  ⟨{ empty [] with tables, journal }, [], [], [], 0⟩

def step (s : Session) : Move → Session
  | .ask alive request =>
    let asked := s.asked ++ (setQuery? request s.nextSink).toList
    let after := s.db.query alive request s.nextSink
    ⟨after.1, asked, s.posts ++ after.2, s.done ++ after.2.filterMap (acknowledged? asked),
      s.nextSink + 1⟩
  | .upsert alive table row =>
    let after := s.db.upsert alive table row
    { s with
      db := after.1
      posts := s.posts ++ after.2.1
      done := s.done ++ succeeded (.merge table row none) after.2.2 }
  | .delete alive table key =>
    let after := s.db.delete alive table key
    { s with
      db := after.1
      posts := s.posts ++ after.2.1
      done := s.done ++ succeeded (.remove table key) after.2.2 }
  | .hold holding => { s with db := { s.db with holding } }
  | .release alive =>
    let after := s.db.release alive
    { s with
      db := after.1
      posts := s.posts ++ after.2
      done := s.done ++ after.2.filterMap (acknowledged? s.asked) }
  | .disconnect =>
    let after := s.db.disconnect
    { s with db := after.1, posts := s.posts ++ after.2 }

def run (s : Session) (moves : List Move) : Session := moves.foldl step s

end Session

/-! ## Fates -/

/-- What becomes of a set query. -/
inductive Fate where
  | parked
  /-- Nothing more comes, and there was no answer. -/
  | dropped
  | answered (reply : Reply)

/-- A set query has a fate: whether it is held back, and what was sent to it. -/
def Session.Meets (s : Session) (w : HeldWrite) : Fate → Prop
  | .parked => w ∈ s.db.held ∧ postsTo w.sink s.posts = []
  | .dropped => w ∉ s.db.held ∧ postsTo w.sink s.posts = [.finish w.sink]
  | .answered reply =>
    w ∉ s.db.held ∧ postsTo w.sink s.posts = [.send w.sink reply, .finish w.sink]

namespace Session

theorem Meets.unique {s : Session} {w : HeldWrite} {fate fate' : Fate} (h : s.Meets w fate)
    (h' : s.Meets w fate') : fate' = fate := by
  cases fate <;> cases fate' <;> simp_all [Meets]

/-- A fate stays as it is while nothing is sent to the query, and it stays parked or does not. -/
theorem Meets.frame {s s' : Session} {w : HeldWrite} {fate : Fate} (h : s.Meets w fate)
    {more : List Post} (hposts : s'.posts = s.posts ++ more) (hmore : ∀ p ∈ more, p.sink ≠ w.sink)
    (hheld : w ∈ s'.db.held ↔ w ∈ s.db.held) : s'.Meets w fate := by
  have hsame : postsTo w.sink s'.posts = postsTo w.sink s.posts := by
    rw [hposts, postsTo_append, postsTo_eq_nil hmore, List.append_nil]
  cases fate <;> simpa [Meets, hheld, hsame] using h

/-- The fate of a parked query is decided by what it is sent next. -/
theorem Meets.postsTo_of_parked {s s' : Session} {w : HeldWrite} (h : s.Meets w .parked)
    {more : List Post} (hposts : s'.posts = s.posts ++ more) :
    postsTo w.sink s'.posts = postsTo w.sink more := by
  rw [hposts, postsTo_append, h.2, List.nil_append]

/-- The invariant of sessions that began with some tables. -/
structure Orderly (tables : Tables) (s : Session) : Prop where
  /-- Every set query has a sink of its own. -/
  sinks : (s.asked.map HeldWrite.sink).Nodup
  asked_lt : ∀ w ∈ s.asked, w.sink < s.nextSink
  feeds_lt : ∀ f ∈ s.db.feeds, f.sink < s.nextSink
  feeds_ne : ∀ f ∈ s.db.feeds, ∀ w ∈ s.asked, w.sink ≠ f.sink
  posts_lt : ∀ p ∈ s.posts, p.sink < s.nextSink
  held : s.db.held.Sublist s.asked
  fates : ∀ w ∈ s.asked, ∃ fate, s.Meets w fate
  tables : s.db.tables = s.done.foldl Operation.apply tables

/-- A query that is held back is parked. -/
theorem Orderly.meets_parked {tables : Tables} {s : Session} (hs : s.Orderly tables)
    {w : HeldWrite} (hw : w ∈ s.db.held) : s.Meets w .parked := by
  obtain ⟨fate, hfate⟩ := hs.fates w (hs.held.subset hw)
  cases fate with
  | parked => exact hfate
  | dropped | answered => exact absurd hw hfate.1

/-- A move that asks nothing: something is sent to feeds and to queries that were asked. -/
theorem Orderly.advance {tables : Tables} {s s' : Session} (hs : s.Orderly tables)
    (posts : List Post) (hasked : s'.asked = s.asked) (hnext : s'.nextSink = s.nextSink)
    (hfeeds : s'.db.feeds ⊆ s.db.feeds) (hheld : s'.db.held.Sublist s.asked)
    (hposts : s'.posts = s.posts ++ posts)
    (htargets : ∀ p ∈ posts,
      (∃ f ∈ s.db.feeds, p.sink = f.sink) ∨ ∃ w ∈ s.asked, p.sink = w.sink)
    (hfates : ∀ w ∈ s.asked, ∃ fate, s'.Meets w fate)
    (htables : s'.db.tables = s'.done.foldl Operation.apply tables) : s'.Orderly tables where
  sinks := hasked ▸ hs.sinks
  asked_lt := by
    rw [hasked, hnext]
    exact hs.asked_lt
  feeds_lt f hf := hnext ▸ hs.feeds_lt f (hfeeds hf)
  feeds_ne f hf := hasked ▸ hs.feeds_ne f (hfeeds hf)
  posts_lt p hp := by
    rw [hposts] at hp
    rw [hnext]
    rcases List.mem_append.mp hp with hp | hp
    · exact hs.posts_lt p hp
    · rcases htargets p hp with ⟨f, hf, hsink⟩ | ⟨w, hw, hsink⟩
      · exact hsink ▸ hs.feeds_lt f hf
      · exact hsink ▸ hs.asked_lt w hw
  held := hasked ▸ hheld
  fates := hasked ▸ hfates
  tables := htables

/-- A write that is not a set query. -/
theorem Orderly.carry {tables : Tables} {s s' : Session} (hs : s.Orderly tables)
    {alive : SinkId → Bool} {posts : List Post} {change : Option RowChange}
    (hcarries : Carries alive s.db s'.db posts change) (hasked : s'.asked = s.asked)
    (hnext : s'.nextSink = s.nextSink) (hposts : s'.posts = s.posts ++ posts)
    (htables : s'.db.tables = s'.done.foldl Operation.apply tables) : s'.Orderly tables := by
  refine hs.advance posts hasked hnext hcarries.feeds_subset (hcarries.held ▸ hs.held) hposts ?_
    ?_ htables
  · intro p hp
    obtain ⟨f, hf, _, rfl⟩ := hcarries.mem_posts hp
    exact .inl ⟨f, hf, rfl⟩
  · intro w hw
    obtain ⟨fate, hfate⟩ := hs.fates w hw
    refine ⟨fate, hfate.frame hposts (fun p hp => ?_) (by rw [hcarries.held])⟩
    obtain ⟨f, hf, _, rfl⟩ := hcarries.mem_posts hp
    exact (hs.feeds_ne f hf w hw).symm

theorem eq_of_sink_eq {asked : List HeldWrite} (h : (asked.map HeldWrite.sink).Nodup)
    {w v : HeldWrite} (hw : w ∈ asked) (hv : v ∈ asked) (hsink : w.sink = v.sink) : w = v := by
  have hfind := find?_sink h hw
  rw [hsink, find?_sink h hv] at hfind
  exact (Option.some.inj hfind).symm

/-- Parked queries are answered when they are made, and the others keep their fates. -/
theorem meets_of_made {tables : Tables} {s s' : Session} (hs : s.Orderly tables)
    {before : Database} {posts : List Post} {ws : List HeldWrite}
    (hmade : Made s.asked before s'.db posts ws) (hfeeds : before.feeds = s.db.feeds)
    (hws : ws ⊆ s.db.held) (hheld : ∀ w, w ∈ s'.db.held ↔ w ∈ s.db.held ∧ w ∉ ws)
    (hposts : s'.posts = s.posts ++ posts) {w : HeldWrite} (hw : w ∈ s.asked) :
    (w ∈ ws → ∃ reply, s'.Meets w (.answered reply)) ∧
      (w ∉ ws → ∀ fate, s.Meets w fate → s'.Meets w fate) := by
  constructor
  · intro hmem
    obtain ⟨reply, hreply⟩ := hmade.answered w hmem
    exact ⟨reply, fun hstill => ((hheld w).mp hstill).2 hmem,
      ((hs.meets_parked (hws hmem)).postsTo_of_parked hposts).trans hreply⟩
  · intro hnot fate hfate
    refine hfate.frame hposts (fun p hp hsink => ?_) (by simp [hheld, hnot])
    rcases hmade.targets p hp with ⟨f, hf, hfeed⟩ | ⟨v, hv, hother⟩
    · exact hs.feeds_ne f (hfeeds ▸ hf) w hw (hsink ▸ hfeed)
    · have hsame := eq_of_sink_eq hs.sinks hw (hs.held.subset (hws hv)) (hsink ▸ hother)
      exact hnot (hsame ▸ hv)

/-- Parked queries are made. -/
theorem Orderly.make {tables : Tables} {s s' : Session} (hs : s.Orderly tables)
    (posts : List Post) (ws : List HeldWrite) (before : Database)
    (hmade : Made s.asked before s'.db posts ws) (hfeeds : before.feeds = s.db.feeds)
    (htables : before.tables = s.db.tables) (hws : ws ⊆ s.db.held)
    (hheld : ∀ w, w ∈ s'.db.held ↔ w ∈ s.db.held ∧ w ∉ ws) (hsub : s'.db.held.Sublist s.asked)
    (hasked : s'.asked = s.asked) (hnext : s'.nextSink = s.nextSink)
    (hposts : s'.posts = s.posts ++ posts)
    (hdone : s'.done = s.done ++ posts.filterMap (acknowledged? s.asked)) : s'.Orderly tables := by
  refine hs.advance posts hasked hnext (hfeeds ▸ hmade.feeds) hsub hposts ?_ ?_ ?_
  · intro p hp
    rcases hmade.targets p hp with hfeed | ⟨w, hw, hsink⟩
    · exact .inl (hfeeds ▸ hfeed)
    · exact .inr ⟨w, hs.held.subset (hws hw), hsink⟩
  · intro w hw
    obtain ⟨hanswered, hkept⟩ := meets_of_made hs hmade hfeeds hws hheld hposts hw
    by_cases hmem : w ∈ ws
    · obtain ⟨reply, hreply⟩ := hanswered hmem
      exact ⟨.answered reply, hreply⟩
    · obtain ⟨fate, hfate⟩ := hs.fates w hw
      exact ⟨fate, hkept hmem fate hfate⟩
  · rw [hmade.tables, htables, hs.tables, hdone, List.foldl_append]

/-! ## Asking -/

/-- The session after a set query was parked. -/
def park (s : Session) (w : HeldWrite) : Session :=
  { s with
    db := { s.db with held := s.db.held ++ [w] }
    asked := s.asked ++ [w]
    nextSink := s.nextSink + 1 }

theorem Orderly.park {tables : Tables} {s : Session} (hs : s.Orderly tables) {w : HeldWrite}
    (hw : w.sink = s.nextSink) : (s.park w).Orderly tables := by
  have hnew : ∀ v ∈ s.asked, v.sink ≠ w.sink := fun v hv => hw ▸ Nat.ne_of_lt (hs.asked_lt v hv)
  refine ⟨?_, ?_, ?_, ?_, ?_, hs.held.append (List.Sublist.refl [w]), ?_, hs.tables⟩
  · rw [Session.park, List.map_append, List.nodup_append]
    refine ⟨hs.sinks, by simp, ?_⟩
    intro k hk k' hk'
    obtain ⟨v, hv, rfl⟩ := List.mem_map.mp hk
    rw [List.map_singleton, List.mem_singleton] at hk'
    exact hk' ▸ hnew v hv
  · intro v hv
    rcases List.mem_append.mp hv with hv | hv
    · exact Nat.lt_succ_of_lt (hs.asked_lt v hv)
    · rw [List.mem_singleton.mp hv, hw]
      exact Nat.lt_succ_self _
  · exact fun f hf => Nat.lt_succ_of_lt (hs.feeds_lt f hf)
  · intro f hf v hv
    rcases List.mem_append.mp hv with hv | hv
    · exact hs.feeds_ne f hf v hv
    · rw [List.mem_singleton.mp hv, hw]
      exact Nat.ne_of_gt (hs.feeds_lt f hf)
  · exact fun p hp => Nat.lt_succ_of_lt (hs.posts_lt p hp)
  · intro v hv
    rcases List.mem_append.mp hv with hv | hv
    · obtain ⟨fate, hfate⟩ := hs.fates v hv
      refine ⟨fate, hfate.frame (List.append_nil _).symm (by simp) ?_⟩
      have hne : v ≠ w := fun e => hnew v hv (e ▸ rfl)
      simp [Session.park, hne]
    · rw [List.mem_singleton.mp hv]
      refine ⟨.parked, by simp [Session.park], postsTo_eq_nil fun p hp => ?_⟩
      exact hw ▸ Nat.ne_of_lt (hs.posts_lt p hp)

theorem Orderly.ask_set {tables : Tables} {s : Session} (hs : s.Orderly tables)
    {request : Request} {w : HeldWrite} (h : setQuery? request s.nextSink = some w)
    (alive : SinkId → Bool) : (s.step (.ask alive request)).Orderly tables := by
  obtain ⟨hw, stats, hquery⟩ := query_of_set h alive s.db
  have hpark := hs.park hw
  by_cases hholding : s.db.holding = true
  · -- Only the counters differ from the session where the query was parked.
    rw [if_pos hholding] at hquery
    refine hpark.advance [] ?_ rfl ?_ ?_ ?_ (by simp) ?_ ?_
    all_goals simp only [Session.step, h, hquery]
    · rfl
    · exact List.Subset.refl _
    · exact hpark.held
    · rfl
    · intro v hv
      obtain ⟨fate, hfate⟩ := hpark.fates v hv
      exact ⟨fate, hfate.frame rfl (by simp) Iff.rfl⟩
    · simpa using hs.tables
  · rw [if_neg hholding] at hquery
    have hnew : w ∉ s.db.held := fun hmem =>
      Nat.ne_of_lt (hs.asked_lt w (hs.held.subset hmem)) hw
    have hmade := writeAndAnswer_made alive { s.db with stats } hpark.sinks hpark.feeds_ne
      (List.mem_append_right s.asked (List.mem_singleton_self w))
    refine hpark.make (writeAndAnswer alive { s.db with stats } w).2 [w] { s.db with stats }
      ?_ rfl rfl ?_ ?_ ?_ ?_ rfl ?_ ?_
    · simpa only [Session.step, h, hquery] using hmade
    · simp [Session.park]
    · intro v
      simp only [Session.step, h, hquery, hmade.held, Session.park, List.mem_append,
        List.mem_singleton]
      constructor
      · exact fun hv => ⟨.inl hv, fun e => hnew (e ▸ hv)⟩
      · rintro ⟨hv | hv, hne⟩
        · exact hv
        · exact absurd hv hne
    · simp only [Session.step, h, hquery, hmade.held]
      exact hs.held.trans (List.sublist_append_left ..)
    all_goals simp only [Session.step, h, hquery]; rfl

theorem Orderly.ask_get {tables : Tables} {s : Session} (hs : s.Orderly tables)
    {request : Request} (h : setQuery? request s.nextSink = none) (alive : SinkId → Bool) :
    (s.step (.ask alive request)).Orderly tables := by
  obtain ⟨htables, hheld, -, ⟨opened, hopen, hopened⟩, hposts⟩ := query_of_not_set h alive s.db
  have hfeeds {f : StoredFeed} (hf : f ∈ (s.step (.ask alive request)).db.feeds) :
      f ∈ s.db.feeds ∨ f.sink = s.nextSink :=
    (List.mem_append.mp (hopen ▸ hf)).imp_right (hopened f)
  have hasked : (s.step (.ask alive request)).asked = s.asked := by simp [Session.step, h]
  have hunheard : ∀ p ∈ (s.db.query alive request s.nextSink).2, ∀ w ∈ s.asked,
      w.sink ≠ p.sink := fun p hp w hw => by
    rw [hposts p hp]
    exact Nat.ne_of_lt (hs.asked_lt w hw)
  refine ⟨hasked ▸ hs.sinks, ?_, ?_, ?_, ?_, ?_, ?_, ?_⟩
  · rw [hasked]
    exact fun w hw => Nat.lt_succ_of_lt (hs.asked_lt w hw)
  · intro f hf
    rcases hfeeds hf with hf | hf
    · exact Nat.lt_succ_of_lt (hs.feeds_lt f hf)
    · exact hf ▸ Nat.lt_succ_self _
  · rw [hasked]
    intro f hf w hw
    rcases hfeeds hf with hf | hf
    · exact hs.feeds_ne f hf w hw
    · exact hf ▸ Nat.ne_of_lt (hs.asked_lt w hw)
  · intro p hp
    rcases List.mem_append.mp hp with hp | hp
    · exact Nat.lt_succ_of_lt (hs.posts_lt p hp)
    · exact hposts p hp ▸ Nat.lt_succ_self _
  · rw [hasked]
    exact hheld ▸ hs.held
  · rw [hasked]
    intro w hw
    obtain ⟨fate, hfate⟩ := hs.fates w hw
    exact ⟨fate, hfate.frame rfl (fun p hp => (hunheard p hp w hw).symm)
      (by simp only [Session.step, hheld])⟩
  · simp only [Session.step, h, Option.toList_none, List.append_nil,
      filterMap_acknowledged?_eq_nil hunheard]
    exact htables.trans hs.tables

/-! ## Release and loss -/

/-- A release makes what is parked. -/
theorem Orderly.made_of_release {tables : Tables} {s : Session} (hs : s.Orderly tables)
    (alive : SinkId → Bool) :
    Made s.asked { s.db with held := [] } (s.step (.release alive)).db (s.db.release alive).2
      s.db.held :=
  writeAll_made alive { s.db with held := [] } hs.sinks hs.held hs.feeds_ne

theorem Orderly.release {tables : Tables} {s : Session} (hs : s.Orderly tables)
    (alive : SinkId → Bool) : (s.step (.release alive)).Orderly tables := by
  have hmade := hs.made_of_release alive
  refine hs.make _ _ _ hmade rfl rfl (List.Subset.refl _) ?_ ?_ rfl rfl rfl rfl
  · simp [hmade.held]
  · simp [hmade.held]

theorem postsTo_finish {ws : List HeldWrite} (h : (ws.map HeldWrite.sink).Nodup) {w : HeldWrite}
    (hw : w ∈ ws) : postsTo w.sink (ws.map fun w => Post.finish w.sink) = [.finish w.sink] := by
  induction ws with
  | nil => cases hw
  | cons v ws ih =>
    rw [List.map_cons, List.nodup_cons] at h
    rw [List.map_cons, ← List.singleton_append, postsTo_append]
    rcases List.mem_cons.mp hw with rfl | hw
    · have hrest : postsTo w.sink (ws.map fun w => Post.finish w.sink) = [] := by
        refine postsTo_eq_nil fun p hp hsink => ?_
        obtain ⟨u, hu, rfl⟩ := List.mem_map.mp hp
        exact h.1 (hsink ▸ List.mem_map_of_mem hu)
      rw [hrest]
      simp [postsTo, Post.sink]
    · have hne : v.sink ≠ w.sink := fun e => h.1 (e ▸ List.mem_map_of_mem hw)
      rw [ih h.2 hw, postsTo_eq_nil (by simpa [Post.sink] using hne), List.nil_append]

/-- Parked queries are dropped when the connection is lost, and the others keep their fates. -/
theorem meets_of_disconnect {tables : Tables} {s : Session} (hs : s.Orderly tables) {w : HeldWrite}
    (hw : w ∈ s.asked) :
    (w ∈ s.db.held → (s.step .disconnect).Meets w .dropped) ∧
      (w ∉ s.db.held → ∀ fate, s.Meets w fate → (s.step .disconnect).Meets w fate) := by
  have hfeeds : ∀ p ∈ s.db.feeds.flatMap fun f =>
      [Post.send f.sink (.error .disconnected), .finish f.sink], p.sink ≠ w.sink := by
    intro p hp
    obtain ⟨f, hf, hp⟩ := List.mem_flatMap.mp hp
    exact sink_of_mem_answer hp ▸ (hs.feeds_ne f hf w hw).symm
  constructor
  · intro hheld
    refine ⟨by simp [Session.step, Database.disconnect], ?_⟩
    rw [(hs.meets_parked hheld).postsTo_of_parked rfl]
    simp only [Database.disconnect]
    rw [postsTo_append, postsTo_eq_nil hfeeds, List.nil_append,
      postsTo_finish (hs.sinks.sublist (hs.held.map _)) hheld]
  · intro hnot fate hfate
    refine hfate.frame rfl (fun p hp => ?_) (by simp [Session.step, Database.disconnect, hnot])
    rcases List.mem_append.mp hp with hp | hp
    · exact hfeeds p hp
    · obtain ⟨v, hv, rfl⟩ := List.mem_map.mp hp
      exact fun hsink => hnot (eq_of_sink_eq hs.sinks hw (hs.held.subset hv) hsink.symm ▸ hv)

theorem Orderly.disconnect {tables : Tables} {s : Session} (hs : s.Orderly tables) :
    (s.step .disconnect).Orderly tables := by
  refine hs.advance _ rfl rfl (List.nil_subset _) (List.nil_sublist _) rfl ?_ ?_ hs.tables
  · intro p hp
    rcases List.mem_append.mp hp with hp | hp
    · obtain ⟨f, hf, hp⟩ := List.mem_flatMap.mp hp
      exact .inl ⟨f, hf, sink_of_mem_answer hp⟩
    · obtain ⟨w, hw, rfl⟩ := List.mem_map.mp hp
      exact .inr ⟨w, hs.held.subset hw, rfl⟩
  · intro w hw
    obtain ⟨hdropped, hkept⟩ := meets_of_disconnect hs hw
    by_cases hheld : w ∈ s.db.held
    · exact ⟨.dropped, hdropped hheld⟩
    · obtain ⟨fate, hfate⟩ := hs.fates w hw
      exact ⟨fate, hkept hheld fate hfate⟩

/-! ## All moves -/

/-- Every move keeps the invariant. -/
theorem Orderly.step {tables : Tables} {s : Session} (hs : s.Orderly tables) (m : Move) :
    (s.step m).Orderly tables := by
  cases m with
  | ask alive request =>
    cases h : setQuery? request s.nextSink with
    | none => exact hs.ask_get h alive
    | some w => exact hs.ask_set h alive
  | upsert alive table row =>
    cases hplan : (Operation.merge table row none).plan s.db.tables with
    | error e =>
      simp only [Session.step, upsert_of_error alive hplan, succeeded, List.append_nil]
      exact hs
    | ok change =>
      obtain ⟨hcarries, hresult⟩ := upsert_of_ok alive hplan
      refine hs.carry hcarries rfl rfl rfl ?_
      simp only [Session.step, hresult, succeeded, List.foldl_append, List.foldl_cons,
        List.foldl_nil, ← hs.tables, hcarries.tables_apply hplan]
  | delete alive table key =>
    cases hplan : (Operation.remove table key).plan s.db.tables with
    | error e =>
      simp only [Session.step, delete_of_error alive hplan, succeeded, List.append_nil]
      exact hs
    | ok change =>
      obtain ⟨hcarries, hresult⟩ := delete_of_ok alive hplan
      refine hs.carry hcarries rfl rfl rfl ?_
      simp only [Session.step, hresult, succeeded, List.foldl_append, List.foldl_cons,
        List.foldl_nil, ← hs.tables, hcarries.tables_apply hplan]
  | hold holding =>
    exact ⟨hs.sinks, hs.asked_lt, hs.feeds_lt, hs.feeds_ne, hs.posts_lt, hs.held, hs.fates,
      hs.tables⟩
  | release alive => exact hs.release alive
  | disconnect => exact hs.disconnect

/-- All moves keep the invariant. -/
theorem Orderly.run {tables : Tables} {s : Session} (hs : s.Orderly tables) (moves : List Move) :
    (s.run moves).Orderly tables := by
  induction moves generalizing s with
  | nil => exact hs
  | cons m moves ih => exact ih (hs.step m)

end Session

/-! ## Refused writes -/

namespace Session

/-- The database when the turn of a parked query comes during a release. -/
def turn (s : Session) (alive : SinkId → Bool) (earlier : List HeldWrite) : Database :=
  (writeAll alive { s.db with held := [] } earlier).1

end Session

end Database

end LiveDocs
