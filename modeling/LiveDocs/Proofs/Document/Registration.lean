import LiveDocs.Document.Basic
import LiveDocs.Proofs.Database.Operations
import LiveDocs.Proofs.Json.Equality
import Mathlib.Logic.Function.Basic

/-!
# User numbers

A client joins the list of users in the row of a document by a write that is made only while the
list is as the client has seen it. What it has seen may be long out of date, the write may be made
late or never, and its answer may be lost. Still the list only ever grows at its end, so a client
that was told of success stands at its place for good (`Database.write_joins`), and no two clients
have the same number (`Enrollment.users_distinct`).

## Main definitions

* `Database.userList`: the list of users of a document as it is stored.
* `HeldWrite.Joins`: a write by which a client takes a place in the list.
* `Enrollment`, `Enrollment.Move`, `Enrollment.step`: clients that join, with what is under way
  between them and the database.

## Main results

* `Database.write_joins`: what a write of a client that joins can do.
* `Enrollment.Sound.step`, `Enrollment.Leads.sound`: what a step and a run keep.
* `Enrollment.users_distinct`: no two clients have the same number.
-/

namespace LiveDocs

/-! ## Lists of users -/

namespace Json

/-- The items of a list; what is no list counts as an empty one. -/
def itemList (j : Json) : List Json := j.items?.getD []

theorem unsignedItems_eq_map (items : List Json) : unsignedItems items = items.map unsigned := by
  induction items with
  | nil => rfl
  | cons item items ih => rw [unsignedItems, ih, List.map_cons]

theorem itemList_unsigned (j : Json) : j.unsigned.itemList = j.itemList.map unsigned := by
  cases j with
  | arr items => exact unsignedItems_eq_map items
  | null | bool _ | num _ | str _ | obj _ => rfl

theorem eq_str_of_unsigned {j : Json} {s : String} (h : j.unsigned = .str s) : j = .str s := by
  cases j with
  | null | bool _ | str _ => exact h
  | num _ | arr _ | obj _ => cases h

/-- A text at a place in a list is there whatever the signs of zeros are. -/
theorem getElem?_of_unsigned {items : List Json} {place : Nat} {s : String}
    (h : (items.map unsigned)[place]? = some (.str s)) : items[place]? = some (.str s) := by
  rw [List.getElem?_map] at h
  obtain ⟨item, hitem, hstr⟩ := Option.map_eq_some_iff.mp h
  rw [hitem, eq_str_of_unsigned hstr]

end Json

namespace UserList

/-- A client that joins is put behind all others, or has its place already. -/
theorem join_extends (users : Json) (client : String) :
    users.itemList <+: (join users client).2 := by
  simp only [join, Json.itemList]
  split
  · exact List.prefix_rfl
  · exact List.prefix_append _ _

/-- The place that a client takes in a list is its own. -/
theorem getElem?_join (users : Json) (client : String) :
    (join users client).2[(join users client).1]? = some (.str client) := by
  simp only [join]
  split
  · next index hindex =>
    obtain ⟨hlt, hitem, -⟩ := List.findIdx?_eq_some_iff_getElem.mp hindex
    have hsame : ((users.items?.getD [])[index]).unsigned = Json.unsigned (.str client) :=
      (Json.eqv_iff _ _).mp hitem
    rw [List.getElem?_eq_getElem hlt, Json.eq_str_of_unsigned hsame]
  · simp

end UserList

def documentKey (stringId : String) : String := (Json.arr [.str stringId]).render

theorem Schema.key?_syncstrings {row : Record} {stringId : String}
    (h : row.get? "string_id" = some (.str stringId)) :
    Schema.syncstrings.key? row = some (documentKey stringId) := by
  simp [Schema.key?, Schema.syncstrings, Record.key?, Record.keyValues?, Record.keyValue?, h,
    documentKey]

/-! ## One write -/

namespace HeldWrite

/-- A write by which a client takes a place in the list of users of a document, provided that the
list is as the client has seen it. -/
structure Joins (w : HeldWrite) (stringId client : String) (place : Nat) : Prop where
  table : w.table = Schema.syncstrings.name
  key : Schema.syncstrings.key? w.row = some (documentKey stringId)
  users : ∃ seen : Json, w.expected = some (.ofList [("users", seen)]) ∧
    w.row.get? "users" = some (.arr (UserList.join seen client).2) ∧
    place = (UserList.join seen client).1

end HeldWrite

namespace Database

def documentRow (db : Database) (stringId : String) : Option Record :=
  (db.tables.get? Schema.syncstrings.name).bind fun t => t.rows.get? (documentKey stringId)

/-- The list of users of a document as it is stored. -/
def userList (db : Database) (stringId : String) : List Json :=
  (UserList.ofRow (db.documentRow stringId)).itemList

/-- The table of documents is what it should be, if there is one. -/
def HasDocuments (db : Database) : Prop :=
  ∀ t, db.tables.get? Schema.syncstrings.name = some t → t.schema = Schema.syncstrings

/-- The list of users of a document grows at its end only, but for the signs of zeros in it. -/
def UsersGrow (before after : Database) (stringId : String) : Prop :=
  (before.userList stringId).map Json.unsigned <+: (after.userList stringId).map Json.unsigned

theorem UsersGrow.refl (db : Database) (stringId : String) : UsersGrow db db stringId :=
  List.prefix_rfl

/-- Who stands in the list stays there. -/
theorem UsersGrow.getElem? {before after : Database} {stringId : String}
    (h : UsersGrow before after stringId) {place : Nat} {client : String}
    (hplace : (before.userList stringId)[place]? = some (.str client)) :
    (after.userList stringId)[place]? = some (.str client) := by
  have hbefore : ((before.userList stringId).map Json.unsigned)[place]? = some (.str client) := by
    rw [List.getElem?_map, hplace]
    rfl
  obtain ⟨more, hmore⟩ := h
  refine Json.getElem?_of_unsigned ?_
  rw [← hmore, List.getElem?_append_left (List.getElem?_eq_some_iff.mp hbefore).1, hbefore]

/-- A list that is the same up to the signs of zeros counts as grown. -/
theorem usersGrow_of_ofRow {before after : Database} {stringId : String}
    (h : (UserList.ofRow (after.documentRow stringId)).unsigned =
      (UserList.ofRow (before.documentRow stringId)).unsigned) :
    UsersGrow before after stringId := by
  have hsame : (after.userList stringId).map Json.unsigned =
      (before.userList stringId).map Json.unsigned := by
    rw [userList, userList, ← Json.itemList_unsigned, ← Json.itemList_unsigned, h]
  exact ⟨[], by rw [List.append_nil, hsame]⟩

/-- A write to the row of a document merges into it, or leaves it if nothing would change. -/
theorem documentRow_upsert (alive : SinkId → Bool) {db : Database} (hdb : db.HasDocuments)
    {t : StoredTable} (ht : db.tables.get? Schema.syncstrings.name = some t) {row : Record}
    {stringId : String} (hkey : Schema.syncstrings.key? row = some (documentKey stringId)) :
    (db.upsert alive Schema.syncstrings.name row).1.HasDocuments ∧
      ∃ after, (db.upsert alive Schema.syncstrings.name row).1.documentRow stringId = some after ∧
        after.unsigned = (((db.documentRow stringId).getD .empty).merge row).unsigned := by
  have hschema := hdb t ht
  have hrow : db.documentRow stringId = t.rows.get? (documentKey stringId) := by
    rw [documentRow, ht, Option.bind_some]
  simp only [upsert, ht, hschema, hkey]
  split
  · next hsame =>
    obtain ⟨old, hold, heq⟩ : ∃ old, t.rows.get? (documentKey stringId) = some old ∧
        (old == ((t.rows.get? (documentKey stringId)).getD .empty).merge row) = true := by
      cases hold : t.rows.get? (documentKey stringId) with
      | none => simp [hold] at hsame
      | some old => exact ⟨old, rfl, by simpa [hold] using hsame⟩
    refine ⟨hdb, old, hrow.trans hold, ?_⟩
    rw [Record.beq_iff.mp heq, hrow]
  · refine ⟨fun u hu => ?_, ((db.documentRow stringId).getD .empty).merge row, ?_, rfl⟩
    · rw [tables_commit, SortedMap.get?_insert, hschema, if_pos rfl] at hu
      cases hu
      rfl
    · simp only [documentRow, tables_commit, hschema, SortedMap.get?_insert, if_pos, record,
        Option.bind_some, get?_putRow, ht]

/-- **A client that joins puts itself at the end of the list, or it changes nothing.** If it is
told of success, it stands at its place. -/
theorem write_joins (alive : SinkId → Bool) {db : Database} (hdb : db.HasDocuments) {w : HeldWrite}
    {stringId client : String} {place : Nat} (hw : w.Joins stringId client place) :
    (db.write alive w.table w.row w.expected).1.HasDocuments ∧
      UsersGrow db (db.write alive w.table w.row w.expected).1 stringId ∧
      ((db.write alive w.table w.row w.expected).2.2 = .ok () →
        ((db.write alive w.table w.row w.expected).1.userList stringId)[place]? =
          some (.str client)) := by
  obtain ⟨seen, hexpected, husers, hplace⟩ := hw.users
  rw [hw.table, hexpected]
  unfold write
  cases ht : db.tables.get? Schema.syncstrings.name with
  | none => exact ⟨hdb, .refl db stringId, fun h => by cases h⟩
  | some t =>
    have hrow : (t.schema.key? w.row).bind t.rows.get? = db.documentRow stringId := by
      rw [hdb t ht, hw.key, documentRow, ht]
      rfl
    simp only [hrow]
    split
    · next hmatches =>
      -- The list is as the client has seen it.
      have hseen : (UserList.ofRow (db.documentRow stringId)).unsigned = seen.unsigned := by
        have hentries : (SortedMap.ofList [("users", seen)] : Record).entries =
            [("users", seen)] := rfl
        rw [rowMatches, hentries, List.all_cons, List.all_nil, Bool.and_true] at hmatches
        exact (Json.eqv_iff _ _).mp hmatches
      obtain ⟨hdocuments, after, hafter, hmerged⟩ := documentRow_upsert alive hdb ht hw.key
      have hlist : ((db.upsert alive Schema.syncstrings.name w.row).1.userList stringId).map
          Json.unsigned = (UserList.join seen client).2.map Json.unsigned := by
        have hfield : (after.get? "users").map Json.unsigned =
            some (Json.arr (UserList.join seen client).2).unsigned := by
          rw [← Record.get?_unsigned, hmerged, Record.get?_unsigned, Record.get?_merge, husers]
          rfl
        obtain ⟨value, hvalue, hsame⟩ := Option.map_eq_some_iff.mp hfield
        rw [userList, hafter, ← Json.itemList_unsigned, UserList.ofRow, Option.getD_some,
          Record.getOrNull, hvalue, Option.getD_some, hsame, Json.itemList_unsigned]
        rfl
      refine ⟨hdocuments, ?_, fun _ => ?_⟩
      · rw [UsersGrow, hlist, userList, ← Json.itemList_unsigned, hseen, Json.itemList_unsigned]
        exact (UserList.join_extends seen client).map Json.unsigned
      · refine Json.getElem?_of_unsigned ?_
        rw [hlist, List.getElem?_map, hplace, UserList.getElem?_join]
        rfl
    · exact ⟨hdb, .refl db stringId, fun h => by cases h⟩

end Database

namespace Request

theorem parse_setIf (table : String) (row expected : Record) (timeout : Nat) :
    Statement.parse (setIf table row expected timeout).query = .ok (.set table row) := by
  rw [setIf, set, Statement.parse, Json.ofRecord, Statement.ofBody, SortedMap.ofList_entries]

theorem precondition?_setIf (table : String) (row expected : Record) (timeout : Nat) :
    (setIf table row expected timeout).precondition? = some expected := by
  have hget :
      (SortedMap.ofList [("if_match", Json.obj expected.entries)] : Record).get? "if_match" =
        some (.obj expected.entries) := by
    rw [SortedMap.ofList, List.foldl_cons, List.foldl_nil, SortedMap.get?_insert, if_pos rfl]
  simp [precondition?, setIf, Json.record?, Json.ofRecord, hget]

end Request

namespace Document

/-- The row that a client writes to join names the document and holds the list with the client. -/
theorem get?_registration (d : Document) (client : String) (clock : UInt64) (row : Option Record) :
    (d.registration client clock row).2.1.get? "string_id" = some (.str d.stringId) ∧
      (d.registration client clock row).2.1.get? "users" =
        some (.arr (UserList.join (UserList.ofRow row) client).2) := by
  simp only [registration, SortedMap.ofList]
  split <;> simp

/-- The request of a client that joins is for a write by which it takes a place. -/
theorem setQuery?_registration (d : Document) (client : String) (clock : UInt64)
    (row : Option Record) {t : Table} (ht : t.schema = Schema.syncstrings) (sink : SinkId) :
    ∃ w, Database.setQuery?
          (t.request (d.registration client clock row).2.1
            (some (d.registration client clock row).2.2)) sink = some w ∧
      w.sink = sink ∧ w.Joins d.stringId client (d.registration client clock row).1 := by
  obtain ⟨hid, husers⟩ := d.get?_registration client clock row
  refine ⟨⟨t.schema.name, (d.registration client clock row).2.1,
    some (d.registration client clock row).2.2, sink⟩, ?_, rfl, ?_⟩
  · rw [Database.setQuery?, Table.request, Request.parse_setIf, Request.precondition?_setIf]
  · exact ⟨by rw [ht], Schema.key?_syncstrings hid, UserList.ofRow row, rfl, husers, rfl⟩

end Document

/-! ## Clients that join -/

/-- What a client that joins is about to do. -/
inductive Joining where
  /-- Reads the list of users and asks for a place in it. -/
  | reading (attempt : Nat)
  /-- Waits for the answer. -/
  | asking (attempt place : Nat) (sink : SinkId)
  /-- Has joined or given up. -/
  | ended

/-- A document that a client has opened, and how far the client is in joining. -/
structure Joiner where
  doc : Document
  task : Joining

/-- What a client does when it hears the answer to its write. -/
def Joiner.hear (c : Joiner) (attempt place : Nat) (reply : Reply) : Joiner :=
  match Document.joinOutcome place (Table.writeOutcome (some reply)) with
  | .joined user => ⟨{ c.doc with user := some user }, .ended⟩
  | .outdated => { c with task := .reading (attempt + 1) }
  | .failed _ => { c with task := .ended }

/-- Clients that join the list of users of one document. -/
structure Enrollment (ι : Type) where
  db : Database
  clients : ι → Joiner
  /-- The writes that were sent and not made yet. -/
  flight : List HeldWrite
  /-- The answers that the database has given, each with its sink. -/
  answers : List (SinkId × Reply)
  /-- The number of the next sink. -/
  next : SinkId

namespace Enrollment

variable {ι : Type}

/-- What may happen next. -/
inductive Move (ι : Type) where
  /-- A client reads the table as it sees it, and sends a write. -/
  | ask (p : ι) (t : Table) (clock : UInt64)
  /-- The database makes one of the writes that were sent. -/
  | make (n : Nat) (alive : SinkId → Bool)
  /-- A client hears one of the answers. -/
  | hear (p : ι) (n : Nat)
  /-- A client waits no longer, because of a failure or because time is up. -/
  | giveUp (p : ι)
  /-- Somebody else has changed the database. -/
  | other (db : Database)

/-- Nobody but the clients changes the list of users, and what they see is some state of its
table. -/
def Move.Fair (stringId : String) (s : Enrollment ι) : Move ι → Prop
  | ask _ t _ => t.schema = Schema.syncstrings
  | other db => db.HasDocuments ∧
      (UserList.ofRow (db.documentRow stringId) ==
        UserList.ofRow (s.db.documentRow stringId)) = true
  | _ => True

variable [DecidableEq ι]

def put (s : Enrollment ι) (p : ι) (c : Joiner) : Enrollment ι :=
  { s with clients := Function.update s.clients p c }

/-- A client asks for its place in the list of users. -/
def ask (name : ι → String) (s : Enrollment ι) (p : ι) (attempt : Nat) (t : Table)
    (clock : UInt64) : Enrollment ι :=
  let (place, row, expected) := (s.clients p).doc.registration (name p) clock t.first?
  { s.put p { s.clients p with task := .asking attempt place s.next } with
    flight := s.flight ++ (Database.setQuery? (t.request row (some expected)) s.next).toList
    next := s.next + 1 }

/-- The database makes a write and answers it. -/
def make (s : Enrollment ι) (n : Nat) (alive : SinkId → Bool) (w : HeldWrite) : Enrollment ι :=
  let outcome := s.db.write alive w.table w.row w.expected
  { s with
    db := outcome.1
    flight := s.flight.eraseIdx n
    answers := s.answers ++ [(w.sink, Database.acknowledgement outcome.2.2)] }

/-- One step. A step that cannot be made changes nothing. -/
def step (name : ι → String) (s : Enrollment ι) : Move ι → Enrollment ι
  | .ask p t clock =>
    match (s.clients p).task with
    | .reading attempt =>
      if attempt < Document.registerAttempts then s.ask name p attempt t clock
      else s.put p { s.clients p with task := .ended }
    | _ => s
  | .make n alive =>
    match s.flight[n]? with
    | some w => s.make n alive w
    | none => s
  | .hear p n =>
    match (s.clients p).task, s.answers[n]? with
    | .asking attempt place sink, some (target, reply) =>
      if target = sink then s.put p ((s.clients p).hear attempt place reply) else s
    | _, _ => s
  | .giveUp p => s.put p { s.clients p with task := .ended }
  | .other db => { s with db }

/-- One state leads to another by steps in which nobody interferes. -/
inductive Leads (name : ι → String) (stringId : String) : Enrollment ι → Enrollment ι → Prop where
  | refl (s : Enrollment ι) : Leads name stringId s s
  | step {s s' : Enrollment ι} (h : Leads name stringId s s') (move : Move ι)
      (hmove : move.Fair stringId s') : Leads name stringId s (s'.step name move)

/-- Nobody has started to join. -/
structure Starts (stringId : String) (s : Enrollment ι) : Prop where
  documents : s.db.HasDocuments
  ids : ∀ p, (s.clients p).doc.stringId = stringId
  users : ∀ p, (s.clients p).doc.user = none
  tasks : ∀ p, (s.clients p).task = .reading 0
  flight : s.flight = []
  answers : s.answers = []

/-- What a client may rely on: it has not joined before it was told so, its write takes the place it
asked for, and if it was told of success, it stands there. -/
structure Assured (name : ι → String) (stringId : String) (s : Enrollment ι) (p : ι) : Prop where
  id : (s.clients p).doc.stringId = stringId
  joined : ∀ {u}, (s.clients p).doc.user = some u → (s.clients p).task = .ended ∧
    ∃ place, u = UInt32.ofNat place ∧ (s.db.userList stringId)[place]? = some (.str (name p))
  asking : ∀ {attempt place sink}, (s.clients p).task = .asking attempt place sink →
    sink < s.next ∧
      (∀ w ∈ s.flight, w.sink = sink → w.Joins stringId (name p) place) ∧
      ∀ response, (sink, Except.ok response) ∈ s.answers →
        (s.db.userList stringId)[place]? = some (.str (name p))

/-- Every write under way is that of a client that joins, and every client is assured. -/
structure Sound (name : ι → String) (stringId : String) (s : Enrollment ι) : Prop where
  documents : s.db.HasDocuments
  flight : ∀ w ∈ s.flight, w.sink < s.next ∧ ∃ client place, w.Joins stringId client place
  answers : ∀ a ∈ s.answers, a.1 < s.next
  clients : ∀ p, s.Assured name stringId p

variable {name : ι → String} {stringId : String} {s : Enrollment ι}

omit [DecidableEq ι] in
theorem Starts.sound (h : s.Starts stringId) : s.Sound name stringId where
  documents := h.documents
  flight := by simp [h.flight]
  answers := by simp [h.answers]
  clients p :=
    ⟨h.ids p, fun huser => by simp [h.users p] at huser, fun htask => by simp [h.tasks p] at htask⟩

/-! ## What a step keeps -/

omit [DecidableEq ι] in
/-- A client that does nothing may still rely on what it did, whatever the database does to the
list at its end and whatever else is sent and answered at other sinks. -/
theorem Assured.mono {s' : Enrollment ι} {p : ι} (h : s.Assured name stringId p)
    (hsame : s'.clients p = s.clients p) (hgrow : Database.UsersGrow s.db s'.db stringId)
    (hnext : s.next ≤ s'.next)
    (hflight : ∀ w ∈ s'.flight, w ∈ s.flight ∨ s.next ≤ w.sink)
    (hanswers : ∀ {attempt place sink}, (s.clients p).task = .asking attempt place sink →
      ∀ response, (sink, Except.ok response) ∈ s'.answers → (sink, Except.ok response) ∈ s.answers ∨
        (s'.db.userList stringId)[place]? = some (.str (name p))) : s'.Assured name stringId p where
  id := by rw [hsame, h.id]
  joined := by
    rw [hsame]
    intro u huser
    obtain ⟨htask, place, hu, hplace⟩ := h.joined huser
    exact ⟨htask, place, hu, hgrow.getElem? hplace⟩
  asking := by
    rw [hsame]
    intro attempt place sink htask
    obtain ⟨hsink, hjoins, htold⟩ := h.asking htask
    refine ⟨Nat.lt_of_lt_of_le hsink hnext, fun w hw heq => ?_, fun response hmem => ?_⟩
    · rcases hflight w hw with hold | hnew
      · exact hjoins w hold heq
      · exact absurd (heq ▸ hnew) (Nat.not_le.mpr hsink)
    · rcases hanswers htask response hmem with hold | hnow
      · exact hgrow.getElem? (htold response hold)
      · exact hnow

theorem clients_put_self (s : Enrollment ι) (p : ι) (c : Joiner) : (s.put p c).clients p = c := by
  simp [put]

theorem clients_put_ne (s : Enrollment ι) {p q : ι} (h : q ≠ p) (c : Joiner) :
    (s.put p c).clients q = s.clients q := by
  simp [put, h]

/-- One client goes on by itself: for the others nothing has happened. -/
theorem Sound.put (h : s.Sound name stringId) {p : ι} {c : Joiner}
    (hc : (s.put p c).Assured name stringId p) : (s.put p c).Sound name stringId where
  documents := h.documents
  flight := h.flight
  answers := h.answers
  clients q := by
    by_cases hq : q = p
    · exact hq ▸ hc
    · exact (h.clients q).mono (s.clients_put_ne hq c) (.refl s.db stringId) (Nat.le_refl _)
        (fun w hw => .inl hw) fun _ _ hmem => .inl hmem

/-- A client may stop to wait at any time, and it may read again unless it has joined. -/
theorem Sound.put_task (h : s.Sound name stringId) (p : ι) {task : Joining}
    (htask : task = .ended ∨ (s.clients p).task ≠ .ended ∧ ∃ attempt, task = .reading attempt) :
    (s.put p { s.clients p with task }).Sound name stringId := by
  refine h.put ⟨?_, ?_, ?_⟩
  · rw [clients_put_self]
    exact (h.clients p).id
  · rw [clients_put_self]
    intro u huser
    obtain ⟨hended, hplace⟩ := (h.clients p).joined huser
    refine ⟨?_, hplace⟩
    rcases htask with hdone | ⟨hopen, -⟩
    · exact hdone
    · exact absurd hended hopen
  · rw [clients_put_self]
    rintro attempt place sink rfl
    rcases htask with hdone | ⟨-, other, hreading⟩
    · cases hdone
    · cases hreading

/-- A client asks with the list that its mirror shows, however old that is. -/
theorem Sound.ask (h : s.Sound name stringId) {p : ι} {attempt : Nat}
    (htask : (s.clients p).task = .reading attempt) {t : Table}
    (ht : t.schema = Schema.syncstrings) (clock : UInt64) :
    (s.ask name p attempt t clock).Sound name stringId := by
  obtain ⟨w, hrequest, hsink, hjoins⟩ :=
    (s.clients p).doc.setQuery?_registration (name p) clock t.first? ht s.next
  rw [(h.clients p).id] at hjoins
  have hflight : ∀ v ∈ (s.ask name p attempt t clock).flight, v ∈ s.flight ∨ v = w := by
    intro v hv
    simpa [Enrollment.ask, hrequest] using hv
  refine ⟨h.documents, fun v hv => ?_, fun a ha => Nat.lt_succ_of_lt (h.answers a ha), fun q => ?_⟩
  · rcases hflight v hv with hold | rfl
    · exact ⟨Nat.lt_succ_of_lt (h.flight v hold).1, (h.flight v hold).2⟩
    · exact ⟨hsink ▸ Nat.lt_succ_self s.next, name p, _, hjoins⟩
  · by_cases hq : q = p
    · subst hq
      have hclient : (s.ask name q attempt t clock).clients q =
          { s.clients q with
            task := .asking attempt
              ((s.clients q).doc.registration (name q) clock t.first?).1 s.next } :=
        s.clients_put_self q _
      refine ⟨by rw [hclient]; exact (h.clients q).id, fun huser => ?_, fun hasking => ?_⟩
      · -- Who has joined does not ask again.
        rw [hclient] at huser
        simp [((h.clients q).joined huser).1] at htask
      · rw [hclient] at hasking
        cases hasking
        refine ⟨Nat.lt_succ_self s.next, fun v hv heq => ?_, fun response hmem => ?_⟩
        · rcases hflight v hv with hold | rfl
          · exact absurd heq (Nat.ne_of_lt (h.flight v hold).1)
          · exact hjoins
        · exact absurd (h.answers _ hmem) (Nat.lt_irrefl s.next)
    · refine (h.clients q).mono (s.clients_put_ne hq _) (.refl s.db stringId) (Nat.le_succ s.next)
        (fun v hv => ?_) fun _ _ hmem => .inl hmem
      rcases hflight v hv with hold | rfl
      · exact .inl hold
      · exact .inr (Nat.le_of_eq hsink.symm)

omit [DecidableEq ι] in
/-- A write is made only if the row is as expected, so the list grows by one client at its end, or
not at all. -/
theorem Sound.make (h : s.Sound name stringId) {n : Nat} {w : HeldWrite}
    (hw : s.flight[n]? = some w) (alive : SinkId → Bool) :
    (s.make n alive w).Sound name stringId := by
  have hmem : w ∈ s.flight := List.mem_of_getElem? hw
  obtain ⟨hsink, client, place, hjoins⟩ := h.flight w hmem
  obtain ⟨hdocuments, hgrow, -⟩ := Database.write_joins alive h.documents hjoins
  have hflight : ∀ v ∈ (s.make n alive w).flight, v ∈ s.flight := fun v hv =>
    List.mem_of_mem_eraseIdx hv
  refine ⟨hdocuments, fun v hv => h.flight v (hflight v hv), fun a ha => ?_, fun p => ?_⟩
  · rcases List.mem_append.mp ha with hold | hnew
    · exact h.answers a hold
    · rw [List.mem_singleton.mp hnew]
      exact hsink
  · refine (h.clients p).mono rfl hgrow (Nat.le_refl _) (fun v hv => .inl (hflight v hv)) ?_
    intro attempt place sink htask response hanswer
    rcases List.mem_append.mp hanswer with hold | hnew
    · exact .inl hold
    · -- The answer is that to the write of this client.
      obtain ⟨heq, hresult⟩ := Prod.mk.inj (List.mem_singleton.mp hnew)
      have hjoins := ((h.clients p).asking htask).2.1 w hmem heq.symm
      refine .inr ((Database.write_joins alive h.documents hjoins).2.2 ?_)
      cases hwrite : (s.db.write alive w.table w.row w.expected).2.2 with
      | ok => rfl
      | error e =>
        rw [hwrite] at hresult
        cases hresult

/-- A client that hears that its write was made is in the list at the place it asked for. -/
theorem Sound.hear (h : s.Sound name stringId) {p : ι} {attempt place : Nat} {sink : SinkId}
    (htask : (s.clients p).task = .asking attempt place sink) {reply : Reply}
    (hanswer : (sink, reply) ∈ s.answers) :
    (s.put p ((s.clients p).hear attempt place reply)).Sound name stringId := by
  have hopen : (s.clients p).task ≠ .ended := by simp [htask]
  cases reply with
  | ok response =>
    refine h.put ⟨?_, ?_, ?_⟩
    · rw [clients_put_self]
      exact (h.clients p).id
    · rw [clients_put_self]
      intro u huser
      cases huser
      exact ⟨rfl, place, rfl, ((h.clients p).asking htask).2.2 response hanswer⟩
    · rw [clients_put_self]
      intro _ _ _ hended
      cases hended
  | error cause =>
    cases cause with
    | conflict table => exact h.put_task p (.inr ⟨hopen, attempt + 1, rfl⟩)
    | malformed _ | unknownTable _ | unknownQuery _ | disconnected | server _ =>
      exact h.put_task p (.inl rfl)

/-- What every step keeps. -/
theorem Sound.step (h : s.Sound name stringId) {move : Move ι} (hmove : move.Fair stringId s) :
    (s.step name move).Sound name stringId := by
  cases move with
  | ask p t clock =>
    cases htask : (s.clients p).task with
    | reading attempt =>
      simp only [Enrollment.step, htask]
      split
      · exact h.ask htask hmove clock
      · exact h.put_task p (.inl rfl)
    | asking attempt place sink => simpa only [Enrollment.step, htask] using h
    | ended => simpa only [Enrollment.step, htask] using h
  | make n alive =>
    cases hw : s.flight[n]? with
    | none => simpa only [Enrollment.step, hw] using h
    | some w =>
      simp only [Enrollment.step, hw]
      exact h.make hw alive
  | hear p n =>
    simp only [Enrollment.step]
    split
    · next attempt place sink target reply htask hanswer =>
      split
      · next heq => exact h.hear htask (heq ▸ List.mem_of_getElem? hanswer)
      · exact h
    · exact h
  | giveUp p => exact h.put_task p (.inl rfl)
  | other db =>
    refine ⟨hmove.1, h.flight, h.answers, fun p => ?_⟩
    exact (h.clients p).mono rfl (Database.usersGrow_of_ofRow ((Json.eqv_iff _ _).mp hmove.2))
      (Nat.le_refl _) (fun w hw => .inl hw) fun _ _ hmem => .inl hmem

/-- Who has joined keeps its number. -/
theorem user_step (h : s.Sound name stringId) {p : ι} {u : UInt32}
    (huser : (s.clients p).doc.user = some u) (move : Move ι) :
    ((s.step name move).clients p).doc.user = some u := by
  have hended := ((h.clients p).joined huser).1
  -- Only a client whose task has not ended gets a number.
  have hput : ∀ (q : ι) (c : Joiner), (q = p → c.doc.user = some u) →
      ((s.put q c).clients p).doc.user = some u := by
    intro q c hc
    by_cases hq : p = q
    · subst hq
      rw [clients_put_self]
      exact hc rfl
    · rwa [clients_put_ne s hq]
  cases move with
  | ask q t clock =>
    simp only [Enrollment.step]
    split
    · split
      · exact hput q _ fun hq => by subst hq; exact huser
      · exact hput q _ fun hq => by subst hq; exact huser
    · exact huser
  | make n alive =>
    simp only [Enrollment.step]
    split <;> exact huser
  | hear q n =>
    simp only [Enrollment.step]
    split
    · next htask _ =>
      split
      · refine hput q _ fun hq => ?_
        subst hq
        simp [hended] at htask
      · exact huser
    · exact huser
  | giveUp q => exact hput q _ fun hq => by subst hq; exact huser
  | other db => exact huser

/-- What every run keeps. -/
theorem Leads.sound {s' : Enrollment ι} (hs : Leads name stringId s s')
    (h : s.Sound name stringId) :
    s'.Sound name stringId ∧ ∀ {p u}, (s.clients p).doc.user = some u →
      (s'.clients p).doc.user = some u := by
  induction hs with
  | refl => exact ⟨h, fun huser => huser⟩
  | step _ move hmove ih =>
    exact ⟨ih.1.step hmove, fun huser => user_step ih.1 (ih.2 huser) move⟩

omit [DecidableEq ι] in
/-- The number of a client is its place in the list of users. -/
theorem Sound.getElem?_user (h : s.Sound name stringId)
    (hlength : (s.db.userList stringId).length < 0x100000000) {p : ι} {u : UInt32}
    (huser : (s.clients p).doc.user = some u) :
    (s.db.userList stringId)[u.toNat]? = some (.str (name p)) := by
  obtain ⟨-, place, rfl, hplace⟩ := (h.clients p).joined huser
  have hlt : place < (s.db.userList stringId).length := (List.getElem?_eq_some_iff.mp hplace).1
  rwa [UInt32.toNat_ofNat_of_lt' (Nat.lt_trans hlt hlength)]

/-- **No two clients have the same number, and a client stands at its place for good.** Clients
with different names join the list of users of one document, whatever the list is at first,
however old the list is that they see, and whether or not their writes are made and their answers
heard. -/
theorem users_distinct (hname : Function.Injective name) {s₀ s' : Enrollment ι}
    (hstart : s₀.Starts stringId) (hs : Leads name stringId s₀ s) (hs' : Leads name stringId s s')
    (hlength : (s'.db.userList stringId).length < 0x100000000) :
    (∀ p q u, p ≠ q → (s'.clients p).doc.user = some u → (s'.clients q).doc.user ≠ some u) ∧
      ∀ p u, (s.clients p).doc.user = some u → (s'.clients p).doc.user = some u ∧
        (s'.db.userList stringId)[u.toNat]? = some (.str (name p)) := by
  have hsound : s.Sound name stringId := (hs.sound hstart.sound).1
  obtain ⟨hsound', hkept⟩ := hs'.sound hsound
  constructor
  · intro p q u hpq hp hq
    have hsame := (hsound'.getElem?_user hlength hp).symm.trans (hsound'.getElem?_user hlength hq)
    rw [Option.some_inj, Json.str.injEq] at hsame
    exact hpq (hname hsame)
  · intro p u huser
    exact ⟨hkept huser, hsound'.getElem?_user hlength (hkept huser)⟩

/-- Two clients, and a document that nobody has opened before. -/
def pair : Enrollment Bool where
  db := .forDocuments
  clients := fun _ =>
    ⟨.new .text ⟨"notes", .standard, [], false, none⟩ "notes-id" 0 0 1, .reading 0⟩
  flight := []
  answers := []
  next := 0

/-- The names of the two clients. -/
def pairName (p : Bool) : String := if p then "bob" else "ann"

/-- A table of documents that shows some users of the document. -/
def usersSeen (users : List Json) : Table :=
  { Table.new Schema.syncstrings (.all Schema.syncstrings.name) .standard with
    rows := .ofList [(documentKey "notes-id", .ofList [("users", .arr users)])] }

/-- Both ask before they see anything of each other. Both writes are made, and one client hears
that it has joined. -/
def oneJoined : Enrollment Bool :=
  [Move.ask false (.new Schema.syncstrings (.all Schema.syncstrings.name) .standard) 0,
    .ask true (.new Schema.syncstrings (.all Schema.syncstrings.name) .standard) 0,
    .make 1 fun _ => true, .make 0 fun _ => true, .hear true 0].foldl (step pairName) pair

/-- The other one hears of the conflict, reads again and joins behind the first. -/
def bothJoined : Enrollment Bool :=
  [Move.hear false 1, .ask false (usersSeen [.str "bob"]) 0, .make 0 fun _ => true,
    .hear false 2].foldl (step pairName) oneJoined

/-- The client whose write is made first is the first user. -/
theorem users_distinct_pair :
    Function.Injective pairName ∧ pair.Starts "notes-id" ∧
      Leads pairName "notes-id" pair oneJoined ∧ Leads pairName "notes-id" oneJoined bothJoined ∧
      (bothJoined.db.userList "notes-id").length = 2 ∧
      (oneJoined.clients true).doc.user = some 0 ∧ (oneJoined.clients false).doc.user = none ∧
      (bothJoined.clients false).doc.user = some 1 ∧
      (∀ p q u, p ≠ q → (bothJoined.clients p).doc.user = some u →
        (bothJoined.clients q).doc.user ≠ some u) ∧
      ∀ p u, (oneJoined.clients p).doc.user = some u → (bothJoined.clients p).doc.user = some u ∧
        (bothJoined.db.userList "notes-id")[u.toNat]? = some (.str (pairName p)) := by
  have hname : Function.Injective pairName := by
    intro p q h
    cases p <;> cases q <;> simp_all [pairName]
  have hstart : pair.Starts "notes-id" := by
    refine ⟨fun t ht => ?_, fun _ => rfl, fun _ => rfl, fun _ => rfl, rfl, rfl⟩
    cases ht
    rfl
  have hone : Leads pairName "notes-id" pair oneJoined := by
    simp only [oneJoined, List.foldl_cons, List.foldl_nil]
    refine .step (.step (.step (.step (.step (.refl pair) _ ?_) _ ?_) _ ?_) _ ?_) _ ?_
    exacts [rfl, rfl, trivial, trivial, trivial]
  have hboth : Leads pairName "notes-id" oneJoined bothJoined := by
    simp only [bothJoined, List.foldl_cons, List.foldl_nil]
    refine .step (.step (.step (.step (.refl oneJoined) _ ?_) _ ?_) _ ?_) _ ?_
    exacts [trivial, rfl, trivial, trivial]
  have hlength : (bothJoined.db.userList "notes-id").length = 2 := by decide +kernel
  exact ⟨hname, hstart, hone, hboth, hlength, by decide +kernel, by decide +kernel,
    by decide +kernel, users_distinct hname hstart hone hboth (by rw [hlength]; decide)⟩

end Enrollment

end LiveDocs
