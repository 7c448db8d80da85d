import LiveDocs.Document.Basic
import LiveDocs.Proofs.Document.Independence

/-!
# A failed commit leaves no trace

A local patch is added to the replica before the data layer has accepted it. While it waits, patches
from elsewhere come in, before it and behind it in the order of the history. If it is refused it is
taken out of the history, and the content is made again from what is left.

The history that is left is the one that the same batches make without the patch
(`Replica.erase_insertAll`). The content is made in another way than in a run without the patch,
where it is kept up to date batch by batch; both are what all patches make of the empty document, if
every snapshot is the text of the patches up to it (`Replica.withdraw_commit`).

A document that has come as far as this may have seen failed commits before, so withdrawals are
among the steps that lead to it (`Document.Reachable`). Its content is grounded nevertheless, as
long as the last time has not been reached (`Document.Reachable.settled`): a withdrawal makes it so,
whatever it was before.

## Main definitions

* `Document.Reachable`: the states of a document.
* `Document.ingestAll`: a document after some batches.
* `Document.TrueSnapshots`: every snapshot is the text of the patches up to it.

## Main results

* `Replica.withdraw_commit`: a patch is added, batches come in, and the patch is withdrawn.
* `Document.failed_commit_untried`: the same for a document and an edit.
-/

namespace LiveDocs

variable {δ π : Type}

namespace History

@[simp] theorem get?_erase (h : History π) (id id' : PatchId) :
    (h.erase id).get? id' = if id' = id then none else h.get? id' :=
  SortedMap.get?_erase h.entries id id'

theorem erase_insert_self {h : History π} {id : PatchId} (hid : h.get? id = none)
    (e : HistoryEntry π) : (h.insert id e).erase id = h := by
  refine ext_get? fun id' => ?_
  rw [get?_erase, get?_insert]
  by_cases hsame : id' = id
  · rw [if_pos hsame, hsame, hid]
  · rw [if_neg hsame, if_neg hsame]

theorem erase_insert_of_ne (h : History π) {id id' : PatchId} (hne : id' ≠ id)
    (e : HistoryEntry π) : (h.insert id' e).erase id = (h.erase id).insert id' e := by
  refine ext_get? fun id'' => ?_
  rw [get?_erase, get?_insert, get?_insert, get?_erase, get?_erase, if_neg hne]
  by_cases hsame : id'' = id
  · have hother : id'' ≠ id' := fun h' => hne (h'.symm.trans hsame)
    rw [if_pos hsame, if_pos hsame, if_neg hother]
  · rw [if_neg hsame, if_neg hsame]

end History

namespace Replica

/-! ## The history -/

/-- A replica after some batches. -/
def ingestAll (f : Format δ π) (r : Replica δ π) (batches : List (List (IncomingPatch π))) :
    Replica δ π :=
  batches.foldl (fun r batch => (r.ingest f batch).1) r

/-- Patches with other ids come in whether or not a patch is there. -/
theorem erase_insertAll (h : History π) {id : PatchId} {batch : List (IncomingPatch π)}
    (hother : ∀ p ∈ batch, p.id ≠ id) :
    (insertAll h batch).erase id = insertAll (h.erase id) batch := by
  unfold insertAll
  induction batch generalizing h with
  | nil => rfl
  | cons p rest ih =>
    obtain ⟨hp, hrest⟩ := List.forall_mem_cons.mp hother
    rw [List.foldl_cons, List.foldl_cons, ih _ hrest, History.erase_insert_of_ne h hp]

/-- Two histories that differ in one patch differ in it still after the same batches, as long as
none of them brings it. -/
theorem erase_history_ingestAll (f : Format δ π) {r r' : Replica δ π} {id : PatchId}
    (hhistory : r.history.erase id = r'.history) {batches : List (List (IncomingPatch π))}
    (hother : ∀ batch ∈ batches, ∀ p ∈ batch, p.id ≠ id) :
    (r.ingestAll f batches).history.erase id = (r'.ingestAll f batches).history := by
  induction batches generalizing r r' with
  | nil => exact hhistory
  | cons batch batches ih =>
    obtain ⟨hbatch, hbatches⟩ := List.forall_mem_cons.mp hother
    refine ih ?_ hbatches
    rw [ingest_history, ingest_history, ← hhistory]
    exact erase_insertAll r.history fun p hp => hbatch p (mem_sortById.mp hp)

/-! ## The content -/

/-- The content is grounded, or a snapshot cannot be read. -/
def Based (f : Format δ π) (r : Replica δ π) : Prop := r.Grounded f ∨ r.history.Unreadable f

/-- A batch keeps the content grounded, or brings a snapshot that cannot be read. -/
theorem Based.ingest {f : Format δ π} (hf : f.Lawful) {r : Replica δ π} (h : r.Based f)
    (batch : List (IncomingPatch π)) : (r.ingest f batch).1.Based f := by
  rcases h with hgrounded | ⟨id, text, e, htext, hparse⟩
  · exact ingest_grounded hf hgrounded batch
  · exact .inr ⟨id, text, e, (extends_ingest f r batch).snapshots htext, hparse⟩

theorem Based.ingestAll {f : Format δ π} (hf : f.Lawful) {r : Replica δ π} (h : r.Based f)
    (batches : List (List (IncomingPatch π))) : (r.ingestAll f batches).Based f := by
  induction batches generalizing r with
  | nil => exact h
  | cons batch batches ih => exact ih (h.ingest hf batch)

theorem history_withdraw (f : Format δ π) (r : Replica δ π) (id : PatchId) :
    (r.withdraw f id).1.history = r.history.erase id := by
  simp only [withdraw]
  cases (r.history.erase id).content f none <;> rfl

/-- A withdrawal makes the content again, so it is grounded whatever it was before. -/
theorem withdraw_based {f : Format δ π} (hf : f.Lawful) (r : Replica δ π) (id : PatchId) :
    (r.withdraw f id).1.Based f := by
  rcases (r.history.erase id).content_origin f with
    ⟨start, base, horigin, hcontent⟩ | hunreadable
  · left
    refine ⟨start, base, ?_⟩
    simp only [withdraw, hcontent]
    exact ⟨horigin, hf.refl _⟩
  · right
    rw [history_withdraw]
    exact hunreadable

/-- With snapshots that are read as the patches up to them, a content is what all patches make of
the empty document. -/
theorem Based.live {f : Format δ π} {r : Replica δ π} (h : r.Based f)
    (hread : ∀ id text, r.history.snapshot? id = some text →
      f.parse text = .ok (f.fold f.empty (History.patchesOf (r.history.upTo (some id))))) :
    f.eqv r.live (r.history.replay f none) = true := by
  rcases h with ⟨start, base, hground⟩ | ⟨id, text, e, htext, hparse⟩
  · rw [← hground.origin.fold_eq hread]
    exact hground.live
  · rw [hread id text htext] at hparse
    cases hparse

/-- The times of a history that another one extends are times of that one. -/
theorem times_of_extends {h h' : History π} (hextends : h.Extends h')
    (htimes : ∀ id ∈ h'.ids, id.time < 0xffffffffffffffff) :
    ∀ id ∈ h.ids, id.time < 0xffffffffffffffff := by
  intro id hid
  obtain ⟨p, hp⟩ := mem_ids_iff.mp hid
  exact htimes id (mem_ids_iff.mpr ⟨p, hextends.patches hp⟩)

/-- A patch that is added, waits while batches come in, and is withdrawn. The history is the one
that the batches make without it, and the content is equal. -/
theorem withdraw_commit {f : Format δ π} (hf : f.Lawful) {r : Replica δ π} (h : r.Based f)
    {id : PatchId} (hid : r.history.get? id = none) (patch : π)
    {batches : List (List (IncomingPatch π))}
    (hother : ∀ batch ∈ batches, ∀ p ∈ batch, p.id ≠ id)
    (hread : ∀ id text, (r.ingestAll f batches).history.snapshot? id = some text → f.parse text =
      .ok (f.fold f.empty (History.patchesOf ((r.ingestAll f batches).history.upTo (some id))))) :
    (((r.commit f id patch).ingestAll f batches).withdraw f id).1.history =
        (r.ingestAll f batches).history ∧
      f.eqv (((r.commit f id patch).ingestAll f batches).withdraw f id).1.live
        (r.ingestAll f batches).live = true := by
  have hhistory : ((r.commit f id patch).ingestAll f batches).history.erase id =
      (r.ingestAll f batches).history :=
    erase_history_ingestAll f (History.erase_insert_self hid _) hother
  have hcontent := History.content_eq_replay hread none
  simp only [withdraw, hhistory, hcontent]
  exact ⟨trivial, hf.symm ((h.ingestAll hf batches).live hread)⟩

end Replica

/-! ## Kinds of documents -/

namespace Kind

theorem lawful_format (kind : Kind) (primaryKeys : List String) :
    (kind.format primaryKeys).Lawful := by
  cases kind with
  | text => exact Format.lawful_text
  | records => exact Format.lawful_records primaryKeys

/-- Contents that are read back from their text. Every text is; record sets must be legible. -/
def Legible : (kind : Kind) → kind.Content → Prop
  | text, _ => True
  | records, set => RecordSet.Legible set

theorem parse_render (kind : Kind) (primaryKeys : List String) (patches : List kind.Patch)
    (h : kind.Legible ((kind.format primaryKeys).fold (kind.format primaryKeys).empty patches)) :
    (kind.format primaryKeys).parse ((kind.format primaryKeys).render
        ((kind.format primaryKeys).fold (kind.format primaryKeys).empty patches)) =
      .ok ((kind.format primaryKeys).fold (kind.format primaryKeys).empty patches) := by
  cases kind with
  | text => exact Format.parse_render_text _
  | records => exact Format.parse_render_records rfl h

theorem eq_of_eqv_text {kind : Kind} {primaryKeys : List String} {a b : kind.Content}
    (hkind : kind = .text) (h : (kind.format primaryKeys).eqv a b = true) : a = b := by
  subst hkind
  simpa [format, Format.text] using h

end Kind

namespace Document

/-! ## The states of a document -/

/-- Documents as they come: a document begins without history, takes in patches, adds patches of its
own and withdraws them, and notes snapshots. All other parts of it change in ways that do not matter
here. -/
inductive Reachable : Document → Prop where
  | new (kind : Kind) (o : DocumentOptions) (stringId : String) (client : ClientId)
      (strings patches : TableId) : Reachable (new kind o stringId client strings patches)
  | ingest {d : Document} (h : Reachable d) (rows : Rows) (keys : List String) :
      Reachable (d.ingestRows rows keys).1
  | commit {d d' : Document} {p : LocalPatch} (h : Reachable d) {clock : UInt64} {edit : UserEdit}
      (hcommit : d.beginCommit clock edit = .ok (some (d', p))) : Reachable d'
  | withdraw {d : Document} (h : Reachable d) (id : PatchId) : Reachable (d.withdraw id).1
  | snapshot {d : Document} (h : Reachable d) (id : PatchId) (text : String) :
      Reachable (d.recordSnapshot id text)
  | live {d : Document} (h : Reachable d) (state : DocumentState) (user : Option UInt32)
      (saved failure : Option String) (events : EventBus DocumentEvent) (turns : List Nat)
      (nextTicket : Nat) :
      Reachable { d with state, user, saved, failure, events, turns, nextTicket }

/-- A document with another replica, in some state and with some events. -/
def withReplica (d : Document) (replica : Replica d.kind.Content d.kind.Patch)
    (state : DocumentState) (failure : Option String) (events : EventBus DocumentEvent) :
    Document :=
  { d with replica, state, failure, events }

/-- The patches in the rows with some keys. -/
def incoming (d : Document) (rows : Rows) (keys : List String) :
    List (IncomingPatch d.kind.Patch) :=
  keys.filterMap fun key => (rows.get? key).bind fun row => PatchRow.decode? d.format row

/-- Failing leaves the replica alone. -/
theorem fail_eq (d : Document) (detail : String) :
    ∃ state failure events, (d.fail detail).1 = d.withReplica d.replica state failure events := by
  unfold fail
  split
  · exact ⟨d.state, d.failure, d.events, rfl⟩
  · exact ⟨.error, some detail, d.events.emit (.error detail), rfl⟩

/-- Rows change the replica and perhaps the state, and there may be events. -/
theorem ingestRows_eq (d : Document) (rows : Rows) (keys : List String) :
    ∃ state failure events, (d.ingestRows rows keys).1 =
      d.withReplica (d.replica.ingest d.format (d.incoming rows keys)).1 state failure events := by
  have hbatch : (keys.filterMap fun key =>
      (rows.get? key).bind fun row => PatchRow.decode? d.format row) = d.incoming rows keys := rfl
  simp only [ingestRows, hbatch]
  split
  · exact ⟨d.state, d.failure, d.events.emit .change, rfl⟩
  · exact ⟨d.state, d.failure, d.events, rfl⟩
  · next e _ =>
    exact fail_eq { d with replica := (d.replica.ingest d.format (d.incoming rows keys)).1 } _

theorem withdraw_eq (d : Document) (id : PatchId) :
    ∃ state failure events, (d.withdraw id).1 =
      d.withReplica (d.replica.withdraw d.format id).1 state failure events := by
  simp only [withdraw]
  split
  · exact ⟨d.state, d.failure, d.events.emit .change, rfl⟩
  · next e _ =>
    obtain ⟨state, failure, events, hfail⟩ :=
      fail_eq { d with replica := (d.replica.withdraw d.format id).1 }
        ("cannot rebuild content: " ++ e.message)
    rw [hfail]
    exact ⟨state, failure, events.emit .change, rfl⟩

/-- A commit adds the patch to the content that the edit makes, with the next id, and writes it as a
row. -/
theorem beginCommit_encodes {d d' : Document} {clock : UInt64} {edit : UserEdit} {p : LocalPatch}
    (h : d.beginCommit clock edit = .ok (some (d', p))) :
    ∃ user target, d.user = some user ∧
      edit.run d.kind d.primaryKeys d.replica.live = .ok target ∧
      p.id = d.replica.nextId clock user ∧
      p.row = PatchRow.encode d.format d.stringId p.id (d.format.diff d.replica.live target) ∧
      d' = d.withReplica (d.replica.commit d.format p.id (d.format.diff d.replica.live target))
        d.state d.failure (d.events.emit .change) := by
  unfold beginCommit at h
  split at h
  · cases h
  · split at h
    · cases h
    · next target htarget =>
      simp only at h
      split at h
      · cases h
      · split at h
        · cases h
        · next user huser =>
          cases h
          exact ⟨user, target, huser, htarget, rfl, rfl, rfl⟩

/-- A commit adds the patch to the content that the edit makes, with the next id. -/
theorem beginCommit_adds {d d' : Document} {clock : UInt64} {edit : UserEdit} {p : LocalPatch}
    (h : d.beginCommit clock edit = .ok (some (d', p))) :
    ∃ user target, edit.run d.kind d.primaryKeys d.replica.live = .ok target ∧
      p.id = d.replica.nextId clock user ∧
      d' = d.withReplica (d.replica.commit d.format p.id (d.format.diff d.replica.live target))
        d.state d.failure (d.events.emit .change) := by
  obtain ⟨user, target, -, htarget, hid, -, heq⟩ := beginCommit_encodes h
  exact ⟨user, target, htarget, hid, heq⟩

/-- A commit adds a patch with the next id. -/
theorem beginCommit_eq_some {d d' : Document} {clock : UInt64} {edit : UserEdit} {p : LocalPatch}
    (h : d.beginCommit clock edit = .ok (some (d', p))) :
    ∃ user patch, p.id = d.replica.nextId clock user ∧
      d' = d.withReplica (d.replica.commit d.format p.id patch) d.state d.failure
        (d.events.emit .change) := by
  obtain ⟨user, target, -, hid, heq⟩ := beginCommit_adds h
  exact ⟨user, _, hid, heq⟩

/-! ## The content of a document -/

/-- Unless the last time was reached, the content is grounded or a snapshot cannot be read. -/
def Settled (d : Document) : Prop :=
  (∀ id ∈ d.versions, id.time < 0xffffffffffffffff) → d.replica.Based d.format

theorem lawful_format (d : Document) : d.format.Lawful := d.kind.lawful_format d.primaryKeys

theorem eq_of_eqv_text (d : Document) (hkind : d.kind = .text) {a b : d.kind.Content}
    (h : d.format.eqv a b = true) : a = b :=
  Kind.eq_of_eqv_text hkind h

/-- In all its states a document is settled. -/
theorem Reachable.settled {d : Document} (h : d.Reachable) : d.Settled := by
  induction h with
  | new kind o stringId client strings patches =>
    exact fun _ => .inl ⟨none, _, Replica.groundedAt_empty (kind.lawful_format o.primaryKeys)⟩
  | @ingest d _ rows keys ih =>
    obtain ⟨state, failure, events, heq⟩ := d.ingestRows_eq rows keys
    rw [heq]
    intro htimes
    have hextends := Replica.extends_ingest d.format d.replica (d.incoming rows keys)
    exact (ih (Replica.times_of_extends hextends htimes)).ingest d.lawful_format _
  | @commit d d' p _ clock edit hcommit ih =>
    obtain ⟨user, patch, hid, rfl⟩ := beginCommit_eq_some hcommit
    intro htimes
    have hextends := History.extends_insert d.replica.history p.id ⟨patch, none⟩
    have htimes' := Replica.times_of_extends hextends htimes
    rcases ih htimes' with hgrounded | ⟨id, text, e, htext, hparse⟩
    · refine .inl (Replica.commit_grounded d.lawful_format hgrounded ?_ patch)
      rw [hid]
      exact Replica.isNewest_nextId htimes' clock user
    · exact .inr ⟨id, text, e, hextends.snapshots htext, hparse⟩
  | @withdraw d _ id _ =>
    obtain ⟨state, failure, events, heq⟩ := d.withdraw_eq id
    rw [heq]
    exact fun _ => Replica.withdraw_based d.lawful_format d.replica id
  | @snapshot d _ id text ih =>
    intro htimes
    have hextends := History.extends_setSnapshot d.replica.history id text
    rcases ih (Replica.times_of_extends hextends htimes) with
      hgrounded | ⟨id', text', e, htext, hparse⟩
    · exact .inl (Replica.recordSnapshot_grounded d.lawful_format hgrounded id text)
    · exact .inr ⟨id', text', e, hextends.snapshots htext, hparse⟩
  | live _ _ _ _ _ _ _ _ ih => exact ih

/-- Every snapshot is the text of the patches up to it, and it can be read. -/
structure TrueSnapshots (d : Document) : Prop where
  faithful : d.replica.history.Faithful d.format
  legible : ∀ id text, d.replica.history.snapshot? id = some text →
    d.kind.Legible (d.format.fold d.format.empty
      (History.patchesOf (d.replica.history.upTo (some id))))

theorem TrueSnapshots.parse {d : Document} (h : d.TrueSnapshots) {id : PatchId} {text : String}
    (htext : d.replica.history.snapshot? id = some text) :
    d.format.parse text = .ok (d.format.fold d.format.empty
      (History.patchesOf (d.replica.history.upTo (some id)))) := by
  rw [h.faithful id text htext]
  exact d.kind.parse_render d.primaryKeys _ (h.legible id text htext)

/-! ## Batches -/

/-- A document after some batches of rows. -/
def ingestAll (d : Document) (batches : List (Rows × List String)) : Document :=
  batches.foldl (fun d batch => (d.ingestRows batch.1 batch.2).1) d

/-- The patches in some batches of rows. -/
def incomingAll (d : Document) (batches : List (Rows × List String)) :
    List (List (IncomingPatch d.kind.Patch)) :=
  batches.map fun b => d.incoming b.1 b.2

/-- Batches of rows act on the replica by their patches; what else they change is the life of the
document. -/
theorem ingestAll_eq (d : Document) (batches : List (Rows × List String)) :
    ∃ state failure events, d.ingestAll batches =
      d.withReplica (d.replica.ingestAll d.format (d.incomingAll batches)) state failure
        events := by
  induction batches generalizing d with
  | nil => exact ⟨d.state, d.failure, d.events, rfl⟩
  | cons b batches ih =>
    obtain ⟨state, failure, events, heq⟩ := d.ingestRows_eq b.1 b.2
    obtain ⟨state', failure', events', heq'⟩ := ih
      (d.withReplica (d.replica.ingest d.format (d.incoming b.1 b.2)).1 state failure events)
    refine ⟨state', failure', events', ?_⟩
    change (d.ingestRows b.1 b.2).1.ingestAll batches = _
    rw [heq, heq']
    rfl

/-- A document with some replica takes in batches, and a patch is withdrawn. -/
theorem withdraw_ingestAll_eq (d : Document) (r : Replica d.kind.Content d.kind.Patch)
    (state : DocumentState) (failure : Option String) (events : EventBus DocumentEvent)
    (batches : List (Rows × List String)) (id : PatchId) :
    ∃ state' failure' events',
      (((d.withReplica r state failure events).ingestAll batches).withdraw id).1 =
        d.withReplica ((r.ingestAll d.format (d.incomingAll batches)).withdraw d.format id).1
          state' failure' events' := by
  obtain ⟨state₁, failure₁, events₁, heq⟩ :=
    (d.withReplica r state failure events).ingestAll_eq batches
  obtain ⟨state₂, failure₂, events₂, heq'⟩ := (d.withReplica
    (r.ingestAll d.format (d.incomingAll batches)) state₁ failure₁ events₁).withdraw_eq id
  rw [heq]
  exact ⟨state₂, failure₂, events₂, heq'⟩

/-- **A failed commit is as if it had never been tried.** An edit is committed, batches of rows come
in while its patch waits, none of them with the id of the patch, and the patch is withdrawn. The
document then has the history that the batches make without the commit, and an equal content; for
texts it is the same one. Every snapshot has to be the text of the patches up to it, in the end. -/
theorem failed_commit_untried {d d' : Document} (hd : d.Reachable)
    (htimes : ∀ id ∈ d.versions, id.time < 0xffffffffffffffff) {clock : UInt64} {edit : UserEdit}
    {p : LocalPatch} (hcommit : d.beginCommit clock edit = .ok (some (d', p)))
    {batches : List (Rows × List String)}
    (hother : ∀ b ∈ batches, ∀ q ∈ d.incoming b.1 b.2, q.id ≠ p.id)
    (htrue : (d.ingestAll batches).TrueSnapshots) :
    ∃ history live live',
      (∃ state failure events, ((d'.ingestAll batches).withdraw p.id).1 =
        d.withReplica ⟨history, live⟩ state failure events) ∧
      (∃ state failure events, d.ingestAll batches =
        d.withReplica ⟨history, live'⟩ state failure events) ∧
      d.format.eqv live live' = true ∧ (d.kind = .text → live = live') := by
  obtain ⟨user, patch, hid, rfl⟩ := beginCommit_eq_some hcommit
  obtain ⟨state, failure, events, huntried⟩ := d.ingestAll_eq batches
  have htried := d.withdraw_ingestAll_eq (d.replica.commit d.format p.id patch) d.state d.failure
    (d.events.emit .change) batches p.id
  have hnew : d.replica.history.get? p.id = none := by
    rw [hid]
    exact Replica.get?_of_isNewest (Replica.isNewest_nextId htimes clock user)
  have hother' : ∀ batch ∈ d.incomingAll batches, ∀ q ∈ batch, q.id ≠ p.id := by
    intro batch hbatch
    obtain ⟨b, hb, rfl⟩ := List.mem_map.mp hbatch
    exact hother b hb
  rw [huntried] at htrue
  obtain ⟨hhistory, hlive⟩ := Replica.withdraw_commit d.lawful_format (hd.settled htimes) hnew patch
    hother' fun id text htext => htrue.parse htext
  refine ⟨_, _, _, htried, ⟨state, failure, events, ?_⟩, hlive,
    fun hkind => d.eq_of_eqv_text hkind hlive⟩
  rw [hhistory]
  exact huntried

/-- A text that user 3 has opened and that has no history yet. -/
def openText : Document :=
  { Document.new .text ⟨"a.txt", .standard, [], false, none⟩ "s" 0 0 1 with
    state := .ready
    user := some 3 }

/-- The rows of three patches of user 7, the second one with a snapshot. -/
def remoteRows : Rows :=
  .ofList [("a", PatchRow.encode .text "s" ⟨500, 7⟩ [⟨0, [], ['A']⟩]),
    ("b", (PatchRow.encode .text "s" ⟨600, 7⟩ [⟨0, [], ['B']⟩]).insert "snapshot" (.str "BA")),
    ("c", PatchRow.encode .text "s" ⟨900, 7⟩ [⟨0, [], ['C']⟩])]

/-- A commit at time 700 comes between the second and the third patch, which both arrive while it
waits. -/
theorem failed_commit_openText : ∃ d' p,
    (openText.ingestAll [(remoteRows, ["a"])]).beginCommit 700 (.append "X") = .ok (some (d', p)) ∧
    p.id = ⟨700, 3⟩ ∧
    (openText.ingestAll [(remoteRows, ["a"])]).Reachable ∧
    (∀ id ∈ (openText.ingestAll [(remoteRows, ["a"])]).versions, id.time < 0xffffffffffffffff) ∧
    ∃ history live live',
      (∃ state failure events,
        ((d'.ingestAll [(remoteRows, ["c"]), (remoteRows, ["b"])]).withdraw p.id).1 =
          (openText.ingestAll [(remoteRows, ["a"])]).withReplica ⟨history, live⟩ state failure
            events) ∧
      (∃ state failure events,
        (openText.ingestAll [(remoteRows, ["a"])]).ingestAll
            [(remoteRows, ["c"]), (remoteRows, ["b"])] =
          (openText.ingestAll [(remoteRows, ["a"])]).withReplica ⟨history, live'⟩ state failure
            events) ∧
      (openText.ingestAll [(remoteRows, ["a"])]).format.eqv live live' = true ∧
      ((openText.ingestAll [(remoteRows, ["a"])]).kind = .text → live = live') := by
  have hreachable : (openText.ingestAll [(remoteRows, ["a"])]).Reachable :=
    .ingest (.live (.new .text ⟨"a.txt", .standard, [], false, none⟩ "s" 0 0 1)
      .ready (some 3) none none .empty [] 0) _ _
  have htimes : ∀ id ∈ (openText.ingestAll [(remoteRows, ["a"])]).versions,
      id.time < 0xffffffffffffffff := by
    decide +kernel
  have htrue : ((openText.ingestAll [(remoteRows, ["a"])]).ingestAll
      [(remoteRows, ["c"]), (remoteRows, ["b"])]).TrueSnapshots :=
    ⟨by decide +kernel, fun _ _ _ => trivial⟩
  obtain ⟨d', p, hcommit, hid⟩ : ∃ d' p,
      (openText.ingestAll [(remoteRows, ["a"])]).beginCommit 700 (.append "X") =
        .ok (some (d', p)) ∧ p.id = ⟨700, 3⟩ := ⟨_, _, rfl, rfl⟩
  refine ⟨d', p, hcommit, hid, hreachable, htimes,
    failed_commit_untried hreachable htimes hcommit ?_ htrue⟩
  rw [hid]
  decide +kernel

end Document

end LiveDocs
