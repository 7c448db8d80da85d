import LiveDocs.Engine.Run
import LiveDocs.Proofs.Document.Contents
import LiveDocs.Proofs.Document.Convergence
import LiveDocs.Proofs.Engine.Commits
import LiveDocs.Proofs.Engine.Deeds

/-!
# What a load from the file leaves

A document is loaded from its file by a commit that replaces the content by the text of the file.
Once the commit has ended, the content counts as saved. This is the content as it is by then, and
not the text that was read: while the commit waits to be accepted, patches from elsewhere come in
(`Document.Awaits`).

So a document never has unsaved changes after a load, whatever has come in, and that alone does not
say that its content is the one of the file. It is the one of the file exactly if the commit has
made it so and what has come in has left it so (`Engine.load_ends_saved`). A commit always makes a
record set the one of the file; it makes a text the one of the file if the patch between the two
texts does. Without new patches nothing changes while the commit waits (`Replica.Receives.live_eq`).

## Main definitions

* `Document.shows`: the content is the one that a text is read as.
* `Document.sameContent`: two documents have equal contents.
* `Document.Awaits`: what may become of a document while a commit waits.
* `Document.afterLoad`: a document when a load has ended.

## Main results

* `Document.Awaits.shows_iff_sameContent`: when a document still shows a text that it has shown.
* `Engine.load_ends_saved`: what a load leaves.
-/

namespace LiveDocs

variable {δ π : Type}

/-- Whether a text is read as some content. -/
def Format.readsAs (f : Format δ π) (text : String) (content : δ) : Bool :=
  match f.parse text with
  | .ok target => f.eqv content target
  | .error _ => false

/-! ## Replicas that take in patches -/

namespace Replica

/-- What becomes of a replica when patches come in and snapshots are noted. -/
inductive Receives (f : Format δ π) (r : Replica δ π) : Replica δ π → Prop where
  | refl : Receives f r r
  | ingest {r' : Replica δ π} (h : Receives f r r') (batch : List (IncomingPatch π)) :
      Receives f r (r'.ingest f batch).1
  | snapshot {r' : Replica δ π} (h : Receives f r r') (id : PatchId) (text : String) :
      Receives f r (r'.recordSnapshot id text)

variable {f : Format δ π} {r r' : Replica δ π}

theorem ids_subset_of_extends {h h' : History π} (hextends : h.Extends h') : h.ids ⊆ h'.ids := by
  intro id hid
  obtain ⟨p, hp⟩ := mem_ids_iff.mp hid
  exact mem_ids_iff.mpr ⟨p, hextends.patches hp⟩

theorem Receives.extends (h : r.Receives f r') : r.history.Extends r'.history := by
  induction h with
  | refl => exact .refl _
  | ingest _ batch ih => exact ih.trans (extends_ingest f _ batch)
  | snapshot _ id text ih => exact ih.trans (History.extends_setSnapshot _ id text)

/-- A batch that brings no new id brings no new patch. -/
theorem newPatches_eq_nil {batch : List (IncomingPatch π)}
    (hids : (r.ingest f batch).1.history.ids ⊆ r.history.ids) :
    newPatches r.history (sortById batch) = [] := by
  refine List.eq_nil_iff_forall_not_mem.mpr fun p hp => ?_
  obtain ⟨hbatch, hnew⟩ := mem_newPatches hp
  have hknown : p.id ∈ (r.ingest f batch).1.history.ids := by
    rw [ingest_history]
    exact mem_ids_iff.mpr (knows_insertAll r.history hbatch).patch
  obtain ⟨q, hq⟩ := mem_ids_iff.mp (hids hknown)
  simp [hnew] at hq

/-- Without new patches the content stays. -/
theorem Receives.live_eq (h : r.Receives f r') (hids : r'.history.ids ⊆ r.history.ids) :
    r'.live = r.live := by
  induction h with
  | refl => rfl
  | @ingest r' h batch ih =>
    have hgrows := ids_subset_of_extends (extends_ingest f r' batch)
    have hnews : newPatches r'.history (sortById batch) = [] :=
      newPatches_eq_nil (List.Subset.trans hids (ids_subset_of_extends h.extends))
    rw [← ih (List.Subset.trans hgrows hids)]
    simp [Replica.ingest, hnews]
  | @snapshot r' h id text ih =>
    have hgrows := ids_subset_of_extends (History.extends_setSnapshot r'.history id text)
    exact ih (List.Subset.trans hgrows hids)

end Replica

namespace Document

/-! ## What is shown -/

/-- Whether the content is the one that a text is read as. -/
def shows (d : Document) (text : String) : Bool := d.format.readsAs text d.replica.live

/-- Whether two documents are of one kind and have equal contents. -/
def sameContent (d d' : Document) : Bool :=
  if h : d'.kind = d.kind then d.format.eqv (h ▸ d'.replica.live) d.replica.live else false

theorem shows_eq {d : Document} {text : String} {target : d.kind.Content}
    (hparse : d.format.parse text = .ok target) :
    d.shows text = d.format.eqv d.replica.live target := by
  rw [shows, Format.readsAs, hparse]

/-! ## While a commit waits -/

/-- What may become of a document while a commit waits: rows come in, and the snapshot that the
commit has stored is noted. The parts of it that have to do with its life change in any way. -/
inductive Awaits (d : Document) : Document → Prop where
  | refl : Awaits d d
  | ingest {d' : Document} (h : Awaits d d') (rows : Rows) (keys : List String) :
      Awaits d (d'.ingestRows rows keys).1
  | snapshot {d' : Document} (h : Awaits d d') (id : PatchId) (text : String) :
      Awaits d (d'.recordSnapshot id text)
  | live {d' : Document} (h : Awaits d d') (state : DocumentState) (user : Option UInt32)
      (saved failure : Option String) (events : EventBus DocumentEvent) (turns : List Nat)
      (nextTicket : Nat) :
      Awaits d { d' with state, user, saved, failure, events, turns, nextTicket }

variable {d d' : Document}

/-- A document that waits keeps its kind, and its replica takes in patches. -/
theorem Awaits.receives (h : d.Awaits d') : ∃ r, d.replica.Receives d.format r ∧
    ∃ state user saved failure events turns nextTicket, d' =
      { d with replica := r, state, user, saved, failure, events, turns, nextTicket } := by
  induction h with
  | refl => exact ⟨_, .refl, _, _, _, _, _, _, _, rfl⟩
  | ingest _ rows keys ih =>
    obtain ⟨r, hr, state, user, saved, failure, events, turns, nextTicket, rfl⟩ := ih
    obtain ⟨state', failure', events', heq⟩ := ingestRows_eq
      { d with replica := r, state, user, saved, failure, events, turns, nextTicket } rows keys
    rw [heq]
    exact ⟨_, hr.ingest _, state', user, saved, failure', events', turns, nextTicket, rfl⟩
  | snapshot _ id text ih =>
    obtain ⟨r, hr, state, user, saved, failure, events, turns, nextTicket, rfl⟩ := ih
    exact ⟨_, hr.snapshot id text, state, user, saved, failure, events, turns, nextTicket, rfl⟩
  | live _ state' user' saved' failure' events' turns' nextTicket' ih =>
    obtain ⟨r, hr, state, user, saved, failure, events, turns, nextTicket, rfl⟩ := ih
    exact ⟨r, hr, state', user', saved', failure', events', turns', nextTicket', rfl⟩

/-- A document that has shown a text shows it after it has waited exactly if its content is
equal. -/
theorem Awaits.shows_iff_sameContent (h : d.Awaits d') {text : String}
    (hshows : d.shows text = true) : d'.shows text = true ↔ d.sameContent d' = true := by
  obtain ⟨r, -, state, user, saved, failure, events, turns, nextTicket, rfl⟩ := h.receives
  have hf := d.lawful_format
  cases hparse : d.format.parse text with
  | error e => simp [shows, Format.readsAs, hparse] at hshows
  | ok target =>
    rw [shows_eq hparse] at hshows
    have hlater : shows { d with
        replica := r, state, user, saved, failure, events, turns, nextTicket } text =
        d.format.eqv r.live target := shows_eq hparse
    rw [hlater, sameContent, dif_pos rfl]
    exact ⟨fun hshown => hf.trans hshown (hf.symm hshows), fun hsame => hf.trans hsame hshows⟩

/-- Without new patches a document has the same content after it has waited, and shows the same
texts. -/
theorem Awaits.sameContent (h : d.Awaits d') (hversions : d'.versions ⊆ d.versions) :
    d.sameContent d' = true ∧ ∀ text, d'.shows text = d.shows text := by
  obtain ⟨r, hr, state, user, saved, failure, events, turns, nextTicket, rfl⟩ := h.receives
  have hlive : r.live = d.replica.live := hr.live_eq hversions
  constructor
  · rw [Document.sameContent, dif_pos rfl]
    simp only [hlive]
    exact d.lawful_format.refl _
  · intro text
    change d.format.readsAs text r.live = d.format.readsAs text d.replica.live
    rw [hlive]

/-! ## The end of a load -/

/-- A document when a load has ended: the next commit has its turn, and the content counts as
saved. -/
def afterLoad (d : Document) (ticket : Nat) : Document :=
  { (d.returnTicket ticket).1 with saved := some d.text }

theorem hasUnsavedChanges_afterLoad (d : Document) (ticket : Nat) :
    (d.afterLoad ticket).hasUnsavedChanges = false := by
  have htext : (d.afterLoad ticket).text = d.text := rfl
  change (d.text != (d.afterLoad ticket).text) = false
  rw [htext, bne_self_eq_false]

/-- A commit that changes nothing has found the content that the text is read as. -/
theorem Reachable.shows_of_unchanged (hd : d.Reachable) {clock : UInt64} {text : String}
    (hcommit : d.beginCommit clock (.replace text) = .ok none) : d.shows text = true := by
  obtain ⟨-, target, hparse, hnoop⟩ := beginCommit_outcome.1.mp hcommit
  have htarget := (d.kind.invariant_proper d.primaryKeys).parse hparse
  rw [shows_eq hparse]
  exact Kind.eqv_of_isNoop_diff hd.proper htarget hnoop

/-- A commit of a text that is read as some content. For record sets the content is that one
afterwards, for texts if the patch makes it so. -/
theorem Reachable.shows_of_committed (hd : d.Reachable) {clock : UInt64} {text : String}
    {target : d.kind.Content} (hparse : d.format.parse text = .ok target) {p : LocalPatch}
    (hcommit : d.beginCommit clock (.replace text) = .ok (some (d', p))) :
    d'.shows text = true ↔ d.kind = .records ∨
      d.format.apply d.replica.live (d.format.diff d.replica.live target) = target := by
  obtain ⟨user, target', hrun, -, rfl⟩ := beginCommit_adds hcommit
  obtain rfl : target' = target := Except.ok.inj (hrun.symm.trans hparse)
  have hshows : (d.withReplica (d.replica.commit d.format p.id
      (d.format.diff d.replica.live target')) d.state d.failure
        (d.events.emit .change)).shows text =
      d.format.eqv (d.format.apply d.replica.live (d.format.diff d.replica.live target')) target' :=
    shows_eq hparse
  have htarget := (d.kind.invariant_proper d.primaryKeys).parse hparse
  rw [hshows]
  exact Kind.eqv_apply_diff_iff hd.proper htarget

end Document

namespace Engine

variable {e : Engine} {id : DocId} {d : Document}

/-- A commit of a load that has ended leaves the content as saved. -/
theorem endCommit_load (hd : e.docs.get? id = some d) (ticket : Nat) (next : LoadReturn)
    (patch : Option PatchId) :
    ∃ e' : Engine,
      e.endCommit id ticket (.load next) (.ok patch) = e'.loaded next (.ok patch.isSome) ∧
        e'.docs.get? id = some (d.afterLoad ticket) := by
  refine ⟨_, rfl, ?_⟩
  have hreturned : (e.onDocument id fun d => d.returnTicket ticket).docs.get? id =
      some (d.returnTicket ticket).1 := by
    rw [docs_onDocument hd, SortedMap.get?_insert, if_pos rfl]
  rw [docs_onDocument hreturned, SortedMap.get?_insert, if_pos rfl]
  rfl

/-- **A load leaves no unsaved changes, whatever has come in meanwhile.** The text that is read from
the file is committed. If the commit finds nothing to change, the content is the one of the file. If
it has added a patch, the content counts as saved when the commit has ended, also if patches have
come in since; it is the one of the file exactly if it is equal to what the commit has made, as it
is if no patch has come in. What the commit makes is the content of the file for record sets, and
for texts if the patch from one text to the other makes the other. -/
theorem load_ends_saved {d : Document} (hd : d.Reachable) {text : String} {target : d.kind.Content}
    (hparse : d.format.parse text = .ok target) (id : DocId) (ticket : Nat) (next : LoadReturn) :
    (∀ e : Engine, e.docs.get? id = some d → d.ensureOpen = .ok () →
        e.disk.read d.path = .ok (some text) →
      e.lookLoad id next = .goOn e (.commit id (.replace text) (.load next))) ∧
    (∀ e : Engine, e.docs.get? id = some d →
        d.beginCommit (e.clockOf d.client) (.replace text) = .ok none →
      ∃ e' : Engine,
        e.runCommit id ticket (.replace text) (.load next) = e'.loaded next (.ok false) ∧
        e'.docs.get? id = some (d.afterLoad ticket) ∧
        (d.afterLoad ticket).hasUnsavedChanges = false ∧ (d.afterLoad ticket).shows text = true) ∧
    ∀ (clock : UInt64) (made : Document) (p : LocalPatch),
        d.beginCommit clock (.replace text) = .ok (some (made, p)) →
      (made.shows text = true ↔ d.kind = .records ∨
        d.format.apply d.replica.live (d.format.diff d.replica.live target) = target) ∧
      ∀ (e : Engine) (later : Document), e.docs.get? id = some later → made.Awaits later →
        ∃ e' : Engine,
          e.endCommit id ticket (.load next) (.ok (some p.id)) = e'.loaded next (.ok true) ∧
          e'.docs.get? id = some (later.afterLoad ticket) ∧
          (later.afterLoad ticket).hasUnsavedChanges = false ∧
          (made.shows text = true →
            ((later.afterLoad ticket).shows text = true ↔ made.sameContent later = true)) ∧
          (later.versions ⊆ made.versions →
            made.sameContent later = true ∧
              (later.afterLoad ticket).shows text = made.shows text) := by
  refine ⟨fun e hget hopen hread => ?_, fun e hget hcommit => ?_,
    fun clock made p hcommit => ⟨?_, ?_⟩⟩
  · simp only [lookLoad, hget, hopen, hread, hparse]
  · obtain ⟨e', hend, hdoc⟩ := endCommit_load hget ticket next none
    refine ⟨e', ?_, hdoc, d.hasUnsavedChanges_afterLoad ticket, hd.shows_of_unchanged hcommit⟩
    simp only [runCommit, hget, hcommit]
    exact hend
  · exact hd.shows_of_committed hparse hcommit
  · intro e later hget hawaits
    obtain ⟨e', hend, hdoc⟩ := endCommit_load hget ticket next (some p.id)
    refine ⟨e', hend, hdoc, later.hasUnsavedChanges_afterLoad ticket, hawaits.shows_iff_sameContent,
      fun hversions => ?_⟩
    obtain ⟨hsame, hshows⟩ := hawaits.sameContent hversions
    exact ⟨hsame, hshows text⟩

/-- The row of a patch of user 7 that puts a character in front. -/
def overtakingRows : Rows :=
  .ofList [("x", PatchRow.encode .text "s" ⟨2000, 7⟩ [⟨0, [], ['X']⟩])]

/-- The file holds `disk`. While the load waits, a patch puts `X` in front, and then the document
has no unsaved changes and does not show what the file holds. A load of the empty file finds nothing
to change. -/
theorem load_ends_saved_overtaken :
    (∃ e' : Engine, withOpenText.runCommit 0 5 (.replace "") (.load (.call 2)) =
        e'.loaded (.call 2) (.ok false) ∧
      e'.docs.get? 0 = some (Document.openText.afterLoad 5) ∧
      (Document.openText.afterLoad 5).hasUnsavedChanges = false ∧
      (Document.openText.afterLoad 5).shows "" = true) ∧
    ∃ made p later, Document.openText.beginCommit 1000 (.replace "disk") = .ok (some (made, p)) ∧
      made.shows "disk" = true ∧ made.Awaits later ∧ later.text = "Xdisk" ∧
      made.sameContent later = false ∧
      ∃ e e' : Engine, e.docs.get? 0 = some later ∧
        e.endCommit 0 5 (.load (.call 2)) (.ok (some p.id)) = e'.loaded (.call 2) (.ok true) ∧
        e'.docs.get? 0 = some (later.afterLoad 5) ∧
        (later.afterLoad 5).hasUnsavedChanges = false ∧
          (later.afterLoad 5).shows "disk" = false := by
  have hreachable : Document.openText.Reachable :=
    .live (.new .text ⟨"a.txt", .standard, [], false, none⟩ "s" 0 0 1) .ready (some 3) none none
      .empty [] 0
  constructor
  · have hempty : Document.openText.format.parse "" = .ok [] := rfl
    exact (load_ends_saved hreachable hempty 0 5 (.call 2)).2.1 withOpenText rfl rfl
  · obtain ⟨made, p, hcommit, hshows, htext, hdiffers⟩ : ∃ made p,
        Document.openText.beginCommit 1000 (.replace "disk") = .ok (some (made, p)) ∧
        made.shows "disk" = true ∧ (made.ingestRows overtakingRows ["x"]).1.text = "Xdisk" ∧
        made.sameContent (made.ingestRows overtakingRows ["x"]).1 = false :=
      ⟨_, _, rfl, by decide +kernel, by decide +kernel, by decide +kernel⟩
    have hawaits : made.Awaits (made.ingestRows overtakingRows ["x"]).1 := .ingest .refl _ _
    have hdisk : Document.openText.format.parse "disk" = .ok "disk".toList := rfl
    obtain ⟨-, hload⟩ :=
      (load_ends_saved hreachable hdisk 0 5 (.call 2)).2.2 1000 made p hcommit
    obtain ⟨e', hend, hdoc, hsaved, hiff, -⟩ := hload
      { withOpenText with docs := .ofList [(0, (made.ingestRows overtakingRows ["x"]).1)] } _ rfl
      hawaits
    refine ⟨made, p, _, hcommit, hshows, hawaits, htext, hdiffers, _, e', rfl, hend,
      hdoc, hsaved, ?_⟩
    rw [Bool.eq_false_iff, ne_eq, hiff hshows, hdiffers]
    exact Bool.false_ne_true

end Engine

end LiveDocs
