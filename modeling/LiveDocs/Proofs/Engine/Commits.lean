import LiveDocs.Proofs.Document.Withdrawal
import LiveDocs.Proofs.Engine.Deeds
import LiveDocs.Proofs.Text.Unchanged

/-!
# When a commit writes a patch

A commit that has its turn works out its edit on the content as it is then. If the patch to the new
content has no effect the commit ends without a patch; otherwise the patch is added to the replica
and written to the table of patches. An error ends the commit as well: the document may be closed or
have failed, the edit may not be possible, or the document may not have a user yet.

For texts a patch has no effect exactly if the texts are equal, so a commit writes exactly if the
text differs (`Engine.runCommit_writes_iff_differs`): no edit is taken for none, and an unchanged
text leaves no trace. What is written is the row of the patch from the one text to the other.

## Main results

* `Document.beginCommit_outcome`: what comes of a commit.
* `Engine.runCommit_encodes`: what a commit writes, and the document that it leaves.
* `Engine.runCommit_writes_iff_differs`: a commit writes exactly if the text differs.
-/

namespace LiveDocs

/-- The patch between two texts has no effect exactly if they are equal. -/
theorem Kind.isNoop_diff_iff {kind : Kind} (hkind : kind = .text) (primaryKeys : List String)
    (a b : kind.Content) :
    (kind.format primaryKeys).isNoop ((kind.format primaryKeys).diff a b) = true ↔ a = b := by
  subst hkind
  exact List.isEmpty_iff.trans TextPatch.diff_eq_nil_iff

namespace Document

variable {d : Document} {clock : UInt64} {edit : UserEdit}

/-- What comes of a commit: it ends without a patch if the one it would make has no effect, and it
adds a patch that has an effect if there is a user to add it for. -/
theorem beginCommit_outcome :
    (d.beginCommit clock edit = .ok none ↔ d.ensureOpen = .ok () ∧
      ∃ target, edit.run d.kind d.primaryKeys d.replica.live = .ok target ∧
        d.format.isNoop (d.format.diff d.replica.live target) = true) ∧
    ((∃ d' p, d.beginCommit clock edit = .ok (some (d', p))) ↔ d.ensureOpen = .ok () ∧
      d.user.isSome = true ∧
        ∃ target, edit.run d.kind d.primaryKeys d.replica.live = .ok target ∧
          ¬ d.format.isNoop (d.format.diff d.replica.live target) = true) := by
  unfold beginCommit
  cases d.ensureOpen with
  | error e => simp
  | ok _ =>
    cases edit.run d.kind d.primaryKeys d.replica.live with
    | error e => simp
    | ok target =>
      cases hnoop : d.format.isNoop (d.format.diff d.replica.live target) with
      | true => simp [hnoop]
      | false => cases d.user <;> simp [hnoop]

end Document

namespace Engine

variable {e : Engine} {id : DocId} {ticket : Nat} {edit : UserEdit} {next : CommitReturn}

/-- A commit that has ended writes nothing more. -/
theorem endCommit_ne_write (result : Except SyncError (Option PatchId)) {e' : Engine}
    {table : TableId} {row : Record} {expected : Option Record} {after : WriteReturn} :
    e.endCommit id ticket next result ≠ .goOn e' (.write table row expected after) := by
  unfold endCommit committed
  split
  · simp [answer]
  · next load _ => cases load <;> simp [loaded, answer]
  · next load _ => cases load <;> simp [loaded, answer]

/-- A commit writes the patch that it has added, and nothing if it has added none. -/
theorem runCommit_writes_iff {d : Document} (hd : e.docs.get? id = some d) :
    (∃ (e' : Engine) (p : LocalPatch), e.runCommit id ticket edit next =
        .goOn e' (.write d.patches p.row none (.commit ⟨id, ticket, p.id, next⟩))) ↔
      ∃ d' p, d.beginCommit (e.clockOf d.client) edit = .ok (some (d', p)) := by
  simp only [runCommit, hd]
  split
  · next cause hbegin => simp [hbegin, endCommit_ne_write]
  · next hbegin => simp [hbegin, endCommit_ne_write]
  · next d' p hbegin => exact ⟨fun _ => ⟨d', p, hbegin⟩, fun _ => ⟨_, p, rfl⟩⟩

theorem docs_putDocument (e : Engine) (id : DocId) (d : Document) (notices : List DocumentNotice) :
    (e.putDocument id d notices).docs = e.docs.insert id d :=
  (foldl_heedDocument_stirs (σ := .outside e false) _ id _).docs

theorem docs_onDocument {d : Document} (hd : e.docs.get? id = some d)
    (step : Document → Document × List DocumentNotice) :
    (e.onDocument id step).docs = e.docs.insert id (step d).1 := by
  simp only [onDocument, hd, docs_putDocument]

/-- A commit writes the row of the patch to the content that the edit makes, under the next id of
the user. The document has that patch already and is syncing. -/
theorem runCommit_encodes {d : Document} (hd : e.docs.get? id = some d) {e' : Engine}
    {p : LocalPatch} (h : e.runCommit id ticket edit next =
      .goOn e' (.write d.patches p.row none (.commit ⟨id, ticket, p.id, next⟩))) :
    ∃ user target, d.user = some user ∧
      edit.run d.kind d.primaryKeys d.replica.live = .ok target ∧
      p.id = d.replica.nextId (e.clockOf d.client) user ∧
      p.row = PatchRow.encode d.format d.stringId p.id (d.format.diff d.replica.live target) ∧
      e'.docs.get? id = some ((d.withReplica
        (d.replica.commit d.format p.id (d.format.diff d.replica.live target)) d.state d.failure
        (d.events.emit .change)).transition .ready .syncing).1 := by
  obtain ⟨d', p', hbegin⟩ := (runCommit_writes_iff hd).mp ⟨e', p, h⟩
  obtain ⟨user, target, huser, htarget, hid, hrow, rfl⟩ := Document.beginCommit_encodes hbegin
  simp only [runCommit, hd, hbegin] at h
  cases p
  cases h
  refine ⟨user, target, huser, htarget, hid, hrow, ?_⟩
  have hput := e.docs_putDocument id (d.withReplica
    (d.replica.commit d.format p'.id (d.format.diff d.replica.live target)) d.state d.failure
    (d.events.emit .change)) [.events]
  rw [docs_onDocument (by rw [hput, SortedMap.get?_insert, if_pos rfl]), SortedMap.get?_insert,
    if_pos rfl]

/-- **A commit to a text writes a patch exactly if the text differs.** The patch between two texts
has no effect exactly if they are equal. So the commit of a text, in whatever engine it has its
turn, writes a patch if the document is open and has a user and the edit makes another text; and it
ends without a patch and without an error if the edit makes the same text. What it writes is the row
of the patch from the one text to the other, under the next id of the user, and the document has
that patch. -/
theorem runCommit_writes_iff_differs :
    (∀ a b : List Char, Format.text.isNoop (Format.text.diff a b) = true ↔ a = b) ∧
    ∀ (e : Engine) (id : DocId) (d : Document), e.docs.get? id = some d → d.kind = .text →
      ∀ (ticket : Nat) (edit : UserEdit) (next : CommitReturn),
        ((∃ (e' : Engine) (p : LocalPatch), e.runCommit id ticket edit next =
            .goOn e' (.write d.patches p.row none (.commit ⟨id, ticket, p.id, next⟩))) ↔
          d.ensureOpen = .ok () ∧ d.user.isSome = true ∧
            ∃ target, edit.run d.kind d.primaryKeys d.replica.live = .ok target ∧
              target ≠ d.replica.live) ∧
        (d.beginCommit (e.clockOf d.client) edit = .ok none ↔ d.ensureOpen = .ok () ∧
          edit.run d.kind d.primaryKeys d.replica.live = .ok d.replica.live) ∧
        ∀ (e' : Engine) (p : LocalPatch), e.runCommit id ticket edit next =
            .goOn e' (.write d.patches p.row none (.commit ⟨id, ticket, p.id, next⟩)) →
          ∃ user target, d.user = some user ∧
            edit.run d.kind d.primaryKeys d.replica.live = .ok target ∧
            p.id = d.replica.nextId (e.clockOf d.client) user ∧
            p.row = PatchRow.encode d.format d.stringId p.id
              (d.format.diff d.replica.live target) ∧
            e'.docs.get? id = some ((d.withReplica
              (d.replica.commit d.format p.id (d.format.diff d.replica.live target)) d.state
              d.failure (d.events.emit .change)).transition .ready .syncing).1 := by
  refine ⟨fun a b => List.isEmpty_iff.trans TextPatch.diff_eq_nil_iff,
    fun e id d hd hkind ticket edit next => ?_⟩
  have hnoop : ∀ target, d.format.isNoop (d.format.diff d.replica.live target) = true ↔
      target = d.replica.live := fun target =>
    (Kind.isNoop_diff_iff hkind d.primaryKeys d.replica.live target).trans eq_comm
  refine ⟨?_, ?_, fun e' p h => runCommit_encodes hd h⟩
  · rw [runCommit_writes_iff hd, Document.beginCommit_outcome.2]
    simp only [hnoop, ne_eq]
  · rw [Document.beginCommit_outcome.1]
    simp only [hnoop, exists_eq_right]

/-- An engine with the open text of user 3. -/
def withOpenText : Engine := { new (.script .new) with docs := .ofList [(0, .openText)] }

/-- The text is empty: a commit of another text writes the row of its patch, and a commit of the
empty text does not. -/
theorem runCommit_withOpenText :
    (∃ e' : Engine, withOpenText.runCommit 0 5 (.replace "x") (.call 2) =
        .goOn e' (.write 1 (PatchRow.encode .text "s" ⟨0, 3⟩ [⟨0, [], ['x']⟩]) none
          (.commit ⟨0, 5, ⟨0, 3⟩, .call 2⟩)) ∧
      (e'.docs.get? 0).map Document.text = some "x") ∧
      (¬∃ (e' : Engine) (p : LocalPatch), withOpenText.runCommit 0 5 (.replace "") (.call 2) =
        .goOn e' (.write 1 p.row none (.commit ⟨0, 5, p.id, .call 2⟩))) ∧
      Document.openText.beginCommit (withOpenText.clockOf 0) (.replace "") = .ok none := by
  have hcommit := runCommit_writes_iff_differs.2 withOpenText 0 .openText rfl rfl 5
  obtain ⟨hwrites, -, hencodes⟩ := hcommit (.replace "x") (.call 2)
  refine ⟨?_, ?_, (hcommit (.replace "") (.call 2)).2.1.mpr ⟨rfl, rfl⟩⟩
  · obtain ⟨e', ⟨id, row⟩, hrun⟩ := hwrites.mpr ⟨rfl, rfl, ['x'], rfl, List.cons_ne_nil _ _⟩
    obtain ⟨user, target, huser, htarget, hid, hrow, hdoc⟩ := hencodes e' ⟨id, row⟩ hrun
    cases huser
    cases htarget
    obtain rfl : id = ⟨0, 3⟩ := hid
    refine ⟨e', ?_, ?_⟩
    · rw [hrun, hrow]
      rfl
    · rw [hdoc]
      rfl
  · intro hunchanged
    obtain ⟨-, -, target, htarget, hne⟩ := (hcommit (.replace "") (.call 2)).1.mp hunchanged
    cases htarget
    exact hne rfl

end Engine

end LiveDocs
