import LiveDocs.Proofs.Document.Withdrawal
import LiveDocs.Proofs.RecordSet.Diff
import LiveDocs.Proofs.Text.Unchanged

/-!
# The contents of documents

However the content of a document has come about, it was made of the empty document or of a text
that was read, and of patches. Patches that come in late and withdrawals make it again from a
snapshot, which is a text like any other. So a property that the empty document and all texts have
and that patches keep (`Format.Invariant`) is a property of every content
(`Document.Reachable.proper`).

For record sets the property is that a set can be made with the key fields of its document. This is
what the patch from one set to another needs to make the other one (`Kind.eqv_apply_diff`). The
patch from one text to another may miss it, but it is never mistaken for a patch without effect.

## Main definitions

* `Format.Invariant`: a property that all contents have.
* `Kind.Proper`: the contents that documents of a kind have.

## Main results

* `Document.Reachable.proper`: the content of a document is proper.
* `Kind.eqv_apply_diff_iff`, `Kind.eqv_of_isNoop_diff`: what the patch between two contents does.
-/

namespace LiveDocs

variable {δ π : Type}

/-! ## Properties of all contents -/

namespace Format

/-- A property that the empty document has and every text that is read, and that patches keep. -/
structure Invariant (f : Format δ π) (P : δ → Prop) : Prop where
  empty : P f.empty
  parse : ∀ {text : String} {doc : δ}, f.parse text = .ok doc → P doc
  apply : ∀ {doc : δ}, P doc → ∀ patch, P (f.apply doc patch)

namespace Invariant

variable {f : Format δ π} {P : δ → Prop}

theorem fold (h : f.Invariant P) {base : δ} (hbase : P base) (patches : List π) :
    P (f.fold base patches) := by
  induction patches generalizing base with
  | nil => exact hbase
  | cons patch patches ih => exact ih (h.apply hbase patch)

/-- A content that is made from a history begins with the empty document or with a snapshot. -/
theorem content (h : f.Invariant P) {history : History π} {upTo? : Option UInt64} {doc : δ}
    (hdoc : history.content f upTo? = .ok doc) : P doc := by
  unfold History.content at hdoc
  simp only at hdoc
  split at hdoc
  · split at hdoc
    · cases hdoc
    · next base hparse =>
      cases hdoc
      exact h.fold (h.parse hparse) _
  · cases hdoc
    exact h.fold h.empty _

theorem ingest (h : f.Invariant P) {r : Replica δ π} (hr : P r.live)
    (batch : List (IncomingPatch π)) : P (r.ingest f batch).1.live := by
  have hafter : ∀ {history news live}, r.contentAfter f history news = .ok live → P live := by
    intro history news live hlive
    unfold Replica.contentAfter at hlive
    split at hlive
    · cases hlive
      exact h.fold hr _
    · exact h.content hlive
  simp only [Replica.ingest]
  split
  · exact hr
  · split
    · exact hr
    · next live hlive =>
      split
      · exact hr
      · exact hafter hlive

theorem withdraw (h : f.Invariant P) {r : Replica δ π} (hr : P r.live) (id : PatchId) :
    P (r.withdraw f id).1.live := by
  simp only [Replica.withdraw]
  split
  · next live hlive => exact h.content hlive
  · exact hr

end Invariant

end Format

/-! ## Proper contents -/

namespace Kind

/-- The contents that documents of a kind have: all texts, and the record sets that can be made with
the key fields of the document. -/
def Proper (primaryKeys : List String) : (kind : Kind) → kind.Content → Prop
  | text, _ => True
  | records, set => RecordSet.Reachable primaryKeys set

theorem invariant_proper (primaryKeys : List String) (kind : Kind) :
    (kind.format primaryKeys).Invariant (kind.Proper primaryKeys) := by
  cases kind with
  | text => exact ⟨trivial, fun _ => trivial, fun _ _ => trivial⟩
  | records => exact ⟨.empty, .parse, .apply⟩

variable {primaryKeys : List String} {kind : Kind} {a b : kind.Content}

/-- The patch from one record set to another makes the other. -/
theorem eqv_apply_diff (hkind : kind = .records) (ha : kind.Proper primaryKeys a)
    (hb : kind.Proper primaryKeys b) : (kind.format primaryKeys).eqv
      ((kind.format primaryKeys).apply a ((kind.format primaryKeys).diff a b)) b = true := by
  subst hkind
  obtain ⟨htidy, hkeys⟩ := RecordSet.Reachable.tidy ha
  obtain ⟨htidy', hkeys'⟩ := RecordSet.Reachable.tidy hb
  exact RecordSet.beq_iff.mpr
    (RecordSet.unsigned_apply_diff htidy htidy' (hkeys.trans hkeys'.symm))

/-- The patch between two contents makes the other one if it is a record set, and otherwise only if
it happens to. -/
theorem eqv_apply_diff_iff (ha : kind.Proper primaryKeys a) (hb : kind.Proper primaryKeys b) :
    (kind.format primaryKeys).eqv
        ((kind.format primaryKeys).apply a ((kind.format primaryKeys).diff a b)) b = true ↔
      kind = .records ∨
        (kind.format primaryKeys).apply a ((kind.format primaryKeys).diff a b) = b := by
  constructor
  · intro hmade
    cases kind with
    | text => exact .inr (eq_of_eqv_text rfl hmade)
    | records => exact .inl rfl
  · rintro (hkind | hmade)
    · exact eqv_apply_diff hkind ha hb
    · rw [hmade]
      exact (kind.lawful_format primaryKeys).refl b

/-- If the patch from one content to another has no effect, the two are equal. -/
theorem eqv_of_isNoop_diff (ha : kind.Proper primaryKeys a) (hb : kind.Proper primaryKeys b)
    (hnoop : (kind.format primaryKeys).isNoop ((kind.format primaryKeys).diff a b) = true) :
    (kind.format primaryKeys).eqv a b = true := by
  cases kind with
  | text =>
    have hsame : a = b := TextPatch.diff_eq_nil_iff.mp (List.isEmpty_iff.mp hnoop)
    rw [hsame]
    exact Format.lawful_text.refl b
  | records =>
    have hnil : RecordSet.diff a b = [] := RecordSet.isNoop_iff.mp hnoop
    have hmade : (RecordSet.apply a (RecordSet.diff a b) == b) = true := eqv_apply_diff rfl ha hb
    rwa [hnil] at hmade

end Kind

/-- The content of a document is proper. -/
theorem Document.Reachable.proper {d : Document} (h : d.Reachable) :
    d.kind.Proper d.primaryKeys d.replica.live := by
  induction h with
  | new kind o stringId client strings patches => exact (kind.invariant_proper o.primaryKeys).empty
  | @ingest d _ rows keys ih =>
    obtain ⟨state, failure, events, heq⟩ := d.ingestRows_eq rows keys
    rw [heq]
    exact (d.kind.invariant_proper d.primaryKeys).ingest ih _
  | @commit d d' p _ clock edit hcommit ih =>
    obtain ⟨user, patch, -, rfl⟩ := beginCommit_eq_some hcommit
    exact (d.kind.invariant_proper d.primaryKeys).apply ih patch
  | @withdraw d _ id ih =>
    obtain ⟨state, failure, events, heq⟩ := d.withdraw_eq id
    rw [heq]
    exact (d.kind.invariant_proper d.primaryKeys).withdraw ih id
  | snapshot _ _ _ ih => exact ih
  | live _ _ _ _ _ _ _ _ ih => exact ih

end LiveDocs
