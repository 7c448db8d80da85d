import LiveDocs.Proofs.Document.Independence
import LiveDocs.Proofs.Document.Placement

/-!
# Versions of a document

The version of a document at a time is its content after all patches up to then. What a history was
at a time is a history of its own (`History.asOf`), and the version is the full content of that one,
whatever the snapshots say: a snapshot on a later patch is not seen, one on a patch up to the time
is taken even if it is wrong, and one that cannot be read fails both (`History.content_asOf`).

So the past is not changed by what comes later. Patches, snapshots and withdrawals behind a time
leave the history as of that time as it is, step by step and over every run (`Replica.asOf_advance`,
`Replica.asOf_advanceAll`).

## Main definitions

* `History.asOf`: the patches of a history up to a time, with their snapshots.
* `Replica.Step.After`: a step that only concerns what is behind a time.

## Main results

* `History.content_asOf`: the content up to a time.
* `Replica.version_of_past`: what a version depends on.
-/

namespace LiveDocs

variable {δ π : Type}

namespace History

/-! ## The history as of a time -/

/-- The patches of a history with times up to a time, with their snapshots. -/
def asOf (h : History π) (time : UInt64) : History π :=
  ⟨h.entries.filter fun id _ => id.time ≤ time⟩

theorem get?_asOf (h : History π) (time : UInt64) (id : PatchId) :
    (h.asOf time).get? id = if id.time ≤ time then h.get? id else none := by
  rw [get?, asOf, SortedMap.get?_filter]
  split
  · next hle => cases hget : h.entries.get? id <;> simp [get?, hget, hle]
  · next hlater => cases hget : h.entries.get? id <;> simp [hlater]

/-- Two histories are the same as of a time if they agree on all ids up to it. -/
theorem asOf_eq_iff {h h' : History π} {time : UInt64} :
    h.asOf time = h'.asOf time ↔ ∀ id : PatchId, id.time ≤ time → h.get? id = h'.get? id := by
  constructor
  · intro hsame id hle
    have hget := congrArg (·.get? id) hsame
    simpa only [get?_asOf, if_pos hle] using hget
  · intro hagree
    refine ext_get? fun id => ?_
    rw [get?_asOf, get?_asOf]
    split
    · next hle => exact hagree id hle
    · rfl

/-- The bound on ids that stands for a time lets all users of that time in, and no later time. -/
theorem upTo_asOf (h : History π) (time : UInt64) :
    (h.asOf time).upTo none = h.upTo (some (PatchId.lastAt time)) := by
  rw [upTo_eq_filter, upTo_eq_filter]
  simp only [within, PatchId.le_lastAt_iff, asOf, SortedMap.filter, List.filter_true]

/-- **The content up to a time** is the full content of the history as of that time. -/
theorem content_asOf (f : Format δ π) (h : History π) (time : UInt64) :
    h.content f (some time) = (h.asOf time).content f none := by
  rw [content_eq, content_eq, Option.map_some, Option.map_none, upTo_asOf]

/-- As of the time of the newest patch, a history is all of it. -/
theorem asOf_latest {h : History π} {latest : PatchId} (hlatest : h.latest? = some latest) :
    h.asOf latest.time = h := by
  refine ext_get? fun id => ?_
  rw [get?_asOf]
  split
  · rfl
  · next hlater =>
    refine (Option.eq_none_iff_forall_ne_some.mpr fun e he => hlater ?_).symm
    exact time_le_of_latest? hlatest (mem_ids.mpr ⟨e, he⟩)

/-! ## Changes behind a time -/

/-- A change of one entry is not seen as of an earlier time. -/
theorem asOf_of_frame {h h' : History π} {time : UInt64} {id : PatchId} (hid : time < id.time)
    (hframe : ∀ other, other ≠ id → h'.get? other = h.get? other) : h'.asOf time = h.asOf time := by
  refine asOf_eq_iff.mpr fun other hle => hframe other ?_
  rintro rfl
  exact UInt64.not_le.mpr hid hle

theorem asOf_insert (h : History π) {time : UInt64} {id : PatchId} (hid : time < id.time)
    (e : HistoryEntry π) : (h.insert id e).asOf time = h.asOf time :=
  asOf_of_frame hid fun other hne => by rw [get?_insert, if_neg hne]

theorem asOf_setSnapshot (h : History π) {time : UInt64} {id : PatchId} (hid : time < id.time)
    (text : String) : (h.setSnapshot id text).asOf time = h.asOf time :=
  asOf_of_frame hid fun other hne => by rw [get?_setSnapshot, if_neg hne]

theorem asOf_erase (h : History π) {time : UInt64} {id : PatchId} (hid : time < id.time) :
    (h.erase id).asOf time = h.asOf time :=
  asOf_of_frame hid fun other hne => by rw [get?_erase, if_neg hne]

end History

namespace Replica

theorem asOf_insertAll (h : History π) {time : UInt64} {batch : List (IncomingPatch π)}
    (hbatch : ∀ p ∈ batch, time < p.id.time) : (insertAll h batch).asOf time = h.asOf time := by
  unfold insertAll
  induction batch generalizing h with
  | nil => rfl
  | cons p rest ih =>
    obtain ⟨hp, hrest⟩ := List.forall_mem_cons.mp hbatch
    rw [List.foldl_cons, ih _ hrest, History.asOf_insert h hp]

/-- A new patch is not put before the time of the clock. -/
theorem clock_le_nextTime (r : Replica δ π) (clock : UInt64) : clock ≤ r.nextTime clock := by
  unfold nextTime
  split
  · exact UInt64.le_refl clock
  · next latest _ =>
    split
    · next hclock =>
      by_cases hlast : latest.time = 0xffffffffffffffff
      · rwa [timeAfter, if_pos hlast]
      · exact UInt64.le_trans hclock (UInt64.le_of_lt (lt_timeAfter hlast))
    · exact UInt64.le_refl clock

/-- A step that only concerns what is behind a time. -/
def Step.After (time : UInt64) : Step π → Prop
  | .ingest batch => ∀ p ∈ batch, time < p.id.time
  | .commit clock _ _ => time < clock
  | .snapshot id _ => time < id.time

/-- A step behind a time leaves the history as of that time. -/
theorem asOf_advance (f : Format δ π) (r : Replica δ π) {time : UInt64} {s : Step π}
    (hs : s.After time) : (r.advance f s).history.asOf time = r.history.asOf time := by
  cases s with
  | ingest batch =>
    rw [advance, ingest_history]
    exact asOf_insertAll r.history fun p hp => hs p (mem_sortById.mp hp)
  | commit clock user patch =>
    exact History.asOf_insert r.history (UInt64.lt_of_lt_of_le hs (r.clock_le_nextTime clock)) _
  | snapshot id text => exact History.asOf_setSnapshot r.history hs text

theorem asOf_advanceAll (f : Format δ π) (r : Replica δ π) {time : UInt64} {steps : List (Step π)}
    (hsteps : ∀ s ∈ steps, s.After time) :
    (steps.foldl (advance f) r).history.asOf time = r.history.asOf time := by
  induction steps generalizing r with
  | nil => rfl
  | cons s rest ih =>
    obtain ⟨hs, hrest⟩ := List.forall_mem_cons.mp hsteps
    rw [List.foldl_cons, ih _ hrest, asOf_advance f r hs]

/-- **A version depends on its past alone.** It is the full content of the history as of its time,
with the same error if a snapshot there cannot be read, for any snapshots. Replicas that agree up to
a time have the same version there; patches, snapshots and withdrawals behind it, and every run of
such steps, do not change it. The version at the time of the newest patch is the full content. -/
theorem version_of_past (f : Format δ π) (r : Replica δ π) (time : UInt64) :
    r.version f time = (r.history.asOf time).content f none ∧
    (∀ r' : Replica δ π,
      (∀ id : PatchId, id.time ≤ time → r'.history.get? id = r.history.get? id) →
        r'.version f time = r.version f time) ∧
    (∀ id : PatchId, time < id.time →
      (∀ e, (r.history.insert id e).content f (some time) = r.version f time) ∧
      (∀ text, (r.recordSnapshot id text).version f time = r.version f time) ∧
      (r.withdraw f id).1.version f time = r.version f time) ∧
    (∀ steps : List (Step π), (∀ s ∈ steps, s.After time) →
      (steps.foldl (advance f) r).version f time = r.version f time) ∧
    ∀ newest, r.history.latest? = some newest →
      r.version f newest.time = r.history.content f none := by
  have hview : ∀ h : History π, h.asOf time = r.history.asOf time →
      h.content f (some time) = r.version f time := by
    intro h hsame
    rw [version, History.content_asOf, History.content_asOf, hsame]
  refine ⟨History.content_asOf f r.history time, fun r' hagree => ?_, fun id hid => ⟨fun e => ?_,
    fun text => ?_, ?_⟩, fun steps hsteps => ?_, fun newest hnewest => ?_⟩
  · exact hview _ (History.asOf_eq_iff.mpr hagree)
  · exact hview _ (History.asOf_insert r.history hid e)
  · exact hview _ (History.asOf_setSnapshot r.history hid text)
  · refine hview _ ?_
    rw [history_withdraw, History.asOf_erase r.history hid]
  · exact hview _ (asOf_advanceAll f r hsteps)
  · rw [version, History.content_asOf, History.asOf_latest hnewest]

/-- Three patches of one time with a wrong snapshot on the second, and a later one with a
snapshot. -/
def misnotedText : Replica (List Char) TextPatch :=
  run .text [.ingest [⟨⟨5, 1⟩, [⟨0, [], ['A']⟩], none⟩, ⟨⟨5, 2⟩, [⟨0, [], ['B']⟩], some "?"⟩,
    ⟨⟨5, 3⟩, [⟨0, [], ['C']⟩], none⟩, ⟨⟨9, 0⟩, [⟨0, [], ['D']⟩], some "!"⟩]]

/-- A patch with a snapshot that cannot be read, and a later one without. -/
def unreadableRecords : Replica RecordSet RecordPatch :=
  run (.records ["id"]) [.ingest [⟨⟨5, 1⟩, [.set (sampleRecord 1)], some "["⟩,
    ⟨⟨9, 0⟩, [.set (sampleRecord 2)], none⟩]]

/-- Later steps that would change the content. -/
def laterSteps : List (Step TextPatch) :=
  [.ingest [⟨⟨7, 1⟩, [⟨0, [], ['E']⟩], some "earlier"⟩], .snapshot ⟨7, 1⟩ "again",
    .commit 6 4 [⟨0, [], ['F']⟩]]

theorem version_of_misnotedText :
    (misnotedText.version .text 5 = .ok ['C', '?'] ∧
      (laterSteps.foldl (advance .text) misnotedText).version .text 5 =
        misnotedText.version .text 5 ∧
      misnotedText.version .text 9 = .ok ['!']) ∧
    ((unreadableRecords.version (.records ["id"]) 5).isOk = false ∧
      (unreadableRecords.recordSnapshot ⟨9, 0⟩ "").version (.records ["id"]) 5 =
        unreadableRecords.version (.records ["id"]) 5 ∧
      ((unreadableRecords.recordSnapshot ⟨9, 0⟩ "").history.content (.records ["id"]) none).isOk =
        true) := by
  have hsteps : ∀ s ∈ laterSteps, s.After 5 := by
    simp [laterSteps, Step.After]
  obtain ⟨hpast, -, -, hrun, hnewest⟩ := version_of_past .text misnotedText 5
  refine ⟨⟨?_, hrun laterSteps hsteps, ?_⟩, by decide +kernel, ?_, by decide +kernel⟩
  · rw [hpast]
    decide +kernel
  · rw [hnewest ⟨9, 0⟩ (by decide +kernel)]
    decide +kernel
  · exact ((version_of_past _ unreadableRecords 5).2.2.1 ⟨9, 0⟩ (by decide)).2.1 ""

end Replica

end LiveDocs
