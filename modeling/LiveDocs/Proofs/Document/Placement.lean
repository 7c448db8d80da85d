import LiveDocs.Proofs.Document.Withdrawal

/-!
# The place of a local patch

A replica puts a patch of its own at the time of its clock, or just after the newest patch if the
clock is behind. There is no time after the last one, so a patch that another user has put there
stays level with every later patch, and users decide the order (`Replica.time_lt_nextTime_or`).

The id of a new patch is greater than a known one, equal to it or less than it
(`Replica.lt_nextId_iff`, `Replica.eq_nextId_iff`, `Replica.nextId_lt_iff`). It is greater than all
of them exactly if no user at or behind the own one has a patch at the last time; then the patch
goes to the end of the history, and a withdrawal takes out that patch and no other. An id that is
known gets no new patch: the content changes and the history does not, and a withdrawal takes out
the patch that was there (`Replica.nextId_newest_iff`).

## Main results

* `Replica.time_lt_nextTime_or`: the time of a new patch against a known time.
* `Replica.nextId_newest_iff`: when a new patch is the newest one, and what comes of it.
-/

namespace LiveDocs

variable {δ π : Type}

namespace History

/-- No patch stands behind the newest one. -/
theorem le_of_latest? {h : History π} {latest id : PatchId} (hlatest : h.latest? = some latest)
    (hid : id ∈ h.ids) : id ≤ latest := by
  obtain ⟨e, he, rfl⟩ := Option.map_eq_some_iff.mp hlatest
  obtain ⟨front, hfront⟩ := List.getLast?_eq_some_iff.mp he
  have hsorted := h.entries.sorted
  rw [hfront] at hsorted
  have hbefore := (List.pairwise_append.mp hsorted).2.2
  rw [ids, SortedMap.keys, hfront, List.map_append] at hid
  rw [PatchId.le_iff]
  rcases List.mem_append.mp hid with hid | hid
  · obtain ⟨e', he', rfl⟩ := List.mem_map.mp hid
    intro hlt
    exact OrderedKey.irrefl e.1 (OrderedKey.trans hlt (hbefore e' he' e List.mem_cons_self))
  · rw [List.map_singleton, List.mem_singleton] at hid
    rw [hid]
    exact OrderedKey.irrefl e.1

theorem time_le_of_latest? {h : History π} {latest id : PatchId} (hlatest : h.latest? = some latest)
    (hid : id ∈ h.ids) : id.time ≤ latest.time := by
  have hnot := PatchId.le_iff.mp (le_of_latest? hlatest hid)
  exact UInt64.not_lt.mp fun hlt => hnot (PatchId.lt_iff.mpr (.inl hlt))

theorem ids_eq_nil_of_latest? {h : History π} (hlatest : h.latest? = none) : h.ids = [] := by
  rw [latest?, Option.map_eq_none_iff, SortedMap.last?, List.getLast?_eq_none_iff] at hlatest
  rw [ids, SortedMap.keys, hlatest, List.map_nil]

theorem mem_ids {h : History π} {id : PatchId} : id ∈ h.ids ↔ ∃ e, h.get? id = some e := by
  rw [ids, SortedMap.mem_keys_iff, SortedMap.contains, Option.isSome_iff_exists, get?]

/-- An id that is greater than all others is not known yet. -/
theorem get?_of_newest {h : History π} {id : PatchId} (hid : ∀ known ∈ h.ids, known < id) :
    h.get? id = none :=
  Option.eq_none_iff_forall_ne_some.mpr fun e he =>
    OrderedKey.irrefl id (hid id (mem_ids.mpr ⟨e, he⟩))

/-- A patch without a snapshot changes nothing where a patch is known. -/
theorem insert_of_get? {h : History π} {id : PatchId} {old : HistoryEntry π}
    (hold : h.get? id = some old) (patch : π) : h.insert id ⟨patch, none⟩ = h := by
  simp only [insert, hold]
  cases old.snapshot <;> rfl

/-- A patch that is newer than all others goes to the end. -/
theorem entries_insert_of_newest {h : History π} {id : PatchId} (hid : ∀ known ∈ h.ids, known < id)
    (e : HistoryEntry π) : (h.insert id e).entries.entries = h.entries.entries ++ [(id, e)] := by
  unfold insert
  rw [get?_of_newest hid]
  exact SortedMap.entries_insert_of_lt h.entries e fun p hp => hid p.1 (List.mem_map_of_mem hp)

end History

namespace Replica

variable {r : Replica δ π} {known : PatchId}

/-! ## Times -/

/-- Every time but the last one has a later one after it. -/
theorem lt_timeAfter {time : UInt64} (h : time ≠ 0xffffffffffffffff) : time < timeAfter time := by
  rw [timeAfter, if_neg h, UInt64.lt_iff_toNat_lt, UInt64.toNat_add, UInt64.toNat_one]
  have hlast : time.toNat ≠ 0xffffffffffffffff := fun hval => h (UInt64.toNat_inj.mp hval)
  have hlt := time.toNat_lt
  omega

/-- **The time of a new patch** is later than that of a known one, or both are the last time. -/
theorem time_lt_nextTime_or (hknown : known ∈ r.history.ids) (clock : UInt64) :
    known.time < r.nextTime clock ∨
      known.time = 0xffffffffffffffff ∧ r.nextTime clock = 0xffffffffffffffff := by
  cases hlatest : r.history.latest? with
  | none =>
    rw [History.ids_eq_nil_of_latest? hlatest] at hknown
    cases hknown
  | some latest =>
    have hle := History.time_le_of_latest? hlatest hknown
    simp only [nextTime, hlatest]
    split
    · by_cases hlast : latest.time = 0xffffffffffffffff
      · -- There is no time after the newest patch, and an earlier one is before that.
        rw [timeAfter, if_pos hlast, hlast]
        rw [hlast] at hle
        rcases UInt64.lt_or_eq_of_le hle with hlt | heq
        · exact .inl hlt
        · exact .inr ⟨heq, rfl⟩
      · exact .inl (UInt64.lt_of_le_of_lt hle (lt_timeAfter hlast))
    · next hclock => exact .inl (UInt64.lt_of_le_of_lt hle (UInt64.not_le.mp hclock))

theorem not_last_lt (time : UInt64) : ¬ (0xffffffffffffffff : UInt64) < time := by
  have hlt := time.toNat_lt
  rw [UInt64.lt_iff_toNat_lt,
    show (0xffffffffffffffff : UInt64).toNat = 0xffffffffffffffff from rfl]
  omega

/-! ## The id of a new patch and a known one -/

theorem lt_nextId_iff (hknown : known ∈ r.history.ids) (clock : UInt64) (user : UInt32) :
    known < r.nextId clock user ↔ (known.time = 0xffffffffffffffff → known.user < user) := by
  rw [PatchId.lt_iff, nextId]
  rcases time_lt_nextTime_or hknown clock with hlt | ⟨hlast, hnext⟩
  · refine ⟨fun _ hlast => ?_, fun _ => .inl hlt⟩
    rw [hlast] at hlt
    exact absurd hlt (not_last_lt _)
  · simp [hlast, hnext]

theorem eq_nextId_iff (hknown : known ∈ r.history.ids) (clock : UInt64) (user : UInt32) :
    known = r.nextId clock user ↔ known = ⟨0xffffffffffffffff, user⟩ := by
  rw [nextId]
  rcases time_lt_nextTime_or hknown clock with hlt | ⟨-, hnext⟩
  · constructor
    · rintro rfl
      exact absurd hlt (UInt64.lt_irrefl _)
    · rintro rfl
      exact absurd hlt (not_last_lt _)
  · rw [hnext]

theorem nextId_lt_iff (hknown : known ∈ r.history.ids) (clock : UInt64) (user : UInt32) :
    r.nextId clock user < known ↔ known.time = 0xffffffffffffffff ∧ user < known.user := by
  rw [PatchId.lt_iff, nextId]
  rcases time_lt_nextTime_or hknown clock with hlt | ⟨hlast, hnext⟩
  · constructor
    · rintro (hgt | ⟨heq, -⟩)
      · exact absurd (UInt64.lt_trans hlt hgt) (UInt64.lt_irrefl _)
      · rw [← heq] at hlt
        exact absurd hlt (UInt64.lt_irrefl _)
    · rintro ⟨hlast, -⟩
      rw [hlast] at hlt
      exact absurd hlt (not_last_lt _)
  · simp [hlast, hnext]

/-! ## The new patch -/

/-- **When a new patch is the newest one**, and what comes of it. Its id is greater than all known
ones exactly if every patch at the last time is one of a user before the own one. Then the patch is
added at the end of the history, and if it is withdrawn, after any batches without its id, the
history is that of the batches alone. The id is less than those of greater users at the last time,
and it is a known one exactly if its user has a patch there. In this case the history stays without
the new patch, and a withdrawal takes out the known one. -/
theorem nextId_newest_iff (f : Format δ π) (r : Replica δ π) (clock : UInt64) (user : UInt32)
    (patch : π) :
    ((∀ known ∈ r.history.ids, known < r.nextId clock user) ↔
      ∀ known ∈ r.history.ids, known.time = 0xffffffffffffffff → known.user < user) ∧
    ((∀ known ∈ r.history.ids, known < r.nextId clock user) →
      (r.advance f (.commit clock user patch)).history.entries.entries =
        r.history.entries.entries ++ [(r.nextId clock user, ⟨patch, none⟩)] ∧
      ∀ batches : List (List (IncomingPatch π)),
        (∀ batch ∈ batches, ∀ p ∈ batch, p.id ≠ r.nextId clock user) →
        (((r.advance f (.commit clock user patch)).ingestAll f batches).withdraw f
          (r.nextId clock user)).1.history = (r.ingestAll f batches).history) ∧
    (∀ known ∈ r.history.ids, r.nextId clock user < known ↔
      known.time = 0xffffffffffffffff ∧ user < known.user) ∧
    (r.nextId clock user ∈ r.history.ids ↔ ⟨0xffffffffffffffff, user⟩ ∈ r.history.ids) ∧
    (r.nextId clock user ∈ r.history.ids →
      (r.advance f (.commit clock user patch)).history = r.history ∧
      ((r.advance f (.commit clock user patch)).withdraw f (r.nextId clock user)).1.history =
        r.history.erase (r.nextId clock user)) := by
  refine ⟨?_, fun hnewest => ⟨?_, fun batches hother => ?_⟩, fun known hknown => ?_, ?_,
    fun hid => ?_⟩
  · exact forall₂_congr fun known hknown => lt_nextId_iff hknown clock user
  · exact History.entries_insert_of_newest hnewest ⟨patch, none⟩
  · have hnone := History.get?_of_newest hnewest
    rw [history_withdraw]
    exact erase_history_ingestAll f (History.erase_insert_self hnone ⟨patch, none⟩) hother
  · exact nextId_lt_iff hknown clock user
  · refine ⟨fun hid => ?_, fun hid => ?_⟩
    · rwa [← (eq_nextId_iff hid clock user).mp rfl]
    · rwa [← (eq_nextId_iff hid clock user).mpr rfl]
  · obtain ⟨old, hold⟩ := History.mem_ids.mp hid
    have hsame : (r.advance f (.commit clock user patch)).history = r.history :=
      History.insert_of_get? hold patch
    refine ⟨hsame, ?_⟩
    rw [history_withdraw, hsame]

/-- A text with one patch, of user 7 at the last time. -/
def lastTimeText : Replica (List Char) TextPatch :=
  run .text [.ingest [⟨⟨0xffffffffffffffff, 7⟩, [⟨0, [], ['A']⟩], none⟩]]

/-- A patch of user 3 comes before the one that is known. One of user 7 has the same id: it is not
added, and its withdrawal leaves nothing. Only users behind are not affected. -/
theorem nextId_lastTimeText :
    lastTimeText.nextId 1000 3 < ⟨0xffffffffffffffff, 7⟩ ∧
      (lastTimeText.nextId 1000 7 ∈ lastTimeText.history.ids ∧
        (lastTimeText.advance .text (.commit 1000 7 [⟨0, [], ['B']⟩])).history =
          lastTimeText.history ∧
        ((lastTimeText.advance .text (.commit 1000 7 [⟨0, [], ['B']⟩])).withdraw .text
          (lastTimeText.nextId 1000 7)).1.history.ids = []) ∧
      (lastTimeText.advance .text (.commit 1000 9 [⟨0, [], ['B']⟩])).history.ids =
        [⟨0xffffffffffffffff, 7⟩, ⟨0xffffffffffffffff, 9⟩] := by
  have hids : lastTimeText.history.ids = [⟨0xffffffffffffffff, 7⟩] := by decide +kernel
  have hbefore := (nextId_newest_iff .text lastTimeText 1000 3 [⟨0, [], ['B']⟩]).2.2.1
    ⟨0xffffffffffffffff, 7⟩ (by simp [hids])
  obtain ⟨-, -, -, hmem, hsame⟩ := nextId_newest_iff .text lastTimeText 1000 7 [⟨0, [], ['B']⟩]
  have hknown : lastTimeText.nextId 1000 7 ∈ lastTimeText.history.ids := hmem.mpr (by simp [hids])
  obtain ⟨hcommitted, hwithdrawn⟩ := hsame hknown
  obtain ⟨hfresh, hadded, -⟩ := nextId_newest_iff .text lastTimeText 1000 9 [⟨0, [], ['B']⟩]
  have hnewest := hfresh.mpr (by simp [hids])
  refine ⟨hbefore.mpr (by decide), ⟨hknown, hcommitted, ?_⟩, ?_⟩
  · rw [hwithdrawn]
    decide +kernel
  · rw [History.ids, SortedMap.keys, (hadded hnewest).1, List.map_append]
    exact congrArg (· ++ [(⟨0xffffffffffffffff, 9⟩ : PatchId)]) hids

end Replica

end LiveDocs
