import LiveDocs.Proofs.Table.Frames
import Mathlib.Data.List.Induction
import Mathlib.Data.List.Nodup

/-!
# Local writes that fail

A local write changes its row at once. If it fails, the row it has found is put back, provided the
row still is the one that the write made. Several writes to a row lie over one another like layers,
each over the row that it has found; a write that fails takes off the top layer if that is its own,
and leaves all layers as they are if it is not. Nobody takes off a layer whose write has failed
below another one: the row that the failed write made comes back when the layers above it are gone.

So the rows are as before if of the writes to each row the last one fails first, and, if the rows
that the writes make differ from each other and from those before, only then
(`Table.Writing.rows_restored_iff_lastFirst`). Writes to different rows do not matter to one
another.

## Main definitions

* `Table.Writing`, `Table.WriteStep`, `Table.Writing.run`: a table with local writes under way, what
  happens to them, and what becomes of the table.
* `Table.Writing.LastFirst`: of the writes to each row the last one returns first.
* `Table.Writing.Apart`: the rows that writes make are different.
* `Table.Layered`: the writes that lie over a row.
-/

namespace LiveDocs

namespace Table

/-! ## Single operations -/

/-- A write that was begun: it has the next number, it has found one row and made another, and no
other row has changed. A row that would stay equal has stayed the same. -/
structure Begun (t : Table) (w : LocalWrite) (t' : Table) : Prop where
  number : w.number = t.nextWrite
  nextWrite : t'.nextWrite = t.nextWrite + 1
  state : t'.state = t.state
  previous : w.previous = t.rows.get? w.key
  optimistic : w.optimistic = t'.rows.get? w.key
  others : ∀ key, key ≠ w.key → t'.rows.get? key = t.rows.get? key
  equal : sameRow w.optimistic w.previous = true → w.optimistic = w.previous

theorem beginWrite_eq_ok {t t' : Table} {record : Record} {notices : List TableNotice}
    {w : LocalWrite} (h : t.beginWrite record = .ok (t', notices, w)) : Begun t w t' := by
  unfold beginWrite at h
  split at h
  · cases h
  · cases h
  · cases h
  · split at h
    · cases h
    · next key _ =>
      obtain ⟨row, hrow⟩ := t.mergeRow_eq key record
      simp only [hrow] at h
      cases h
      have hframe := t.alters_announce_replaceRow key row
      have hnext := hframe.nextWrite (by decide)
      refine ⟨hnext, congrArg (· + 1) hnext, hframe.state (by decide), rfl, by simp, fun k hk => ?_,
        fun hsame => ?_⟩
      · have hne : k ≠ key := hk
        simp [get?_rows_replaceRow, hne]
      · simp only [rows_announce, get?_rows_replaceRow, true_and] at hsame ⊢
        split at hsame
        · next hdiffers =>
          -- The row was replaced, so it is not equal to the one before.
          rw [sameRow_iff] at hsame
          rw [sameRow_iff.mpr hsame.symm] at hdiffers
          cases hdiffers
        · next hstays => rw [if_neg hstays]

/-- A failed write leaves all rows but its own. -/
theorem get?_rollback_of_ne (t : Table) {w : LocalWrite} {key : String} (hkey : key ≠ w.key) :
    (t.rollback w).1.rows.get? key = t.rows.get? key := by
  unfold rollback
  split
  · rfl
  · split
    · simp [get?_rows_replaceRow, hkey]
    · rfl

/-- A failed write puts back the row it has found if its own row is still there. -/
theorem get?_rollback {t : Table} (hopen : t.state ≠ .closed) {w : LocalWrite}
    (hequal : sameRow w.optimistic w.previous = true → w.optimistic = w.previous)
    (hown : sameRow (t.rows.get? w.key) w.optimistic = true → t.rows.get? w.key = w.optimistic) :
    (t.rollback w).1.rows.get? w.key =
      if sameRow (t.rows.get? w.key) w.optimistic = true then w.previous
      else t.rows.get? w.key := by
  unfold rollback
  rw [if_neg hopen]
  cases hshown : sameRow (t.rows.get? w.key) w.optimistic with
  | false => simp
  | true =>
    have hrow := hown hshown
    simp only [if_true, rows_announce, get?_rows_replaceRow, hrow, true_and]
    cases hsame : sameRow w.optimistic w.previous with
    | true => simp [hequal hsame]
    | false => simp

/-! ## Writes under way -/

/-- A call that has returned: its write, what it has returned, and the writes whose calls went on
waiting. -/
structure ReturnedWrite where
  write : LocalWrite
  outcome : Except TableError Unit
  waiting : List LocalWrite

/-- A table with local writes under way. -/
structure Writing where
  table : Table
  /-- The writes whose calls have not returned, in the order they were started. -/
  pending : List LocalWrite
  /-- The calls that have returned, the last one first. -/
  returned : List ReturnedWrite

/-- What happens to the local writes of a table. -/
inductive WriteStep where
  /-- A write is started, plain or conditional; the condition is left to the data layer. -/
  | start (record : Record)
  /-- The answer to a write comes in, or the sender of the answer is lost. -/
  | answer (number : Nat) (reply : Option Reply)
  /-- The table loses its feed. -/
  | loseFeed (feed : FeedId)
  /-- The call of a write goes on, perhaps because its limit has passed. -/
  | resume (number : Nat) (passed : Option Nat)

namespace Writing

/-- The call of a write returns. -/
def finish (s : Writing) (w : LocalWrite) (outcome : Except TableError Unit) (table : Table) :
    Writing :=
  let waiting := s.pending.filter (·.number != w.number)
  ⟨table, waiting, ⟨w, outcome, waiting⟩ :: s.returned⟩

/-- The table and the writes after a step. A write that cannot be started, and a call that has
returned already, change nothing. -/
def step (s : Writing) : WriteStep → Writing
  | .start record =>
    match s.table.beginWrite record with
    | .ok (table, _, w) => { s with table, pending := s.pending ++ [w] }
    | .error _ => s
  | .answer number reply => { s with table := (s.table.settle number (writeOutcome reply)).1 }
  | .loseFeed feed => { s with table := (s.table.feedClosed feed).1 }
  | .resume number passed =>
    match s.pending.find? (·.number == number) with
    | none => s
    | some w =>
      match s.table.resumeWrite w passed with
      | none => s
      | some (outcome, table, _) => s.finish w outcome table

/-- A table after some steps, with no writes under way at the beginning. -/
def run (t : Table) (steps : List WriteStep) : Writing := steps.foldl step ⟨t, [], []⟩

/-- All writes, whether their calls have returned or not. -/
def writes (s : Writing) : List LocalWrite := s.pending ++ s.returned.map (·.write)

/-- The writes to a row whose calls have not returned. -/
def pendingAt (s : Writing) (key : String) : List LocalWrite := s.pending.filter (·.key == key)

/-- Of the writes to a row the last one returns first: a call returns only when no later write to
the row is under way. -/
def LastFirstAt (s : Writing) (key : String) : Prop :=
  ∀ r ∈ s.returned, r.write.key = key → ∀ w ∈ r.waiting, w.key = key → w.number < r.write.number

/-- Of the writes to each row the last one returns first. -/
def LastFirst (s : Writing) : Prop := ∀ key, s.LastFirstAt key

/-- The rows that writes make differ from those before and from one another. -/
def Apart (s : Writing) (rows : Rows) : Prop :=
  ∀ w ∈ s.writes, sameRow w.optimistic (rows.get? w.key) = false ∧
    ∀ w' ∈ s.writes, w'.key = w.key → w'.number ≠ w.number →
      sameRow w'.optimistic w.optimistic = false

instance (s : Writing) (rows : Rows) : Decidable (s.Apart rows) :=
  inferInstanceAs (Decidable (∀ w ∈ s.writes, sameRow w.optimistic (rows.get? w.key) = false ∧
    ∀ w' ∈ s.writes, w'.key = w.key → w'.number ≠ w.number →
      sameRow w'.optimistic w.optimistic = false))

theorem run_concat (t : Table) (steps : List WriteStep) (x : WriteStep) :
    run t (steps ++ [x]) = (run t steps).step x := by
  simp [run]

/-- A step leaves the rows alone, begins a write, or ends a call. -/
theorem step_cases (s : Writing) (x : WriteStep) :
    (∃ t, Alters [.writes, .connection] s.table t ∧ s.step x = { s with table := t }) ∨
    (∃ w t, Begun s.table w t ∧ s.step x = { s with table := t, pending := s.pending ++ [w] }) ∨
    ∃ w outcome t₁ t, w ∈ s.pending ∧ Alters [.writes] s.table t₁ ∧
      ((outcome = .ok () ∧ t = t₁) ∨ (outcome.isOk = false ∧ t = (t₁.rollback w).1)) ∧
      s.step x = s.finish w outcome t := by
  have hnothing := Alters.refl [.writes, .connection] s.table
  cases x with
  | start record =>
    simp only [step]
    split
    · next t notices w hbegin => exact .inr (.inl ⟨w, t, beginWrite_eq_ok hbegin, rfl⟩)
    · exact .inl ⟨s.table, hnothing, rfl⟩
  | answer number reply => exact .inl ⟨_, (s.table.alters_settle _ _).mono (by simp), rfl⟩
  | loseFeed feed => exact .inl ⟨_, s.table.alters_feedClosed feed, rfl⟩
  | resume number passed =>
    simp only [step]
    split
    · exact .inl ⟨s.table, hnothing, rfl⟩
    · next w hfind =>
      split
      · exact .inl ⟨s.table, hnothing, rfl⟩
      · next outcome t notices hresume =>
        obtain ⟨t₁, hwrites, -, -, hback⟩ := resumeWrite_cases hresume
        exact .inr (.inr ⟨w, outcome, t₁, t, List.mem_of_find?_eq_some hfind, hwrites, hback, rfl⟩)

/-! ## Numbers of writes -/

theorem eq_of_number_eq {l : List LocalWrite} (hl : l.Pairwise fun a b => a.number < b.number)
    {w w' : LocalWrite} (hw : w ∈ l) (hw' : w' ∈ l) (h : w.number = w'.number) : w = w' := by
  have hnodup : (l.map LocalWrite.number).Nodup :=
    (List.pairwise_map.mpr hl).imp fun hlt => Nat.ne_of_lt hlt
  exact List.inj_on_of_nodup_map hnodup hw hw' h

theorem increasing_concat {l : List LocalWrite} (hl : l.Pairwise fun a b => a.number < b.number)
    {w : LocalWrite} (hw : ∀ x ∈ l, x.number < w.number) :
    (l ++ [w]).Pairwise fun a b => a.number < b.number := by
  refine List.pairwise_append.mpr ⟨hl, List.pairwise_singleton _ _, ?_⟩
  intro x hx y hy
  rw [List.mem_singleton.mp hy]
  exact hw x hx

/-- The table is open, and its writes are numbered in the order they were started. -/
structure Sound (s : Writing) : Prop where
  isOpen : s.table.state ≠ .closed
  increasing : s.pending.Pairwise fun a b => a.number < b.number
  below : ∀ w ∈ s.writes, w.number < s.table.nextWrite
  equal : ∀ w ∈ s.pending, sameRow w.optimistic w.previous = true → w.optimistic = w.previous

theorem mem_writes_start {s : Writing} {w x : LocalWrite} {t : Table} :
    x ∈ ({ s with table := t, pending := s.pending ++ [w] } : Writing).writes ↔
      x ∈ s.writes ∨ x = w := by
  simp only [writes, List.mem_append, List.mem_singleton]
  tauto

theorem mem_writes_finish {s : Writing} (hs : s.Sound) {w x : LocalWrite} (hw : w ∈ s.pending)
    {outcome : Except TableError Unit} {t : Table} :
    x ∈ (s.finish w outcome t).writes ↔ x ∈ s.writes := by
  simp only [writes, finish, List.map_cons, List.mem_append, List.mem_cons, List.mem_filter,
    bne_iff_ne, ne_eq]
  constructor
  · rintro (⟨hx, -⟩ | rfl | hx)
    · exact .inl hx
    · exact .inl hw
    · exact .inr hx
  · rintro (hx | hx)
    · by_cases hnumber : x.number = w.number
      · exact .inr (.inl (eq_of_number_eq hs.increasing hx hw hnumber))
      · exact .inl ⟨hx, hnumber⟩
    · exact .inr (.inr hx)

theorem Sound.step {s : Writing} (hs : s.Sound) (x : WriteStep) : (s.step x).Sound := by
  rcases s.step_cases x with ⟨t, hsame, heq⟩ | ⟨w, t, hbegun, heq⟩ |
    ⟨w, outcome, t₁, t, hw, hsame, hcases, heq⟩
  · rw [heq]
    have hnext := hsame.nextWrite (by decide)
    exact ⟨mt hsame.closed.mp hs.isOpen, hs.increasing, fun w hw => hnext ▸ hs.below w hw, hs.equal⟩
  · rw [heq]
    have hbelow : ∀ x ∈ s.writes, x.number < w.number := by
      intro x hx
      rw [hbegun.number]
      exact hs.below x hx
    refine ⟨hbegun.state ▸ hs.isOpen, ?_, fun x hx => ?_, fun x hx => ?_⟩
    · exact increasing_concat hs.increasing fun x hx => hbelow x (List.mem_append_left _ hx)
    · rw [hbegun.nextWrite]
      rcases mem_writes_start.mp hx with hx | rfl
      · exact Nat.lt_succ_of_lt (hs.below x hx)
      · rw [hbegun.number]
        exact Nat.lt_succ_self _
    · rcases List.mem_append.mp hx with hx | hx
      · exact hs.equal x hx
      · rw [List.mem_singleton.mp hx]
        exact hbegun.equal
  · rw [heq]
    have htable : Alters [.rows, .writes] s.table t := by
      rcases hcases with ⟨-, rfl⟩ | ⟨-, rfl⟩
      · exact hsame.mono (by simp)
      · exact (hsame.mono (by simp)).trans ((t₁.alters_rollback w).mono (by simp))
    have hnext : (s.finish w outcome t).table.nextWrite = s.table.nextWrite :=
      htable.nextWrite (by decide)
    refine ⟨mt htable.closed.mp hs.isOpen, hs.increasing.filter _, fun x hx => ?_, fun x hx => ?_⟩
    · rw [hnext]
      exact hs.below x ((mem_writes_finish hs hw).mp hx)
    · exact hs.equal x (List.mem_filter.mp hx).1

theorem sound_run {t : Table} (ht : t.state ≠ .closed) (steps : List WriteStep) :
    (run t steps).Sound := by
  induction steps using List.reverseRecOn with
  | nil => exact ⟨ht, List.Pairwise.nil, by simp [run, writes], by simp [run]⟩
  | append_singleton steps x ih =>
    rw [run_concat]
    exact ih.step x

end Writing

/-! ## Layers -/

/-- A row with writes laid over it, each over the row that it has found, and what is seen on top. -/
def Stacked (row : Option Record) : List LocalWrite → Option Record → Prop
  | [], shown => shown = row
  | w :: rest, shown => w.previous = row ∧ Stacked w.optimistic rest shown

theorem stacked_concat {row shown : Option Record} {layers : List LocalWrite} {w : LocalWrite} :
    Stacked row (layers ++ [w]) shown ↔ Stacked row layers w.previous ∧ shown = w.optimistic := by
  induction layers generalizing row with
  | nil => simp [Stacked]
  | cons w' layers ih => simp [Stacked, ih, and_assoc]

/-- The writes that lie over a row: those under way, and failed ones that were not on top when their
calls returned. There are none of these exactly if the last one always returned first. -/
structure Layered (rows : Rows) (key : String) (s : Writing) (layers : List LocalWrite) : Prop where
  shown : Stacked (rows.get? key) layers (s.table.rows.get? key)
  known : ∀ w ∈ layers, w ∈ s.writes ∧ w.key = key
  increasing : layers.Pairwise fun a b => a.number < b.number
  pending : (s.pendingAt key).Sublist layers
  orderly : layers = s.pendingAt key ↔ s.LastFirstAt key

namespace Layered

variable {rows : Rows} {key : String} {s s' : Writing} {layers : List LocalWrite} {w : LocalWrite}

/-- Nothing happens to the row and its writes. -/
theorem congr (h : Layered rows key s layers)
    (hrow : s'.table.rows.get? key = s.table.rows.get? key)
    (hwrites : ∀ w ∈ s.writes, w ∈ s'.writes) (hpending : s'.pendingAt key = s.pendingAt key)
    (hlast : s'.LastFirstAt key ↔ s.LastFirstAt key) : Layered rows key s' layers := by
  refine ⟨hrow ▸ h.shown, fun w hw => ⟨hwrites w (h.known w hw).1, (h.known w hw).2⟩, h.increasing,
    hpending ▸ h.pending, ?_⟩
  rw [hpending, hlast]
  exact h.orderly

/-- A write that is begun lies on top. -/
theorem start (h : Layered rows key s layers) (hs : s.Sound) {t : Table}
    (hbegun : Begun s.table w t) (hkey : w.key = key) :
    Layered rows key { s with table := t, pending := s.pending ++ [w] } (layers ++ [w]) := by
  subst hkey
  have hpending : ({ s with table := t, pending := s.pending ++ [w] } : Writing).pendingAt w.key =
      s.pendingAt w.key ++ [w] := by
    simp [Writing.pendingAt]
  refine ⟨stacked_concat.mpr ⟨hbegun.previous ▸ h.shown, hbegun.optimistic.symm⟩, ?_, ?_, ?_, ?_⟩
  · intro x hx
    rcases List.mem_append.mp hx with hx | hx
    · exact ⟨Writing.mem_writes_start.mpr (.inl (h.known x hx).1), (h.known x hx).2⟩
    · rw [List.mem_singleton.mp hx]
      exact ⟨Writing.mem_writes_start.mpr (.inr rfl), rfl⟩
  · refine Writing.increasing_concat h.increasing fun x hx => ?_
    rw [hbegun.number]
    exact hs.below x (h.known x hx).1
  · rw [hpending]
    exact h.pending.append_right [w]
  · rw [hpending, List.append_cancel_right_eq]
    exact h.orderly

/-- If the last write always returns first, the one that returns lies on top. -/
theorem eq_concat_of_lastFirst (h : Layered rows key s layers) (hw : w ∈ s.pendingAt key)
    (hlast : s.LastFirstAt key)
    (hnewest : ∀ x ∈ s.pendingAt key, x.number ≠ w.number → x.number < w.number) :
    ∃ init, layers = init ++ [w] := by
  have hlayers : layers = s.pendingAt key := h.orderly.mpr hlast
  have hmem : w ∈ layers := hlayers ▸ hw
  obtain ⟨init, top, rfl⟩ := (List.eq_nil_or_concat' layers).resolve_left
    (List.ne_nil_of_mem hmem)
  refine ⟨init, ?_⟩
  by_cases hnumber : top.number = w.number
  · rw [Writing.eq_of_number_eq h.increasing (by simp) hmem hnumber]
  · -- The top layer would be older than one below it.
    have htop : top.number < w.number := hnewest top (hlayers ▸ by simp) hnumber
    rcases List.mem_append.mp hmem with hinit | hsingle
    · have := (List.pairwise_append.mp h.increasing).2.2 w hinit top (by simp)
      omega
    · rw [List.mem_singleton.mp hsingle] at hnumber
      exact absurd rfl hnumber

theorem lastFirstAt_finish {outcome : Except TableError Unit} {t : Table} (hkey : w.key = key) :
    (s.finish w outcome t).LastFirstAt key ↔ s.LastFirstAt key ∧
      ∀ x ∈ s.pendingAt key, x.number ≠ w.number → x.number < w.number := by
  simp only [Writing.LastFirstAt, Writing.finish, List.forall_mem_cons, List.mem_filter, bne_iff_ne,
    ne_eq, Writing.pendingAt, beq_iff_eq, hkey, true_implies, and_imp]
  constructor
  · rintro ⟨hnow, hbefore⟩
    exact ⟨hbefore, fun x hx hxkey hnumber => hnow x hx hnumber hxkey⟩
  · rintro ⟨hbefore, hnow⟩
    exact ⟨fun x hx hnumber hxkey => hnow x hx hxkey hnumber, hbefore⟩

theorem pendingAt_finish (outcome : Except TableError Unit) (t : Table) :
    (s.finish w outcome t).pendingAt key = (s.pendingAt key).filter (·.number != w.number) := by
  simp only [Writing.pendingAt, Writing.finish, List.filter_filter, Bool.and_comm]

/-- The top layer is taken off when its call returns a failure. -/
theorem finish_top {init : List LocalWrite} (h : Layered rows key s (init ++ [w])) (hs : s.Sound)
    (hw : w ∈ s.pending) {outcome : Except TableError Unit} {t : Table}
    (hrow : t.rows.get? key = w.previous) : Layered rows key (s.finish w outcome t) init := by
  have hkey : w.key = key := (h.known w (by simp)).2
  obtain ⟨hinit, -, hbelow⟩ := List.pairwise_append.mp h.increasing
  have hbelow : ∀ x ∈ init, x.number < w.number := fun x hx => hbelow x hx w (by simp)
  have hw' : w ∈ s.pendingAt key := List.mem_filter.mpr ⟨hw, by simpa using hkey⟩
  have hfilter : (init ++ [w]).filter (·.number != w.number) = init := by
    have hkeep : init.filter (·.number != w.number) = init :=
      List.filter_eq_self.mpr fun x hx => by simpa using Nat.ne_of_lt (hbelow x hx)
    simp [List.filter_append, hkeep]
  have hsublist : ((s.pendingAt key).filter (·.number != w.number)).Sublist init := by
    rw [← hfilter]
    exact h.pending.filter _
  refine ⟨hrow ▸ (stacked_concat.mp h.shown).1, ?_, hinit, ?_, ?_⟩
  · intro x hx
    obtain ⟨hx, hxkey⟩ := h.known x (List.mem_append_left _ hx)
    exact ⟨(Writing.mem_writes_finish hs hw).mpr hx, hxkey⟩
  · rw [pendingAt_finish]
    exact hsublist
  · rw [pendingAt_finish, lastFirstAt_finish hkey, ← h.orderly]
    constructor
    · -- All layers below are under way, so all layers were.
      intro hinit
      refine ⟨(h.pending.eq_of_length_le ?_).symm, fun x hx hnumber => hbelow x ?_⟩
      · have hlt : ((s.pendingAt key).filter (·.number != w.number)).length <
            (s.pendingAt key).length :=
          List.length_filter_lt_length_iff_exists.mpr ⟨w, hw', by simp⟩
        rw [List.length_append, List.length_singleton, hinit]
        omega
      · rw [hinit]
        exact List.mem_filter.mpr ⟨hx, by simpa using hnumber⟩
    · rintro ⟨hlayers, -⟩
      rw [← hlayers, hfilter]

/-- A layer below the top stays when its call returns, and the last write has not returned first. -/
theorem finish_below (h : Layered rows key s layers) (hs : s.Sound) (hw : w ∈ s.pending)
    (hkey : w.key = key) (hnot : ∀ init, layers ≠ init ++ [w]) {outcome : Except TableError Unit}
    {t : Table} (hrow : t.rows.get? key = s.table.rows.get? key) :
    Layered rows key (s.finish w outcome t) layers := by
  have hw' : w ∈ s.pendingAt key := List.mem_filter.mpr ⟨hw, by simpa using hkey⟩
  refine ⟨hrow ▸ h.shown, fun x hx => ?_, h.increasing, ?_, ?_⟩
  · obtain ⟨hx, hxkey⟩ := h.known x hx
    exact ⟨(Writing.mem_writes_finish hs hw).mpr hx, hxkey⟩
  · rw [pendingAt_finish]
    exact List.filter_sublist.trans h.pending
  · rw [pendingAt_finish, lastFirstAt_finish hkey]
    constructor
    · intro hlayers
      have hmem : w ∈ (s.pendingAt key).filter (·.number != w.number) :=
        hlayers ▸ h.pending.subset hw'
      simp at hmem
    · rintro ⟨hlast, hnewest⟩
      obtain ⟨init, hinit⟩ := h.eq_concat_of_lastFirst hw' hlast hnewest
      exact absurd hinit (hnot init)

/-- The write that has made the row that is seen lies on top, if the last one always returns first
or if all rows differ. -/
theorem eq_concat_of_sameRow (h : Layered rows key s layers) (hs : s.Sound) (hw : w ∈ s.pending)
    (hkey : w.key = key) {outcome : Except TableError Unit} {t : Table}
    (heither : (s.finish w outcome t).LastFirstAt key ∨ (s.finish w outcome t).Apart rows)
    (hshown : sameRow (s.table.rows.get? key) w.optimistic = true) :
    ∃ init, layers = init ++ [w] := by
  have hw' : w ∈ s.pendingAt key := List.mem_filter.mpr ⟨hw, by simpa using hkey⟩
  rcases heither with hlast | hapart
  · obtain ⟨hlast, hnewest⟩ := (lastFirstAt_finish hkey).mp hlast
    exact h.eq_concat_of_lastFirst hw' hlast hnewest
  · have hmem : w ∈ layers := h.pending.subset hw'
    obtain ⟨init, top, rfl⟩ := (List.eq_nil_or_concat' layers).resolve_left
      (List.ne_nil_of_mem hmem)
    refine ⟨init, ?_⟩
    obtain ⟨htop, htopKey⟩ := h.known top (by simp)
    rw [(stacked_concat.mp h.shown).2] at hshown
    by_cases hnumber : top.number = w.number
    · rw [Writing.eq_of_number_eq h.increasing (by simp) hmem hnumber]
    · have hdiffers := (hapart w ((Writing.mem_writes_finish hs hw).mpr
        (List.mem_append_left _ hw))).2 top ((Writing.mem_writes_finish hs hw).mpr htop)
        (htopKey.trans hkey.symm) hnumber
      rw [hshown] at hdiffers
      cases hdiffers

/-- A call that returns a failure leaves the row layered. -/
theorem finish (h : Layered rows key s layers) (hs : s.Sound) (hw : w ∈ s.pending)
    (hkey : w.key = key) {outcome : Except TableError Unit} {t₁ : Table}
    (hsame : Alters [.writes] s.table t₁)
    (heither : (s.finish w outcome (t₁.rollback w).1).LastFirstAt key ∨
      (s.finish w outcome (t₁.rollback w).1).Apart rows) :
    ∃ layers', Layered rows key (s.finish w outcome (t₁.rollback w).1) layers' := by
  have htop := h.eq_concat_of_sameRow hs hw hkey heither
  have hrollback : (t₁.rollback w).1.rows.get? key =
      if sameRow (s.table.rows.get? key) w.optimistic = true then w.previous
      else s.table.rows.get? key := by
    subst hkey
    rw [← hsame.rows (by decide)] at htop ⊢
    refine get?_rollback (mt hsame.closed.mp hs.isOpen) (hs.equal w hw) fun hshown => ?_
    obtain ⟨init, rfl⟩ := htop hshown
    rw [hsame.rows (by decide)]
    exact (stacked_concat.mp h.shown).2
  by_cases hinit : ∃ init, layers = init ++ [w]
  · obtain ⟨init, rfl⟩ := hinit
    have hrow : s.table.rows.get? key = w.optimistic := (stacked_concat.mp h.shown).2
    rw [hrow, sameRow_refl, if_pos rfl] at hrollback
    exact ⟨init, h.finish_top hs hw hrollback⟩
  · rw [if_neg (mt htop hinit)] at hrollback
    exact ⟨layers, h.finish_below hs hw hkey (fun init hlayers => hinit ⟨init, hlayers⟩) hrollback⟩

/-- A call for another row leaves the row as it is. -/
theorem finish_of_ne (h : Layered rows key s layers) (hs : s.Sound) (hw : w ∈ s.pending)
    (hkey : w.key ≠ key) {outcome : Except TableError Unit} {t₁ : Table}
    (hsame : Alters [.writes] s.table t₁) :
    Layered rows key (s.finish w outcome (t₁.rollback w).1) layers := by
  refine h.congr ?_ (fun x hx => (Writing.mem_writes_finish hs hw).mpr hx) ?_ ?_
  · rw [← hsame.rows (by decide)]
    exact get?_rollback_of_ne t₁ (Ne.symm hkey)
  · rw [pendingAt_finish, List.filter_eq_self]
    intro x hx
    obtain ⟨hx, hxkey⟩ := List.mem_filter.mp hx
    simp only [bne_iff_ne, ne_eq]
    intro hnumber
    rw [Writing.eq_of_number_eq hs.increasing hx hw hnumber] at hxkey
    exact hkey (by simpa using hxkey)
  · simp [Writing.LastFirstAt, Writing.finish, hkey]

theorem step (h : Layered rows key s layers) (hs : s.Sound) (x : WriteStep)
    (hfail : ∀ r ∈ (s.step x).returned, r.outcome.isOk = false)
    (heither : (s.step x).LastFirstAt key ∨ (s.step x).Apart rows) :
    ∃ layers', Layered rows key (s.step x) layers' := by
  rcases s.step_cases x with ⟨t, hsame, heq⟩ | ⟨w, t, hbegun, heq⟩ |
    ⟨w, outcome, t₁, t, hw, hsame, hcases, heq⟩
  · rw [heq]
    exact ⟨layers, h.congr (by rw [hsame.rows (by decide)]) (fun _ => id) rfl Iff.rfl⟩
  · rw [heq]
    by_cases hkey : w.key = key
    · exact ⟨layers ++ [w], h.start hs hbegun hkey⟩
    · refine ⟨layers, h.congr (hbegun.others key (Ne.symm hkey))
        (fun x hx => Writing.mem_writes_start.mpr (.inl hx)) ?_ Iff.rfl⟩
      simp [Writing.pendingAt, hkey]
  · rw [heq] at hfail heither ⊢
    have hfailed : outcome.isOk = false := hfail _ List.mem_cons_self
    rcases hcases with ⟨rfl, -⟩ | ⟨-, rfl⟩
    · cases hfailed
    · by_cases hkey : w.key = key
      · exact h.finish hs hw hkey hsame heither
      · exact ⟨layers, h.finish_of_ne hs hw hkey hsame⟩

end Layered

namespace Writing

theorem returned_step {s : Writing} {r : ReturnedWrite} (hr : r ∈ s.returned) (x : WriteStep) :
    r ∈ (s.step x).returned := by
  rcases s.step_cases x with ⟨t, -, heq⟩ | ⟨w, t, -, heq⟩ | ⟨w, outcome, t₁, t, -, -, -, heq⟩
  · rw [heq]
    exact hr
  · rw [heq]
    exact hr
  · rw [heq]
    exact List.mem_cons_of_mem _ hr

theorem writes_step {s : Writing} (hs : s.Sound) {w : LocalWrite} (hw : w ∈ s.writes)
    (x : WriteStep) : w ∈ (s.step x).writes := by
  rcases s.step_cases x with ⟨t, -, heq⟩ | ⟨w', t, -, heq⟩ | ⟨w', outcome, t₁, t, hw', -, -, heq⟩
  · rw [heq]
    exact hw
  · rw [heq]
    exact mem_writes_start.mpr (.inl hw)
  · rw [heq]
    exact (mem_writes_finish hs hw').mpr hw

/-- While all writes fail, every row is layered, if the last one always returns first or if all rows
differ. -/
theorem layered_run {t : Table} (ht : t.state ≠ .closed) {steps : List WriteStep}
    (hfail : ∀ r ∈ (run t steps).returned, r.outcome.isOk = false) (key : String)
    (heither : (run t steps).LastFirstAt key ∨ (run t steps).Apart t.rows) :
    ∃ layers, Layered t.rows key (run t steps) layers := by
  induction steps using List.reverseRecOn with
  | nil =>
    refine ⟨[], rfl, by simp, List.Pairwise.nil, List.Sublist.refl _, ?_⟩
    simp [run, pendingAt, LastFirstAt]
  | append_singleton steps x ih =>
    rw [run_concat] at hfail heither ⊢
    have hs : (run t steps).Sound := sound_run ht steps
    -- What holds of all calls and writes has held of those before.
    have heither' : (run t steps).LastFirstAt key ∨ (run t steps).Apart t.rows := by
      refine heither.imp (fun hlast r hr => hlast r (returned_step hr x)) fun hapart w hw => ?_
      obtain ⟨hfirst, hothers⟩ := hapart w (writes_step hs hw x)
      exact ⟨hfirst, fun w' hw' => hothers w' (writes_step hs hw' x)⟩
    obtain ⟨layers, hlayered⟩ := ih (fun r hr => hfail r (returned_step hr x)) heither'
    exact hlayered.step hs x hfail heither

/-- When all calls have returned, a row is as before if the last write to it always returned first
and, if all rows differ, only then. -/
theorem row_restored {t : Table} (ht : t.state ≠ .closed) {steps : List WriteStep}
    (hfail : ∀ r ∈ (run t steps).returned, r.outcome.isOk = false)
    (hdone : (run t steps).pending = []) (key : String) :
    ((run t steps).LastFirstAt key → (run t steps).table.rows.get? key = t.rows.get? key) ∧
      ((run t steps).Apart t.rows →
        sameRow ((run t steps).table.rows.get? key) (t.rows.get? key) = true →
        (run t steps).LastFirstAt key) := by
  have hnone : (run t steps).pendingAt key = [] := by rw [pendingAt, hdone, List.filter_nil]
  constructor
  · intro hlast
    obtain ⟨layers, h⟩ := layered_run ht hfail key (.inl hlast)
    have hshown := h.shown
    rw [h.orderly.mpr hlast, hnone] at hshown
    exact hshown
  · intro hapart hsame
    obtain ⟨layers, h⟩ := layered_run ht hfail key (.inr hapart)
    rw [← h.orderly, hnone]
    rcases List.eq_nil_or_concat' layers with hnil | ⟨init, top, rfl⟩
    · exact hnil
    · -- The row on top differs from the one before.
      obtain ⟨htop, hkey⟩ := h.known top (by simp)
      rw [(stacked_concat.mp h.shown).2, ← hkey, (hapart top htop).1] at hsame
      cases hsame

/-- **Failed writes leave no trace if of the writes to each row the last one fails first**, and if
the rows that they make differ from those before and from one another, then only so. The writes may
be started, answered, lost and given up in any order; all calls have returned failures, and nothing
else has changed the table. -/
theorem rows_restored_iff_lastFirst {t : Table} (ht : t.state = .connected)
    (steps : List WriteStep) (hfail : ∀ r ∈ (run t steps).returned, r.outcome.isOk = false)
    (hdone : (run t steps).pending = []) :
    ((run t steps).LastFirst → (run t steps).table.rows = t.rows) ∧
      ((run t steps).Apart t.rows →
        ((∀ key, sameRow ((run t steps).table.rows.get? key) (t.rows.get? key) = true) ↔
          (run t steps).LastFirst)) := by
  have hopen : t.state ≠ .closed := by
    rw [ht]
    decide
  have hrow := row_restored hopen hfail hdone
  constructor
  · intro hlast
    exact SortedMap.ext_get? fun key => (hrow key).1 (hlast key)
  · intro hapart
    constructor
    · exact fun hsame key => (hrow key).2 hapart (hsame key)
    · intro hlast key
      rw [(hrow key).1 (hlast key), sameRow_refl]

def sampleTable : Table :=
  { Table.new ⟨"t", ["id"]⟩ (.all "t") .brisk with
    state := .connected
    rows := SortedMap.empty.insert "[1]" (.ofList [("id", .ofNat 1), ("v", .ofNat 0)]) }

/-- Two writes to the row are under way, and the first one is rejected before the second. -/
def crossedSteps : List WriteStep :=
  [.start (.ofList [("id", .ofNat 1), ("v", .ofNat 1)]),
    .start (.ofList [("id", .ofNat 1), ("v", .ofNat 2)]),
    .answer 0 (some (.error (.server "boom"))), .resume 0 none,
    .answer 1 (some (.error (.server "boom"))), .resume 1 none]

/-- The row of the first write, which has failed, stays. -/
theorem rows_not_restored_crossed :
    (∀ r ∈ (run sampleTable crossedSteps).returned, r.outcome.isOk = false) ∧
      (run sampleTable crossedSteps).pending = [] ∧
      (run sampleTable crossedSteps).Apart sampleTable.rows ∧
      ¬ (run sampleTable crossedSteps).LastFirst ∧
      ¬ ∀ key, sameRow ((run sampleTable crossedSteps).table.rows.get? key)
        (sampleTable.rows.get? key) = true := by
  have hfail : ∀ r ∈ (run sampleTable crossedSteps).returned, r.outcome.isOk = false := by
    decide +kernel
  have hlength : (run sampleTable crossedSteps).pending.length = 0 := by decide +kernel
  have hdone : (run sampleTable crossedSteps).pending = [] := List.length_eq_zero_iff.mp hlength
  have hapart : (run sampleTable crossedSteps).Apart sampleTable.rows := by decide +kernel
  have hcrossed : ¬ (run sampleTable crossedSteps).LastFirst := by
    intro hlast
    have hat := hlast "[1]"
    unfold LastFirstAt at hat
    revert hat
    decide +kernel
  obtain ⟨-, hiff⟩ := rows_restored_iff_lastFirst (t := sampleTable) rfl crossedSteps hfail hdone
  refine ⟨hfail, hdone, hapart, hcrossed, ?_⟩
  rw [hiff hapart]
  exact hcrossed

end Writing

end Table

end LiveDocs
